import XmlPipeline.CommandLine.Grammar

/-!
This module contains the help texts of the program, of its groups and of its actions.
-/

namespace XmlPipeline
namespace CommandLine

def listing (heading : String) (entries : List (String × String)) : List String :=
  let width := (entries.map (·.1.length)).foldl max 0
  let line (entry : String × String) : String :=
    "  " ++ entry.1 ++ String.ofList (List.replicate (width - entry.1.length) ' ') ++ "  " ++ entry.2
  if entries.isEmpty then [] else ["\n".intercalate ((heading ++ ":") :: entries.map line)]

def helpText (about usage : String) (sections : List (List String)) : String :=
  "\n\n".intercalate (about :: ("Usage: " ++ usage) :: sections.flatten) ++ "\n"

def helpOption : String × String :=
  ("-h, --help", "Print help")

def helpCommand : String × String :=
  ("help", "Print this message or the help of the given subcommand(s)")

namespace Action

def usage (action : Action) : String :=
  (if action.flag.isSome then " [OPTIONS]" else "")
    ++ (action.argument.map fun argument => " <" ++ argument.label ++ ">").getD ""

def helpText (action : Action) (command : String) : String :=
  CommandLine.helpText action.about (command ++ action.usage) [
    listing "Arguments" (action.argument.map fun argument =>
      ("<" ++ argument.label ++ ">", argument.about)).toList,
    listing "Options" <| (action.flag.map fun flag =>
      ("    --" ++ flag.name ++ " <" ++ flag.label ++ ">", flag.about)).toList ++ [helpOption]]

end Action

namespace Group

def helpText (group : Group) (command : String) : String :=
  CommandLine.helpText group.about (command ++ " <COMMAND>") [
    listing "Commands" (group.actions.map (fun action => (action.name, action.about))
      ++ [helpCommand]),
    listing "Options" [helpOption]]

end Group

def helpOnHelp (command : String) : String :=
  helpText helpCommand.2 (command ++ " help [COMMAND]...") [
    listing "Arguments" [("[COMMAND]...", "Print help for the subcommand(s)")]]

namespace Program

def helpText (program : Program) : String :=
  CommandLine.helpText program.about (program.name ++ " <COMMAND>") [
    listing "Commands" (program.groups.map (fun group => (group.name, group.about))
      ++ [helpCommand]),
    listing "Options" [helpOption, ("-V, --version", "Print version")]]

def versionText (program : Program) : String :=
  program.name ++ " " ++ program.version ++ "\n"

end Program
end CommandLine
end XmlPipeline
