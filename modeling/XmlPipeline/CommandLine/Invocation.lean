import XmlPipeline.CommandLine.HelpText

/-!
This module contains the reading of the words on a command line.
-/

namespace XmlPipeline
namespace CommandLine

inductive Invocation where
  | command (command : Command)
  | print (text : String)
  | misuse
  deriving DecidableEq, Repr

inductive Word where
  | separator
  | long (name : String) (value : Option String)
  | short (letters : List Char)
  | value (text : String)

namespace Word

def ofText (text : String) : Word :=
  match text.toList with
  | ['-', '-'] => .separator
  | '-' :: '-' :: name =>
    match name.span (· ≠ '=') with
    | (name, _ :: text) => .long (String.ofList name) (String.ofList text)
    | (name, []) => .long (String.ofList name) none
  | '-' :: c :: letters => .short (c :: letters)
  | _ => .value text

def asksForHelp : Word → Bool
  | long "help" none => true
  | short ('h' :: _) => true
  | _ => false

def asksForVersion : Word → Bool
  | long "version" none => true
  | short ('V' :: _) => true
  | _ => false

end Word

namespace Action

structure Values where
  argument : Option String := none
  flag : Option String := none

def takeArgument? (action : Action) (values : Values) (text : String) : Option Values :=
  match action.argument with
  | none => none
  | some argument =>
    if values.argument.isSome || (text.isEmpty && !argument.mayBeEmpty) then none
    else some { values with argument := some text }

def takeFlag? (values : Values) (text : String) : Option Values :=
  if values.flag.isSome || text.isEmpty then none else some { values with flag := some text }

def finish (action : Action) (values : Values) : Invocation :=
  match action.argument, values.argument with
  | none, _ => .command (action.build "" values.flag)
  | some _, some argument => .command (action.build argument values.flag)
  | some _, none => .misuse

def readValues (action : Action) (values : Values) : List String → Invocation
  | [] => action.finish values
  | text :: rest =>
    match action.takeArgument? values text with
    | some values => action.readValues values rest
    | none => .misuse

def read (action : Action) (command : String) (values : Values) : List String → Invocation
  | [] => action.finish values
  | text :: rest =>
    let word := Word.ofText text
    if word.asksForHelp then
      .print (action.helpText command)
    else
      match word with
      | .separator => action.readValues values rest
      | .short _ => .misuse
      | .value text =>
        match action.takeArgument? values text with
        | some values => action.read command values rest
        | none => .misuse
      | .long name (some value) =>
        match (action.flag.filter (·.name == name)).bind fun _ => takeFlag? values value with
        | some values => action.read command values rest
        | none => .misuse
      | .long name none =>
        match rest with
        | [] => .misuse
        | value :: rest =>
          match Word.ofText value with
          | .value value =>
            match (action.flag.filter (·.name == name)).bind fun _ => takeFlag? values value with
            | some values => action.read command values rest
            | none => .misuse
          | _ => .misuse

end Action

namespace Group

def help (group : Group) (command : String) : List String → Invocation
  | [] => .print (group.helpText command)
  | [name] =>
    if name == helpCommand.1 then
      .print (helpOnHelp command)
    else
      match group.actions.find? (·.name == name) with
      | some action => .print (action.helpText (command ++ " " ++ name))
      | none => .misuse
  | _ => .misuse

def read (group : Group) (command : String) : List String → Invocation
  | [] => .misuse
  | text :: rest =>
    if (Word.ofText text).asksForHelp then
      .print (group.helpText command)
    else if text == helpCommand.1 then
      group.help command rest
    else
      match group.actions.find? (·.name == text) with
      | some action => action.read (command ++ " " ++ text) {} rest
      | none => .misuse

end Group

namespace Program

def help (program : Program) : List String → Invocation
  | [] => .print program.helpText
  | name :: rest =>
    if name == helpCommand.1 then
      if rest.isEmpty then .print (helpOnHelp program.name) else .misuse
    else
      match program.groups.find? (·.name == name) with
      | some group => group.help (program.name ++ " " ++ name) rest
      | none => .misuse

def read (program : Program) : List String → Invocation
  | [] => .misuse
  | text :: rest =>
    let word := Word.ofText text
    if word.asksForHelp then
      .print program.helpText
    else if word.asksForVersion then
      .print program.versionText
    else if text == helpCommand.1 then
      program.help rest
    else
      match program.groups.find? (·.name == text) with
      | some group => group.read (program.name ++ " " ++ text) rest
      | none => .misuse

end Program
end CommandLine
end XmlPipeline
