import XmlPipeline.CommandLine.Invocation
import XmlPipeline.Engine.ConfigFile
import XmlPipeline.Engine.Plan
import XmlPipeline.Error.Help
import XmlPipeline.Json.Printer
import XmlPipeline.Pipeline.Definition

/-!
This module contains the commands of the program: what each one answers, and the form in which the answer is
printed.
-/

namespace XmlPipeline

namespace ErrorCode

def exitCode : ErrorCode → Nat
  | invalidDefinition | missingAttribute | unexpectedElement | unsupportedElement | malformed
  | xmlSyntax | invalidJson | invalidValue | invalidArgument => 2
  | notFound => 4
  | transformationFailed | validationReported | validationFailed | unresolvableDestination
  | serializerUnavailable => 20
  | ioError | jsonError | unexpected => 1

end ErrorCode

namespace CommandLine

structure Outcome where
  exitCode : Nat
  stdout : String
  deriving DecidableEq, Repr

namespace Command

def hintsMember (hints : List String) : List (String × Json) :=
  if hints.isEmpty then []
  else [("hints", .arr (hints.map fun hint => .obj [("message", .str hint)]))]

def envelope : Except Error Json → Json
  | .ok data => .obj [("success", .bool true), ("data", data)]
  | .error error =>
    .obj [("success", .bool false), ("error", .obj <|
      [("code", .str error.code.name), ("message", .str error.message), ("details", error.details)]
        ++ hintsMember error.hints)]

def plannedStep (config : Config) (step : Step) (index : Nat) : Json :=
  Json.object <| [("position", .nat (index + 1)), ("name", .str step.name), ("kind", .str step.kind)]
    ++ Json.member? "template" (step.transform?.map fun step => .str (config.templatePath step).text)

def inspection (definition : Path) (pipeline : Pipeline) : Json :=
  Json.object [("definition", .str definition.text), ("stepCount", .nat pipeline.steps.length),
    ("pipeline", pipeline.toJson)]

def planning (definition : Path) (config : Config) (pipeline : Pipeline) : Json :=
  Json.object [("definition", .str definition.text), ("developmentMode", .bool config.inDevelopment),
    ("cache", pipeline.cache.toJson),
    ("steps", .arr ((pipeline.plan config).mapIdx fun index step => plannedStep config step index))]

def unknownCode (code : String) : Error :=
  .withHint "Run \x60xslpipe error list\x60 to see every code" <|
    .invalidArgument "code" ("Unknown error code '" ++ code ++ "'") (some code)
      (some (ErrorCode.all.map ErrorCode.name))

def answer (home : String) (files : FileReader) : Command → Except Error Json
  | inspect definition => do
    return inspection definition (← Pipeline.load files definition)
  | plan definition config => do
    let config ← match config with
      | some path => Config.load home files path
      | none => pure {}
    return planning definition config (← Pipeline.load files definition)
  | listErrors => return ErrorHelp.list
  | explainError code =>
    match ErrorCode.ofName? code with
    | some code => return (ErrorHelp.explain code).toJson
    | none => throw (unknownCode code)

def paths (home : String) : Command → List Path
  | inspect definition => [definition]
  | plan definition config => (config.map (·.expandHome home)).toList ++ [definition]
  | _ => []

def run (home : String) (files : FileReader) (command : Command) : Outcome :=
  let result := command.answer home files
  { exitCode :=
      match result with
      | .ok _ => 0
      | .error error => error.code.exitCode
    stdout := (envelope result).pretty ++ "\n" }

end Command

def run (home : String) (files : FileReader) (words : List String) : Outcome :=
  match program.read words with
  | .command command => command.run home files
  | .print text => { exitCode := 0, stdout := text }
  | .misuse => { exitCode := 2, stdout := "" }

end CommandLine
end XmlPipeline
