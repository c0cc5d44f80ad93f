import XmlPipeline.Path

/-!
This module contains the grammar of the command line: groups of actions, and what each action takes.
-/

namespace XmlPipeline
namespace CommandLine

inductive Command where
  | inspect (definition : Path)
  | plan (definition : Path) (config : Option Path)
  | listErrors
  | explainError (code : String)
  deriving DecidableEq, Repr

structure Argument where
  label : String
  about : String
  mayBeEmpty : Bool := false

structure Flag where
  name : String
  label : String
  about : String

structure Action where
  name : String
  about : String
  argument : Option Argument := none
  flag : Option Flag := none
  build : (argument : String) → (flag : Option String) → Command

structure Group where
  name : String
  about : String
  actions : List Action

structure Program where
  name : String
  version : String
  about : String
  groups : List Group

def definitionArgument : Argument where
  label := "DEFINITION"
  about := "Path to the pipeline definition XML"

def pipelineGroup : Group where
  name := "pipeline"
  about := "Pipeline definition operations"
  actions := [
    { name := "inspect"
      about := "Parse a pipeline definition and print the resulting steps"
      argument := some definitionArgument
      build := fun definition _ => .inspect ⟨definition⟩ },
    { name := "plan"
      about := "Show the steps as they would execute, finishing transform included"
      argument := some definitionArgument
      flag := some {
        name := "config"
        label := "CONFIG"
        about := "Engine configuration JSON (defaults apply when omitted)" }
      build := fun definition config => .plan ⟨definition⟩ (config.map Path.mk) }]

def errorGroup : Group where
  name := "error"
  about := "Describe error codes"
  actions := [
    { name := "list"
      about := "List every error code with a one-line summary"
      build := fun _ _ => .listErrors },
    { name := "explain"
      about := "Explain one error code: details schema and hints"
      argument := some {
        label := "CODE"
        about := "Error code, e.g. pipeline.missing_attribute"
        mayBeEmpty := true }
      build := fun code _ => .explainError code }]

def program : Program where
  name := "xslpipe"
  version := "0.4.2"
  about := "Parse and plan XML transformation pipelines"
  groups := [pipelineGroup, errorGroup]

end CommandLine
end XmlPipeline
