import XmlPipeline.Engine.Basic
import XmlPipeline.Engine.Plan

/-!
This module contains the execution of pipelines. Each step reads what the step before it has made, and
writes to where the step after it wants it.
-/

namespace XmlPipeline

/--
What a successful execution has done. `serializer` is the kind of serializer that it stopped at.
-/
structure Summary where
  stepsRun : Nat
  properties : OutputProperties
  serializer : Option SerializerKind
  deriving DecidableEq

namespace Summary

def contentType (summary : Summary) : String :=
  match summary.serializer with
  | some .json => "application/json"
  | some .zip => "application/zip"
  | some .fop => "application/pdf"
  | none =>
    match summary.properties.get? "media-type" with
    | some mediaType => mediaType
    | none => summary.properties.method.contentType

end Summary

namespace Transformation

variable {Program σ : Type} [ByteWriter σ]

def conduct (destination : Destination σ) (run : Run Program σ) :
    Transformation → Except Error Unit × Destination σ × Run Program σ
  | .finish => (.ok (), destination, run)
  | .fail error => (.error error, destination, run)
  | .report notice next => next.conduct destination (run.hear notice)
  | .emit event next =>
    match destination.write event with
    | (result, destination) => (next result).conduct destination run

end Transformation

/--
How far an execution has come: the input of the next step, the reports that the next stylesheet will be
given, and the number of steps that were run.
-/
structure Progress where
  source : Source
  reports : ParameterSet := .empty
  stepsRun : Nat := 0
  deriving DecidableEq

namespace Progress

def unreadRecords (progress : Progress) : List LogRecord :=
  if progress.reports.isEmpty then
    []
  else
    [{ level := .warn
       message := "validation report was not consumed by any transform"
       fields := [("code", ErrorCode.validationReported.name),
         ("parameters", Text.quotedList (progress.reports.keys.map ParameterName.display))] }]

end Progress

namespace Step

def record (step : Step) : LogRecord where
  level := .debug
  message := "running pipeline step"
  fields := [("step", step.name), ("kind", step.kind)]

end Step

structure Setting (Program : Type) where
  engine : Engine Program
  files : FileReader
  inDevelopment : Bool
  properties : OutputProperties := .empty
  parameters : ParameterSet := .empty

namespace Engine

variable {Program σ : Type}

def compileRecord (path : Path) : LogRecord where
  level := .info
  message := "Compiling and caching stylesheet \"" ++ path.text ++ "\" ..."

def compile (engine : Engine Program) (inDevelopment : Bool) (path : Path) :
    RunM Program σ Program := do
  let templates := (← getThe (Run Program σ)).templates
  match if inDevelopment then none else templates.find? path with
  | some program => return program
  | none =>
    RunM.log [compileRecord path.normalize]
    RunM.note (.compiled path.normalize)
    let compilation := engine.processor.compile path.normalize
    compilation.notices.forM RunM.hear
    let program ← MonadExcept.ofExcept compilation.result
    if !inDevelopment then
      modify fun run => { run with templates := run.templates.store path program }
    return program

def compileStep (engine : Engine Program) (inDevelopment : Bool) (step : TransformStep) :
    RunM Program σ Program :=
  tryCatch (engine.compile inDevelopment (engine.config.templatePath step)) fun error =>
    throw (.transformationFailed step.name error)

def outputProperties (engine : Engine Program) (inDevelopment : Bool) (pipeline : Pipeline) :
    RunM Program σ OutputProperties :=
  match pipeline.lastTransform? with
  | none => return .empty
  | some step => return engine.processor.outputProperties (← engine.compileStep inDevelopment step)

end Engine

namespace Setting

variable {Program σ : Type} [ByteWriter σ]

def outlet (setting : Setting Program) (current : Step) (next : Option Step) :
    RunM Program σ Outlet := do
  if let some (.serialize kind step) := next then
    RunM.note (.serializing kind step setting.properties)
  RunM.log (Outlet.records setting.properties next)
  MonadExcept.ofExcept <|
    Outlet.resolve setting.engine.serializers setting.properties current next

def transform (setting : Setting Program) (step : TransformStep) (program : Program)
    (source : Source) (parameters : ParameterSet) (outlet : Outlet) :
    RunM Program σ (Option Xml.Document) := do
  RunM.note (.transformed program source parameters)
  let run ← getThe (Run Program σ)
  let (result, destination, run) :=
    (setting.engine.processor.transform program source parameters).conduct
      { target := outlet.connect run.out
        tee := Tee.ofStep? setting.inDevelopment (.transform step) } run
  set (run.redirect destination.target.out)
  MonadExcept.ofExcept (result.mapError (.transformationFailed step.name))
  let (result, destination) := destination.finish setting.files
  modify (·.redirect destination.target.out)
  MonadExcept.ofExcept result
  if let some tee := destination.tee then
    modify (·.present setting.engine.diagnostics tee.output)
  return destination.target.document?

def runTransform (setting : Setting Program) (step : TransformStep) (next : Option Step)
    (progress : Progress) : RunM Program σ Progress := do
  let parameters := ((ParameterSet.declare setting.parameters step.parameters).merge progress.reports)
  let program ← setting.engine.compileStep setting.inDevelopment step
  let outlet ← setting.outlet (.transform step) next
  let document? ← setting.transform step program progress.source parameters outlet
  return {
    source := (document?.map .document).getD progress.source
    stepsRun := progress.stepsRun + 1 }

def runValidator (setting : Setting Program) (step : ValidatorStep) (progress : Progress) :
    RunM Program σ Progress := do
  let source := Source.text progress.source.toText
  let label := ValidationReport.stepLabel step.name
  RunM.note (.validated step.schemaPaths source label)
  let validation ← MonadExcept.ofExcept <|
    (setting.engine.processor.validate step.schemaPaths source label).mapError
      (.validationFailed step.name)
  let progress := {
    progress with source := .text validation.output, stepsRun := progress.stepsRun + 1 }
  match validation.report, step.reportName with
  | none, _ => return progress
  | some report, some name =>
    return { progress with
      reports := progress.reports.insert (.ofUri step.reportUri name) (.document report.toDocument) }
  | some report, none =>
    RunM.log [report.record]
    return progress

/--
Run steps up to the first serializer. The last component of the result is its kind.
-/
def runSteps (setting : Setting Program) :
    List Step → Progress → RunM Program σ (Progress × Option SerializerKind)
  | [], progress => return (progress, none)
  | step :: rest, progress => do
    RunM.log [step.record]
    match step with
    | .serialize kind _ => return (progress, some kind)
    | .transform step =>
      let progress ← setting.runTransform step rest.head? progress
      setting.runSteps rest progress
    | .validate step =>
      let progress ← setting.runValidator step progress
      setting.runSteps rest progress
    | .respond step =>
      setting.runSteps rest {
        progress with source := .text step.body, stepsRun := progress.stepsRun + 1 }

def run (setting : Setting Program) (steps : List Step) (input : String) :
    RunM Program σ Summary := do
  let (progress, serializer) ← setting.runSteps steps { source := .text input }
  RunM.log progress.unreadRecords
  return { stepsRun := progress.stepsRun, properties := setting.properties, serializer }

end Setting

namespace Engine

variable {Program σ : Type} [ByteWriter σ]

/--
Run a pipeline for an input. In development mode no byte is written before the last step has succeeded.
-/
def execution (engine : Engine Program) (files : FileReader) (pipeline : Pipeline) (input : String)
    (parameters : ParameterSet) (inDevelopment : Bool) : RunM Program σ Summary := do
  if pipeline.steps.isEmpty then
    throw (.notFound none)
  let properties ← engine.outputProperties inDevelopment pipeline
  let setting : Setting Program := {
    engine, files, inDevelopment, properties
    parameters := ParameterSet.merge engine.config.baseParameters parameters }
  let steps := pipeline.plan engine.config
  if inDevelopment then
    RunM.buffered (setting.run steps input)
  else
    setting.run steps input

def startRun (engine : Engine Program) (inDevelopment : Bool) (out : σ) : Run Program σ where
  out
  templates := engine.templates
  listener := { inDevelopment }

def execute (engine : Engine Program) (files : FileReader) (pipeline : Pipeline) (input : String)
    (parameters : ParameterSet) (inDevelopment : Bool) (out : σ) :
    Except Error Summary × Run Program σ :=
  (engine.execution files pipeline input parameters inDevelopment).run.run
    (engine.startRun inDevelopment out)

def keeping (engine : Engine Program) (run : Run Program σ) : Engine Program :=
  { engine with templates := run.templates }

end Engine
end XmlPipeline
