import XmlPipeline.Engine.Processor

/-!
This module contains a processor that follows a script instead of stylesheets and schemas, so that
pipelines can be tried out where there are none.
-/

namespace XmlPipeline
namespace Script

inductive Action where
  | emit (event : Xml.Event)
  | copy
  | parameters
  | report (notice : Notice)
  | fail (error : Error)

structure Template where
  notices : List Notice := []
  failure : Option Error := none
  properties : OutputProperties := .empty
  actions : Option (List Action) := none

structure Schema where
  failure : Option Error := none
  output : Option String := none
  trigger : Option String := none
  findings : List Finding := []

structure Program where
  path : Path
  template : Template

namespace Program

def stem (program : Program) : String :=
  program.path.fileStem?.getD ""

def element (name : String) : Xml.QName :=
  { localName := name }

def actions (program : Program) : List Action :=
  match program.template.actions with
  | some actions => actions
  | none =>
    if program.stem == "response" then
      [.copy]
    else
      [.emit (.opening { name := element program.stem }), .copy,
        .emit (.closing (element program.stem))]

end Program

def parameterEvents (name : ParameterName) (value : ParameterValue) : List Xml.Event :=
  let start : Xml.ElementStart := {
    name := Program.element "param"
    attributes := [Finding.plainAttribute "name" name.display] }
  let tree := (value.document?.map Xml.Document.events).getD []
  .opening start :: .text (",".intercalate value.values) :: tree ++ [.closing start.name]

def perform (source : Source) (parameters : ParameterSet) : List Action → Transformation
  | [] => .finish
  | .emit event :: actions => .emitAll [event] (perform source parameters actions)
  | .copy :: actions =>
    match source.toDocument with
    | .ok document => .emitAll document.events (perform source parameters actions)
    | .error error => .fail error
  | .parameters :: actions =>
    .emitAll (parameters.toList.flatMap fun (name, value) => parameterEvents name value)
      (perform source parameters actions)
  | .report notice :: actions => .report notice (perform source parameters actions)
  | .fail error :: _ => .fail error

def occursIn (part text : List Char) : Bool :=
  part.isPrefixOf text ||
    match text with
    | [] => false
    | _ :: rest => occursIn part rest

def applySchema (text label : String) (before : Validation) (schema : Schema) :
    Except Error Validation :=
  match schema.failure with
  | some error => .error error
  | none =>
    let isTriggered :=
      match schema.trigger with
      | some trigger => occursIn trigger.toList text.toList
      | none => false
    let report :=
      if isTriggered then
        some { label, findings := (before.report.map (·.findings)).getD [] ++ schema.findings }
      else
        before.report
    .ok { output := schema.output.getD before.output, report }

/--
The processor that knows these scripts. Stylesheets are found by the last part of their path, and one
without a script does nothing special.
-/
def processor (templates : SortedMap String Template) (schemas : SortedMap String Schema) :
    Processor Program where
  compile path :=
    let template := (path.fileName?.bind templates.get?).getD {}
    { notices := template.notices
      result :=
        match template.failure with
        | some error => .error error
        | none => .ok { path, template } }
  outputProperties program := program.template.properties
  transform program source parameters := perform source parameters program.actions
  validate paths source label :=
    let text := source.toText
    (paths.filterMap schemas.get?).foldlM (applySchema text label) { output := text }

end Script
end XmlPipeline
