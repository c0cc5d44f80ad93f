import XmlPipeline.FileReader
import XmlPipeline.Pipeline.Attribute
import XmlPipeline.Pipeline.Basic
import XmlPipeline.Xml.Document

/-!
This module contains the reading of pipeline definitions. A `Definition` is what has been understood of
a definition so far; it takes in one event after the other and never looks back at earlier ones. An
event that is refused leaves everything but the stack of namespace declarations as it was.
-/

namespace XmlPipeline

/--
A response that is being copied, up to the closing tag that brings the depth back to zero.
-/
structure Capture where
  events : List Xml.Event
  depth : Nat
  deriving DecidableEq, Repr

structure Definition where
  source : Option String := none
  steps : List Step := []
  cache : CacheDirective := {}
  /-- The character data since the last tag that matters. -/
  text : String := ""
  /-- The place of the open parameter among the parameters of the last step. -/
  parameter : Option Nat := none
  capture : Option Capture := none
  /-- The namespace declarations of the open elements, the innermost element first. -/
  scopes : List (List Xml.NamespaceBinding) := []
  deriving DecidableEq

namespace Definition

def isCapturing (definition : Definition) : Bool :=
  definition.capture.isSome

def shadow (bindings : List Xml.NamespaceBinding) (binding : Xml.NamespaceBinding) :
    List Xml.NamespaceBinding :=
  if bindings.any (·.pfx == binding.pfx) then
    bindings.map fun other => if other.pfx == binding.pfx then binding else other
  else
    bindings ++ [binding]

def inScope (definition : Definition) : List Xml.NamespaceBinding :=
  (definition.scopes.reverse.flatten.foldl shadow []).filter fun binding =>
    !binding.uri.isEmpty || binding.pfx.isNone

/--
The name of the next step. It is counted among all steps if it has no name of its own.
-/
def stepName (definition : Definition) (start : Xml.ElementStart) (kind : String) : String :=
  match start.attribute? "name" with
  | some name => name
  | none => kind ++ "-" ++ toString (definition.steps.length + 1)

def addStep (definition : Definition) (step : Step) : Definition :=
  { definition with steps := definition.steps ++ [step], parameter := none }

def directive (start : Xml.ElementStart) : Except Error CacheDirective := do
  if !Attribute.flag (start.attribute? "cache") then
    return {}
  let default : CacheDirective := {}
  let timeToLive ←
    Attribute.seconds (start.attribute? "cache-time-to-live") "cache-time-to-live" default.timeToLive
  let timeToIdle ←
    Attribute.seconds (start.attribute? "cache-time-to-idle") "cache-time-to-idle" default.timeToIdle
  return {
    enabled := true
    key := start.attribute? "cache-key"
    timeToLive
    timeToIdle
    scope := (start.attribute? "cache-scope").getD default.scope
    includeHeaders := Attribute.flag (start.attribute? "cache-headers") }

def openPipeline (definition : Definition) (start : Xml.ElementStart) : Except Error Definition := do
  return { definition with cache := ← directive start }

def openTransformer (definition : Definition) (start : Xml.ElementStart) :
    Except Error Definition := do
  let templatePath ← Attribute.require (start.attribute? "xsl-path") "transformer" "xsl-path"
  return definition.addStep <| .transform {
    name := definition.stepName start "transformer"
    templatePath
    logged := Attribute.flag (start.attribute? "log") }

def openParameter (definition : Definition) (start : Xml.ElementStart) : Except Error Definition :=
  match definition.steps.getLast? with
  | some (.transform step) => do
    let name ← Attribute.require (start.attribute? "name") "parameter" "name"
    let parameter : Parameter := {
      name
      uri := start.attribute? "uri"
      type := (start.attribute? "type").getD defaultParameterType }
    let step := { step with parameters := step.parameters ++ [parameter] }
    return { definition with
      steps := definition.steps.dropLast ++ [.transform step]
      parameter := some (step.parameters.length - 1) }
  | _ => .error (.unexpectedElement "parameter")

def openValue (definition : Definition) : Except Error Definition :=
  if definition.parameter.isNone then
    .error (.unexpectedElement "value")
  else
    .ok { definition with text := "" }

def serializerOptions (start : Xml.ElementStart) : List (String × String) :=
  (start.attributes.filter fun attr =>
    attr.name.uri.isNone && attr.name.localName != "name" && attr.name.localName != "log").map
      fun attr => (attr.name.localName, attr.value)

def openJsonSerializer (definition : Definition) (start : Xml.ElementStart) : Definition :=
  definition.addStep <| .serialize .json {
    name := definition.stepName start "json-serializer"
    logged := Attribute.flag (start.attribute? "log")
    options := .ofList (serializerOptions start) }

def openResponse (definition : Definition) (start : Xml.ElementStart) : Definition :=
  let root := { start with namespaces := definition.inScope }
  { definition with capture := some { events := [.opening root], depth := 1 } }

def openElement (definition : Definition) (start : Xml.ElementStart) : Except Error Definition :=
  if start.name.isIn pipelineNamespace then
    match start.name.localName with
    | "pipeline" => definition.openPipeline start
    | "transformer" => definition.openTransformer start
    | "parameter" => definition.openParameter start
    | "value" => definition.openValue
    | "json-serializer" => .ok (definition.openJsonSerializer start)
    | other => .error (.unsupportedElement other)
  else if start.name.is responseNamespace "response" then
    .ok (definition.openResponse start)
  else
    .ok definition

def addValue (definition : Definition) (value : String) : Definition :=
  match definition.parameter, definition.steps.getLast? with
  | some index, some (.transform step) =>
    let step := { step with parameters := step.parameters.modify index (·.addValue value) }
    { definition with steps := definition.steps.dropLast ++ [.transform step] }
  | _, _ => definition

def closeResponse (definition : Definition) (events : List Xml.Event) : Definition :=
  let body := ({ events } : Xml.Document).toXml false
  { definition.addStep (.respond { body }) with capture := none }

def closeElement (definition : Definition) (name : Xml.QName) : Definition :=
  match definition.capture with
  | some capture =>
    let events := capture.events ++ [.closing name]
    match capture.depth with
    | depth + 2 => { definition with capture := some { events, depth := depth + 1 } }
    | _ => definition.closeResponse events
  | none =>
    if name.isIn pipelineNamespace then
      match name.localName with
      | "value" => definition.addValue definition.text
      | "parameter" => { definition with parameter := none }
      | _ => definition
    else
      definition

def apply (definition : Definition) (event : Xml.Event) : Except Error Unit × Definition :=
  match event with
  | .opening start =>
    let definition := { definition with scopes := start.namespaces :: definition.scopes }
    match definition.capture with
    | some capture =>
      let capture := { events := capture.events ++ [event], depth := capture.depth + 1 }
      (.ok (), { definition with capture := some capture })
    | none =>
      match definition.openElement start with
      | .ok definition => (.ok (), definition)
      | .error error => (.error error, definition)
  | .text content =>
    let capture := definition.capture.map fun capture =>
      { capture with events := capture.events ++ [event] }
    (.ok (), { definition with text := definition.text ++ content, capture })
  | .closing name =>
    let closed := definition.closeElement name
    (.ok (), { closed with scopes := closed.scopes.tail, text := "" })

def handle (definition : Definition) (event : Xml.Event) : Except Error Unit × Definition :=
  match definition.apply event with
  | (.ok (), definition) => (.ok (), definition)
  | (.error error, after) => (.error (.invalidDefinition definition.source error), after)

def handleAll (definition : Definition) : List Xml.Event → Except Error Definition
  | [] => .ok definition
  | event :: events =>
    match definition.handle event with
    | (.ok (), definition) => definition.handleAll events
    | (.error error, _) => .error error

def finish (definition : Definition) : Except Error Pipeline :=
  if definition.isCapturing then
    .error <| .invalidDefinition definition.source
      (.malformed none none "response element is never closed")
  else
    .ok { steps := definition.steps, cache := definition.cache }

end Definition

namespace Pipeline

def ofEvents (events : List (Except Error Xml.Event)) : Except Error Pipeline :=
  go {} events
where
  go (definition : Definition) : List (Except Error Xml.Event) → Except Error Pipeline
    | [] => definition.finish
    | .error error :: _ => .error (.invalidDefinition none error)
    | .ok event :: events =>
      match definition.handle event with
      | (.ok (), definition) => go definition events
      | (.error error, _) => .error error

def read (source : Option String) (text : String) : Except Error Pipeline := do
  let (events, failure) := (Xml.Reader.ofText text).events
  let definition ← ({ source } : Definition).handleAll events
  match failure with
  | some failure => throw (.invalidDefinition source failure.toError)
  | none => definition.finish

def load (files : FileReader) (path : Path) : Except Error Pipeline := do
  let text ← files.loadText path "read pipeline definition"
  read (some path.text) text

end Pipeline
end XmlPipeline
