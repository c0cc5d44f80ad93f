import XmlPipeline.Pipeline.Definition
import XmlPipeline.Proofs.Xml.Content

/-!
This module contains the vocabulary of pipeline definitions as a grammar on trees, and the steps that the
elements of a definition denote.
-/

namespace XmlPipeline

open Xml

namespace Vocabulary

def isNamed (localName : String) (start : ElementStart) : Bool :=
  start.name.is pipelineNamespace localName

def isResponse (start : ElementStart) : Bool :=
  start.name.is responseNamespace "response"

def isForeign (start : ElementStart) : Bool :=
  !start.name.isIn pipelineNamespace && !isResponse start

def isStep (start : ElementStart) : Bool :=
  isNamed "transformer" start || isNamed "json-serializer" start || isResponse start

/-! ### The grammar -/

def Foreign : Content → Prop
  | .empty => True
  | .text _ rest => Foreign rest
  | .element start inner rest => isForeign start ∧ Foreign inner ∧ Foreign rest

def Characters : Content → Prop
  | .empty => True
  | .text _ rest => Characters rest
  | .element .. => False

/--
The elements of the content are of the known ones, or else mean nothing. There may be any text between
them.
-/
def Among (known : ElementStart → Content → Prop) : Content → Prop
  | .empty => True
  | .text _ rest => Among known rest
  | .element start inner rest =>
    (known start inner ∨ isForeign start ∧ Foreign inner) ∧ Among known rest

def Filled (start : ElementStart) (attr : String) : Prop :=
  ∃ value, start.attribute? attr = some value ∧ ¬ Text.isBlankText value

def Timed (start : ElementStart) (attr : String) : Prop :=
  ∀ value, start.attribute? attr = some value →
    ∃ n, Text.readUnsigned 10 Text.maxUnsigned32 (Text.trimChars value.toList) = .ok n

def IsValue (start : ElementStart) (inner : Content) : Prop :=
  isNamed "value" start ∧ Characters inner

def IsParameter (start : ElementStart) (inner : Content) : Prop :=
  isNamed "parameter" start ∧ Filled start "name" ∧ Among IsValue inner

def IsTransformer (start : ElementStart) (inner : Content) : Prop :=
  isNamed "transformer" start ∧ Filled start "xsl-path" ∧ Among IsParameter inner

def IsSerializer (start : ElementStart) (inner : Content) : Prop :=
  isNamed "json-serializer" start ∧ Foreign inner

def IsStep (start : ElementStart) (inner : Content) : Prop :=
  IsTransformer start inner ∨ IsSerializer start inner ∨ isResponse start

def IsPipeline (start : ElementStart) (inner : Content) : Prop :=
  isNamed "pipeline" start
    ∧ (start.attribute? "cache" = some "true" →
        Timed start "cache-time-to-live" ∧ Timed start "cache-time-to-idle")
    ∧ Among IsStep inner

/-! ### What the elements denote -/

/--
The name of a step is the one that the element gives it, or else is made from its kind and its number.
-/
def stepName (kind : String) (number : Nat) (start : ElementStart) : String :=
  (start.attribute? "name").getD (kind ++ "-" ++ toString number)

def parameterOf (start : ElementStart) (inner : Content) : Parameter where
  name := (start.attribute? "name").getD ""
  uri := start.attribute? "uri"
  type := (start.attribute? "type").getD "xs:string"
  values := (inner.children (isNamed "value")).map fun (_, value) => value.characters

def transformOf (number : Nat) (start : ElementStart) (inner : Content) : TransformStep where
  name := stepName "transformer" number start
  templatePath := (start.attribute? "xsl-path").getD ""
  logged := start.attribute? "log" == some "true"
  parameters := (inner.children (isNamed "parameter")).map fun (parameter, values) =>
    parameterOf parameter values

/--
The options of a serializer are its attributes without a namespace, except for those of all steps.
-/
def optionsOf (start : ElementStart) : List (String × String) :=
  start.attributes.filterMap fun attr =>
    if attr.name.uri = none ∧ attr.name.localName ∉ ["name", "log"] then
      some (attr.name.localName, attr.value)
    else
      none

def serializerOf (number : Nat) (start : ElementStart) : SerializerStep where
  name := stepName "json-serializer" number start
  logged := start.attribute? "log" == some "true"
  options := .ofList (optionsOf start)

/--
The markup of a response that stands inside of elements with the declarations `outer`. Its root declares
what is in force.
-/
def responseOf (outer : List NamespaceBinding) (start : ElementStart) (inner : Content) :
    ResponseStep where
  body :=
    let root := { start with namespaces := NamespaceBinding.inForce (outer ++ start.namespaces) }
    Document.toXml { events := .opening root :: inner.events ++ [.closing start.name] } false

def stepOf (outer : List NamespaceBinding) (number : Nat) (start : ElementStart)
    (inner : Content) : Step :=
  if isResponse start then .respond (responseOf outer start inner)
  else if isNamed "transformer" start then .transform (transformOf number start inner)
  else .serialize .json (serializerOf number start)

def stepsOf (outer : List NamespaceBinding) (inner : Content) : List Step :=
  (inner.children isStep).mapIdx fun index (start, inner) => stepOf outer (index + 1) start inner

end Vocabulary
end XmlPipeline
