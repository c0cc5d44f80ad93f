import XmlPipeline.Pipeline.Parameter

/-!
This module contains the steps of which pipelines are made.
-/

namespace XmlPipeline

inductive SerializerKind where
  | json
  | zip
  | fop
  deriving DecidableEq, Repr

namespace SerializerKind

def stepKind : SerializerKind → String
  | json => "json-serializer"
  | zip => "zip-serializer"
  | fop => "fop-serializer"

def name : SerializerKind → String
  | json => "json"
  | zip => "zip"
  | fop => "fop"

end SerializerKind

/--
A step that runs a stylesheet. A system template comes with the framework, any other one with the web
application.
-/
structure TransformStep where
  name : String
  templatePath : String
  logged : Bool := false
  parameters : List Parameter := []
  isSystem : Bool := false
  deriving DecidableEq, Repr, Inhabited

structure ValidatorStep where
  name : String
  schemaPaths : List String
  logged : Bool := false
  /-- The parameter of the next stylesheet that the findings are bound to. -/
  reportName : Option String := none
  reportUri : Option String := none
  deriving DecidableEq, Repr, Inhabited

structure SerializerStep where
  name : String
  logged : Bool := false
  options : SortedMap String String := .empty
  deriving DecidableEq

structure ResponseStep where
  body : String
  deriving DecidableEq, Repr, Inhabited

namespace ResponseStep

def name : String := "response"

end ResponseStep

inductive Step where
  | transform (step : TransformStep)
  | validate (step : ValidatorStep)
  | serialize (kind : SerializerKind) (step : SerializerStep)
  | respond (step : ResponseStep)
  deriving DecidableEq

namespace Step

def name : Step → String
  | transform step => step.name
  | validate step => step.name
  | serialize _ step => step.name
  | respond _ => ResponseStep.name

def logged : Step → Bool
  | transform step => step.logged
  | validate step => step.logged
  | serialize _ step => step.logged
  | respond _ => false

def kind : Step → String
  | transform _ => "transformer"
  | validate _ => "schema-validator"
  | serialize kind _ => kind.stepKind
  | respond _ => "response"

def serializer? : Step → Option (SerializerKind × SerializerStep)
  | serialize kind step => some (kind, step)
  | _ => none

def transform? : Step → Option TransformStep
  | transform step => some step
  | _ => none

def isTerminal (step : Step) : Bool :=
  step.serializer?.isSome

end Step

namespace TransformStep

def members (step : TransformStep) : List (String × Json) :=
  [("name", .str step.name), ("enableLog", .bool step.logged),
    ("templatePath", .str step.templatePath), ("isSystemTemplate", .bool step.isSystem)]
    ++ if step.parameters.isEmpty then []
      else [("parameters", .arr (step.parameters.map Parameter.toJson))]

def toJson (step : TransformStep) : Json :=
  Json.object step.members

end TransformStep

namespace Step

def toJson : Step → Json
  | transform step => Json.object <| ("kind", .str "transform") :: step.members
  | validate step =>
    Json.object <| [("kind", .str "schema-validator"), ("name", .str step.name),
      ("enableLog", .bool step.logged), ("schemaPaths", .strings step.schemaPaths)]
      ++ Json.member? "errorReportParamName" (step.reportName.map .str)
      ++ Json.member? "errorReportParamNamespace" (step.reportUri.map .str)
  | serialize kind step =>
    Json.object <| [("kind", .str kind.stepKind), ("name", .str step.name),
      ("enableLog", .bool step.logged)]
      ++ if step.options.isEmpty then [] else [("options", .ofMap step.options)]
  | respond step =>
    Json.object [("kind", .str "response"), ("name", .str ResponseStep.name),
      ("literalBody", .str step.body)]

end Step
end XmlPipeline
