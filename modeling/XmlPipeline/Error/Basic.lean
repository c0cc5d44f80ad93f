import XmlPipeline.Json.Basic

/-!
This module contains the errors of the library: their causes, the code, message and details under
which each one is reported, and the chain of causes behind it.
-/

namespace XmlPipeline

inductive ErrorCode where
  | invalidDefinition
  | missingAttribute
  | unexpectedElement
  | unsupportedElement
  | malformed
  | xmlSyntax
  | notFound
  | transformationFailed
  | validationReported
  | validationFailed
  | unresolvableDestination
  | serializerUnavailable
  | invalidJson
  | invalidValue
  | invalidArgument
  | ioError
  | jsonError
  | unexpected
  deriving DecidableEq, Repr

namespace ErrorCode

def name : ErrorCode → String
  | invalidDefinition => "pipeline.invalid_definition"
  | missingAttribute => "pipeline.missing_attribute"
  | unexpectedElement => "pipeline.unexpected_element"
  | unsupportedElement => "pipeline.unsupported_element"
  | malformed => "pipeline.malformed"
  | xmlSyntax => "pipeline.xml_syntax"
  | notFound => "pipeline.not_found"
  | transformationFailed => "engine.transformation_failed"
  | validationReported => "engine.validation_reported"
  | validationFailed => "engine.validation_failed"
  | unresolvableDestination => "engine.unresolvable_destination"
  | serializerUnavailable => "engine.serializer_unavailable"
  | invalidJson => "config.invalid_json"
  | invalidValue => "config.invalid_value"
  | invalidArgument => "validation.invalid_argument"
  | ioError => "internal.io_error"
  | jsonError => "internal.json_error"
  | unexpected => "internal.unexpected"

def all : List ErrorCode :=
  [invalidDefinition, missingAttribute, unexpectedElement, unsupportedElement, malformed, xmlSyntax,
    notFound, transformationFailed, validationReported, validationFailed, unresolvableDestination,
    serializerUnavailable, invalidJson, invalidValue, invalidArgument, ioError, jsonError, unexpected]

def ofName? (name : String) : Option ErrorCode :=
  all.find? (·.name == name)

end ErrorCode

/--
What went wrong. `withHint` adds advice for the reader to another error, `reported` is an error whose
wording comes from outside.
-/
inductive Error where
  | invalidDefinition (source : Option String) (cause : Error)
  | missingAttribute (element attr : String)
  | unexpectedElement (element : String)
  | unsupportedElement (element : String)
  | malformed (attr value : Option String) (problem : String)
  | xmlSyntax (problem : String) (position : Option Nat)
  | notFound (id : Option String)
  | transformationFailed (step : String) (cause : Error)
  | validationReported (label : String) (messages : List String)
  | validationFailed (step : String) (cause : Error)
  | unresolvableDestination (step : String) (next : Option String)
  | serializerUnavailable (kind step : String)
  | invalidJson (path problem : String)
  | invalidValue (key : String) (value : Option String) (problem : String)
  | invalidArgument (field problem : String) (id : Option String) (tried : Option (List String))
  | io (problem : String) (context : Option String)
  | json (problem : String) (context : Option String)
  | unexpected (problem : String)
  | reported (code : ErrorCode) (message : String) (details : Json)
  | withHint (hint : String) (error : Error)
  deriving Repr, Inhabited

namespace Error

def code : Error → ErrorCode
  | invalidDefinition .. => .invalidDefinition
  | missingAttribute .. => .missingAttribute
  | unexpectedElement .. => .unexpectedElement
  | unsupportedElement .. => .unsupportedElement
  | malformed .. => .malformed
  | xmlSyntax .. => .xmlSyntax
  | notFound .. => .notFound
  | transformationFailed .. => .transformationFailed
  | validationReported .. => .validationReported
  | validationFailed .. => .validationFailed
  | unresolvableDestination .. => .unresolvableDestination
  | serializerUnavailable .. => .serializerUnavailable
  | invalidJson .. => .invalidJson
  | invalidValue .. => .invalidValue
  | invalidArgument .. => .invalidArgument
  | io .. => .ioError
  | json .. => .jsonError
  | unexpected .. => .unexpected
  | reported code .. => code
  | withHint _ error => error.code

def misplaced (element : String) : String :=
  "Element \"" ++ element ++ "\" not expected at this location in pipeline definition"

def unknownElement (element : String) : String :=
  "Pipeline element \"" ++ element ++ "\" not supported"

def message : Error → String
  | invalidDefinition _ cause => "Invalid pipeline definition: " ++ cause.message
  | missingAttribute element attr =>
    "Element \"" ++ element ++ "\" must have an attribute \"" ++ attr ++ "\""
  | unexpectedElement element => misplaced element
  | unsupportedElement element => unknownElement element
  | malformed _ _ problem => "Malformed pipeline: " ++ problem
  | xmlSyntax .. => "Pipeline definition is not well-formed XML"
  | notFound .. => "Resource not found"
  | transformationFailed step cause =>
    "Transformation in step \"" ++ step ++ "\" failed: " ++ cause.message
  | validationReported _ messages =>
    "Schema validation reported " ++ toString messages.length ++ " problem(s)"
  | validationFailed step cause =>
    "Schema validation in step \"" ++ step ++ "\" failed: " ++ cause.message
  | unresolvableDestination .. => "Could not determine destination"
  | serializerUnavailable kind _ => "No serializer available for \"" ++ kind ++ "\""
  | invalidJson .. => "Invalid JSON in configuration"
  | invalidValue .. => "Invalid configuration value"
  | invalidArgument .. => "Invalid argument"
  | io .. => "IO error"
  | json .. => "JSON error"
  | unexpected .. => "Unexpected error"
  | reported _ message _ => message
  | withHint _ error => error.message

def details : Error → Json
  | invalidDefinition source cause =>
    Json.object [
      ("source", .ofText? source),
      ("cause", Json.object [
        ("code", .str cause.code.name),
        ("message", .str cause.message),
        ("details", cause.details)])]
  | missingAttribute element attr =>
    Json.object [("element", .str element), ("attribute", .str attr)]
  | unexpectedElement element =>
    Json.object [("element", .str element), ("problem", .str (misplaced element))]
  | unsupportedElement element =>
    Json.object [("element", .str element), ("problem", .str (unknownElement element))]
  | malformed attr value problem =>
    Json.object <| Json.member? "attribute" (attr.map .str)
      ++ Json.member? "value" (value.map .str) ++ [("problem", .str problem)]
  | xmlSyntax problem position =>
    Json.object [("error", .str problem), ("position", (position.map Json.nat).getD .null)]
  | notFound id => Json.object [("id", .ofText? id)]
  | transformationFailed step _ => Json.object [("step", .str step)]
  | validationReported label messages =>
    Json.object [("label", .str label), ("messages", .strings messages)]
  | validationFailed step _ => Json.object [("step", .str step)]
  | unresolvableDestination step next =>
    Json.object <| ("step", .str step) :: Json.member? "nextStep" (next.map .str)
  | serializerUnavailable kind step => Json.object [("kind", .str kind), ("step", .str step)]
  | invalidJson path problem => Json.object [("path", .str path), ("error", .str problem)]
  | invalidValue key value problem =>
    Json.object <| ("key", .str key) :: Json.member? "value" (value.map .str)
      ++ [("problem", .str problem)]
  | invalidArgument field problem id tried =>
    Json.object <| [("field", .str field), ("problem", .str problem)]
      ++ Json.member? "id" (id.map .str) ++ Json.member? "tried" (tried.map .strings)
  | io problem context =>
    Json.object <| ("error", .str problem) :: Json.member? "context" (context.map .str)
  | json problem context =>
    Json.object <| ("error", .str problem) :: Json.member? "context" (context.map .str)
  | unexpected problem => Json.object [("error", .str problem)]
  | reported _ _ details => details
  | withHint _ error => error.details

/--
Advice for the reader. The wrapper around a definition's error passes on the advice of that error.
-/
def hints : Error → List String
  | invalidDefinition _ cause => cause.hints
  | notFound _ => ["The resolved pipeline has no steps for this request"]
  | serializerUnavailable .. =>
    ["Register a SerializerFactory that supports this serializer kind"]
  | withHint hint error => error.hints ++ [hint]
  | _ => []

def cause? : Error → Option Error
  | invalidDefinition _ cause => some cause
  | transformationFailed _ cause => some cause
  | validationFailed _ cause => some cause
  | withHint _ error => error.cause?
  | _ => none

def rootCode : Error → ErrorCode
  | invalidDefinition _ cause => cause.rootCode
  | transformationFailed _ cause => cause.rootCode
  | validationFailed _ cause => cause.rootCode
  | withHint _ error => error.rootCode
  | error => error.code

def causeMessages : Error → List String
  | invalidDefinition _ cause => cause.message :: cause.causeMessages
  | transformationFailed _ cause => cause.message :: cause.causeMessages
  | validationFailed _ cause => cause.message :: cause.causeMessages
  | withHint _ error => error.causeMessages
  | _ => []

def chain (error : Error) : List String :=
  error.message :: error.causeMessages

def isNotFound (error : Error) : Bool :=
  error.rootCode == .notFound

end Error
end XmlPipeline
