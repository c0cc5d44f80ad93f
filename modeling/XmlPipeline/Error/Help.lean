import XmlPipeline.Error.Basic

/-!
This module contains the explanation of each error code: what it stands for, the shape of the details
that come with it, and advice for the reader.
-/

namespace XmlPipeline

structure ErrorHelp where
  code : ErrorCode
  summary : String
  /-- The type of each member of the details, by name. A question mark follows the type of a member
  that may be absent. -/
  detailsSchema : Json
  hint : String

namespace ErrorHelp

def shape (members : List (String × String)) : Json :=
  Json.object <| members.map fun (name, type) => (name, .str type)

def explain (code : ErrorCode) : ErrorHelp :=
  match code with
  | .invalidDefinition => {
      code
      summary := "Pipeline definition could not be parsed"
      detailsSchema := Json.object [
        ("source", .str "string?"),
        ("cause", shape [("code", "string"), ("message", "string"), ("details", "object")])]
      hint := "Look at cause.code for the specific problem" }
  | .missingAttribute => {
      code
      summary := "Required attribute is absent or blank"
      detailsSchema := shape [("element", "string"), ("attribute", "string")]
      hint := "Add the attribute with a non-blank value" }
  | .unexpectedElement => {
      code
      summary := "Element is not allowed at this position"
      detailsSchema := shape [("element", "string"), ("problem", "string")]
      hint :=
        "A parameter must directly follow its transformer; value must sit inside a parameter" }
  | .unsupportedElement => {
      code
      summary := "Unknown element in the pipeline vocabulary"
      detailsSchema := shape [("element", "string"), ("problem", "string")]
      hint := "Supported elements: pipeline, transformer, parameter, value, json-serializer" }
  | .malformed => {
      code
      summary := "Pipeline attribute value cannot be interpreted"
      detailsSchema :=
        shape [("attribute", "string?"), ("value", "string?"), ("problem", "string")]
      hint := "cache-time-to-live and cache-time-to-idle must be whole numbers of seconds" }
  | .xmlSyntax => {
      code
      summary := "Pipeline definition is not well-formed XML"
      detailsSchema := shape [("error", "string"), ("position", "number?")]
      hint := "Fix the XML syntax near the reported position" }
  | .notFound => {
      code
      summary := "No pipeline steps resolved for the request"
      detailsSchema := shape [("id", "string?")]
      hint := "Check that the request dispatcher emits at least one step for this path" }
  | .transformationFailed => {
      code
      summary := "A transformation step failed"
      detailsSchema := shape [("step", "string")]
      hint := "Inspect the cause for the processor's error message" }
  | .validationReported => {
      code
      summary := "Schema validation produced a report"
      detailsSchema := shape [("label", "string"), ("messages", "string[]")]
      hint := "Bind the report to a stylesheet parameter to handle it in the next transformer" }
  | .validationFailed => {
      code
      summary := "Schema validation machinery failed"
      detailsSchema := shape [("step", "string")]
      hint := "Check that every schema path exists and compiles" }
  | .unresolvableDestination => {
      code
      summary := "No destination matches this pair of adjacent steps"
      detailsSchema := shape [("step", "string"), ("nextStep", "string?")]
      hint := "A transformer can only feed a transformer, a schema validator or a serializer" }
  | .serializerUnavailable => {
      code
      summary := "Serializer kind has no registered factory"
      detailsSchema := shape [("kind", "string"), ("step", "string")]
      hint := "Provide a SerializerFactory that handles this kind" }
  | .invalidJson => {
      code
      summary := "Configuration JSON is invalid"
      detailsSchema := shape [("path", "string"), ("error", "string")]
      hint := "Fix JSON syntax in the referenced file" }
  | .invalidValue => {
      code
      summary := "Configuration value is invalid"
      detailsSchema := shape [("key", "string"), ("value", "string?"), ("problem", "string")]
      hint := "Correct the config value to match expected type/format" }
  | .invalidArgument => {
      code
      summary := "Argument value is invalid"
      detailsSchema :=
        shape [("field", "string"), ("problem", "string"), ("id", "string?"), ("tried", "string[]?")]
      hint := "Check the command usage with --help" }
  | .ioError => {
      code
      summary := "Internal IO error"
      detailsSchema := shape [("error", "string"), ("context", "string?")]
      hint := "Check file permissions and that the output sink is still open" }
  | .jsonError => {
      code
      summary := "Internal JSON error"
      detailsSchema := shape [("error", "string"), ("context", "string?")]
      hint := "Report as a bug if persistent" }
  | .unexpected => {
      code
      summary := "Unexpected internal error"
      detailsSchema := Json.object []
      hint := "Report as a bug with steps to reproduce" }

def toJson (help : ErrorHelp) : Json :=
  Json.object [
    ("code", .str help.code.name),
    ("summary", .str help.summary),
    ("detailsSchema", help.detailsSchema),
    ("hints", .arr [Json.object [("message", .str help.hint)]])]

def list : Json :=
  .arr <| ErrorCode.all.map fun code =>
    Json.object [("code", .str code.name), ("summary", .str (explain code).summary)]

end ErrorHelp
end XmlPipeline
