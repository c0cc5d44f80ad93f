import XmlPipeline.Error.Basic
import XmlPipeline.Log
import XmlPipeline.Xml.Document

/-!
This module contains reports on the validity of a document: the findings, and the document that a report
becomes when a stylesheet is to read it.
-/

namespace XmlPipeline

def validationNamespace : String := "http://www.armatiek.com/xslweb/validation"

inductive Severity where
  | warning
  | error
  | fatal
  deriving DecidableEq, Repr

namespace Severity

def name : Severity → String
  | warning => "warning"
  | error => "error"
  | fatal => "fatal"

end Severity

structure Finding where
  severity : Severity
  message : String
  line : Option Nat := none
  column : Option Nat := none
  deriving DecidableEq, Repr

namespace Finding

def elementName : Xml.QName where
  localName := "message"
  uri := validationNamespace

def plainAttribute (name value : String) : Xml.Attribute :=
  { name := { localName := name }, value }

def attributes (finding : Finding) : List Xml.Attribute :=
  plainAttribute "severity" finding.severity.name
    :: (finding.line.map fun n => plainAttribute "line" (toString n)).toList
    ++ (finding.column.map fun n => plainAttribute "column" (toString n)).toList

def events (finding : Finding) : List Xml.Event :=
  [.opening { name := elementName, attributes := finding.attributes }, .text finding.message,
    .closing elementName]

def toJson (finding : Finding) : Json :=
  Json.object <| [("severity", .str finding.severity.name), ("message", .str finding.message)]
    ++ Json.member? "line" (finding.line.map .nat)
    ++ Json.member? "column" (finding.column.map .nat)

end Finding

structure ValidationReport where
  label : String
  findings : List Finding := []
  deriving DecidableEq, Repr

namespace ValidationReport

def stepLabel (step : String) : String :=
  "Step: " ++ step

def isValid (report : ValidationReport) : Bool :=
  report.findings.all (·.severity == .warning)

def rootName : Xml.QName where
  localName := "validation-report"
  uri := validationNamespace

def root (report : ValidationReport) : Xml.ElementStart where
  name := rootName
  attributes := [Finding.plainAttribute "label" report.label,
    Finding.plainAttribute "valid" (if report.isValid then "true" else "false")]
  namespaces := [{ pfx := none, uri := validationNamespace }]

def toDocument (report : ValidationReport) : Xml.Document where
  events := .opening report.root :: report.findings.flatMap Finding.events ++ [.closing rootName]

def toError (report : ValidationReport) : Error :=
  .validationReported report.label (report.findings.map Finding.message)

def record (report : ValidationReport) : LogRecord where
  level := .warn
  message := report.toError.message
  fields := [("code", report.toError.code.name), ("label", report.label),
    ("problems", toString report.findings.length)]

def toJson (report : ValidationReport) : Json :=
  Json.object [("label", .str report.label), ("messages", .arr (report.findings.map Finding.toJson))]

end ValidationReport
end XmlPipeline
