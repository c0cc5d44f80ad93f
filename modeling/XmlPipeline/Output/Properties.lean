import XmlPipeline.Log
import XmlPipeline.SortedMap
import XmlPipeline.Text.Blank

/-!
This module contains the output properties that a stylesheet declares, and which of them the final
serializer gets to see.
-/

namespace XmlPipeline

inductive OutputMethod where
  | xml
  | html
  | xhtml
  | text
  deriving DecidableEq, Repr

namespace OutputMethod

def name : OutputMethod → String
  | xml => "xml"
  | html => "html"
  | xhtml => "xhtml"
  | text => "text"

def contentType : OutputMethod → String
  | xml => "application/xml"
  | html => "text/html"
  | xhtml => "application/xhtml+xml"
  | text => "text/plain"

end OutputMethod

abbrev OutputProperties := SortedMap String String

namespace OutputProperties

def known : List String :=
  ["allow-duplicate-names", "byte-order-mark", "cdata-section-elements", "doctype-public",
    "doctype-system", "encoding", "escape-uri-attributes", "html-version", "include-content-type",
    "indent", "item-separator", "media-type", "method", "normalization-form",
    "omit-xml-declaration", "standalone", "suppress-indentation", "undeclare-prefixes",
    "use-character-maps", "version"]

def isYes (properties : OutputProperties) (key : String) : Bool :=
  match (properties.get? key).map Text.trim with
  | some value => value == "yes" || value == "true" || value == "1"
  | none => false

def method (properties : OutputProperties) : OutputMethod :=
  match (properties.get? "method").map Text.trim with
  | some "html" => .html
  | some "xhtml" => .xhtml
  | some "text" => .text
  | _ => .xml

def quoteEmptyNamespace : List Char → List Char
  | '\x7b' :: '\x7d' :: rest => '\x7b' :: '\'' :: '\'' :: '\x7d' :: quoteEmptyNamespace rest
  | c :: rest => c :: quoteEmptyNamespace rest
  | [] => []

def serializerValue? (key value : String) : Option String :=
  if !known.contains key then
    none
  else if key == "cdata-section-elements" then
    some (String.ofList (quoteEmptyNamespace value.toList))
  else
    some value

def forSerializer (properties : OutputProperties) : OutputProperties :=
  properties.filterMap serializerValue?

def skippedRecords (properties : OutputProperties) : List LogRecord :=
  (properties.keys.filter (!known.contains ·)).map fun key =>
    { level := .debug, message := "skipping unknown output property", fields := [("key", key)] }

end OutputProperties
end XmlPipeline
