import XmlPipeline.Output.Charset
import XmlPipeline.Output.Properties
import XmlPipeline.Xml.Writer

/-!
This module contains the serializer that writes the result of the last stylesheet as the body of the
response, in the way the output properties ask for.
-/

namespace XmlPipeline
namespace Xml

def voidNames : List String :=
  ["area", "base", "basefont", "br", "col", "embed", "frame", "hr", "img", "input", "link", "meta",
    "param", "source", "track", "wbr"]

def xhtmlNamespace : String := "http://www.w3.org/1999/xhtml"

namespace QName

def isVoid (name : QName) : Bool :=
  (name.uri.isNone || name.uri == some xhtmlNamespace)
    && voidNames.contains (String.ofList (name.localName.toList.map Char.toLower))

end QName
end Xml

namespace OutputProperties

def isIndented (properties : OutputProperties) : Bool :=
  properties.method != .text && properties.isYes "indent"

def encodingLabel (properties : OutputProperties) : String :=
  (properties.get? "encoding").getD "UTF-8"

def charset (properties : OutputProperties) : Charset :=
  (Charset.ofLabel? properties.encodingLabel).getD .utf8

def isDeclared (properties : OutputProperties) : Bool :=
  (properties.method == .xml || properties.method == .xhtml)
    && !properties.isYes "omit-xml-declaration"

def standalone? (properties : OutputProperties) : Option String :=
  (properties.get? "standalone").filter fun value => value == "yes" || value == "no"

def charsetRecords (properties : OutputProperties) : List LogRecord :=
  if (Charset.ofLabel? properties.encodingLabel).isSome then
    []
  else
    [{ level := .warn
       message := "unsupported output encoding, writing UTF-8"
       fields := [("encoding", properties.encodingLabel)] }]

end OutputProperties

/--
The final serializer. `openVoid` is the last element that was written without the need for a closing
tag and has not been closed since.
-/
structure FinalSerializer (σ : Type) where
  properties : OutputProperties
  writer : Xml.Writer (EncodingWriter σ)
  isStarted : Bool := false
  openVoid : Option Xml.QName := none

namespace FinalSerializer

variable {σ : Type} [ByteWriter σ]

def create (properties : OutputProperties) (out : σ) : FinalSerializer σ where
  properties
  writer := {
    layout := { indented := properties.isIndented }
    out := {
      inner := out
      charset := properties.charset
      references := properties.method != .text } }

def out (serializer : FinalSerializer σ) : σ :=
  serializer.writer.out.inner

def put (serializer : FinalSerializer σ) (piece : Xml.Piece) :
    Except Error Unit × FinalSerializer σ :=
  let (result, writer) := serializer.writer.put piece
  (result, { serializer with writer })

def start (serializer : FinalSerializer σ) : Except Error Unit × FinalSerializer σ :=
  if serializer.isStarted then
    (.ok (), serializer)
  else
    let serializer := { serializer with isStarted := true }
    if serializer.properties.isDeclared then
      serializer.put <|
        .declaration serializer.properties.charset.name serializer.properties.standalone?
    else
      (.ok (), serializer)

def writeHtml (serializer : FinalSerializer σ) (event : Xml.Event) :
    Except Error Unit × FinalSerializer σ :=
  match event with
  | .opening start =>
    if start.name.isVoid then
      { serializer with openVoid := some start.name }.put (.voidTag start)
    else
      serializer.put (.opening start)
  | .closing name =>
    if serializer.openVoid == some name then
      (.ok (), { serializer with openVoid := none })
    else
      serializer.put (.closing name)
  | .text content => serializer.put (.text content)

def writeText (serializer : FinalSerializer σ) (event : Xml.Event) :
    Except Error Unit × FinalSerializer σ :=
  match event with
  | .text content => serializer.put (.raw content)
  | _ => (.ok (), serializer)

def write (serializer : FinalSerializer σ) (event : Xml.Event) :
    Except Error Unit × FinalSerializer σ :=
  match serializer.start with
  | (.error error, serializer) => (.error error, serializer)
  | (.ok (), serializer) =>
    match serializer.properties.method with
    | .text => serializer.writeText event
    | .html => serializer.writeHtml event
    | _ => serializer.put event.toPiece

def finish (serializer : FinalSerializer σ) : Except Error Unit × FinalSerializer σ :=
  let (result, encoder) := ByteWriter.flush serializer.writer.out
  (result.mapError fun error => .io error.message (some "flush response"),
    { serializer with writer := { serializer.writer with out := encoder } })

end FinalSerializer
end XmlPipeline
