import XmlPipeline.Json.Printer
import XmlPipeline.Text.Blank
import XmlPipeline.Xml.Document

/-!
This module contains the JSON form of a document. The root element becomes the only member of an object,
attributes become members with an `@` before their names, and elements of one name that share their
parent become a list.
-/

namespace XmlPipeline
namespace Xml

structure JsonFrame where
  name : String
  members : List (String × Json) := []
  text : String := ""
  deriving Inhabited

namespace JsonFrame

def ofStart (start : ElementStart) : JsonFrame where
  name := start.name.localName
  members := start.attributes.foldl
    (fun members attr => Assoc.insert ("@" ++ attr.name.localName) (.str attr.value) members) []

/--
Add the value of a child. The second child of a name makes a list of the two.
-/
def addChild (frame : JsonFrame) (name : String) (value : Json) : JsonFrame :=
  let together :=
    match Assoc.find? name frame.members with
    | none => value
    | some (.arr items) => .arr (items ++ [value])
    | some first => .arr [first, value]
  { frame with members := Assoc.insert name together frame.members }

def value (frame : JsonFrame) : Json :=
  let text := Text.trim frame.text
  if frame.members.isEmpty then
    if text.isEmpty then .null else .str text
  else if text.isEmpty then
    .obj frame.members
  else
    .obj (Assoc.insert "#text" (.str text) frame.members)

end JsonFrame

structure JsonBuilder where
  frames : List JsonFrame := []
  roots : List (String × Json) := []

namespace JsonBuilder

def add (builder : JsonBuilder) : Event → JsonBuilder
  | .opening start => { builder with frames := .ofStart start :: builder.frames }
  | .text content =>
    match builder.frames with
    | [] => builder
    | frame :: outer =>
      { builder with frames := { frame with text := frame.text ++ content } :: outer }
  | .closing _ =>
    match builder.frames with
    | [] => builder
    | [frame] => { frames := [], roots := Assoc.insert frame.name frame.value builder.roots }
    | frame :: parent :: outer =>
      { builder with frames := parent.addChild frame.name frame.value :: outer }

end JsonBuilder

namespace Document

def toJson (document : Document) : Json :=
  .obj (document.events.foldl JsonBuilder.add {}).roots

end Document
end Xml
end XmlPipeline
