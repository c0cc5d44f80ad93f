import XmlPipeline.Error.Basic
import XmlPipeline.Output.Sink
import XmlPipeline.Xml.Escape
import XmlPipeline.Xml.Event

/-!
This module contains the written form of events. A `Layout` says how far tags are indented and whether
the next tag starts a line of its own; it decides the characters that each piece of output comes to. A
`Writer` puts those characters into a byte writer.
-/

namespace XmlPipeline
namespace Xml

/--
A piece of output: one that an event calls for, a declaration, an opening tag that no closing tag will
follow, or text that is written as it is.
-/
inductive Piece where
  | opening (start : ElementStart)
  | text (content : String)
  | closing (name : QName)
  | declaration (encoding standalone : Option String)
  | voidTag (start : ElementStart)
  | raw (content : String)
  deriving DecidableEq, Repr

namespace Event

def toPiece : Event → Piece
  | opening start => .opening start
  | text content => .text content
  | closing name => .closing name

end Event

def attributeChars (key value : String) : List Char :=
  ' ' :: key.toList ++ '=' :: '"' :: escape value.toList ++ ['"']

namespace NamespaceBinding

def key (binding : NamespaceBinding) : String :=
  match binding.pfx with
  | some pfx => "xmlns:" ++ pfx
  | none => "xmlns"

end NamespaceBinding

namespace ElementStart

def tagChars (start : ElementStart) : List Char :=
  start.name.lexical.toList
    ++ start.namespaces.flatMap (fun binding => attributeChars binding.key binding.uri)
    ++ start.attributes.flatMap (fun attr => attributeChars attr.name.lexical attr.value)

end ElementStart

def declarationPart (key : String) (value : Option String) : List Char :=
  match value with
  | none => []
  | some value => (" " ++ key ++ "=\"" ++ value ++ "\"").toList

structure Layout where
  indented : Bool
  level : Nat := 0
  startsLine : Bool := false
  deriving DecidableEq, Repr

namespace Layout

def lead (layout : Layout) : List Char :=
  if layout.indented && layout.startsLine then
    '\n' :: List.replicate (2 * layout.level) ' '
  else
    []

def put (layout : Layout) : Piece → List Char × Layout
  | .opening start =>
    (layout.lead ++ '<' :: start.tagChars ++ ['>'],
      { layout with level := layout.level + 1, startsLine := true })
  | .text content => (escape content.toList, { layout with startsLine := false })
  | .closing name =>
    let layout := { layout with level := layout.level - 1 }
    (layout.lead ++ '<' :: '/' :: name.lexical.toList ++ ['>'], { layout with startsLine := true })
  | .declaration encoding standalone =>
    (layout.lead ++ "<?xml version=\"1.0\"".toList ++ declarationPart "encoding" encoding
      ++ declarationPart "standalone" standalone ++ "?>".toList,
      { layout with startsLine := true })
  | .voidTag start => ('<' :: start.tagChars ++ ['>'], { layout with startsLine := false })
  | .raw content => (content.toList, layout)

def render (layout : Layout) : List Event → List Char
  | [] => []
  | event :: events =>
    (layout.put event.toPiece).1 ++ (layout.put event.toPiece).2.render events

end Layout

structure Writer (σ : Type) where
  layout : Layout
  out : σ

namespace Writer

/--
How a failure to write a piece of output is reported. Text that is written as it is passes on the
message of the byte writer.
-/
def failure (piece : Piece) (error : IoError) : Error :=
  match piece with
  | .raw _ => .io error.message (some "write xml")
  | _ => .io ("I/O error: " ++ error.message) (some "write xml")

/--
Write one piece of output. The layout goes on as if the piece had been written, also if that failed.
-/
def put {σ : Type} [ByteWriter σ] (piece : Piece) (writer : Writer σ) :
    Except Error Unit × Writer σ :=
  let (chars, layout) := writer.layout.put piece
  let (result, out) := ByteWriter.writeAll (Utf8.encode chars) writer.out
  (result.mapError (failure piece), { layout, out })

end Writer
end Xml
end XmlPipeline
