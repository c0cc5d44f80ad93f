import XmlPipeline.Output.Sink
import XmlPipeline.Text.Blank

/-!
This module contains the character sets of response bodies and the writer that changes UTF-8 into one
of them. A character whose bytes arrive in several pieces is held back until it is complete.
-/

namespace XmlPipeline

inductive Charset where
  | utf8
  | latin1
  | ascii
  deriving DecidableEq, Repr

namespace Charset

def ofLabel? (label : String) : Option Charset :=
  match String.ofList ((Text.trimChars label.toList).map Char.toLower) with
  | "utf-8" | "utf8" => some utf8
  | "iso-8859-1" | "iso8859-1" | "iso_8859-1" | "latin1" | "l1" => some latin1
  | "us-ascii" | "ascii" => some ascii
  | _ => none

def name : Charset → String
  | utf8 => "UTF-8"
  | latin1 => "ISO-8859-1"
  | ascii => "US-ASCII"

def limit : Charset → Nat
  | utf8 => 0x10FFFF
  | latin1 => 0xFF
  | ascii => 0x7F

def holds (charset : Charset) (c : Char) : Bool :=
  c.toNat ≤ charset.limit

def charReference (c : Char) : List UInt8 :=
  Utf8.encode ("&#" ++ toString c.toNat ++ ";").toList

def encodeChar (charset : Charset) (references : Bool) (c : Char) : Except IoError (List UInt8) :=
  if charset.holds c then .ok [UInt8.ofNat c.toNat]
  else if references then .ok (charReference c)
  else .error (.unrepresentable c charset.name)

def encode (charset : Charset) (references : Bool) : List Char → Except IoError (List UInt8)
  | [] => .ok []
  | c :: cs =>
    match charset.encodeChar references c with
    | .error error => .error error
    | .ok bytes => (charset.encode references cs).map (bytes ++ ·)

end Charset

/--
A byte writer that takes UTF-8 and passes it on to another one in a character set. `pending` holds the
bytes that have been taken and not passed on.
-/
structure EncodingWriter (σ : Type) where
  inner : σ
  charset : Charset
  references : Bool
  pending : List UInt8 := []

namespace EncodingWriter

variable {σ : Type} [ByteWriter σ]

/--
Pass on the complete characters among the pending bytes, and hold back the rest. Where that fails, all
bytes stay pending.
-/
def passOn (writer : EncodingWriter σ) : Except IoError Unit × EncodingWriter σ :=
  let (cs, tail) := Utf8.decode writer.pending
  let proceed (held : List UInt8) : Except IoError Unit × EncodingWriter σ :=
    match writer.charset.encode writer.references cs with
    | .error error => (.error error, writer)
    | .ok bytes =>
      match ByteWriter.writeAll bytes writer.inner with
      | (.error error, inner) => (.error error, { writer with inner })
      | (.ok (), inner) => (.ok (), { writer with inner, pending := held })
  match tail with
  | .invalid length => (.error (.invalidUtf8 length (Utf8.size cs)), writer)
  | .complete => proceed []
  | .incomplete held => proceed held

def write (bytes : List UInt8) (writer : EncodingWriter σ) :
    Except IoError Nat × EncodingWriter σ :=
  match writer.charset with
  | .utf8 =>
    let (result, inner) := ByteWriter.write bytes writer.inner
    (result, { writer with inner })
  | _ =>
    let (result, writer) := { writer with pending := writer.pending ++ bytes }.passOn
    (result.map fun _ => bytes.length, writer)

def flush (writer : EncodingWriter σ) : Except IoError Unit × EncodingWriter σ :=
  if writer.pending.isEmpty then
    let (result, inner) := ByteWriter.flush writer.inner
    (result, { writer with inner })
  else
    (.error .cutCharacter, writer)

instance : ByteWriter (EncodingWriter σ) := ⟨write, flush⟩

end EncodingWriter
end XmlPipeline
