import XmlPipeline.Text.Utf8

/-!
This module contains byte writers: what can go wrong while bytes are written, the operations every
byte writer has, and the byte sink, which takes bytes up to a limit and in pieces of bounded length.
-/

namespace XmlPipeline

inductive IoError where
  | sinkFull
  | flushRefused
  | nothingWritten
  | invalidUtf8 (length index : Nat)
  | unrepresentable (c : Char) (charset : String)
  | cutCharacter
  deriving DecidableEq, Repr

namespace IoError

def kind : IoError → String
  | sinkFull => "Other"
  | flushRefused => "Other"
  | nothingWritten => "WriteZero"
  | invalidUtf8 .. => "InvalidData"
  | unrepresentable .. => "InvalidData"
  | cutCharacter => "InvalidData"

def codePoint (c : Char) : String :=
  let digits := (Nat.toDigits 16 c.toNat).map Char.toUpper
  String.ofList (List.replicate (4 - digits.length) '0' ++ digits)

def message : IoError → String
  | sinkFull => "sink full"
  | flushRefused => "flush refused"
  | nothingWritten => "failed to write whole buffer"
  | invalidUtf8 length index =>
    "invalid utf-8 sequence of " ++ toString length ++ " bytes from index " ++ toString index
  | unrepresentable c charset =>
    "character U+" ++ codePoint c ++ " cannot be written as " ++ charset
  | cutCharacter => "output ends inside a UTF-8 sequence"

end IoError

/--
A receiver of bytes. `write` offers bytes and answers how many of them were taken, counted from the
first. Both operations give back the receiver as it is afterwards, whether they fail or not.
-/
class ByteWriter (σ : Type) where
  write : List UInt8 → σ → Except IoError Nat × σ
  flush : σ → Except IoError Unit × σ

namespace ByteWriter

def writeAll {σ : Type} [ByteWriter σ] (bytes : List UInt8) (out : σ) : Except IoError Unit × σ :=
  match bytes with
  | [] => (.ok (), out)
  | first :: rest =>
    match write (first :: rest) out with
    | (.error error, out) => (.error error, out)
    | (.ok 0, out) => (.error .nothingWritten, out)
    | (.ok (taken + 1), out) => writeAll (rest.drop taken) out
termination_by bytes.length
decreasing_by
  simp only [List.length_drop, List.length_cons]
  omega

def deliver {σ : Type} [ByteWriter σ] (bytes : List UInt8) (out : σ) : Except IoError Unit × σ :=
  match writeAll bytes out with
  | (.error error, out) => (.error error, out)
  | (.ok (), out) => flush out

end ByteWriter

structure CountingWriter (σ : Type) where
  inner : σ
  count : Nat := 0

namespace CountingWriter

variable {σ : Type} [ByteWriter σ]

def write (bytes : List UInt8) (writer : CountingWriter σ) :
    Except IoError Nat × CountingWriter σ :=
  match ByteWriter.write bytes writer.inner with
  | (.ok taken, inner) => (.ok taken, { inner, count := writer.count + taken })
  | (.error error, inner) => (.error error, { writer with inner })

def flush (writer : CountingWriter σ) : Except IoError Unit × CountingWriter σ :=
  let (result, inner) := ByteWriter.flush writer.inner
  (result, { writer with inner })

instance : ByteWriter (CountingWriter σ) := ⟨write, flush⟩

end CountingWriter

/--
A sink that takes at most `chunk` bytes for each offer and `limit` bytes in total.
-/
structure ByteSink where
  limit : Option Nat := none
  chunk : Option Nat := none
  flushFails : Bool := false
  received : Array UInt8 := #[]
  deriving Repr

namespace ByteSink

def room (sink : ByteSink) (offered : Nat) : Nat :=
  match sink.limit with
  | none => offered
  | some limit => min offered (limit - sink.received.size)

def isFull (sink : ByteSink) : Bool :=
  match sink.limit with
  | none => false
  | some limit => limit ≤ sink.received.size

def write (bytes : List UInt8) (sink : ByteSink) : Except IoError Nat × ByteSink :=
  if bytes.isEmpty then
    (.ok 0, sink)
  else if sink.isFull then
    (.error .sinkFull, sink)
  else
    let offered :=
      match sink.chunk with
      | none => bytes.length
      | some chunk => min chunk bytes.length
    let taken := sink.room offered
    (.ok taken, { sink with received := sink.received ++ bytes.take taken })

def flush (sink : ByteSink) : Except IoError Unit × ByteSink :=
  if sink.flushFails then (.error .flushRefused, sink) else (.ok (), sink)

instance : ByteWriter ByteSink := ⟨write, flush⟩

end ByteSink
end XmlPipeline
