import XmlPipeline.Engine.Destination
import XmlPipeline.Proofs.Output.Recording
import XmlPipeline.Proofs.Output.Transcoding
import XmlPipeline.Proofs.Result

/-!
This module contains whole runs of the final serializer, which is given events up to the first one that it
cannot write and is finished after the last one. The main statement is that the events come to texts which do
not depend on the byte writer, and that a run passes on the bytes of these texts one after the other.
-/

namespace XmlPipeline

open Xml

/-! ### The texts that events come to -/

namespace OutputMethod

/--
The piece of output that an event calls for, if it calls for one, and the element that stands open after it
without the need for a closing tag.
-/
def piece (method : OutputMethod) (openVoid : Option QName) (event : Event) :
    Option Piece × Option QName :=
  match method, event with
  | .text, .text content => (some (.raw content), openVoid)
  | .text, _ => (none, openVoid)
  | .html, .opening start =>
    if start.name.isVoid then
      (some (.voidTag start), some start.name)
    else
      (some (.opening start), openVoid)
  | .html, .closing name =>
    if openVoid == some name then (none, none) else (some (.closing name), openVoid)
  | _, event => (some event.toPiece, openVoid)

def pieces (method : OutputMethod) (openVoid : Option QName) : List Event → List Piece
  | [] => []
  | event :: events =>
    (method.piece openVoid event).1.toList
      ++ method.pieces (method.piece openVoid event).2 events

end OutputMethod

namespace Xml.Layout

def texts (layout : Layout) : List Piece → List (List Char)
  | [] => []
  | piece :: pieces => (layout.put piece).1 :: (layout.put piece).2.texts pieces

end Xml.Layout

namespace OutputProperties

def pieces (properties : OutputProperties) (events : List Event) : List Piece :=
  if events.isEmpty then
    []
  else if properties.isDeclared then
    .declaration properties.charset.name properties.standalone?
      :: properties.method.pieces none events
  else
    properties.method.pieces none events

def texts (properties : OutputProperties) (events : List Event) : List (List Char) :=
  ({ indented := properties.isIndented } : Layout).texts (properties.pieces events)

end OutputProperties

namespace Charset

def encodeText (charset : Charset) (references : Bool) (text : List Char) :
    Except IoError (List UInt8) :=
  match charset with
  | utf8 => .ok (Utf8.encode text)
  | _ => charset.encode references text

/--
The bytes of some texts up to the first one that cannot be written, and whether all of them can.
-/
def encodeEach (charset : Charset) (references : Bool) : List (List Char) → List UInt8 × Bool
  | [] => ([], true)
  | text :: texts =>
    match charset.encodeText references text with
    | .error _ => ([], false)
    | .ok bytes =>
      let (more, all) := charset.encodeEach references texts
      (bytes ++ more, all)

theorem encodeText_spelled (charset : Charset) (text : List Char) :
    charset.encodeText true text = .ok (charset.bytesOf (charset.spell text)) := by
  by_cases h : charset = utf8
  · subst h
    rw [spell_of_holds fun c _ => holds_utf8 c]
    rfl
  · rw [← encode_eq h]
    cases charset <;> trivial

theorem encodeEach_spelled (charset : Charset) (texts : List (List Char)) :
    charset.encodeEach true texts = (charset.bytesOf (charset.spell texts.flatten), true) := by
  induction texts with
  | nil => cases charset <;> rfl
  | cons text texts ih =>
    rw [encodeEach, encodeText_spelled, ih, List.flatten_cons, spell_append, bytesOf_append]

end Charset

/-! ### Runs that pass on texts -/

namespace ByteWriter

/--
What holds of a byte writer before and after bytes are written to it, given whether that succeeds. It holds
of pieces that are written one after the other if it holds of each of them.
-/
structure Delivery (σ : Type) [ByteWriter σ] where
  holds : List UInt8 → σ → Bool → σ → Prop
  nil : ∀ out, holds [] out true out
  append_ok : ∀ {bytes more out between result after}, holds bytes out true between →
    holds more between result after → holds (bytes ++ more) out result after
  append_error : ∀ {bytes out after} more, holds bytes out false after →
    holds (bytes ++ more) out false after
  writeAll_ok : ∀ {bytes out after}, writeAll bytes out = (.ok (), after) → holds bytes out true after
  writeAll_error : ∀ {bytes out error after}, writeAll bytes out = (.error error, after) →
    holds bytes out false after

end ByteWriter

open ByteWriter (Delivery)

namespace EncodingWriter

variable {σ : Type} [ByteWriter σ] {writer : EncodingWriter σ}

def send (writer : EncodingWriter σ) (text : List Char) : Except IoError Unit × σ :=
  match writer.charset.encodeText writer.references text with
  | .error error => (.error error, writer.inner)
  | .ok bytes => ByteWriter.writeAll bytes writer.inner

theorem proceed_send (writer : EncodingWriter σ) (h : writer.charset ≠ .utf8) (text : List Char) :
    ∃ pending, writer.proceed text [] = ((writer.send text).1, { writer with
        inner := (writer.send text).2
        pending })
      ∧ ((writer.send text).1 = .ok () → pending = []) := by
  have hencode : writer.charset.encodeText writer.references text
      = writer.charset.encode writer.references text := by
    cases hcharset : writer.charset <;> simp_all [Charset.encodeText]
  unfold proceed send
  rw [hencode]
  cases writer.charset.encode writer.references text with
  | error error => exact ⟨writer.pending, rfl, by simp⟩
  | ok bytes =>
    simp only
    cases ByteWriter.writeAll bytes writer.inner with
    | mk result inner =>
      cases result with
      | error error => exact ⟨writer.pending, rfl, by simp⟩
      | ok => exact ⟨[], rfl, fun _ => rfl⟩

theorem writeAll_send (hpending : writer.pending = []) (text : List Char) :
    ∃ pending, ByteWriter.writeAll (Utf8.encode text) writer = ((writer.send text).1, { writer with
        inner := (writer.send text).2
        pending })
      ∧ ((writer.send text).1 = .ok () → pending = []) := by
  by_cases hutf8 : writer.charset = .utf8
  · have hsend : writer.send text = ByteWriter.writeAll (Utf8.encode text) writer.inner := by
      simp [send, Charset.encodeText, hutf8]
    refine ⟨writer.pending, ?_, fun _ => hpending⟩
    rw [writeAll_utf8 writer hutf8, hsend]
  · by_cases hbytes : Utf8.encode text = []
    · have htext : text = [] := by
        have hdecode := Utf8.decode_encode text
        rw [hbytes] at hdecode
        simpa [Utf8.decode] using (congrArg Prod.fst hdecode).symm
      have hsend : writer.send [] = (.ok (), writer.inner) := by
        have hencode : writer.charset.encodeText writer.references [] = .ok [] := by
          cases writer.charset <;> rfl
        rw [send, hencode]
        simp only
        rw [ByteWriter.writeAll]
      subst htext
      refine ⟨writer.pending, ?_, fun _ => hpending⟩
      rw [hbytes, ByteWriter.writeAll, hsend]
    · rw [writeAll_passOn hutf8 hbytes, passOn_eq, hpending, List.nil_append]
      simp only [Utf8.decode_encode]
      exact proceed_send { writer with pending := Utf8.encode text } hutf8 text

theorem writeEach_texts (delivery : Delivery σ) (writer : EncodingWriter σ)
    (hpending : writer.pending = []) (texts : List (List Char)) :
    let body := writer.charset.encodeEach writer.references texts
    let written := writer.writeEach (texts.map Utf8.encode)
    ∃ fits, delivery.holds body.1 writer.inner fits written.2.inner
      ∧ (written.1 = .ok () ↔ fits = true ∧ body.2 = true)
      ∧ (written.1 = .ok () → written.2.pending = []) := by
  induction texts generalizing writer with
  | nil => exact ⟨true, delivery.nil _, by simp [writeEach, Charset.encodeEach], fun _ => hpending⟩
  | cons text texts ih =>
    obtain ⟨pending, hwrite, hnone⟩ := writeAll_send hpending text
    simp only [List.map_cons, writeEach, hwrite]
    unfold Charset.encodeEach
    cases hencode : writer.charset.encodeText writer.references text with
    | error error =>
      have hsend : writer.send text = (.error error, writer.inner) := by simp [send, hencode]
      rw [hsend]
      exact ⟨true, delivery.nil _, by simp, by simp⟩
    | ok bytes =>
      have hsend : writer.send text = ByteWriter.writeAll bytes writer.inner := by simp [send, hencode]
      rw [hsend] at hnone ⊢
      cases hinner : ByteWriter.writeAll bytes writer.inner with
      | mk result inner =>
        rw [hinner] at hnone
        cases result with
        | error error =>
          exact ⟨false, delivery.append_error _ (delivery.writeAll_error hinner), by simp, by simp⟩
        | ok =>
          obtain ⟨fits, hholds, hresult, hrest⟩ := ih { writer with inner, pending } (hnone rfl)
          exact ⟨fits, delivery.append_ok (delivery.writeAll_ok hinner) hholds, hresult, hrest⟩

end EncodingWriter

namespace FinalSerializer

variable {σ : Type} [ByteWriter σ] {serializer : FinalSerializer σ} {events : List Event}

def writeEach (serializer : FinalSerializer σ) : List Event → Except Error Unit × FinalSerializer σ
  | [] => (.ok (), serializer)
  | event :: events =>
    match serializer.write event with
    | (.error error, serializer) => (.error error, serializer)
    | (.ok (), serializer) => serializer.writeEach events

/--
Write events up to the first one that fails. After the last one the serializer is finished.
-/
def serialize (serializer : FinalSerializer σ) (events : List Event) :
    Except Error Unit × FinalSerializer σ :=
  match serializer.writeEach events with
  | (.error error, serializer) => (.error error, serializer)
  | (.ok (), serializer) => serializer.finish

structure Writes (run : Except Error Unit × FinalSerializer σ)
    (written : Except IoError Unit × EncodingWriter σ) : Prop where
  result : run.1 = .ok () ↔ written.1 = .ok ()
  writer : run.2.writer.out = written.2

theorem write_started (h : serializer.isStarted = true) (event : Event) :
    serializer.write event
      = match serializer.properties.method.piece serializer.openVoid event with
        | (none, openVoid) => (.ok (), { serializer with openVoid })
        | (some piece, openVoid) => ({ serializer with openVoid } : FinalSerializer σ).put piece := by
  unfold write start OutputMethod.piece
  rw [if_pos h]
  simp only
  cases serializer.properties.method <;> cases event <;> simp only [writeText, writeHtml]
  all_goals first | rfl | (split <;> rfl)

theorem put_eq (serializer : FinalSerializer σ) (piece : Piece) :
    let written := ByteWriter.writeAll (Utf8.encode (serializer.writer.layout.put piece).1)
      serializer.writer.out
    serializer.put piece = (written.1.mapError (Writer.failure piece), { serializer with
      writer := { layout := (serializer.writer.layout.put piece).2, out := written.2 } }) :=
  rfl

theorem Writes.put (serializer : FinalSerializer σ) (piece : Piece)
    {next : FinalSerializer σ → Except Error Unit × FinalSerializer σ} {texts : List (List UInt8)}
    (h : ∀ out, Writes (next { serializer with
      writer := { layout := (serializer.writer.layout.put piece).2, out } }) (out.writeEach texts)) :
    Writes
      (match serializer.put piece with
        | (.error error, serializer) => (.error error, serializer)
        | (.ok (), serializer) => next serializer)
      (serializer.writer.out.writeEach
        (Utf8.encode (serializer.writer.layout.put piece).1 :: texts)) := by
  rw [put_eq, EncodingWriter.writeEach]
  cases ByteWriter.writeAll (Utf8.encode (serializer.writer.layout.put piece).1)
      serializer.writer.out with
  | mk result out =>
    cases result with
    | error error => exact ⟨iff_of_false nofun nofun, rfl⟩
    | ok => exact h out

theorem writes_started (serializer : FinalSerializer σ) (h : serializer.isStarted = true)
    (events : List Event) :
    Writes (serializer.writeEach events) <| serializer.writer.out.writeEach <|
      (serializer.writer.layout.texts
        (serializer.properties.method.pieces serializer.openVoid events)).map Utf8.encode := by
  induction events generalizing serializer with
  | nil => exact ⟨by simp [writeEach, OutputMethod.pieces, Layout.texts, EncodingWriter.writeEach], rfl⟩
  | cons event events ih =>
    unfold writeEach OutputMethod.pieces
    rw [write_started h]
    cases serializer.properties.method.piece serializer.openVoid event with
    | mk piece openVoid =>
      cases piece with
      | none => exact ih { serializer with openVoid } h
      | some piece =>
        exact Writes.put { serializer with openVoid } piece fun _ =>
          ih { serializer with openVoid, writer := _ } h

theorem isStarted_start (serializer : FinalSerializer σ) : serializer.start.2.isStarted = true := by
  unfold start
  split
  · assumption
  · simp only
    split <;> rfl

theorem writeEach_start (serializer : FinalSerializer σ) (event : Event) (events : List Event) :
    serializer.writeEach (event :: events)
      = match serializer.start with
        | (.error error, started) => (.error error, started)
        | (.ok (), started) => started.writeEach (event :: events) := by
  have hstarted := isStarted_start serializer
  unfold writeEach write
  cases hstart : serializer.start with
  | mk result started =>
    rw [hstart] at hstarted
    have hagain : started.start = (.ok (), started) := by
      unfold start
      rw [if_pos hstarted]
    cases result with
    | error error => rfl
    | ok => simp only [hagain]

theorem start_create (properties : OutputProperties) (out : σ) :
    let started : FinalSerializer σ := { create properties out with isStarted := true }
    (create properties out).start
      = if properties.isDeclared then
          started.put (.declaration properties.charset.name properties.standalone?)
        else
          (.ok (), started) :=
  rfl

theorem writes_create (properties : OutputProperties) (out : σ) (events : List Event) :
    Writes ((create properties out).writeEach events) <|
      (create properties out).writer.out.writeEach ((properties.texts events).map Utf8.encode) := by
  cases events with
  | nil =>
    have hnone : properties.texts [] = [] := rfl
    rw [hnone]
    exact ⟨by simp [writeEach, EncodingWriter.writeEach], rfl⟩
  | cons event events =>
    let started : FinalSerializer σ := { create properties out with isStarted := true }
    have hpieces : properties.pieces (event :: events)
        = if properties.isDeclared then
            .declaration properties.charset.name properties.standalone?
              :: properties.method.pieces none (event :: events)
          else
            properties.method.pieces none (event :: events) := rfl
    rw [writeEach_start, start_create, OutputProperties.texts, hpieces]
    cases properties.isDeclared with
    | false => exact writes_started started rfl (event :: events)
    | true =>
      exact Writes.put started _ fun _ =>
        writes_started { started with writer := _ } rfl (event :: events)

theorem finish_flush (hpending : serializer.writer.out.pending = []) :
    (serializer.finish.1 = .ok () ↔ (ByteWriter.flush serializer.out).1 = .ok ())
      ∧ serializer.finish.2.out = (ByteWriter.flush serializer.out).2 := by
  have hflush : ByteWriter.flush serializer.writer.out
      = ((ByteWriter.flush serializer.out).1,
        { serializer.writer.out with inner := (ByteWriter.flush serializer.out).2 }) := by
    simp only [FinalSerializer.out, ByteWriter.flush, EncodingWriter.flush, hpending,
      List.isEmpty_nil, ↓reduceIte]
  unfold finish
  rw [hflush]
  exact ⟨mapError_eq_ok_iff, rfl⟩

theorem serialize_finish (hpending : (serializer.writeEach events).1 = .ok () →
      (serializer.writeEach events).2.writer.out.pending = []) :
    ((serializer.serialize events).1 = .ok ()
        ↔ (serializer.writeEach events).1 = .ok ()
          ∧ (ByteWriter.flush (serializer.writeEach events).2.out).1 = .ok ())
      ∧ ((serializer.serialize events).2.out = (serializer.writeEach events).2.out
        ∨ (serializer.serialize events).2.out
          = (ByteWriter.flush (serializer.writeEach events).2.out).2) := by
  unfold serialize
  cases hwritten : serializer.writeEach events with
  | mk result written =>
    rw [hwritten] at hpending
    cases result with
    | error error => exact ⟨by simp, .inl rfl⟩
    | ok =>
      obtain ⟨hfinish, hout⟩ := finish_flush (hpending rfl)
      exact ⟨by simpa using hfinish, .inr hout⟩

theorem serialize_delivers (delivery : Delivery σ) (properties : OutputProperties) (out : σ)
    (events : List Event) :
    let body := properties.charset.encodeEach (properties.method != .text) (properties.texts events)
    let written := ((create properties out).writeEach events).2.out
    let run := (create properties out).serialize events
    ∃ fits, delivery.holds body.1 out fits written
      ∧ (run.1 = .ok () ↔ (fits = true ∧ body.2 = true) ∧ (ByteWriter.flush written).1 = .ok ())
      ∧ (run.2.out = written ∨ run.2.out = (ByteWriter.flush written).2) := by
  obtain ⟨hresult, hwriter⟩ := writes_create properties out events
  have hcharset : (create properties out).writer.out.charset = properties.charset := by
    simp [create]
  have hreferences : (create properties out).writer.out.references = (properties.method != .text) := rfl
  have hinner : (create properties out).writer.out.inner = out := rfl
  obtain ⟨fits, hholds, hfits, hpending⟩ :=
    EncodingWriter.writeEach_texts delivery (create properties out).writer.out rfl
      (properties.texts events)
  rw [hcharset, hreferences] at hholds hfits
  rw [hinner] at hholds
  rw [← hwriter] at hholds hpending
  rw [← hresult] at hfits hpending
  obtain ⟨hrun, hout⟩ := serialize_finish hpending
  rw [hfits] at hrun
  exact ⟨fits, hholds, hrun, hout⟩

end FinalSerializer

/-! ### Runs that succeed -/

namespace Recording

variable {σ : Type} [ByteWriter σ] (recording : Recording σ)

def delivery : Delivery σ where
  holds bytes out fits after :=
    fits = true → recording.received after = recording.received out ++ bytes
  nil := fun _ _ => (List.append_nil _).symm
  append_ok := by
    intro bytes more out between fits after hfirst hsecond hfits
    rw [hsecond hfits, hfirst rfl, List.append_assoc]
  append_error := by
    intro bytes out after more _ hfits
    cases hfits
  writeAll_ok := fun hwrite _ => recording.writeAll_ok hwrite
  writeAll_error := by
    intro bytes out error after _ hfits
    cases hfits

theorem serialize {properties : OutputProperties} {out : σ} {events : List Event}
    {finished : FinalSerializer σ}
    (h : (FinalSerializer.create properties out).serialize events = (.ok (), finished)) :
    let body := properties.charset.encodeEach (properties.method != .text) (properties.texts events)
    body.2 = true ∧ recording.received finished.out = recording.received out ++ body.1 := by
  obtain ⟨fits, hholds, hrun, hout⟩ :=
    FinalSerializer.serialize_delivers recording.delivery properties out events
  rw [h] at hrun hout
  obtain ⟨⟨rfl, hall⟩, -⟩ := hrun.mp rfl
  refine ⟨hall, ?_⟩
  rw [← hholds rfl]
  rcases hout with hsame | hflushed
  · rw [hsame]
  · rw [hflushed, recording.flush]

end Recording

/-! ### Runs over byte writers that never fail -/

namespace Reliable

variable {σ : Type} [ByteWriter σ] (reliable : Reliable σ)

def delivery : Delivery σ where
  holds bytes out fits after := reliable.healthy out →
    fits = true ∧ reliable.received after = reliable.received out ++ bytes ∧ reliable.healthy after
  nil := fun _ h => ⟨rfl, (List.append_nil _).symm, h⟩
  append_ok := by
    intro bytes more out between fits after hfirst hsecond h
    obtain ⟨-, hreceived, hbetween⟩ := hfirst h
    obtain ⟨hfits, hmore, hafter⟩ := hsecond hbetween
    exact ⟨hfits, by rw [hmore, hreceived, List.append_assoc], hafter⟩
  append_error := by
    intro bytes out after more hfirst h
    cases (hfirst h).1
  writeAll_ok := by
    intro bytes out after hwrite h
    obtain ⟨other, hother, hreceived, hafter⟩ := reliable.writeAll bytes h
    obtain ⟨-, rfl⟩ := Prod.mk.inj (hwrite.symm.trans hother)
    exact ⟨rfl, hreceived, hafter⟩
  writeAll_error := by
    intro bytes out error after hwrite h
    obtain ⟨other, hother, -⟩ := reliable.writeAll bytes h
    cases (Prod.mk.inj (hwrite.symm.trans hother)).1

theorem serialize {out : σ} (h : reliable.healthy out) (properties : OutputProperties)
    (events : List Event) :
    let body := properties.charset.encodeEach (properties.method != .text) (properties.texts events)
    let run := (FinalSerializer.create properties out).serialize events
    (run.1 = .ok () ↔ body.2 = true) ∧ reliable.received run.2.out = reliable.received out ++ body.1 := by
  obtain ⟨fits, hholds, hrun, hout⟩ :=
    FinalSerializer.serialize_delivers reliable.delivery properties out events
  obtain ⟨rfl, hreceived, hwritten⟩ := hholds h
  obtain ⟨flushed, hflush, hsame, -⟩ := reliable.flush hwritten
  rw [hflush] at hrun hout
  refine ⟨by simpa using hrun, ?_⟩
  rcases hout with hout | hout
  · rw [hout, hreceived]
  · rw [hout, hsame, hreceived]

end Reliable
end XmlPipeline
