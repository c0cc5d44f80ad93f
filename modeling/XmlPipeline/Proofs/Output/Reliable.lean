import XmlPipeline.Output.Body
import XmlPipeline.Output.FinalSerializer

/-!
This module contains byte writers that never fail. The main statement is that the final serializer makes
the same bytes over any of them, and answers each event in the same way.
-/

namespace XmlPipeline

/--
A byte writer never fails while it is healthy, and it stays so. `received` is what it got so far.
-/
structure Reliable (σ : Type) [ByteWriter σ] where
  received : σ → List UInt8
  healthy : σ → Prop
  write : ∀ {out bytes}, healthy out → bytes ≠ [] → ∃ taken after,
    ByteWriter.write bytes out = (.ok taken, after) ∧ 0 < taken
      ∧ received after = received out ++ bytes.take taken ∧ healthy after
  flush : ∀ {out}, healthy out → ∃ after,
    ByteWriter.flush out = (.ok (), after) ∧ received after = received out ∧ healthy after

namespace Reliable

variable {σ : Type} [ByteWriter σ] (reliable : Reliable σ)

theorem writeAll {out : σ} (bytes : List UInt8) (h : reliable.healthy out) :
    ∃ after, ByteWriter.writeAll bytes out = (.ok (), after)
      ∧ reliable.received after = reliable.received out ++ bytes ∧ reliable.healthy after := by
  cases bytes with
  | nil =>
    refine ⟨out, ?_, by simp, h⟩
    rw [ByteWriter.writeAll]
  | cons first rest =>
    obtain ⟨taken, between, hwrite, hpositive, hreceived, hbetween⟩ :=
      reliable.write h (List.cons_ne_nil first rest)
    obtain ⟨taken, rfl⟩ := Nat.exists_eq_succ_of_ne_zero (Nat.ne_of_gt hpositive)
    -- What was not taken is offered again, and it is shorter than before.
    obtain ⟨after, hrest, hall, hafter⟩ := writeAll (rest.drop taken) hbetween
    refine ⟨after, ?_, ?_, hafter⟩
    · rw [ByteWriter.writeAll, hwrite]
      exact hrest
    · rw [hall, hreceived, List.append_assoc]
      have hsplit : (first :: rest).take (taken + 1) ++ rest.drop taken = first :: rest :=
        List.take_append_drop (taken + 1) (first :: rest)
      rw [← hsplit]
      simp
termination_by bytes.length

theorem deliver {out : σ} (bytes : List UInt8) (h : reliable.healthy out) :
    ∃ after, ByteWriter.deliver bytes out = (.ok (), after)
      ∧ reliable.received after = reliable.received out ++ bytes ∧ reliable.healthy after := by
  obtain ⟨between, hwrite, hreceived, hbetween⟩ := reliable.writeAll bytes h
  obtain ⟨after, hflush, hsame, hafter⟩ := reliable.flush hbetween
  refine ⟨after, ?_, hsame.trans hreceived, hafter⟩
  unfold ByteWriter.deliver
  rw [hwrite]
  exact hflush

theorem writeBody {out written : σ} {format : BodyFormat} {document : Xml.Document}
    {files : FileReader} (h : reliable.healthy out)
    (hwritten : format.writeBody files document out = (.ok (), written)) :
    ∃ bytes, format.render files document = .ok bytes
      ∧ reliable.received written = reliable.received out ++ bytes ∧ reliable.healthy written := by
  unfold BodyFormat.writeBody at hwritten
  cases hrender : format.render files document with
  | error error => simp [hrender] at hwritten
  | ok bytes =>
    obtain ⟨after, hwrite, hreceived, hafter⟩ := reliable.writeAll bytes h
    rw [hrender] at hwritten
    simp only at hwritten
    rw [hwrite] at hwritten
    obtain ⟨_, rfl⟩ := Prod.mk.inj hwritten
    exact ⟨bytes, rfl, hreceived, hafter⟩

end Reliable

namespace ByteSink

def IsOpen (sink : ByteSink) : Prop :=
  sink.limit = none ∧ sink.chunk ≠ some 0 ∧ sink.flushFails = false

def reliable : Reliable ByteSink where
  received sink := sink.received.toList
  healthy := IsOpen
  write := by
    intro sink bytes h hbytes
    obtain ⟨hlimit, hchunk, _⟩ := h
    have hempty : bytes.isEmpty = false := by simpa using hbytes
    have hfull : sink.isFull = false := by simp [isFull, hlimit]
    let offered :=
      match sink.chunk with
      | none => bytes.length
      | some chunk => min chunk bytes.length
    refine ⟨offered, { sink with received := sink.received ++ bytes.take offered }, ?_, ?_, ?_, ?_⟩
    · simp only [ByteWriter.write, ByteSink.write, hempty, hfull, room, hlimit,
        Bool.false_eq_true, ↓reduceIte]
      rfl
    · have hlength := List.length_pos_iff.mpr hbytes
      cases hvalue : sink.chunk with
      | none => simpa [offered, hvalue] using hlength
      | some chunk =>
        have hpositive : chunk ≠ 0 := by
          rintro rfl
          exact hchunk hvalue
        simp only [offered, hvalue]
        omega
    · simp
    · exact ⟨hlimit, hchunk, ‹_›⟩
  flush := by
    intro sink h
    refine ⟨sink, ?_, rfl, h⟩
    simp [ByteWriter.flush, ByteSink.flush, h.2.2]

end ByteSink

/-! ### Two writers with the same answers -/

def Agree {α β γ : Type} (related : α → β → Prop) (first : γ × α) (second : γ × β) : Prop :=
  first.1 = second.1 ∧ related first.2 second.2

namespace EncodingWriter

section

variable {σ : Type} [ByteWriter σ]

def proceed (writer : EncodingWriter σ) (cs : List Char) (held : List UInt8) :
    Except IoError Unit × EncodingWriter σ :=
  match writer.charset.encode writer.references cs with
  | .error error => (.error error, writer)
  | .ok bytes =>
    match ByteWriter.writeAll bytes writer.inner with
    | (.error error, inner) => (.error error, { writer with inner })
    | (.ok (), inner) => (.ok (), { writer with inner, pending := held })

theorem passOn_eq (writer : EncodingWriter σ) :
    writer.passOn
      = match Utf8.decode writer.pending with
        | (cs, .invalid length) => (.error (.invalidUtf8 length (Utf8.size cs)), writer)
        | (cs, .complete) => writer.proceed cs []
        | (cs, .incomplete held) => writer.proceed cs held := by
  unfold passOn
  cases Utf8.decode writer.pending with
  | mk cs tail => cases tail <;> rfl

theorem writeAll_utf8 (writer : EncodingWriter σ) (h : writer.charset = .utf8)
    (bytes : List UInt8) :
    ByteWriter.writeAll bytes writer
      = ((ByteWriter.writeAll bytes writer.inner).1,
        { writer with inner := (ByteWriter.writeAll bytes writer.inner).2 }) := by
  cases bytes with
  | nil =>
    rw [ByteWriter.writeAll, ByteWriter.writeAll]
  | cons first rest =>
    have hwrite : ByteWriter.write (first :: rest) writer
        = ((ByteWriter.write (first :: rest) writer.inner).1,
          { writer with inner := (ByteWriter.write (first :: rest) writer.inner).2 }) := by
      simp only [ByteWriter.write, EncodingWriter.write, h]
    rw [ByteWriter.writeAll, ByteWriter.writeAll, hwrite]
    cases ByteWriter.write (first :: rest) writer.inner with
    | mk result inner =>
      cases result with
      | error error => rfl
      | ok taken =>
        cases taken with
        | zero => rfl
        | succ taken =>
          simp only
          rw [writeAll_utf8 { writer with inner } h]
termination_by bytes.length

theorem write_passOn {writer : EncodingWriter σ} (h : writer.charset ≠ .utf8) (bytes : List UInt8) :
    ByteWriter.write bytes writer
      = let filled : EncodingWriter σ := { writer with pending := writer.pending ++ bytes }
        (filled.passOn.1.map fun _ => bytes.length, filled.passOn.2) := by
  simp only [ByteWriter.write, EncodingWriter.write]

theorem writeAll_passOn {writer : EncodingWriter σ} (h : writer.charset ≠ .utf8)
    {bytes : List UInt8} (hbytes : bytes ≠ []) :
    ByteWriter.writeAll bytes writer
      = ({ writer with pending := writer.pending ++ bytes } : EncodingWriter σ).passOn := by
  obtain ⟨first, rest, rfl⟩ := List.exists_cons_of_ne_nil hbytes
  let filled : EncodingWriter σ := { writer with pending := writer.pending ++ first :: rest }
  have hwrite : ByteWriter.write (first :: rest) writer
      = (filled.passOn.1.map fun _ => (first :: rest).length, filled.passOn.2) :=
    write_passOn h (first :: rest)
  rw [ByteWriter.writeAll, hwrite]
  cases hpass : filled.passOn with
  | mk result after =>
    cases result with
    | error error => rfl
    | ok =>
      simp only [Except.map, List.length_cons, List.drop_length]
      rw [ByteWriter.writeAll]

end

variable {σ τ : Type} [ByteWriter σ] [ByteWriter τ]

/--
The writers are in the same state, and the first one has got the bytes `before` more than the second one.
-/
structure Alike (reliable : Reliable σ) (model : Reliable τ) (before : List UInt8)
    (writer : EncodingWriter σ) (other : EncodingWriter τ) : Prop where
  charset : writer.charset = other.charset
  references : writer.references = other.references
  pending : writer.pending = other.pending
  received : reliable.received writer.inner = before ++ model.received other.inner
  healthy : reliable.healthy writer.inner
  model_healthy : model.healthy other.inner

variable {reliable : Reliable σ} {model : Reliable τ} {before : List UInt8}
  {writer : EncodingWriter σ} {other : EncodingWriter τ}

theorem Alike.inner (h : Alike reliable model before writer other) (bytes : List UInt8) :
    ∃ inner otherInner, ByteWriter.writeAll bytes writer.inner = (.ok (), inner)
      ∧ ByteWriter.writeAll bytes other.inner = (.ok (), otherInner)
      ∧ ∀ pending, Alike reliable model before { writer with inner, pending }
        { other with inner := otherInner, pending } := by
  obtain ⟨inner, hwrite, hreceived, hinner⟩ := reliable.writeAll bytes h.healthy
  obtain ⟨otherInner, hother, hotherReceived, hotherInner⟩ := model.writeAll bytes h.model_healthy
  refine ⟨inner, otherInner, hwrite, hother, ?_⟩
  intro pending
  refine ⟨h.charset, h.references, rfl, ?_, hinner, hotherInner⟩
  rw [hreceived, hotherReceived, h.received, List.append_assoc]

theorem Alike.proceed (h : Alike reliable model before writer other) (cs : List Char)
    (held : List UInt8) :
    Agree (Alike reliable model before) (writer.proceed cs held) (other.proceed cs held) := by
  unfold EncodingWriter.proceed
  rw [h.charset, h.references]
  cases other.charset.encode other.references cs with
  | error error => exact ⟨rfl, h⟩
  | ok bytes =>
    obtain ⟨inner, otherInner, hwrite, hother, halike⟩ := h.inner bytes
    have hafter := halike held
    rw [h.charset, h.references] at hafter
    simp only
    rw [hwrite, hother]
    exact ⟨rfl, hafter⟩

theorem Alike.passOn (h : Alike reliable model before writer other) :
    Agree (Alike reliable model before) writer.passOn other.passOn := by
  rw [passOn_eq, passOn_eq, h.pending]
  cases Utf8.decode other.pending with
  | mk cs tail =>
    cases tail with
    | invalid length => exact ⟨rfl, h⟩
    | complete => exact h.proceed cs []
    | incomplete held => exact h.proceed cs held

theorem Alike.writeAll (h : Alike reliable model before writer other) (bytes : List UInt8) :
    Agree (Alike reliable model before) (ByteWriter.writeAll bytes writer)
      (ByteWriter.writeAll bytes other) := by
  -- UTF-8 goes through piece by piece, while any other charset takes all the bytes at once.
  by_cases hcharset : writer.charset = .utf8
  · rw [writeAll_utf8 writer hcharset, writeAll_utf8 other (h.charset ▸ hcharset)]
    obtain ⟨inner, otherInner, hwrite, hother, halike⟩ := h.inner bytes
    rw [hwrite, hother, h.pending]
    exact ⟨rfl, halike other.pending⟩
  · by_cases hbytes : bytes = []
    · subst hbytes
      rw [ByteWriter.writeAll, ByteWriter.writeAll]
      exact ⟨rfl, h⟩
    · rw [writeAll_passOn hcharset hbytes, writeAll_passOn (h.charset ▸ hcharset) hbytes]
      apply Alike.passOn
      exact ⟨h.charset, h.references, by simp [h.pending], h.received, h.healthy, h.model_healthy⟩

theorem Alike.flush (h : Alike reliable model before writer other) :
    Agree (Alike reliable model before) (ByteWriter.flush writer) (ByteWriter.flush other) := by
  obtain ⟨after, hflush, hreceived, hafter⟩ := reliable.flush h.healthy
  obtain ⟨modelAfter, hmodelFlush, hmodelReceived, hmodelAfter⟩ := model.flush h.model_healthy
  simp only [ByteWriter.flush, EncodingWriter.flush] at hflush hmodelFlush ⊢
  rw [h.pending]
  split
  · rw [hflush, hmodelFlush]
    refine ⟨rfl, h.charset, h.references, rfl, ?_, hafter, hmodelAfter⟩
    rw [hreceived, hmodelReceived, h.received]
  · exact ⟨rfl, h⟩

end EncodingWriter

namespace FinalSerializer

section

variable {σ : Type} [ByteWriter σ]

def given (serializer : FinalSerializer σ) (events : List Xml.Event) : FinalSerializer σ :=
  events.foldl (fun serializer event => (serializer.write event).2) serializer

def answer (serializer : FinalSerializer σ) (before : List Xml.Event) (event : Xml.Event) :
    Except Error Unit :=
  ((serializer.given before).write event).1

end

variable {σ τ : Type} [ByteWriter σ] [ByteWriter τ]

structure Alike (reliable : Reliable σ) (model : Reliable τ) (before : List UInt8)
    (serializer : FinalSerializer σ) (other : FinalSerializer τ) : Prop where
  properties : serializer.properties = other.properties
  isStarted : serializer.isStarted = other.isStarted
  openVoid : serializer.openVoid = other.openVoid
  layout : serializer.writer.layout = other.writer.layout
  encoder : EncodingWriter.Alike reliable model before serializer.writer.out other.writer.out

variable {reliable : Reliable σ} {model : Reliable τ} {before : List UInt8}
  {serializer : FinalSerializer σ} {other : FinalSerializer τ}

theorem Alike.put (h : Alike reliable model before serializer other) (piece : Xml.Piece) :
    Agree (Alike reliable model before) (serializer.put piece) (other.put piece) := by
  obtain ⟨hresult, hencoder⟩ :=
    h.encoder.writeAll (Utf8.encode (other.writer.layout.put piece).1)
  unfold FinalSerializer.put Xml.Writer.put
  simp only
  rw [h.layout, hresult]
  exact ⟨rfl, h.properties, h.isStarted, h.openVoid, rfl, hencoder⟩

theorem Alike.start (h : Alike reliable model before serializer other) :
    Agree (Alike reliable model before) serializer.start other.start := by
  have hstarted : Alike reliable model before { serializer with isStarted := true }
      { other with isStarted := true } :=
    ⟨h.properties, rfl, h.openVoid, h.layout, h.encoder⟩
  unfold FinalSerializer.start
  simp only
  rw [h.isStarted, h.properties]
  split
  · exact ⟨rfl, h⟩
  · split
    · have hput := hstarted.put
        (.declaration other.properties.charset.name other.properties.standalone?)
      rw [h.properties] at hput
      exact hput
    · rw [h.properties] at hstarted
      exact ⟨rfl, hstarted⟩

theorem Alike.writeHtml (h : Alike reliable model before serializer other) (event : Xml.Event) :
    Agree (Alike reliable model before) (serializer.writeHtml event) (other.writeHtml event) := by
  unfold FinalSerializer.writeHtml
  cases event with
  | opening start =>
    simp only
    split
    · apply Alike.put
      exact ⟨h.properties, h.isStarted, rfl, h.layout, h.encoder⟩
    · exact h.put _
  | text content => exact h.put _
  | closing name =>
    simp only
    rw [h.openVoid]
    split
    · exact ⟨rfl, h.properties, h.isStarted, rfl, h.layout, h.encoder⟩
    · exact h.put _

theorem Alike.writeText (h : Alike reliable model before serializer other) (event : Xml.Event) :
    Agree (Alike reliable model before) (serializer.writeText event) (other.writeText event) := by
  unfold FinalSerializer.writeText
  cases event with
  | opening start => exact ⟨rfl, h⟩
  | text content => exact h.put _
  | closing name => exact ⟨rfl, h⟩

theorem Alike.write (h : Alike reliable model before serializer other) (event : Xml.Event) :
    Agree (Alike reliable model before) (serializer.write event) (other.write event) := by
  obtain ⟨hresult, hstarted⟩ := h.start
  unfold FinalSerializer.write
  cases hfirst : serializer.start with
  | mk result started =>
    cases hsecond : other.start with
    | mk otherResult otherStarted =>
      rw [hfirst, hsecond] at hresult hstarted
      obtain rfl : result = otherResult := hresult
      cases result with
      | error error => exact ⟨rfl, hstarted⟩
      | ok =>
        simp only
        rw [hstarted.properties]
        cases otherStarted.properties.method with
        | text => exact hstarted.writeText event
        | html => exact hstarted.writeHtml event
        | xml => exact hstarted.put event.toPiece
        | xhtml => exact hstarted.put event.toPiece

theorem Alike.finish (h : Alike reliable model before serializer other) :
    Agree (Alike reliable model before) serializer.finish other.finish := by
  obtain ⟨hresult, hencoder⟩ := h.encoder.flush
  unfold FinalSerializer.finish
  simp only
  rw [hresult]
  exact ⟨rfl, h.properties, h.isStarted, h.openVoid, h.layout, hencoder⟩

theorem Alike.given (h : Alike reliable model before serializer other) (events : List Xml.Event) :
    Alike reliable model before (serializer.given events) (other.given events) := by
  induction events generalizing serializer other with
  | nil => exact h
  | cons event events ih => exact ih (h.write event).2

theorem Alike.answer (h : Alike reliable model before serializer other) :
    serializer.answer = other.answer := by
  funext events event
  exact ((h.given events).write event).1

theorem Alike.create {out : σ} {sink : τ} (properties : OutputProperties) (h : reliable.healthy out)
    (hsink : model.healthy sink) (hreceived : reliable.received out = before ++ model.received sink) :
    Alike reliable model before (create properties out) (create properties sink) :=
  ⟨rfl, rfl, rfl, rfl, rfl, rfl, rfl, hreceived, h, hsink⟩

end FinalSerializer
end XmlPipeline
