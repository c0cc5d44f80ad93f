import XmlPipeline.Proofs.Output.Pieces
import XmlPipeline.Proofs.Result

/-!
This module contains what becomes of a writer into a character set once it refused bytes because of what they
are. The main statement is that it does not recover: these bytes stay with the ones that are held back, and
whatever comes after them is refused as well.
-/

namespace XmlPipeline

namespace IoError

/--
The bytes are to blame, and not the receiver.
-/
def OfData (error : IoError) : Prop :=
  error.kind = "InvalidData"

end IoError

namespace ByteWriter

def TakesAnyData (σ : Type) [ByteWriter σ] : Prop :=
  ∀ bytes (out : σ) error, (ByteWriter.write bytes out).1 = .error error → ¬ error.OfData

variable {σ : Type} [ByteWriter σ]

theorem TakesAnyData.writeAll (h : TakesAnyData σ) (bytes : List UInt8) (out : σ) (error : IoError)
    (herror : (ByteWriter.writeAll bytes out).1 = .error error) : ¬ error.OfData := by
  cases bytes with
  | nil =>
    rw [ByteWriter.writeAll] at herror
    cases herror
  | cons first rest =>
    have hwrite := h (first :: rest) out
    rw [ByteWriter.writeAll] at herror
    split at herror
    · next other between heq =>
      obtain rfl := Except.error.inj herror
      exact hwrite other (by rw [heq])
    · obtain rfl := Except.error.inj herror
      simp [IoError.OfData, IoError.kind]
    · next taken between heq => exact h.writeAll (rest.drop taken) between error herror
termination_by bytes.length

end ByteWriter

open ByteWriter (TakesAnyData)

namespace ByteSink

theorem takesAnyData : TakesAnyData ByteSink := by
  intro bytes sink error herror
  simp only [ByteWriter.write, ByteSink.write] at herror
  split at herror
  · cases herror
  · split at herror
    · obtain rfl := Except.error.inj herror
      simp [IoError.OfData, IoError.kind]
    · cases herror

end ByteSink

namespace Charset

variable {charset : Charset} {references : Bool} {c : Char} {cs : List Char} {bytes : List UInt8}

/--
The bytes are not the beginning of a text that can be written.
-/
def Hopeless (charset : Charset) (references : Bool) (bytes : List UInt8) : Prop :=
  (Utf8.decode bytes).2.isInvalid = true
    ∨ ∃ c ∈ (Utf8.decode bytes).1, charset.able references c = false

theorem Hopeless.append (h : charset.Hopeless references bytes) (more : List UInt8) :
    charset.Hopeless references (bytes ++ more) := by
  cases hvalid : (Utf8.decode bytes).2.isInvalid with
  | true => exact .inl (Utf8.isInvalid_decode_append bytes more hvalid)
  | false =>
    rcases h with hinvalid | ⟨c, hc, hable⟩
    · rw [hvalid] at hinvalid
      cases hinvalid
    · right
      rw [Utf8.decode_append bytes more hvalid]
      exact ⟨c, List.mem_append_left _ hc, hable⟩

theorem Hopeless.ne_nil (h : charset.Hopeless references bytes) : bytes ≠ [] := by
  rintro rfl
  simp [Hopeless, Utf8.decode, Utf8.Tail.isInvalid] at h

theorem encodeChar_of_not_able (h : charset.able references c = false) :
    charset.encodeChar references c = .error (.unrepresentable c charset.name) := by
  rw [able, Bool.or_eq_false_iff] at h
  simp [encodeChar, h.1, h.2]

theorem exists_encode_error (hne : charset ≠ utf8) (h : ∃ c ∈ cs, charset.able references c = false) :
    ∃ c, charset.encode references cs = .error (.unrepresentable c charset.name) := by
  induction cs with
  | nil => simp at h
  | cons c cs ih =>
    unfold encode
    cases hable : charset.able references c with
    | false => exact ⟨c, by rw [encodeChar_of_not_able hable]⟩
    | true =>
      have hrest : ∃ c ∈ cs, charset.able references c = false := by simpa [hable] using h
      obtain ⟨x, hx⟩ := ih hrest
      refine ⟨x, ?_⟩
      rw [encodeChar_of_able hne hable, hx]
      rfl

end Charset

namespace EncodingWriter

variable {σ : Type} {writer after : EncodingWriter σ} {bytes : List UInt8} {error : IoError}

/-! ### Bytes that are refused -/

def fill (writer : EncodingWriter σ) (bytes : List UInt8) : EncodingWriter σ :=
  { writer with pending := writer.pending ++ bytes }

/--
What the writer holds back is not the beginning of a text that it can write.
-/
structure Stuck (writer : EncodingWriter σ) : Prop where
  charset : writer.charset ≠ .utf8
  pending : writer.charset.Hopeless writer.references writer.pending

theorem fill_fill (writer : EncodingWriter σ) (first second : List UInt8) :
    (writer.fill first).fill second = writer.fill (first ++ second) := by
  simp [fill]

theorem Stuck.fill (h : writer.Stuck) (bytes : List UInt8) : (writer.fill bytes).Stuck :=
  ⟨h.charset, h.pending.append bytes⟩

variable [ByteWriter σ]

theorem passOn_of_invalid (h : (Utf8.decode writer.pending).2.isInvalid = true) :
    ∃ error, writer.passOn = (.error error, writer) ∧ error.OfData := by
  rw [passOn_eq]
  generalize Utf8.decode writer.pending = decoded at h ⊢
  obtain ⟨cs, tail⟩ := decoded
  cases tail with
  | invalid length => exact ⟨_, rfl, rfl⟩
  | complete => cases h
  | incomplete held => cases h

theorem Stuck.passOn (h : writer.Stuck) :
    ∃ error, writer.passOn = (.error error, writer) ∧ error.OfData := by
  cases hvalid : (Utf8.decode writer.pending).2.isInvalid with
  | true => exact passOn_of_invalid hvalid
  | false =>
    have hunable := h.pending.resolve_left (by simp [hvalid])
    obtain ⟨c, hencode⟩ := Charset.exists_encode_error h.charset hunable
    refine ⟨.unrepresentable c writer.charset.name, ?_, rfl⟩
    rw [passOn_of_valid hvalid]
    unfold EncodingWriter.proceed
    rw [hencode]

theorem write_of_stuck (h : (writer.fill bytes).Stuck) :
    ∃ error, ByteWriter.write bytes writer = (.error error, writer.fill bytes) ∧ error.OfData := by
  obtain ⟨error, hpass, hdata⟩ := h.passOn
  have hcharset : writer.charset ≠ .utf8 := h.charset
  refine ⟨error, ?_, hdata⟩
  rw [write_passOn hcharset]
  show ((writer.fill bytes).passOn.1.map _, (writer.fill bytes).passOn.2) = _
  rw [hpass]
  rfl

theorem passOn_of_not_stuck (hsink : TakesAnyData σ) (writer : EncodingWriter σ)
    (hcharset : writer.charset ≠ .utf8) (h : ¬ writer.Stuck) (herror : writer.passOn.1 = .error error) :
    ¬ error.OfData := by
  have hhopeful : ¬ writer.charset.Hopeless writer.references writer.pending :=
    fun hpending => h ⟨hcharset, hpending⟩
  simp only [Charset.Hopeless, not_or, Bool.not_eq_true, not_exists, not_and, Bool.not_eq_false]
    at hhopeful
  obtain ⟨hvalid, hable⟩ := hhopeful
  have hencode := Charset.encode_of_able hcharset hable
  rw [passOn_of_valid hvalid] at herror
  unfold EncodingWriter.proceed at herror
  rw [hencode] at herror
  simp only at herror
  split at herror
  · next other inner hwrite =>
    obtain rfl := Except.error.inj herror
    exact hsink.writeAll _ writer.inner other (by rw [hwrite])
  · cases herror

theorem stuck_of_write (hsink : TakesAnyData σ) (h : (ByteWriter.write bytes writer).1 = .error error)
    (hdata : error.OfData) : (writer.fill bytes).Stuck := by
  by_cases hcharset : writer.charset = .utf8
  · simp only [ByteWriter.write, EncodingWriter.write, hcharset] at h
    exact absurd hdata (hsink bytes writer.inner error h)
  · by_cases hstuck : (writer.fill bytes).Stuck
    · exact hstuck
    · rw [write_passOn hcharset] at h
      have hpass : (writer.fill bytes).passOn.1 = .error error := eq_error_of_map h
      exact absurd hdata (passOn_of_not_stuck hsink (writer.fill bytes) hcharset hstuck hpass)

theorem Stuck.written (h : writer.Stuck) (pieces : List (List UInt8)) :
    writer.written pieces = writer.fill pieces.flatten := by
  induction pieces generalizing writer with
  | nil => simp [EncodingWriter.written, EncodingWriter.fill]
  | cons piece pieces ih =>
    obtain ⟨error, hwrite, -⟩ := write_of_stuck (h.fill piece)
    have hrest := ih (h.fill piece)
    rw [fill_fill] at hrest
    rw [List.flatten_cons, ← hrest]
    unfold EncodingWriter.written
    rw [List.foldl_cons, hwrite]

/-! ### Bytes that are held back -/

theorem pending_of_proceed {cs : List Char} {held : List UInt8} (h : (writer.proceed cs held).1 = .ok ()) :
    (writer.proceed cs held).2.pending = held := by
  unfold EncodingWriter.proceed at h ⊢
  split at h
  · cases h
  · split at h
    · cases h
    · rfl

theorem pending_of_passOn (h : writer.passOn.1 = .ok ()) :
    writer.passOn.2.pending = (Utf8.decode writer.pending).2.held := by
  cases hvalid : (Utf8.decode writer.pending).2.isInvalid with
  | true =>
    obtain ⟨error, hpass, -⟩ := passOn_of_invalid hvalid
    rw [hpass] at h
    cases h
  | false =>
    rw [passOn_of_valid hvalid] at h ⊢
    exact pending_of_proceed h

def HoldsPart (writer : EncodingWriter σ) : Prop :=
  ∃ taken, writer.pending = (Utf8.decode taken).2.held

theorem HoldsPart.write {n : Nat} (h : writer.HoldsPart)
    (hwrite : (ByteWriter.write bytes writer).1 = .ok n) : (ByteWriter.write bytes writer).2.HoldsPart := by
  by_cases hcharset : writer.charset = .utf8
  · simp only [ByteWriter.write, EncodingWriter.write, hcharset]
    exact h
  · rw [write_passOn hcharset] at hwrite ⊢
    obtain ⟨_, hpass, -⟩ := exists_of_map_ok hwrite
    exact ⟨writer.pending ++ bytes, pending_of_passOn hpass⟩

theorem HoldsPart.written (h : writer.HoldsPart) {pieces : List (List UInt8)}
    (hwrite : ∀ done piece, done ++ [piece] <+: pieces →
      ∃ n, (ByteWriter.write piece (writer.written done)).1 = .ok n) :
    (writer.written pieces).HoldsPart := by
  induction pieces generalizing writer with
  | nil => exact h
  | cons piece pieces ih =>
    obtain ⟨n, hpiece⟩ := hwrite [] piece (by simp)
    apply ih (h.write hpiece)
    intro done other hdone
    exact hwrite (piece :: done) other (by simpa using hdone)

theorem write_refused (hsink : TakesAnyData σ) {out : σ} {charset : Charset} {references : Bool}
    {pieces : List (List UInt8)}
    (h : ByteWriter.write bytes
        (({ inner := out, charset, references } : EncodingWriter σ).written pieces) = (.error error, after))
    (hdata : error.OfData) :
    let first : EncodingWriter σ := { inner := out, charset, references }
    let writer := first.written pieces
    after = { writer with pending := writer.pending ++ bytes }
      ∧ (∀ more, after.written more = { after with pending := after.pending ++ more.flatten }
        ∧ (∀ piece, ∃ error, (ByteWriter.write piece (after.written more)).1 = .error error
          ∧ error.OfData)
        ∧ ByteWriter.flush (after.written more) = (.error .cutCharacter, after.written more))
      ∧ ((∀ done piece, done ++ [piece] <+: pieces →
          ∃ n, (ByteWriter.write piece (first.written done)).1 = .ok n) →
        ∃ c, Utf8.IsPart c writer.pending) := by
  intro first writer
  -- The bytes that were refused are among the ones held back, and no bytes behind them can mend that.
  have hstuck : (writer.fill bytes).Stuck := stuck_of_write hsink (by rw [h]) hdata
  obtain ⟨other, hwrite, -⟩ := write_of_stuck hstuck
  obtain ⟨-, rfl⟩ := Prod.mk.inj (h.symm.trans hwrite)
  refine ⟨rfl, ?_, ?_⟩
  · intro more
    have hmore := hstuck.fill more.flatten
    rw [hstuck.written more]
    refine ⟨rfl, ?_, flush_of_pending hmore.pending.ne_nil⟩
    intro piece
    obtain ⟨last, hpiece, hlast⟩ := write_of_stuck (hmore.fill piece)
    exact ⟨last, by rw [hpiece], hlast⟩
  · intro hall
    have hfirst : first.HoldsPart := ⟨[], by simp [first, Utf8.decode, Utf8.Tail.held]⟩
    obtain ⟨taken, htaken⟩ := hfirst.written hall
    rw [htaken]
    exact Utf8.exists_isPart_held taken

def asciiWriter : EncodingWriter ByteSink where
  inner := {}
  charset := .ascii
  references := false

theorem write_refused_asciiWriter :
    -- The second byte of `é` comes after the first one was held back.
    let writer := asciiWriter.written [[0x61, 0xC3]]
    let refused : EncodingWriter ByteSink := { writer with pending := [0xC3, 0xA9] }
    ByteWriter.write [0xA9] writer = (.error (.unrepresentable 'é' "US-ASCII"), refused)
      ∧ writer.inner.received = #[0x61] ∧ (∃ c, Utf8.IsPart c writer.pending)
      ∧ refused.written [[0x62]] = { writer with pending := [0xC3, 0xA9, 0x62] }
      ∧ (∃ error, (ByteWriter.write [0x63] (refused.written [[0x62]])).1 = .error error)
      ∧ (ByteWriter.flush (refused.written [[0x62]])).1 = .error .cutCharacter := by
  intro writer refused
  have h : ByteWriter.write [0xA9] writer = (.error (.unrepresentable 'é' "US-ASCII"), refused) := by
    with_unfolding_all rfl
  obtain ⟨-, hlater, hheld⟩ := write_refused ByteSink.takesAnyData h rfl
  obtain ⟨hfill, hwrite, hflush⟩ := hlater [[0x62]]
  obtain ⟨error, herror, -⟩ := hwrite [0x63]
  refine ⟨h, by decide +kernel, hheld ?_, hfill, ⟨error, herror⟩, by rw [hflush]⟩
  intro done piece hdone
  obtain ⟨rfl, rfl⟩ : done = [] ∧ piece = [0x61, 0xC3] := by
    cases done with
    | nil => simpa using hdone
    | cons other done => simp at hdone
  exact ⟨2, by with_unfolding_all rfl⟩

theorem write_rememberedPiece :
    let refused := ByteWriter.write (Utf8.encode ['é']) asciiWriter
    refused.1 = .error (.unrepresentable 'é' "US-ASCII")
      ∧ (IoError.unrepresentable 'é' "US-ASCII").kind = "InvalidData"
      ∧ asciiWriter.pending = [] ∧ refused.2.pending = [0xC3, 0xA9]
      ∧ (ByteWriter.write (Utf8.encode ['a']) asciiWriter).1 = .ok 1
      ∧ (ByteWriter.write (Utf8.encode ['a']) refused.2).1 = .error (.unrepresentable 'é' "US-ASCII") := by
  with_unfolding_all
    exact ⟨rfl, rfl, rfl, rfl, rfl, rfl⟩

end EncodingWriter
end XmlPipeline
