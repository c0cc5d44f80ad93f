import XmlPipeline.Proofs.Output.Transcoding
import XmlPipeline.Proofs.Text.Characters

/-!
This module contains texts that come to a character set in pieces. The main statement says where the writer
stands after each piece, wherever the pieces are cut: it has passed on all complete characters and holds back
the bytes of the one that is not complete.
-/

namespace XmlPipeline
namespace EncodingWriter

section

variable {σ : Type} [ByteWriter σ] {reliable : Reliable σ} {first writer : EncodingWriter σ}
  {taken piece : List UInt8} {pieces : List (List UInt8)} {cs : List Char}

def written (writer : EncodingWriter σ) (pieces : List (List UInt8)) : EncodingWriter σ :=
  pieces.foldl (fun writer piece => (ByteWriter.write piece writer).2) writer

theorem passOn_of_valid (h : (Utf8.decode writer.pending).2.isInvalid = false) :
    writer.passOn = writer.proceed (Utf8.decode writer.pending).1 (Utf8.decode writer.pending).2.held := by
  rw [passOn_eq]
  generalize Utf8.decode writer.pending = decoded at h ⊢
  obtain ⟨cs, tail⟩ := decoded
  cases tail with
  | complete => rfl
  | incomplete held => rfl
  | invalid length => cases h

structure Took (reliable : Reliable σ) (first : EncodingWriter σ) (taken : List UInt8)
    (writer : EncodingWriter σ) : Prop where
  charset : writer.charset = first.charset
  references : writer.references = first.references
  pending : writer.pending = (Utf8.decode taken).2.held
  received : reliable.received writer.inner
    = reliable.received first.inner ++ first.charset.bytesOf (first.charset.spell (Utf8.decode taken).1)
  healthy : reliable.healthy writer.inner

theorem took_nil (hne : first.charset ≠ .utf8) (hpending : first.pending = [])
    (h : reliable.healthy first.inner) : Took reliable first [] first := by
  refine ⟨rfl, rfl, by simp [hpending, Utf8.decode, Utf8.Tail.held], ?_, h⟩
  simp [Utf8.decode, Charset.spell, Charset.bytesOf_of_ne hne]

theorem Took.write (h : Took reliable first taken writer) (hne : first.charset ≠ .utf8)
    (hvalid : (Utf8.decode (taken ++ piece)).2.isInvalid = false)
    (hable : ∀ c ∈ (Utf8.decode (taken ++ piece)).1, first.charset.able first.references c = true) :
    ∃ after, ByteWriter.write piece writer = (.ok piece.length, after)
      ∧ Took reliable first (taken ++ piece) after := by
  -- What was held back comes before the new bytes, as if all of it had been taken at once.
  have hdecode := Utf8.decode_append taken piece (Utf8.isInvalid_decode_of_append taken piece hvalid)
  rw [← h.pending] at hdecode
  rw [hdecode] at hvalid hable
  let filled : EncodingWriter σ := { writer with pending := writer.pending ++ piece }
  have hencode : filled.charset.encode filled.references (Utf8.decode filled.pending).1
      = .ok (first.charset.bytesOf (first.charset.spell (Utf8.decode filled.pending).1)) := by
    show writer.charset.encode writer.references _ = _
    rw [h.charset, h.references]
    exact Charset.encode_of_able hne fun c hc => hable c (List.mem_append_right _ hc)
  obtain ⟨inner, hproceed, hreceived, hinner⟩ :=
    proceed_ok filled h.healthy hencode (Utf8.decode filled.pending).2.held
  have hpass : filled.passOn
      = (.ok (), { filled with inner, pending := (Utf8.decode filled.pending).2.held }) := by
    rw [passOn_of_valid hvalid, hproceed]
  refine ⟨{ filled with inner, pending := (Utf8.decode filled.pending).2.held }, ?_, h.charset,
    h.references, ?_, ?_, hinner⟩
  · rw [write_passOn (h.charset ▸ hne)]
    show (filled.passOn.1.map _, filled.passOn.2) = _
    rw [hpass]
    rfl
  · rw [hdecode]
  · rw [hreceived, hdecode, Charset.spell_append, Charset.bytesOf_append, ← List.append_assoc]
    exact congrArg (· ++ _) h.received

theorem Took.write_cut (h : Took reliable first taken writer) (hne : first.charset ≠ .utf8)
    (hable : ∀ c ∈ cs, first.charset.able first.references c = true)
    (hcut : taken ++ piece <+: Utf8.encode cs) :
    ∃ after, ByteWriter.write piece writer = (.ok piece.length, after)
      ∧ Took reliable first (taken ++ piece) after := by
  obtain ⟨hvalid, rest, hcs, -⟩ := Utf8.decode_of_prefix hcut
  apply h.write hne hvalid
  intro c hc
  exact hable c (hcs ▸ List.mem_append_left _ hc)

theorem Took.written (h : Took reliable first taken writer) (hne : first.charset ≠ .utf8)
    (hable : ∀ c ∈ cs, first.charset.able first.references c = true)
    (hcut : taken ++ pieces.flatten <+: Utf8.encode cs) :
    Took reliable first (taken ++ pieces.flatten) (writer.written pieces) := by
  induction pieces generalizing taken writer with
  | nil => simpa [EncodingWriter.written] using h
  | cons piece pieces ih =>
    rw [List.flatten_cons, ← List.append_assoc] at hcut ⊢
    obtain ⟨after, hwrite, hafter⟩ := h.write_cut hne hable ((List.prefix_append _ _).trans hcut)
    have hrest := ih hafter hcut
    unfold EncodingWriter.written at hrest ⊢
    rw [List.foldl_cons, hwrite]
    exact hrest

theorem Took.flush_complete (h : Took reliable first (Utf8.encode cs) writer) :
    ∃ after, ByteWriter.flush writer = (.ok (), after)
      ∧ reliable.received after.inner
        = reliable.received first.inner ++ first.charset.bytesOf (first.charset.spell cs) := by
  obtain ⟨inner, hflush, hreceived, -⟩ := reliable.flush h.healthy
  have hpending : writer.pending = [] := by
    rw [h.pending, Utf8.decode_encode]
    rfl
  refine ⟨{ writer with inner }, ?_, ?_⟩
  · simp only [ByteWriter.flush, EncodingWriter.flush, hpending] at hflush ⊢
    simp [hflush]
  · rw [hreceived, h.received, Utf8.decode_encode]

theorem flush_of_pending (h : writer.pending ≠ []) :
    ByteWriter.flush writer = (.error .cutCharacter, writer) := by
  simp [ByteWriter.flush, EncodingWriter.flush, h]

theorem written_pieces {out : σ} {charset : Charset} {references : Bool} (hne : charset ≠ .utf8)
    (hout : reliable.healthy out) (hable : references = true ∨ ∀ c ∈ cs, charset.holds c = true)
    (hcut : pieces.flatten <+: Utf8.encode cs) :
    let writer : EncodingWriter σ := { inner := out, charset, references }
    (∀ done piece, done ++ [piece] <+: pieces →
        (ByteWriter.write piece (writer.written done)).1 = .ok piece.length)
      ∧ (∀ done, done <+: pieces → ∃ seen rest, cs = seen ++ rest
          ∧ done.flatten = Utf8.encode seen ++ (writer.written done).pending
          ∧ ((writer.written done).pending = []
            ∨ ∃ c more, rest = c :: more ∧ Utf8.IsPart c (writer.written done).pending)
          ∧ reliable.received (writer.written done).inner
            = reliable.received out ++ charset.bytesOf (charset.spell seen))
      ∧ (∀ text, pieces.flatten = Utf8.encode text →
          ∃ after, ByteWriter.flush (writer.written pieces) = (.ok (), after)
            ∧ reliable.received after.inner
              = reliable.received out ++ charset.bytesOf (charset.spell text))
      ∧ ((∀ text, pieces.flatten ≠ Utf8.encode text) →
          ByteWriter.flush (writer.written pieces) = (.error .cutCharacter, writer.written pieces)) := by
  intro writer
  have hable : ∀ c ∈ cs, writer.charset.able writer.references c = true := by
    intro c hc
    rcases hable with rfl | hholds
    · rfl
    · simp [Charset.able, writer, hholds c hc]
  have hbefore : ∀ done, done <+: pieces → done.flatten <+: Utf8.encode cs := by
    rintro done ⟨more, rfl⟩
    rw [List.flatten_append] at hcut
    exact (List.prefix_append _ _).trans hcut
  have htook : ∀ done, done <+: pieces → Took reliable writer done.flatten (writer.written done) := by
    intro done hdone
    simpa using (took_nil hne rfl hout).written hne hable (by simpa using hbefore done hdone)
  have hall := htook pieces (List.prefix_refl pieces)
  refine ⟨?_, ?_, ?_, ?_⟩
  · intro done piece hdone
    have hpiece := hbefore _ hdone
    rw [List.flatten_concat] at hpiece
    obtain ⟨after, hwrite, -⟩ :=
      (htook done ((List.prefix_append _ _).trans hdone)).write_cut hne hable hpiece
    rw [hwrite]
  · intro done hdone
    obtain ⟨hvalid, rest, hcs, hheld⟩ := Utf8.decode_of_prefix (hbefore done hdone)
    obtain ⟨-, -, hpending, hreceived, -⟩ := htook done hdone
    refine ⟨_, rest, hcs, ?_, hpending ▸ hheld, hreceived⟩
    rw [hpending, Utf8.encode_decode _ hvalid]
  · intro text htext
    rw [htext] at hall
    exact hall.flush_complete
  · intro hincomplete
    apply flush_of_pending
    intro hnil
    apply hincomplete (Utf8.decode pieces.flatten).1
    have hvalid := (Utf8.decode_of_prefix hcut).1
    have hwhole := Utf8.encode_decode _ hvalid
    rw [← hall.pending, hnil, List.append_nil] at hwhole
    exact hwhole.symm

end

def cutText : List (List UInt8) :=
  -- The text `é€`, cut in the middle of both characters.
  [[0xC3], [0xA9, 0xE2, 0x82], [], [0xAC]]

theorem written_pieces_cutText :
    let writer : EncodingWriter ByteSink := {
      inner := { chunk := some 1 }, charset := .latin1, references := true }
    writer.charset ≠ .utf8 ∧ ByteSink.reliable.healthy writer.inner
      ∧ cutText.flatten = Utf8.encode ['é', '€']
      ∧ (ByteWriter.write [0xA9, 0xE2, 0x82] (writer.written [[0xC3]])).1 = .ok 3
      ∧ (∃ seen rest, ['é', '€'] = seen ++ rest
        ∧ [[0xC3], [0xA9, 0xE2, 0x82]].flatten
          = Utf8.encode seen ++ (writer.written [[0xC3], [0xA9, 0xE2, 0x82]]).pending
        ∧ (writer.written [[0xC3], [0xA9, 0xE2, 0x82]]).inner.received.toList
          = Charset.latin1.bytesOf (Charset.latin1.spell seen))
      ∧ ∃ after, ByteWriter.flush (writer.written cutText) = (.ok (), after)
        ∧ after.inner.received.toList = [0xE9, 0x26, 0x23, 0x38, 0x33, 0x36, 0x34, 0x3B] := by
  intro writer
  have hhealthy : ByteSink.reliable.healthy writer.inner := ⟨rfl, by decide, rfl⟩
  have hwhole : cutText.flatten = Utf8.encode ['é', '€'] := by decide
  have hcut : cutText.flatten <+: Utf8.encode ['é', '€'] := hwhole ▸ List.prefix_refl _
  have hcharset : Charset.latin1 ≠ .utf8 := by decide
  obtain ⟨hwrite, hstands, hflush, -⟩ := written_pieces hcharset hhealthy (.inl rfl) hcut
  refine ⟨hcharset, hhealthy, hwhole, hwrite [[0xC3]] _ (by decide), ?_, ?_⟩
  · obtain ⟨seen, rest, hcs, htaken, -, hreceived⟩ :=
      hstands [[0xC3], [0xA9, 0xE2, 0x82]] (by decide)
    exact ⟨seen, rest, hcs, htaken, hreceived⟩
  · obtain ⟨after, hflush, hreceived⟩ := hflush ['é', '€'] hwhole
    exact ⟨after, hflush, hreceived.trans (by decide +kernel)⟩

end EncodingWriter
end XmlPipeline
