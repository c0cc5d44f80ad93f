import XmlPipeline.Proofs.Output.Reliable
import XmlPipeline.Proofs.Text.Unsigned
import XmlPipeline.Proofs.Text.Utf8
import XmlPipeline.Proofs.Xml.WrittenMarkup

/-!
This module contains the change of a text into a character set that does not hold all of its characters.
The main statement is that the bytes of a text are the same however the text is cut into pieces, also where
a character is cut in two.
-/

namespace XmlPipeline
namespace Charset

variable {charset : Charset} {c : Char} {cs : List Char}

/-! ### The bytes of a text -/

def decode? (charset : Charset) (bytes : List UInt8) : Option String :=
  match charset with
  | utf8 => Utf8.decode? bytes
  | latin1 => some (String.ofList (bytes.map fun b => Char.ofNat b.toNat))
  | ascii =>
    if bytes.all (· < 0x80) then
      some (String.ofList (bytes.map fun b => Char.ofNat b.toNat))
    else
      none

def bytesOf (charset : Charset) (cs : List Char) : List UInt8 :=
  match charset with
  | utf8 => Utf8.encode cs
  | _ => cs.map fun c => UInt8.ofNat c.toNat

theorem bytesOf_of_ne (h : charset ≠ utf8) (cs : List Char) :
    charset.bytesOf cs = cs.map fun c => UInt8.ofNat c.toNat := by
  cases charset <;> simp_all [bytesOf]

theorem bytesOf_append (charset : Charset) (first second : List Char) :
    charset.bytesOf (first ++ second) = charset.bytesOf first ++ charset.bytesOf second := by
  cases charset <;> simp [bytesOf, Utf8.encode_append]

theorem holds_iff : charset.holds c = true ↔ c.toNat ≤ charset.limit :=
  decide_eq_true_iff

theorem holds_utf8 (c : Char) : utf8.holds c = true := by
  have hvalid : c.toNat < 0xD800 ∨ 0xDFFF < c.toNat ∧ c.toNat < 0x110000 := c.valid
  rw [holds_iff, limit]
  omega

theorem holds_of_ascii (h : c.toNat ≤ 0x7F) : charset.holds c = true := by
  rw [holds_iff]
  cases charset <;> simp only [limit] <;> omega

theorem map_ofNat_toNat (h : ∀ c ∈ cs, c.toNat ≤ 0xFF) :
    (cs.map fun c => UInt8.ofNat c.toNat).map (fun b => Char.ofNat b.toNat) = cs := by
  rw [List.map_map]
  have hback : cs.map ((fun b : UInt8 => Char.ofNat b.toNat) ∘ fun c => UInt8.ofNat c.toNat)
      = cs.map id := by
    apply List.map_congr_left
    intro c hc
    have htoNat : (UInt8.ofNat c.toNat).toNat = c.toNat := by
      rw [UInt8.toNat_ofNat']
      exact Nat.mod_eq_of_lt (Nat.lt_succ_of_le (h c hc))
    simp [htoNat]
  rw [hback, List.map_id]

theorem decode?_bytesOf (h : ∀ c ∈ cs, charset.holds c = true) :
    charset.decode? (charset.bytesOf cs) = some (String.ofList cs) := by
  have hlimit : ∀ c ∈ cs, c.toNat ≤ charset.limit := fun c hc => holds_iff.mp (h c hc)
  cases charset with
  | utf8 => simp [decode?, bytesOf, Utf8.decode?, Utf8.decode_encode]
  | latin1 =>
    rw [bytesOf_of_ne (by decide), decode?, map_ofNat_toNat hlimit]
  | ascii =>
    have hsmall : (cs.map fun c => UInt8.ofNat c.toNat).all (· < 0x80) = true := by
      simp only [List.all_map, List.all_eq_true, Function.comp_apply, decide_eq_true_eq,
        UInt8.lt_iff_toNat_lt, UInt8.toNat_ofNat', UInt8.reduceToNat]
      intro c hc
      have hc : c.toNat ≤ 0x7F := hlimit c hc
      omega
    rw [bytesOf_of_ne (by decide), decode?, if_pos hsmall,
      map_ofNat_toNat fun c hc => Nat.le_trans (hlimit c hc) (by decide)]

/-! ### References in the place of characters -/

def reference (c : Char) : List Char :=
  ("&#" ++ toString c.toNat ++ ";").toList

def spellChar (charset : Charset) (c : Char) : List Char :=
  if charset.holds c then [c] else reference c

def spell (charset : Charset) (cs : List Char) : List Char :=
  cs.flatMap charset.spellChar

theorem spell_append (charset : Charset) (first second : List Char) :
    charset.spell (first ++ second) = charset.spell first ++ charset.spell second :=
  List.flatMap_append

theorem spell_of_holds (h : ∀ c ∈ cs, charset.holds c = true) : charset.spell cs = cs := by
  induction cs with
  | nil => rfl
  | cons c cs ih =>
    have hcs := ih fun x hx => h x (List.mem_cons_of_mem _ hx)
    unfold spell at hcs ⊢
    rw [List.flatMap_cons, hcs, spellChar, if_pos (h c List.mem_cons_self)]
    rfl

theorem reference_eq (c : Char) :
    reference c = '&' :: ('#' :: Nat.toDigits 10 c.toNat ++ [';']) := by
  simp [reference]

theorem mem_reference {x : Char} (h : x ∈ reference c) :
    x = '&' ∨ x = '#' ∨ x = ';' ∨ x.isDigit = true := by
  rw [reference_eq] at h
  simp only [List.cons_append, List.mem_cons, List.mem_append, List.not_mem_nil, or_false] at h
  rcases h with h | h | h | h
  · exact .inl h
  · exact .inr (.inl h)
  · exact .inr (.inr (.inr (Text.isDigit_toDigits _ x h)))
  · exact .inr (.inr (.inl h))

theorem ascii_reference (c : Char) : ∀ x ∈ reference c, x.toNat ≤ 0x7F := by
  intro x hx
  rcases mem_reference hx with rfl | rfl | rfl | hdigit
  · decide
  · decide
  · decide
  · rw [Char.isDigit, Bool.and_eq_true, decide_eq_true_eq, decide_eq_true_eq] at hdigit
    have hnine : x.toNat ≤ 0x39 := hdigit.2
    exact Nat.le_trans hnine (by decide)

theorem holds_spell (charset : Charset) (cs : List Char) :
    ∀ c ∈ charset.spell cs, charset.holds c = true := by
  intro x hx
  obtain ⟨c, _, hx⟩ := List.mem_flatMap.mp hx
  unfold spellChar at hx
  split at hx
  · next hc =>
    obtain rfl := List.mem_singleton.mp hx
    exact hc
  · exact holds_of_ascii (ascii_reference c x hx)

theorem encodeChar_eq (h : charset ≠ utf8) (c : Char) :
    charset.encodeChar true c = .ok (charset.bytesOf (charset.spellChar c)) := by
  unfold encodeChar spellChar
  rw [bytesOf_of_ne h]
  split
  · rfl
  · simp only [↓reduceIte]
    rw [← Utf8.encode_of_ascii (ascii_reference c)]
    rfl

/--
The character can be written, if need be as a reference.
-/
def able (charset : Charset) (references : Bool) (c : Char) : Bool :=
  references || charset.holds c

theorem encodeChar_of_able {references : Bool} (h : charset ≠ utf8)
    (hable : charset.able references c = true) :
    charset.encodeChar references c = .ok (charset.bytesOf (charset.spellChar c)) := by
  rw [able, Bool.or_eq_true] at hable
  rw [← encodeChar_eq h]
  rcases hable with rfl | hholds
  · rfl
  · simp only [encodeChar, hholds, ↓reduceIte]

theorem encode_of_able {references : Bool} (h : charset ≠ utf8)
    (hable : ∀ c ∈ cs, charset.able references c = true) :
    charset.encode references cs = .ok (charset.bytesOf (charset.spell cs)) := by
  induction cs with
  | nil => simp [encode, spell, bytesOf_of_ne h]
  | cons c cs ih =>
    have hsplit : charset.spell (c :: cs) = charset.spellChar c ++ charset.spell cs := rfl
    rw [encode, encodeChar_of_able h (hable c List.mem_cons_self),
      ih fun x hx => hable x (List.mem_cons_of_mem _ hx), hsplit, bytesOf_append]
    rfl

theorem encode_eq (h : charset ≠ utf8) (cs : List Char) :
    charset.encode true cs = .ok (charset.bytesOf (charset.spell cs)) :=
  encode_of_able h fun _ _ => rfl

/--
What has been passed on after these bytes of UTF-8 were taken, and what is held back of them.
-/
def progress (charset : Charset) (taken : List UInt8) : List UInt8 × List UInt8 :=
  match charset with
  | utf8 => (taken, [])
  | _ => (charset.bytesOf (charset.spell (Utf8.decode taken).1), (Utf8.decode taken).2.held)

theorem progress_of_ne (h : charset ≠ utf8) (taken : List UInt8) :
    charset.progress taken
      = (charset.bytesOf (charset.spell (Utf8.decode taken).1), (Utf8.decode taken).2.held) := by
  cases charset <;> simp_all [progress]

theorem progress_encode (charset : Charset) (cs : List Char) :
    charset.progress (Utf8.encode cs) = (charset.bytesOf (charset.spell cs), []) := by
  by_cases h : charset = utf8
  · subst h
    rw [spell_of_holds fun c _ => holds_utf8 c]
    rfl
  · rw [progress_of_ne h, Utf8.decode_encode]
    rfl

theorem progress_nil (charset : Charset) : charset.progress [] = ([], []) := by
  have hnil : charset.progress [] = (charset.bytesOf [], []) := progress_encode charset []
  rw [hnil]
  cases charset <;> rfl

end Charset

/-! ### Texts that are written in pieces -/

namespace EncodingWriter

variable {σ : Type} [ByteWriter σ]

def writeEach (writer : EncodingWriter σ) : List (List UInt8) → Except IoError Unit × EncodingWriter σ
  | [] => (.ok (), writer)
  | piece :: pieces =>
    match ByteWriter.writeAll piece writer with
    | (.error error, writer) => (.error error, writer)
    | (.ok (), writer) => writer.writeEach pieces

/--
Where the writer stands after it has taken the bytes `taken` of UTF-8. It depends on all of them at once, and
not on the pieces in which they came.
-/
structure Passed (reliable : Reliable σ) (charset : Charset) (before taken : List UInt8)
    (writer : EncodingWriter σ) : Prop where
  into : writer.charset = charset
  references : writer.references = true
  pending : writer.pending = (charset.progress taken).2
  received : reliable.received writer.inner = before ++ (charset.progress taken).1
  healthy : reliable.healthy writer.inner

variable {reliable : Reliable σ} {charset : Charset} {before taken : List UInt8}
  {writer : EncodingWriter σ}

theorem passed_nil (hinto : writer.charset = charset) (hreferences : writer.references = true)
    (hpending : writer.pending = []) (hreceived : reliable.received writer.inner = before)
    (h : reliable.healthy writer.inner) : Passed reliable charset before [] writer := by
  refine ⟨hinto, hreferences, ?_, ?_, h⟩
  · rw [hpending, Charset.progress_nil]
  · rw [hreceived, Charset.progress_nil, List.append_nil]

theorem proceed_ok (writer : EncodingWriter σ) {cs : List Char} {bytes : List UInt8}
    (h : reliable.healthy writer.inner)
    (hencode : writer.charset.encode writer.references cs = .ok bytes) (held : List UInt8) :
    ∃ inner, writer.proceed cs held = (.ok (), { writer with inner, pending := held })
      ∧ reliable.received inner = reliable.received writer.inner ++ bytes
      ∧ reliable.healthy inner := by
  obtain ⟨inner, hwrite, hreceived, hinner⟩ := reliable.writeAll bytes h
  refine ⟨inner, ?_, hreceived, hinner⟩
  simp only [EncodingWriter.proceed, hencode, hwrite]

theorem Passed.proceed (h : Passed reliable charset before taken writer) (hne : charset ≠ .utf8)
    {bytes : List UInt8} {cs : List Char} {tail : Utf8.Tail}
    (hdecode : Utf8.decode (taken ++ bytes) = ((Utf8.decode taken).1 ++ cs, tail))
    (pending : List UInt8) :
    ∃ after, ({ writer with pending } : EncodingWriter σ).proceed cs tail.held = (.ok (), after)
      ∧ Passed reliable charset before (taken ++ bytes) after := by
  have hencode : writer.charset.encode writer.references cs = .ok (charset.bytesOf (charset.spell cs)) := by
    rw [h.into, h.references, Charset.encode_eq hne]
  obtain ⟨inner, hproceed, hreceived, hinner⟩ :=
    proceed_ok { writer with pending } h.healthy hencode tail.held
  refine ⟨_, hproceed, h.into, h.references, ?_, ?_, hinner⟩
  · rw [Charset.progress_of_ne hne, hdecode]
  · rw [hreceived, h.received, Charset.progress_of_ne hne, Charset.progress_of_ne hne, hdecode,
      Charset.spell_append, Charset.bytesOf_append, List.append_assoc]

theorem Passed.writeAll (h : Passed reliable charset before taken writer) (bytes : List UInt8)
    (hvalid : (Utf8.decode (taken ++ bytes)).2.isInvalid = false) :
    ∃ after, ByteWriter.writeAll bytes writer = (.ok (), after)
      ∧ Passed reliable charset before (taken ++ bytes) after := by
  by_cases hutf8 : charset = .utf8
  · subst hutf8
    obtain ⟨inner, hwrite, hreceived, hinner⟩ := reliable.writeAll bytes h.healthy
    refine ⟨{ writer with inner }, ?_, h.into, h.references, h.pending, ?_, hinner⟩
    · rw [writeAll_utf8 writer h.into, hwrite]
    · rw [hreceived, h.received]
      simp [Charset.progress]
  · by_cases hbytes : bytes = []
    · subst hbytes
      refine ⟨writer, ?_, by simpa using h⟩
      rw [ByteWriter.writeAll]
    · -- What was held back comes before the new bytes, as if all of it had been taken at once.
      have hbefore := Utf8.isInvalid_decode_of_append taken bytes hvalid
      have hdecode := Utf8.decode_append taken bytes hbefore
      have hpending : writer.pending = (Utf8.decode taken).2.held := by
        rw [h.pending, Charset.progress_of_ne hutf8]
      rw [writeAll_passOn (h.into ▸ hutf8) hbytes, passOn_eq]
      simp only
      rw [hpending]
      generalize Utf8.decode ((Utf8.decode taken).2.held ++ bytes) = more at hdecode ⊢
      obtain ⟨cs, tail⟩ := more
      cases tail with
      | complete => exact h.proceed hutf8 hdecode _
      | incomplete held => exact h.proceed hutf8 hdecode _
      | invalid length => simp [hdecode, Utf8.Tail.isInvalid] at hvalid

theorem Passed.writeEach (h : Passed reliable charset before taken writer) (pieces : List (List UInt8))
    (hvalid : (Utf8.decode (taken ++ pieces.flatten)).2.isInvalid = false) :
    ∃ after, writer.writeEach pieces = (.ok (), after)
      ∧ Passed reliable charset before (taken ++ pieces.flatten) after := by
  induction pieces generalizing taken writer with
  | nil => exact ⟨writer, rfl, by simpa using h⟩
  | cons piece pieces ih =>
    rw [List.flatten_cons, ← List.append_assoc] at hvalid ⊢
    obtain ⟨between, hwrite, hbetween⟩ :=
      h.writeAll piece (Utf8.isInvalid_decode_of_append _ _ hvalid)
    obtain ⟨after, hrest, hafter⟩ := ih hbetween hvalid
    refine ⟨after, ?_, hafter⟩
    unfold EncodingWriter.writeEach
    rw [hwrite]
    exact hrest

theorem Passed.writeText {cs : List Char} (h : Passed reliable charset before (Utf8.encode cs) writer)
    (more : List Char) :
    ∃ after, ByteWriter.writeAll (Utf8.encode more) writer = (.ok (), after)
      ∧ Passed reliable charset before (Utf8.encode (cs ++ more)) after := by
  rw [Utf8.encode_append]
  apply h.writeAll
  rw [← Utf8.encode_append, Utf8.decode_encode]
  rfl

theorem Passed.flush {cs : List Char} (h : Passed reliable charset before (Utf8.encode cs) writer) :
    ∃ after, ByteWriter.flush writer = (.ok (), after)
      ∧ reliable.received after.inner = before ++ charset.bytesOf (charset.spell cs) := by
  obtain ⟨inner, hflush, hreceived, -⟩ := reliable.flush h.healthy
  refine ⟨{ writer with inner }, ?_, ?_⟩
  · simp only [ByteWriter.flush, EncodingWriter.flush, h.pending, Charset.progress_encode] at hflush ⊢
    simp [hflush]
  · rw [hreceived, h.received, Charset.progress_encode]

theorem Passed.writeEach_encode {cs : List Char} {pieces : List (List UInt8)}
    (h : Passed reliable charset before [] writer) (hpieces : pieces.flatten = Utf8.encode cs) :
    ∃ written after, writer.writeEach pieces = (.ok (), written)
      ∧ ByteWriter.flush written = (.ok (), after)
      ∧ reliable.received after.inner = before ++ charset.bytesOf (charset.spell cs) := by
  have hvalid : (Utf8.decode ([] ++ pieces.flatten)).2.isInvalid = false := by
    rw [List.nil_append, hpieces, Utf8.decode_encode]
    rfl
  obtain ⟨written, hwrite, hwritten⟩ := h.writeEach pieces hvalid
  rw [List.nil_append, hpieces] at hwritten
  obtain ⟨after, hflush, hreceived⟩ := hwritten.flush
  exact ⟨written, after, hwrite, hflush, hreceived⟩

end EncodingWriter
end XmlPipeline
