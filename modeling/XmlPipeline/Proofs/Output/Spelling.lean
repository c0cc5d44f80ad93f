import XmlPipeline.Proofs.Output.Transcoding
import XmlPipeline.Proofs.Xml.RoundTrip

/-!
This module contains markup in a character set that does not hold all of its characters. The main statement
is that references in the place of the other characters are just another spelling of texts and values, as
long as the character set holds the names.
-/

namespace XmlPipeline

open Xml

/-! ### References that are read -/

namespace Xml

theorem readCharRef_toDigits {c : Char} (h : c.toNat ≠ 0) :
    readCharRef (Nat.toDigits 10 c.toNat) = .ok c := by
  have hdigits := Text.isDigit_toDigits c.toNat
  have hvalid : c.toNat.isValidChar := c.valid
  have hread : Text.readUnsigned 10 Text.maxUnsigned32 (Nat.toDigits 10 c.toNat) = .ok c.toNat := by
    apply Text.readUnsigned_toDigits
    unfold Nat.isValidChar at hvalid
    unfold Text.maxUnsigned32
    omega
  have hcode : readCode 10 (Nat.toDigits 10 c.toNat) = .ok c.toNat := by
    unfold readCode
    split
    · next heq =>
      rw [heq] at hdigits
      simp at hdigits
    · next heq =>
      rw [heq] at hdigits
      simp at hdigits
    · rw [hread]
      rfl
  unfold readCharRef
  split
  · next heq =>
    rw [heq] at hdigits
    simp at hdigits
  · rw [hcode]
    simp only [bind, Except.bind, charOfCode]
    rw [if_neg h, if_pos hvalid, Char.ofNat_toNat]

theorem mem_escapeChar {c x : Char} (h : x ∈ escapeChar c) : x = c ∨ x.toNat ≤ 0x7F := by
  unfold escapeChar at h
  repeat' split at h
  all_goals
    simp only [List.mem_cons, List.not_mem_nil, or_false] at h
    rcases h with rfl | rfl | rfl | rfl | rfl | rfl
  all_goals first | exact .inr (by decide) | exact .inl rfl

end Xml

namespace Charset

variable {charset : Charset} {c : Char}

theorem toNat_of_not_holds (h : charset.holds c = false) : 0x7F < c.toNat := by
  apply Nat.lt_of_not_le
  intro hascii
  rw [holds_of_ascii hascii] at h
  cases h

theorem unescapeRest_reference (h : charset.holds c = false) (size : Nat) (rest : List Char) :
    unescapeRest size (reference c ++ rest) = (unescapeRest size rest).map (c :: ·) := by
  have hsplit : reference c ++ rest = '&' :: ('#' :: Nat.toDigits 10 c.toNat ++ ';' :: rest) := by
    simp [reference_eq]
  rw [hsplit, Xml.unescapeRest_reference]
  · intro x hx
    cases List.mem_cons.mp hx with
    | inl hhash =>
      subst hhash
      decide
    | inr hdigit =>
      have hdigit := Text.isDigit_toDigits _ x hdigit
      simp only [endsName, Bool.or_eq_false_iff, beq_eq_false_iff_ne]
      constructor
      · rintro rfl
        simp at hdigit
      · rintro rfl
        simp at hdigit
  · intro text
    have hcode := readCharRef_toDigits (Nat.ne_of_gt (Nat.zero_lt_of_lt (toNat_of_not_holds h)))
    simp only [resolveReference, hcode]
    rfl

theorem spell_escapeChar (charset : Charset) (c : Char) :
    charset.spell (escapeChar c) = if charset.holds c then escapeChar c else reference c := by
  split
  · next h =>
    apply spell_of_holds
    intro x hx
    cases mem_escapeChar hx with
    | inl hsame => exact hsame ▸ h
    | inr hascii => exact holds_of_ascii hascii
  · next h =>
    have h : charset.holds c = false := by simpa using h
    have hlarge := toNat_of_not_holds h
    have hescape : escapeChar c = [c] := by
      unfold escapeChar
      (repeat' split) <;> first | rfl | (subst_vars; revert hlarge; decide)
    rw [hescape]
    simp [spell, spellChar, h]

def spelling (charset : Charset) : Spelling where
  char c := charset.spell (escapeChar c)
  unmarked := by
    intro x hx c
    rw [spell_escapeChar]
    split
    · exact not_mem_escapeChar hx c
    · intro hmem
      simp only [List.mem_cons, List.not_mem_nil, or_false] at hx
      rcases mem_reference hmem with h | h | h | h <;>
        rcases hx with rfl | rfl | rfl | rfl <;> simp at h
  unescapeRest_char := by
    intro size c rest
    rw [spell_escapeChar]
    split
    · exact unescapeRest_escapeChar size c rest
    · next h => exact unescapeRest_reference (by simpa using h) size rest

theorem spell_escape (charset : Charset) (cs : List Char) :
    charset.spell (escape cs) = charset.spelling.write cs := by
  simp only [spell, escape, Spelling.write, spelling, List.flatMap_assoc]

/-! ### Names that the character set holds -/

def HoldsAll (charset : Charset) (text : String) : Prop :=
  ∀ c ∈ text.toList, charset.holds c = true

instance (charset : Charset) (text : String) : Decidable (charset.HoldsAll text) :=
  decidable_of_iff (text.toList.all charset.holds = true) List.all_eq_true

def isAscii (cs : List Char) : Bool :=
  cs.all fun c => c.toNat ≤ 0x7F

theorem holds_of_isAscii {cs : List Char} (h : isAscii cs = true) :
    ∀ c ∈ cs, charset.holds c = true :=
  fun c hc => holds_of_ascii (of_decide_eq_true (List.all_eq_true.mp h c hc))

end Charset

namespace Xml

def QName.Held (charset : Charset) (name : QName) : Prop :=
  charset.HoldsAll name.localName ∧ ∀ pfx ∈ name.pfx, charset.HoldsAll pfx

def NamespaceBinding.Held (charset : Charset) (binding : NamespaceBinding) : Prop :=
  charset.HoldsAll binding.uri ∧ ∀ pfx ∈ binding.pfx, charset.HoldsAll pfx

def Event.Held (charset : Charset) : Event → Prop
  | opening start =>
    start.name.Held charset ∧ (∀ attr ∈ start.attributes, attr.name.Held charset)
      ∧ ∀ binding ∈ start.namespaces, binding.Held charset
  | text _ => True
  | closing name => name.Held charset

variable {charset : Charset}

instance (name : QName) : Decidable (name.Held charset) :=
  inferInstanceAs (Decidable (charset.HoldsAll name.localName ∧ ∀ pfx ∈ name.pfx, charset.HoldsAll pfx))

instance (binding : NamespaceBinding) : Decidable (binding.Held charset) :=
  inferInstanceAs (Decidable (charset.HoldsAll binding.uri ∧ ∀ pfx ∈ binding.pfx, charset.HoldsAll pfx))

instance : (event : Event) → Decidable (event.Held charset)
  | .opening start =>
    inferInstanceAs <| Decidable <|
      start.name.Held charset ∧ (∀ attr ∈ start.attributes, attr.name.Held charset)
        ∧ ∀ binding ∈ start.namespaces, binding.Held charset
  | .text _ => .isTrue trivial
  | .closing name => inferInstanceAs (Decidable (name.Held charset))

theorem QName.Held.lexical {name : QName} (h : name.Held charset) : charset.HoldsAll name.lexical := by
  obtain ⟨hlocal, hpfx⟩ := h
  intro c hc
  unfold QName.lexical at hc
  cases hname : name.pfx with
  | none =>
    rw [hname] at hc
    exact hlocal c hc
  | some pfx =>
    rw [hname] at hc
    simp only [String.toList_append, List.mem_append] at hc
    rcases hc with (hc | hc) | hc
    · exact hpfx pfx hname c hc
    · obtain rfl : c = ':' := by simpa using hc
      exact Charset.holds_of_ascii (by decide)
    · exact hlocal c hc

theorem NamespaceBinding.Held.key {binding : NamespaceBinding} (h : binding.Held charset) :
    charset.HoldsAll binding.key := by
  have hxmlns : charset.HoldsAll "xmlns" := Charset.holds_of_isAscii (by decide)
  cases hpfx : binding.pfx with
  | none =>
    have hname : QName.Held charset { localName := "xmlns" } := ⟨hxmlns, by simp⟩
    simpa [NamespaceBinding.key, hpfx, QName.lexical] using hname.lexical
  | some pfx =>
    have hname : QName.Held charset { pfx := some "xmlns", localName := pfx } :=
      ⟨h.2 pfx hpfx, by simpa using hxmlns⟩
    simpa [NamespaceBinding.key, hpfx, QName.lexical] using hname.lexical

theorem ElementStart.holds_parts {start : ElementStart} (h : (Event.opening start).Held charset) :
    ∀ part ∈ start.parts, charset.HoldsAll part.1 := by
  obtain ⟨-, hattributes, hnamespaces⟩ := h
  intro part hpart
  cases List.mem_append.mp hpart with
  | inl hpart =>
    obtain ⟨binding, hbinding, rfl⟩ := List.mem_map.mp hpart
    exact (hnamespaces binding hbinding).key
  | inr hpart =>
    obtain ⟨attr, hattr, rfl⟩ := List.mem_map.mp hpart
    exact (hattributes attr hattr).lexical

end Xml

namespace Charset

variable {charset : Charset}

theorem spell_cons (h : charset.holds c = true) (cs : List Char) :
    charset.spell (c :: cs) = c :: charset.spell cs := by
  simp [spell, spellChar, h]

def spellName (charset : Charset) (name : String) : String :=
  String.ofList (charset.spell name.toList)

theorem spellName_of_holdsAll {name : String} (h : charset.HoldsAll name) :
    charset.spellName name = name := by
  unfold spellName
  rw [spell_of_holds h, String.ofList_toList]

theorem spell_writtenChars (charset : Charset) (parts : List (String × String)) :
    charset.spell (Spelling.escaped.writtenChars parts)
      = charset.spelling.writtenChars (parts.map fun part => (charset.spellName part.1, part.2)) := by
  induction parts with
  | nil => rfl
  | cons part parts ih =>
    obtain ⟨key, value⟩ := part
    have hkey : (charset.spellName key).toList = charset.spell key.toList := String.toList_ofList
    have hvalue : charset.spell (Spelling.escaped.write value.toList)
        = charset.spelling.write value.toList := spell_escape charset value.toList
    have hspace : charset.holds ' ' = true := holds_of_ascii (by decide)
    have hequals : charset.holds '=' = true := holds_of_ascii (by decide)
    have hquote : charset.holds '"' = true := holds_of_ascii (by decide)
    rw [List.map_cons, writtenChars_cons, writtenChars_cons, spell_cons hspace, spell_append, hkey,
      spell_cons hequals, spell_cons hquote, spell_append, hvalue, spell_cons hquote, ih]

theorem spell_writtenChars_of_holdsAll {parts : List (String × String)}
    (h : ∀ part ∈ parts, charset.HoldsAll part.1) :
    charset.spell (Spelling.escaped.writtenChars parts) = charset.spelling.writtenChars parts := by
  have hsame : ∀ part ∈ parts, (charset.spellName part.1, part.2) = id part := by
    intro part hpart
    rw [spellName_of_holdsAll (h part hpart)]
    rfl
  rw [spell_writtenChars, List.map_congr_left hsame, List.map_id]

theorem spell_markup {event : Event} (h : event.Held charset) :
    charset.spell event.markup = event.spelled charset.spelling := by
  have hopen : charset.holds '<' = true := holds_of_ascii (by decide)
  have hslash : charset.holds '/' = true := holds_of_ascii (by decide)
  have hclose : charset.spell ['>'] = ['>'] := spell_cons (holds_of_ascii (by decide)) []
  rw [Event.markup_eq_spelled]
  cases event with
  | opening start =>
    have hname := spell_of_holds h.1.lexical
    have hparts := spell_writtenChars_of_holdsAll (ElementStart.holds_parts h)
    simp only [Event.spelled, ElementStart.spelled, List.cons_append]
    rw [spell_cons hopen, spell_append, spell_append, hname, hparts, hclose]
  | text content => exact spell_escape charset content.toList
  | closing name =>
    have hname := spell_of_holds (QName.Held.lexical h)
    simp only [Event.spelled, List.cons_append]
    rw [spell_cons hopen, spell_cons hslash, spell_append, hname, hclose]

theorem spell_flatMap_markup {events : List Event} (h : ∀ event ∈ events, event.Held charset) :
    charset.spell (events.flatMap Event.markup) = events.flatMap (Event.spelled charset.spelling) := by
  induction events with
  | nil => rfl
  | cons event events ih =>
    rw [List.flatMap_cons, List.flatMap_cons, spell_append, spell_markup (h event List.mem_cons_self),
      ih fun other hother => h other (List.mem_cons_of_mem _ hother)]

theorem kept_of_held {start : ElementStart} (h : (Event.opening start).Held charset)
    (hdeclarable : ∀ binding ∈ start.namespaces, binding.Declarable) : start.Kept charset.spelling := by
  intro binding hbinding
  rw [← spell_escape, escape_of_plain (hdeclarable binding hbinding).plain]
  exact spell_of_holds (h.2.2 binding hbinding).1

end Charset

end XmlPipeline
