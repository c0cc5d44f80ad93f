import Mathlib.Data.List.TakeWhile
import XmlPipeline.Proofs.Xml.Merging
import XmlPipeline.Proofs.Xml.ReadContent

/-!
This module contains the tags that open elements with all the freedom that there is in writing them: blanks
between the attributes and around the equals signs, and either quotation mark. The main statements are that
such a tag is read as the parts that it is written of, and that whatever opens an element is such a tag.
-/

namespace XmlPipeline
namespace Xml

/-! ### Written tags -/

structure WrittenAttribute where
  lead : List Char
  key : List Char
  before : List Char := []
  behind : List Char := []
  quote : Char
  value : List Char

namespace WrittenAttribute

def chars (attr : WrittenAttribute) : List Char :=
  attr.lead ++ attr.key ++ attr.before ++ '=' :: attr.behind ++ attr.quote :: attr.value ++ [attr.quote]

def part (attr : WrittenAttribute) : List Char × List Char :=
  (attr.key, attr.value)

/--
The characters are divided in this way when they are read.
-/
structure WellFormed (attr : WrittenAttribute) : Prop where
  lead : ∀ c ∈ attr.lead, isSpace c = true
  key_ne_nil : attr.key ≠ []
  key_head : ∀ c ∈ attr.key.head?, isSpace c = false
  key_tail : ∀ c ∈ attr.key.tail, Tag.endsKey c = false
  before : ∀ c ∈ attr.before, isSpace c = true
  behind : ∀ c ∈ attr.behind, isSpace c = true
  quote : attr.quote = '"' ∨ attr.quote = '\''
  value : attr.quote ∉ attr.value

instance (attr : WrittenAttribute) : Decidable attr.WellFormed :=
  decidable_of_iff
    (attr.lead.all isSpace ∧ attr.key ≠ [] ∧ attr.key.head?.all (!isSpace ·)
      ∧ attr.key.tail.all (!Tag.endsKey ·) ∧ attr.before.all isSpace ∧ attr.behind.all isSpace
      ∧ (attr.quote = '"' ∨ attr.quote = '\'') ∧ attr.quote ∉ attr.value)
    (by
      simp only [List.all_eq_true, Option.all_eq_true, Bool.not_eq_true']
      exact ⟨fun ⟨lead, ne, head, tail, before, behind, quote, value⟩ =>
          ⟨lead, ne, head, tail, before, behind, quote, value⟩,
        fun h => ⟨h.lead, h.key_ne_nil, h.key_head, h.key_tail, h.before, h.behind, h.quote, h.value⟩⟩)

theorem WellFormed.exists_key {attr : WrittenAttribute} (h : attr.WellFormed) :
    ∃ first more, attr.key = first :: more ∧ isSpace first = false
      ∧ ∀ c ∈ more, Tag.endsKey c = false := by
  obtain ⟨first, more, hkey⟩ := List.exists_cons_of_ne_nil h.key_ne_nil
  exact ⟨first, more, hkey, h.key_head first (by simp [hkey]),
    fun c hc => h.key_tail c (by simpa [hkey] using hc)⟩

end WrittenAttribute

structure WrittenTag where
  name : List Char
  attributes : List WrittenAttribute
  blanks : List Char := []
  isEmpty : Bool

namespace WrittenTag

def content (tag : WrittenTag) : List Char :=
  tag.name ++ tag.attributes.flatMap (·.chars) ++ tag.blanks

/--
What stands behind the opening bracket, that included which closes the tag.
-/
def chars (tag : WrittenTag) : List Char :=
  tag.content ++ if tag.isEmpty then ['/', '>'] else ['>']

def parts (tag : WrittenTag) : List (List Char × List Char) :=
  tag.attributes.map (·.part)

structure WellFormed (tag : WrittenTag) : Prop where
  name : ∀ c ∈ tag.name, isSpace c = false
  attributes : ∀ attr ∈ tag.attributes, attr.WellFormed
  apart : ∀ attr ∈ tag.attributes.head?, attr.lead ≠ []
  blanks : ∀ c ∈ tag.blanks, isSpace c = true

instance (tag : WrittenTag) : Decidable tag.WellFormed :=
  decidable_of_iff
    (tag.name.all (!isSpace ·) ∧ (∀ attr ∈ tag.attributes, attr.WellFormed)
      ∧ (∀ attr ∈ tag.attributes.head?, attr.lead ≠ []) ∧ tag.blanks.all isSpace)
    (by
      simp only [List.all_eq_true, Bool.not_eq_true']
      exact ⟨fun ⟨name, attributes, apart, blanks⟩ => ⟨name, attributes, apart, blanks⟩,
        fun h => ⟨h.name, h.attributes, h.apart, h.blanks⟩⟩)

end WrittenTag

namespace RawAttribute

def part (attr : RawAttribute) : List Char × List Char :=
  (attr.key, attr.value)

end RawAttribute

/-! ### Reading a written tag -/

namespace Tag

variable {attr : WrittenAttribute} {earlier : List RawAttribute}

theorem isSpace_of_quote {quote : Char} (h : quote = '"' ∨ quote = '\'') : isSpace quote = false := by
  rcases h with rfl | rfl <;> decide

theorem scanValue_chars (h : attr.WellFormed) (size position : Nat) (rest : List Char) :
    scanValue size attr.key position
        (attr.behind ++ attr.quote :: (attr.value ++ attr.quote :: rest))
      = .attribute { key := attr.key, position, value := attr.value } rest := by
  have hvalue : ∀ c ∈ attr.value, (c == attr.quote) = false := by
    intro c hc
    rw [beq_eq_false_iff_ne]
    rintro rfl
    exact h.value hc
  have hcut : Text.cutAt? (· == attr.quote) (attr.value ++ attr.quote :: rest)
      = some (attr.value, attr.quote, rest) := cutAt?_append rest hvalue (by simp)
  unfold scanValue
  rw [dropWhile_append_stop _ h.behind (isSpace_of_quote h.quote)]
  simp only
  rw [if_pos h.quote, hcut]

theorem scanAttribute_chars (h : attr.WellFormed) (size : Nat) (hearlier : attr.key ∉ earlier.map (·.key))
    (rest : List Char) :
    ∃ position, scanAttribute size earlier (attr.chars ++ rest)
      = .attribute { key := attr.key, position, value := attr.value } rest := by
  obtain ⟨first, more, hkey, hfirst, hmore⟩ := h.exists_key
  have hnone : earlier.find? (·.key == first :: more) = none := by
    rw [List.find?_eq_none]
    intro other hother hsame
    apply hearlier
    rw [hkey, ← beq_iff_eq.mp hsame]
    exact List.mem_map_of_mem hother
  -- The key goes up to the blanks before the equals sign, or up to that sign.
  have hends : ∀ tail, ∃ c others, attr.before ++ '=' :: tail = c :: others ∧ (!endsKey c) = false := by
    intro tail
    cases hbefore : attr.before with
    | nil => exact ⟨'=', tail, rfl, by decide⟩
    | cons c others =>
      have hc := h.before c (hbefore ▸ List.mem_cons_self)
      exact ⟨c, others ++ '=' :: tail, rfl, by simp [endsKey, hc]⟩
  have hplain : ∀ c ∈ more, (!endsKey c) = true := by
    intro c hc
    simp [hmore c hc]
  have hsplit : attr.chars ++ rest
      = attr.lead ++ first :: (more ++ (attr.before
        ++ '=' :: (attr.behind ++ attr.quote :: (attr.value ++ attr.quote :: rest)))) := by
    simp [WrittenAttribute.chars, hkey]
  have hvalue := fun position => scanValue_chars h size position rest
  rw [hkey] at hvalue
  obtain ⟨c, others, htail, hc⟩ :=
    hends (attr.behind ++ attr.quote :: (attr.value ++ attr.quote :: rest))
  have hdrop := dropWhile_append_stop (attr.behind ++ attr.quote :: (attr.value ++ attr.quote :: rest))
    h.before (show isSpace '=' = false by decide)
  rw [htail] at hdrop
  unfold scanAttribute
  rw [hsplit, dropWhile_append_stop _ h.lead hfirst, htail]
  simp only
  rw [takeWhile_append_stop _ hplain hc, dropWhile_append_stop _ hplain hc, hdrop]
  simp only
  rw [hnone, hkey]
  exact ⟨_, hvalue _⟩

theorem scanAttributes_chars (unique : Bool) (size : Nat) {attributes : List WrittenAttribute}
    {blanks : List Char} (hattributes : ∀ attr ∈ attributes, attr.WellFormed)
    (hblanks : ∀ c ∈ blanks, isSpace c = true)
    (hdistinct : unique = true → (attributes.map (·.key)).Nodup)
    (hearlier : unique = true → ∀ attr ∈ attributes, attr.key ∉ earlier.map (·.key)) :
    ∃ raws, scanAttributes unique size earlier (attributes.flatMap (·.chars) ++ blanks) = (raws, none)
      ∧ raws.map (·.part) = attributes.map (·.part) := by
  induction attributes generalizing earlier with
  | nil =>
    refine ⟨[], scanAttributes_of_nothing unique ?_, rfl⟩
    have hall : blanks.dropWhile isSpace = [] := List.dropWhile_eq_nil_iff.mpr hblanks
    simp [scanAttribute, hall]
  | cons attr attributes ih =>
    simp only [List.map_cons, List.nodup_cons] at hdistinct
    have hfirst : attr.key ∉ (if unique then earlier else []).map (·.key) := by
      cases unique
      · simp
      · exact hearlier rfl _ List.mem_cons_self
    obtain ⟨position, hscan⟩ := scanAttribute_chars (hattributes attr List.mem_cons_self) size hfirst
      (attributes.flatMap (·.chars) ++ blanks)
    have hlater : unique = true → ∀ other ∈ attributes,
        other.key ∉ ({ key := attr.key, position, value := attr.value } :: earlier).map (·.key) := by
      intro hunique other hother
      simp only [List.map_cons, List.mem_cons, not_or]
      refine ⟨?_, hearlier hunique other (List.mem_cons_of_mem _ hother)⟩
      intro hsame
      exact (hdistinct hunique).1 (hsame ▸ List.mem_map_of_mem hother)
    obtain ⟨raws, hraws, hparts⟩ := ih (fun other hother => hattributes other (List.mem_cons_of_mem _ hother))
      (fun hunique => (hdistinct hunique).2) hlater
    refine ⟨{ key := attr.key, position, value := attr.value } :: raws, ?_, ?_⟩
    · rw [List.flatMap_cons, List.append_assoc, scanAttributes_of_attribute unique hscan, hraws]
    · rw [List.map_cons, List.map_cons, hparts]
      rfl

theorem read_content {tag : WrittenTag} (h : tag.WellFormed) (unique : Bool)
    (hdistinct : unique = true → (tag.attributes.map (·.key)).Nodup) :
    ∃ raws, read unique tag.content = { name := tag.name, attributes := raws, failure := none }
      ∧ raws.map (·.part) = tag.parts := by
  have hname : ∀ c ∈ tag.name, (!isSpace c) = true := by
    intro c hc
    simp [h.name c hc]
  -- The name ends at the blanks before the first attribute, or at those before the end.
  have hrest : ∀ c ∈ (tag.attributes.flatMap (·.chars) ++ tag.blanks).head?, (!isSpace c) = false := by
    intro c hc
    cases hattributes : tag.attributes with
    | nil =>
      rw [hattributes] at hc
      simp [h.blanks c (List.mem_of_mem_head? hc)]
    | cons attr attributes =>
      rw [hattributes] at hc
      obtain ⟨first, lead, hlead⟩ := List.exists_cons_of_ne_nil (h.apart attr (by simp [hattributes]))
      have hspace := (h.attributes attr (by simp [hattributes])).lead first (by simp [hlead])
      obtain rfl : first = c := by simpa [WrittenAttribute.chars, hlead] using hc
      simp [hspace]
  have hspan : tag.content.takeWhile (!isSpace ·) = tag.name
      ∧ tag.content.dropWhile (!isSpace ·) = tag.attributes.flatMap (·.chars) ++ tag.blanks := by
    unfold WrittenTag.content
    rw [List.append_assoc]
    cases hcs : tag.attributes.flatMap (·.chars) ++ tag.blanks with
    | nil =>
      rw [List.append_nil]
      exact ⟨List.takeWhile_eq_self_iff.mpr hname, List.dropWhile_eq_nil_iff.mpr hname⟩
    | cons c cs =>
      have hc := hrest c (by simp [hcs])
      exact ⟨takeWhile_append_stop cs hname hc, dropWhile_append_stop cs hname hc⟩
  have hearlier : unique = true → ∀ attr ∈ tag.attributes, attr.key ∉ ([] : List RawAttribute).map (·.key) := by
    simp
  obtain ⟨raws, hraws, hparts⟩ := scanAttributes_chars unique (Utf8.size tag.content) h.attributes
    h.blanks hdistinct hearlier
  refine ⟨raws, ?_, hparts⟩
  unfold read nameOf
  rw [hspan.1, hspan.2, hraws]

/-! ### Tags that have been read -/

theorem exists_value {size position : Nat} {key cs after : List Char} {raw : RawAttribute}
    (h : scanValue size key position cs = .attribute raw after) :
    raw.key = key ∧ ∃ behind quote, (∀ c ∈ behind, isSpace c = true) ∧ (quote = '"' ∨ quote = '\'')
      ∧ quote ∉ raw.value ∧ cs = behind ++ quote :: (raw.value ++ quote :: after) := by
  unfold scanValue at h
  split at h
  · cases h
  · next quote rest hquote =>
    split at h
    · next hmark =>
      split at h
      · cases h
      · next value found after' hcut =>
        obtain ⟨rfl, rfl⟩ := Scan.attribute.inj h
        have hfound := Text.stop_of_cutAt? hcut
        obtain rfl := beq_iff_eq.mp hfound
        refine ⟨rfl, cs.takeWhile isSpace, found, fun c hc => List.mem_takeWhile_imp hc, hmark, ?_, ?_⟩
        · intro hmem
          simpa using Text.not_stop_of_cutAt? hcut found hmem
        · rw [← Text.eq_of_cutAt? hcut, ← hquote, List.takeWhile_append_dropWhile]
    · cases h

theorem exists_chars {size : Nat} {cs after : List Char} {raw : RawAttribute}
    (h : scanAttribute size earlier cs = .attribute raw after) :
    ∃ attr : WrittenAttribute, attr.WellFormed ∧ attr.part = raw.part ∧ cs = attr.chars ++ after := by
  unfold scanAttribute at h
  split at h
  · cases h
  · next first rest hfirst =>
    simp only at h
    split at h
    · cases h
    · next value hequals =>
      split at h
      · cases h
      · obtain ⟨hkey, behind, quote, hbehind, hquote, hvalue, rfl⟩ := exists_value h
        refine ⟨{ lead := cs.takeWhile isSpace
                  key := raw.key
                  before := (rest.dropWhile (!endsKey ·)).takeWhile isSpace
                  behind, quote, value := raw.value }, ?_, rfl, ?_⟩
        · refine ⟨fun c hc => List.mem_takeWhile_imp hc, by simp [hkey], ?_, ?_,
            fun c hc => List.mem_takeWhile_imp hc, hbehind, hquote, hvalue⟩
          · have hhead := List.head?_dropWhile_not isSpace cs
            rw [hfirst] at hhead
            simpa [hkey] using hhead
          · intro c hc
            simp only [hkey, List.tail_cons] at hc
            simpa using List.mem_takeWhile_imp hc
        · have hrest := List.takeWhile_append_dropWhile (p := (!endsKey ·)) (l := rest)
          have hbehindKey := List.takeWhile_append_dropWhile (p := isSpace) (l := rest.dropWhile (!endsKey ·))
          rw [hequals] at hbehindKey
          have hcs := List.takeWhile_append_dropWhile (p := isSpace) (l := cs)
          rw [hfirst, ← hrest, ← hbehindKey] at hcs
          exact hcs.symm.trans (by simp [WrittenAttribute.chars, hkey])
    · cases h

theorem scanValue_ne_nothing (size : Nat) (key : List Char) (position : Nat) (cs : List Char) :
    scanValue size key position cs ≠ .nothing := by
  unfold scanValue
  split
  · simp
  · split
    · split <;> simp
    · simp

theorem isSpace_of_nothing {size : Nat} {cs : List Char} (h : scanAttribute size earlier cs = .nothing) :
    ∀ c ∈ cs, isSpace c = true := by
  unfold scanAttribute at h
  split at h
  · next hnil => exact List.dropWhile_eq_nil_iff.mp hnil
  · simp only at h
    split at h
    · cases h
    · split at h
      · cases h
      · exact absurd h (scanValue_ne_nothing _ _ _ _)
    · cases h

theorem exists_flatMap_chars {unique : Bool} {size : Nat} {earlier : List RawAttribute} {cs : List Char}
    (h : (scanAttributes unique size earlier cs).2 = none) :
    ∃ (attributes : List WrittenAttribute) (blanks : List Char),
      (∀ attr ∈ attributes, attr.WellFormed) ∧ (∀ c ∈ blanks, isSpace c = true)
        ∧ cs = attributes.flatMap (·.chars) ++ blanks := by
  match hscan : scanAttribute size (if unique then earlier else []) cs with
  | .nothing => exact ⟨[], cs, by simp, isSpace_of_nothing hscan, rfl⟩
  | .failure error =>
    rw [scanAttributes_of_failure unique hscan] at h
    cases h
  | .attribute raw after =>
    rw [scanAttributes_of_attribute unique hscan] at h
    obtain ⟨attr, hattr, -, hcs⟩ := exists_chars hscan
    obtain ⟨attributes, blanks, hattributes, hblanks, hafter⟩ := exists_flatMap_chars h
    refine ⟨attr :: attributes, blanks, List.forall_mem_cons.mpr ⟨hattr, hattributes⟩, hblanks, ?_⟩
    rw [hcs, hafter, List.flatMap_cons, List.append_assoc]
termination_by cs.length
decreasing_by exact scanAttribute_length hscan

theorem exists_content {unique : Bool} {content : List Char} (h : (read unique content).failure = none)
    (isEmpty : Bool) : ∃ tag : WrittenTag, tag.WellFormed ∧ tag.isEmpty = isEmpty ∧ tag.content = content := by
  obtain ⟨attributes, blanks, hattributes, hblanks, hrest⟩ := exists_flatMap_chars h
  refine ⟨{ name := nameOf content, attributes, blanks, isEmpty }, ?_, rfl, ?_⟩
  · refine ⟨?_, hattributes, ?_, hblanks⟩
    · intro c hc
      simpa using List.mem_takeWhile_imp hc
    · -- What is behind the name starts with a blank, and a key does not.
      intro attr hattr hlead
      obtain ⟨more, rfl⟩ := List.head?_eq_some_iff.mp hattr
      obtain ⟨first, key, hkey, hfirst, -⟩ := (hattributes attr List.mem_cons_self).exists_key
      have hhead := List.head?_dropWhile_not (!isSpace ·) content
      rw [hrest] at hhead
      simp [WrittenAttribute.chars, hlead, hkey, hfirst] at hhead
  · show nameOf content ++ attributes.flatMap (·.chars) ++ blanks = content
    rw [List.append_assoc, ← hrest]
    exact List.takeWhile_append_dropWhile

end Tag

/-! ### Where the tag ends -/

def Unquoted (cs : List Char) : Prop :=
  '"' ∉ cs ∧ '\'' ∉ cs

instance (cs : List Char) : Decidable (Unquoted cs) :=
  inferInstanceAs (Decidable ('"' ∉ cs ∧ '\'' ∉ cs))

namespace Markup

variable {cs rest content after : List Char} {piece : Markup}

theorem unclosing_of_cutTag? (h : Unquoted cs) (hcut : cutTag? none (cs ++ rest) = some (content, after))
    (hlength : cs.length ≤ content.length) :
    '>' ∉ cs ∧ ∃ inner, cutTag? none rest = some (inner, after) ∧ content = cs ++ inner := by
  induction cs generalizing content with
  | nil => exact ⟨by simp, content, hcut, rfl⟩
  | cons c cs ih =>
    obtain ⟨hquote, hapostrophe⟩ := h
    simp only [List.mem_cons, not_or] at hquote hapostrophe
    rw [List.cons_append] at hcut
    unfold cutTag? at hcut
    simp only at hcut
    split at hcut
    · obtain ⟨rfl, -⟩ := Prod.mk.inj (Option.some.inj hcut)
      simp at hlength
    · next hbracket =>
      rw [if_neg (by simp [Ne.symm hquote.1, Ne.symm hapostrophe.1]), cutTag?_more] at hcut
      obtain ⟨⟨tail, other⟩, htail, heq⟩ := Option.map_eq_some_iff.mp hcut
      obtain ⟨rfl, rfl⟩ := Prod.mk.inj heq
      obtain ⟨hcs, inner, hinner, rfl⟩ := ih ⟨hquote.2, hapostrophe.2⟩ htail (by simpa using hlength)
      refine ⟨?_, inner, hinner, rfl⟩
      simp only [List.mem_cons, not_or]
      exact ⟨Ne.symm hbracket, hcs⟩

theorem Closed.unquoted (h : Unquoted cs) (hbracket : '>' ∉ cs) : Closed cs := by
  apply Closed.plain
  intro c hc
  refine ⟨?_, ?_, ?_⟩
  · rintro rfl
    exact hbracket hc
  · rintro rfl
    exact h.2 hc
  · rintro rfl
    exact h.1 hc

theorem not_isTag_of_scanDeclaration (h : scanDeclaration cs = .ok (piece, after)) :
    (∀ content, piece ≠ .startTag content) ∧ ∀ content, piece ≠ .emptyTag content := by
  unfold scanDeclaration at h
  repeat' split at h
  all_goals first
    | obtain ⟨rfl, -⟩ := Prod.mk.inj (Except.ok.inj h)
      simp
    | cases h

theorem not_isTag_of_scanInstruction (h : scanInstruction cs = .ok (piece, after)) :
    (∀ content, piece ≠ .startTag content) ∧ ∀ content, piece ≠ .emptyTag content := by
  unfold scanInstruction at h
  repeat' split at h
  all_goals first
    | obtain ⟨rfl, -⟩ := Prod.mk.inj (Except.ok.inj h)
      simp
    | cases h

theorem cutTag?_of_scanTag {first : Char} (h : scanTag (first :: cs) = .ok (piece, after))
    (hpiece : ∃ content, piece = .startTag content ∨ piece = .emptyTag content) :
    (first ≠ '!' ∧ first ≠ '?' ∧ first ≠ '/')
      ∧ ∃ content, cutTag? none (first :: cs) = some (content, after) ∧ piece = ofTagContent content := by
  obtain ⟨content, hpiece⟩ := hpiece
  unfold scanTag at h
  split at h
  · obtain ⟨hstart, hempty⟩ := not_isTag_of_scanDeclaration h
    exact absurd hpiece (not_or.mpr ⟨hstart content, hempty content⟩)
  · obtain ⟨hstart, hempty⟩ := not_isTag_of_scanInstruction h
    exact absurd hpiece (not_or.mpr ⟨hstart content, hempty content⟩)
  · split at h
    · cases h
    · obtain ⟨rfl, -⟩ := Prod.mk.inj (Except.ok.inj h)
      simp at hpiece
  · next hdeclaration hinstruction hclosing =>
    split at h
    · cases h
    · next found rest hcut =>
      obtain ⟨rfl, rfl⟩ := Prod.mk.inj (Except.ok.inj h)
      refine ⟨⟨?_, ?_, ?_⟩, found, hcut, rfl⟩
      · rintro rfl
        exact hdeclaration _ rfl
      · rintro rfl
        exact hinstruction _ rfl
      · rintro rfl
        exact hclosing _ rfl

end Markup

namespace WrittenAttribute

variable {attr : WrittenAttribute} {attributes : List WrittenAttribute}

def head (attr : WrittenAttribute) : List Char :=
  attr.lead ++ attr.key ++ attr.before ++ '=' :: attr.behind

theorem chars_eq (attr : WrittenAttribute) :
    attr.chars = attr.head ++ (attr.quote :: attr.value ++ [attr.quote]) := by
  simp [chars, head]

theorem WellFormed.mem_head (h : attr.WellFormed) {c : Char} (hc : isSpace c = false) (hequals : c ≠ '=') :
    c ∈ attr.head ↔ c ∈ attr.key := by
  have hblank : ∀ blanks : List Char, (∀ x ∈ blanks, isSpace x = true) → c ∉ blanks := by
    intro blanks hblanks hmem
    simp [hblanks c hmem] at hc
  simp [head, hblank _ h.lead, hblank _ h.before, hblank _ h.behind, hequals]

theorem WellFormed.unquoted_head (h : attr.WellFormed) (hkey : Unquoted attr.key) : Unquoted attr.head :=
  ⟨fun hmem => hkey.1 ((h.mem_head (by decide) (by decide)).mp hmem),
    fun hmem => hkey.2 ((h.mem_head (by decide) (by decide)).mp hmem)⟩

theorem WellFormed.closed (h : attr.WellFormed) (hkey : Unquoted attr.key) (hbracket : '>' ∉ attr.key) :
    Markup.Closed attr.chars := by
  rw [chars_eq]
  apply Markup.Closed.append
  · apply Markup.Closed.unquoted (h.unquoted_head hkey)
    rwa [h.mem_head (by decide) (by decide)]
  · exact Markup.Closed.quoted h.quote h.value

theorem closed_attributes (h : ∀ attr ∈ attributes, attr.WellFormed)
    (hkeys : ∀ attr ∈ attributes, Unquoted attr.key ∧ '>' ∉ attr.key) :
    Markup.Closed (attributes.flatMap (·.chars)) := by
  induction attributes with
  | nil => exact Markup.Closed.nil
  | cons attr attributes ih =>
    obtain ⟨hkey, hbracket⟩ := hkeys attr List.mem_cons_self
    rw [List.flatMap_cons]
    apply Markup.Closed.append
    · exact (h attr List.mem_cons_self).closed hkey hbracket
    · exact ih (fun other hother => h other (List.mem_cons_of_mem _ hother))
        fun other hother => hkeys other (List.mem_cons_of_mem _ hother)

theorem unclosing_keys {rest content after : List Char} (h : ∀ attr ∈ attributes, attr.WellFormed)
    (hkeys : ∀ attr ∈ attributes, Unquoted attr.key)
    (hcut : Markup.cutTag? none (attributes.flatMap (·.chars) ++ rest) = some (content, after))
    (hlength : (attributes.flatMap (·.chars)).length ≤ content.length) :
    ∀ attr ∈ attributes, '>' ∉ attr.key := by
  induction attributes generalizing content with
  | nil => simp
  | cons attr attributes ih =>
    have hattr := h attr List.mem_cons_self
    rw [List.flatMap_cons, chars_eq, List.append_assoc, List.append_assoc] at hcut
    rw [List.flatMap_cons, chars_eq] at hlength
    simp only [List.length_append] at hlength
    obtain ⟨hhead, inner, hinner, rfl⟩ := Markup.unclosing_of_cutTag?
      (hattr.unquoted_head (hkeys attr List.mem_cons_self)) hcut (by omega)
    rw [Markup.Closed.quoted hattr.quote hattr.value] at hinner
    obtain ⟨⟨tail, other⟩, htail, heq⟩ := Option.map_eq_some_iff.mp hinner
    obtain ⟨rfl, rfl⟩ := Prod.mk.inj heq
    simp only [List.length_append] at hlength
    have hrest := ih (fun other hother => h other (List.mem_cons_of_mem _ hother))
      (fun other hother => hkeys other (List.mem_cons_of_mem _ hother)) htail (by omega)
    intro other hother
    cases List.mem_cons.mp hother with
    | inl heq =>
      rw [heq, ← hattr.mem_head (by decide) (by decide)]
      exact hhead
    | inr hmem => exact hrest other hmem

end WrittenAttribute

namespace WrittenTag

variable {tag : WrittenTag}

def piece (tag : WrittenTag) : Markup :=
  if tag.isEmpty then .emptyTag tag.content else .startTag tag.content

def inside (tag : WrittenTag) : List Char :=
  tag.content ++ if tag.isEmpty then ['/'] else []

theorem chars_eq (tag : WrittenTag) : tag.chars = tag.inside ++ ['>'] := by
  unfold chars inside
  split <;> simp

theorem WellFormed.head?_inside (h : tag.WellFormed) (hne : tag.attributes ≠ []) :
    ∃ blank, isSpace blank = true ∧ tag.inside.head? = (tag.name ++ [blank]).head? := by
  obtain ⟨attr, attributes, hattributes⟩ := List.exists_cons_of_ne_nil hne
  obtain ⟨blank, lead, hlead⟩ := List.exists_cons_of_ne_nil (h.apart attr (by simp [hattributes]))
  have hspace := (h.attributes attr (by simp [hattributes])).lead blank (by simp [hlead])
  refine ⟨blank, hspace, ?_⟩
  cases hname : tag.name <;> simp [inside, content, hattributes, WrittenAttribute.chars, hlead, hname]

theorem ofTagContent_inside (h : tag.WellFormed) (hne : tag.attributes ≠ []) :
    Markup.ofTagContent tag.inside = tag.piece := by
  unfold inside piece
  cases tag.isEmpty with
  | true => simp [Markup.ofTagContent]
  | false =>
    have hlast : tag.content.getLast? ≠ some '/' := by
      rcases List.eq_nil_or_concat tag.blanks with hblanks | ⟨blanks, blank, hblanks⟩
      · obtain ⟨attributes, attr, hattributes⟩ := (List.eq_nil_or_concat tag.attributes).resolve_left hne
        have hmem : attr ∈ tag.attributes := by simp [hattributes]
        have hend : tag.content.getLast? = some attr.quote := by
          simp [content, hblanks, hattributes, WrittenAttribute.chars, ← List.append_assoc]
        rw [hend]
        rcases (h.attributes attr hmem).quote with hquote | hquote <;> rw [hquote] <;> decide
      · have hspace := h.blanks blank (by simp [hblanks])
        have hend : tag.content.getLast? = some blank := by
          simp [content, hblanks, ← List.append_assoc]
        rw [hend]
        rintro ⟨⟩
        cases hspace
    simp only [Bool.false_eq_true, ↓reduceIte, List.append_nil]
    unfold Markup.ofTagContent
    split
    · next heq => exact absurd heq hlast
    · rfl

/--
The tag does not start like another piece of markup.
-/
def IsOpening (tag : WrittenTag) : Prop :=
  ∀ c ∈ tag.inside.head?, c ≠ '!' ∧ c ≠ '?' ∧ c ≠ '/'

theorem scanTag_chars (h : tag.WellFormed) (hne : tag.attributes ≠ []) (hclosed : Markup.Closed tag.content)
    (hopening : tag.IsOpening) (rest : List Char) :
    Markup.scanTag (tag.chars ++ rest) = .ok (tag.piece, rest) := by
  have hinside : Markup.Closed tag.inside := by
    apply hclosed.append
    apply Markup.Closed.plain
    intro c hc
    split at hc <;> simp at hc
    subst hc
    decide
  have hcut := hinside.cutTag? rest
  have hpiece := ofTagContent_inside h hne
  rw [chars_eq, List.append_assoc, List.singleton_append]
  obtain ⟨blank, -, hhead⟩ := h.head?_inside hne
  obtain ⟨first, others, hcons⟩ : ∃ first others, tag.inside = first :: others := by
    apply List.exists_cons_of_ne_nil
    rintro hnil
    simp [hnil] at hhead
  unfold IsOpening at hopening
  rw [hcons] at hcut hpiece hopening ⊢
  rw [List.cons_append] at hcut ⊢
  rw [Reader.scanTag_of_ne (hopening first rfl), hcut, ← hpiece]

theorem closed_of_cutTag? {rest : List Char} (h : tag.WellFormed) (hname : Unquoted tag.name)
    (hkeys : ∀ attr ∈ tag.attributes, Unquoted attr.key)
    (hcut : Markup.cutTag? none (tag.chars ++ rest) = some (tag.inside, rest)) :
    '>' ∉ tag.name ∧ ∀ attr ∈ tag.attributes, '>' ∉ attr.key := by
  have hsplit : tag.chars ++ rest
      = tag.name ++ (tag.attributes.flatMap (·.chars)
        ++ (tag.blanks ++ (if tag.isEmpty then ['/', '>'] else ['>']) ++ rest)) := by
    simp [chars, content]
  have hlength : tag.inside.length
      = tag.name.length + ((tag.attributes.flatMap (·.chars)).length
        + (tag.blanks.length + (if tag.isEmpty then ['/'] else []).length)) := by
    simp only [inside, content, List.length_append]
    omega
  rw [hsplit] at hcut
  obtain ⟨hbracket, inner, hinner, hinside⟩ := Markup.unclosing_of_cutTag? hname hcut (by omega)
  refine ⟨hbracket, WrittenAttribute.unclosing_keys h.attributes hkeys hinner ?_⟩
  have := congrArg List.length hinside
  rw [List.length_append] at this
  omega

theorem exists_piece {inside : List Char} {content : List Char} {isEmpty : Bool}
    (hpiece : Markup.ofTagContent inside = if isEmpty then .emptyTag content else .startTag content)
    (h : (Tag.read true content).failure = none) :
    ∃ tag : WrittenTag, tag.WellFormed ∧ tag.inside = inside := by
  obtain ⟨tag, htag, rfl, rfl⟩ := Tag.exists_content h isEmpty
  refine ⟨tag, htag, ?_⟩
  unfold Markup.ofTagContent at hpiece
  split at hpiece
  · next hlast =>
    cases hisEmpty : tag.isEmpty with
    | false => simp [hisEmpty] at hpiece
    | true =>
      simp only [hisEmpty, ↓reduceIte, Markup.emptyTag.injEq] at hpiece
      unfold WrittenTag.inside
      rw [hisEmpty, ← hpiece]
      exact List.dropLast_append_getLast? _ hlast
  · cases hisEmpty : tag.isEmpty with
    | true => simp [hisEmpty] at hpiece
    | false =>
      simp only [hisEmpty, Bool.false_eq_true, ↓reduceIte, Markup.startTag.injEq] at hpiece
      simp [WrittenTag.inside, hisEmpty, hpiece]

theorem closed_content (h : tag.WellFormed) (hname : Unquoted tag.name ∧ '>' ∉ tag.name)
    (hkeys : ∀ attr ∈ tag.attributes, Unquoted attr.key ∧ '>' ∉ attr.key) :
    Markup.Closed tag.content := by
  have hblanks : Markup.Closed tag.blanks := by
    apply Markup.Closed.plain
    intro c hc
    have hspace := h.blanks c hc
    refine ⟨?_, ?_, ?_⟩ <;> rintro rfl <;> cases hspace
  exact ((Markup.Closed.unquoted hname.1 hname.2).append
    (WrittenAttribute.closed_attributes h.attributes hkeys)).append hblanks

end WrittenTag

namespace Reader

variable {reader next : Reader} {start : ElementStart}

theorem piece_of_opening {piece : Markup} {rest : List Char}
    (h : reader.take piece rest = .event (.opening start) next) :
    ∃ content isEmpty, piece = (if isEmpty then .emptyTag content else .startTag content)
      ∧ ({ reader with rest } : Reader).enter content isEmpty = .event (.opening start) next := by
  cases piece with
  | ignored => cases h
  | text raw =>
    simp only [take] at h
    split at h <;> cases h
  | cdata content => cases content <;> cases h
  | startTag content => exact ⟨content, false, rfl, h⟩
  | emptyTag content => exact ⟨content, true, rfl, h⟩
  | endTag name =>
    simp only [take] at h
    split at h
    · cases h
    · split at h
      · unfold leave at h
        split at h <;> cases h
      · cases h

theorem cutTag?_of_opening {cs : List Char} (hpending : reader.pending = false)
    (hrest : reader.rest = '<' :: cs) (hstep : reader.step = .event (.opening start) next) :
    ∃ (inside content : List Char) (isEmpty : Bool) (inner : Scope),
      Markup.cutTag? none cs = some (inside, next.rest)
      ∧ (∀ c ∈ inside.head?, c ≠ '!' ∧ c ≠ '?' ∧ c ≠ '/')
      ∧ Markup.ofTagContent inside = (if isEmpty then .emptyTag content else .startTag content)
      ∧ reader.scope.openElement content = .ok (start, inner) := by
  cases hscan : Markup.scan '<' cs with
  | error error =>
    rw [step_of_scan_error hpending hrest hscan] at hstep
    cases hstep
  | ok result =>
    obtain ⟨piece, rest⟩ := result
    rw [step_of_scan hpending hrest hscan] at hstep
    obtain rfl : next.rest = rest := take_reader? (by rw [hstep]; rfl)
    obtain ⟨content, isEmpty, hpiece, henter⟩ := piece_of_opening hstep
    have hopens : ∃ content, piece = .startTag content ∨ piece = .emptyTag content := by
      refine ⟨content, ?_⟩
      cases isEmpty
      · exact .inl hpiece
      · exact .inr hpiece
    cases cs with
    | nil => simp [Markup.scan, Markup.scanTag, Markup.cutTag?] at hscan
    | cons first others =>
      obtain ⟨hfirst, inside, hcut, hinside⟩ := Markup.cutTag?_of_scanTag hscan hopens
      refine ⟨inside, content, isEmpty, ?_⟩
      unfold enter at henter
      split at henter
      · cases henter
      · next opened inner hopen =>
        obtain rfl := Event.opening.inj (Step.event.inj henter).1
        refine ⟨inner, hcut, ?_, hinside.symm.trans hpiece, hopen⟩
        intro c hc
        obtain ⟨more, rfl⟩ := List.head?_eq_some_iff.mp hc
        obtain rfl := (List.cons.inj (Markup.eq_of_cutTag? hcut)).1
        exact hfirst

/--
Whatever opens an element is a written tag.
-/
theorem exists_writtenTag {cs : List Char} (hpending : reader.pending = false)
    (hrest : reader.rest = '<' :: cs) (hstep : reader.step = .event (.opening start) next) :
    ∃ tag : WrittenTag, tag.WellFormed ∧ tag.IsOpening ∧ cs = tag.chars ++ next.rest := by
  obtain ⟨inside, content, isEmpty, inner, hcut, hfirst, hpiece, hopen⟩ :=
    cutTag?_of_opening hpending hrest hstep
  obtain ⟨-, -, hfailure, -⟩ := Scope.openElement_cases hopen
  obtain ⟨tag, htag, rfl⟩ := WrittenTag.exists_piece hpiece hfailure
  refine ⟨tag, htag, hfirst, ?_⟩
  rw [Markup.eq_of_cutTag? hcut, WrittenTag.chars_eq, List.append_assoc, List.singleton_append]

end Reader
end Xml
end XmlPipeline
