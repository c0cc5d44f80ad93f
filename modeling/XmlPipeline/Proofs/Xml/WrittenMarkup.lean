import XmlPipeline.Xml.Tag
import XmlPipeline.Xml.Writer

/-!
This module contains written tags as markup: where they end, and the attributes that they are divided into.
Character data and values may be written in any way in which they are read back.
-/

namespace XmlPipeline
namespace Xml

/-! ### Where a tag ends -/

namespace Markup

/--
A tag that has these characters in it does not end inside of them, and no quote is open after them.
-/
def Closed (cs : List Char) : Prop :=
  ∀ rest, cutTag? none (cs ++ rest)
    = (cutTag? none rest).map fun (content, after) => (cs ++ content, after)

theorem cutTag?_more (c : Char) (cut : Option (List Char × List Char)) :
    cutTag?.more c cut = cut.map fun (content, after) => (c :: content, after) := by
  cases cut <;> rfl

theorem Closed.nil : Closed [] := by
  intro rest
  simp

theorem Closed.append {first second : List Char} (h : Closed first) (h' : Closed second) :
    Closed (first ++ second) := by
  intro rest
  rw [List.append_assoc, h, h', Option.map_map]
  congr 1
  funext cut
  simp

theorem Closed.plain {cs : List Char} (h : ∀ c ∈ cs, c ≠ '>' ∧ c ≠ '\'' ∧ c ≠ '"') :
    Closed cs := by
  induction cs with
  | nil => exact Closed.nil
  | cons c cs ih =>
    intro rest
    obtain ⟨hgt, hapos, hquot⟩ := h c List.mem_cons_self
    have hcs := ih (fun x hx => h x (List.mem_cons_of_mem _ hx)) rest
    simp only [List.cons_append, cutTag?, hgt, hapos, hquot, or_self, ↓reduceIte]
    rw [hcs, cutTag?_more, Option.map_map]
    rfl

theorem cutTag?_quoted {quote : Char} {value : List Char} (h : quote ∉ value) (rest : List Char) :
    cutTag? (some quote) (value ++ quote :: rest)
      = (cutTag? none rest).map fun (content, after) => (value ++ quote :: content, after) := by
  induction value with
  | nil =>
    simp only [List.nil_append, cutTag?, ↓reduceIte]
    rw [cutTag?_more]
  | cons c value ih =>
    simp only [List.mem_cons, not_or] at h
    simp only [List.cons_append, cutTag?, Ne.symm h.1, ↓reduceIte]
    rw [ih h.2, cutTag?_more, Option.map_map]
    rfl

theorem Closed.quoted {quote : Char} {value : List Char} (hquote : quote = '"' ∨ quote = '\'')
    (h : quote ∉ value) : Closed (quote :: value ++ [quote]) := by
  intro rest
  have hbracket : quote ≠ '>' := by rcases hquote with rfl | rfl <;> decide
  simp only [List.cons_append, List.append_assoc, cutTag?, hbracket, hquote.symm, ↓reduceIte]
  rw [List.nil_append, cutTag?_quoted h, cutTag?_more, Option.map_map]
  rfl

theorem Closed.cutTag? {content : List Char} (h : Closed content) (after : List Char) :
    cutTag? none (content ++ '>' :: after) = some (content, after) := by
  rw [h]
  simp [Markup.cutTag?]

end Markup

/-! ### Escaped text -/

theorem not_mem_escapeChar {x : Char} (h : x ∈ ['<', '>', '\'', '"']) (c : Char) :
    x ∉ escapeChar c := by
  unfold escapeChar
  simp only [List.mem_cons, List.not_mem_nil, or_false] at h
  rcases h with rfl | rfl | rfl | rfl <;> (repeat' split) <;> simp_all [eq_comm]

/--
A way to write the characters of texts and values. Nothing of what is written for a character is taken for
markup, and the character is read back from it.
-/
structure Spelling where
  char : Char → List Char
  unmarked : ∀ {x}, x ∈ ['<', '>', '\'', '"'] → ∀ c, x ∉ char c
  unescapeRest_char : ∀ size c rest,
    unescapeRest size (char c ++ rest) = (unescapeRest size rest).map (c :: ·)

namespace Spelling

def escaped : Spelling where
  char := escapeChar
  unmarked := not_mem_escapeChar
  unescapeRest_char := unescapeRest_escapeChar

variable (spelling : Spelling)

def write (cs : List Char) : List Char :=
  cs.flatMap spelling.char

theorem not_mem_write {x : Char} (h : x ∈ ['<', '>', '\'', '"']) (cs : List Char) :
    x ∉ spelling.write cs := by
  unfold write
  simp only [List.mem_flatMap, not_exists, not_and]
  intro c _
  exact spelling.unmarked h c

theorem unescape_write (cs : List Char) : unescape (spelling.write cs) = .ok cs :=
  unescapeRest_flatMap (spelling.unescapeRest_char _) cs

end Spelling

theorem escape_of_plain {cs : List Char} (h : ∀ c ∈ ['&', '<', '>', '\'', '"'], c ∉ cs) :
    escape cs = cs := by
  induction cs with
  | nil => rfl
  | cons c cs ih =>
    have hcs := ih fun x hx hmem => h x hx (List.mem_cons_of_mem _ hmem)
    have hne : ∀ x ∈ ['&', '<', '>', '\'', '"'], c ≠ x := by
      intro x hx hc
      exact h x hx (hc ▸ List.mem_cons_self)
    have hc : escapeChar c = [c] := by
      simp [escapeChar, hne]
    unfold escape at hcs ⊢
    rw [List.flatMap_cons, hcs, hc]
    rfl

/-! ### How a tag is divided -/

namespace Spelling

variable (spelling : Spelling)

def attributeChars (key value : String) : List Char :=
  ' ' :: key.toList ++ '=' :: '"' :: spelling.write value.toList ++ ['"']

def writtenChars (parts : List (String × String)) : List Char :=
  parts.flatMap fun (key, value) => spelling.attributeChars key value

def writtenAttributes (size : Nat) : List (String × String) → List RawAttribute
  | [] => []
  | (key, value) :: parts =>
    { key := key.toList
      position := size - Utf8.size (spelling.writtenChars ((key, value) :: parts)).tail
      value := spelling.write value.toList } :: writtenAttributes size parts

end Spelling

def IsKey (key : String) : Prop :=
  key ≠ "" ∧ ∀ c ∈ key.toList, isSpace c = false ∧ c ≠ '=' ∧ c ≠ '>' ∧ c ≠ '\'' ∧ c ≠ '"'

/--
The key can also be the name of an element, for no other kind of markup starts or ends like it.
-/
structure IsTagName (name : String) : Prop where
  isKey : IsKey name
  unmarked : ∀ c ∈ name.toList, c ≠ '!' ∧ c ≠ '?' ∧ c ≠ '/'

variable (spelling : Spelling)

theorem writtenChars_cons (key value : String) (parts : List (String × String)) :
    spelling.writtenChars ((key, value) :: parts)
      = ' ' :: (key.toList ++ '=' :: '"'
        :: (spelling.write value.toList ++ '"' :: spelling.writtenChars parts)) := by
  simp [Spelling.writtenChars, Spelling.attributeChars]

theorem closed_attributeChars {key value : String} (h : IsKey key) :
    Markup.Closed (spelling.attributeChars key value) := by
  have hkey : Markup.Closed (' ' :: key.toList ++ ['=']) := by
    apply Markup.Closed.plain
    intro c hc
    simp only [List.cons_append, List.mem_cons, List.mem_append, List.not_mem_nil, or_false] at hc
    rcases hc with rfl | hc | rfl
    · decide
    · exact (h.2 c hc).2.2
    · decide
  have hvalue : Markup.Closed ('"' :: spelling.write value.toList ++ ['"']) :=
    Markup.Closed.quoted (.inl rfl) (spelling.not_mem_write (by decide) _)
  have hchars : spelling.attributeChars key value
      = (' ' :: key.toList ++ ['=']) ++ ('"' :: spelling.write value.toList ++ ['"']) := by
    simp [Spelling.attributeChars]
  rw [hchars]
  exact hkey.append hvalue

theorem closed_writtenChars {parts : List (String × String)} (h : ∀ part ∈ parts, IsKey part.1) :
    Markup.Closed (spelling.writtenChars parts) := by
  induction parts with
  | nil => exact Markup.Closed.nil
  | cons part parts ih =>
    unfold Spelling.writtenChars at ih ⊢
    rw [List.flatMap_cons]
    apply Markup.Closed.append
    · exact closed_attributeChars spelling (h part List.mem_cons_self)
    · exact ih fun other hother => h other (List.mem_cons_of_mem _ hother)

theorem takeWhile_append_stop {p : Char → Bool} {cs : List Char} {c : Char} (rest : List Char)
    (h : ∀ x ∈ cs, p x = true) (hc : p c = false) : (cs ++ c :: rest).takeWhile p = cs := by
  rw [List.takeWhile_append_of_pos h]
  simp [hc]

theorem dropWhile_append_stop {p : Char → Bool} {cs : List Char} {c : Char} (rest : List Char)
    (h : ∀ x ∈ cs, p x = true) (hc : p c = false) :
    (cs ++ c :: rest).dropWhile p = c :: rest := by
  rw [List.dropWhile_append_of_pos h]
  simp [hc]

theorem cutAt?_append {stop : Char → Bool} {cs : List Char} {c : Char} (rest : List Char)
    (h : ∀ x ∈ cs, stop x = false) (hc : stop c = true) :
    Text.cutAt? stop (cs ++ c :: rest) = some (cs, c, rest) := by
  induction cs with
  | nil => simp [Text.cutAt?, hc]
  | cons x cs ih =>
    have hcs := ih fun y hy => h y (List.mem_cons_of_mem _ hy)
    simp [Text.cutAt?, h x List.mem_cons_self, hcs]

theorem cutAt?_eq_none {stop : Char → Bool} {cs : List Char} (h : ∀ x ∈ cs, stop x = false) :
    Text.cutAt? stop cs = none := by
  induction cs with
  | nil => rfl
  | cons x cs ih =>
    have hcs := ih fun y hy => h y (List.mem_cons_of_mem _ hy)
    simp [Text.cutAt?, h x List.mem_cons_self, hcs]

namespace Tag

theorem scanValue_written (size position : Nat) (key : List Char) (value : String)
    (rest : List Char) :
    scanValue size key position ('"' :: (spelling.write value.toList ++ '"' :: rest))
      = .attribute { key, position, value := spelling.write value.toList } rest := by
  have hvalue : ∀ x ∈ spelling.write value.toList, (x == '"') = false := by
    intro x hx
    rw [beq_eq_false_iff_ne]
    intro hquot
    exact spelling.not_mem_write (by decide) value.toList (hquot ▸ hx)
  have hcut : Text.cutAt? (· == '"') (spelling.write value.toList ++ '"' :: rest)
      = some (spelling.write value.toList, '"', rest) := cutAt?_append rest hvalue (by decide)
  unfold scanValue
  rw [List.dropWhile_cons_of_neg (by decide)]
  simp only [true_or, ↓reduceIte]
  rw [hcut]

theorem scanAttribute_written {key : String} (value : String) (parts : List (String × String))
    (size : Nat) {earlier : List RawAttribute} (hkey : IsKey key)
    (hearlier : key.toList ∉ earlier.map (·.key)) :
    scanAttribute size earlier (spelling.writtenChars ((key, value) :: parts))
      = .attribute {
          key := key.toList
          position := size - Utf8.size (spelling.writtenChars ((key, value) :: parts)).tail
          value := spelling.write value.toList } (spelling.writtenChars parts) := by
  obtain ⟨hne, hchars⟩ := hkey
  rw [writtenChars_cons]
  cases hlist : key.toList with
  | nil => exact absurd (by simpa using hlist) hne
  | cons first rest =>
    rw [hlist] at hchars hearlier
    -- The key ends at the equals sign and not before.
    have hends : ∀ c ∈ rest, (!endsKey c) = true := by
      intro c hc
      have := hchars c (List.mem_cons_of_mem _ hc)
      simp [endsKey, this]
    have hnone : earlier.find? (·.key == first :: rest) = none := by
      rw [List.find?_eq_none]
      intro other hother hsame
      apply hearlier
      rw [← beq_iff_eq.mp hsame]
      exact List.mem_map_of_mem hother
    unfold scanAttribute
    rw [List.dropWhile_cons_of_pos (by decide), List.cons_append,
      List.dropWhile_cons_of_neg (by simp [hchars first List.mem_cons_self])]
    simp only [List.tail_cons]
    rw [takeWhile_append_stop _ hends (by decide), dropWhile_append_stop _ hends (by decide),
      List.dropWhile_cons_of_neg (by decide)]
    simp only
    rw [hnone]
    exact scanValue_written spelling _ _ _ _ _

theorem scanAttributes_written (unique : Bool) (size : Nat) {parts : List (String × String)}
    {earlier : List RawAttribute} (hkeys : ∀ part ∈ parts, IsKey part.1)
    (hdistinct : unique = true → (parts.map (·.1)).Nodup)
    (hearlier : unique = true → ∀ part ∈ parts, part.1.toList ∉ earlier.map (·.key)) :
    scanAttributes unique size earlier (spelling.writtenChars parts) = (spelling.writtenAttributes size parts, none) := by
  induction parts generalizing earlier with
  | nil =>
    rw [scanAttributes]
    rfl
  | cons part parts ih =>
    obtain ⟨key, value⟩ := part
    simp only [List.map_cons, List.nodup_cons] at hdistinct
    -- Keys that are not compared cannot be found twice either.
    have hfirst : key.toList ∉ (if unique then earlier else []).map (·.key) := by
      cases unique
      · simp
      · exact hearlier rfl _ List.mem_cons_self
    have hscan := scanAttribute_written spelling value parts size (hkeys _ List.mem_cons_self) hfirst
    rw [scanAttributes]
    split
    · next h => simp [hscan] at h
    · next h => simp [hscan] at h
    · next attr after h =>
      rw [hscan] at h
      obtain ⟨rfl, rfl⟩ := Scan.attribute.inj h
      rw [ih (fun other hother => hkeys other (List.mem_cons_of_mem _ hother))
        fun hunique => (hdistinct hunique).2]
      · rfl
      · intro hunique other hother
        simp only [List.map_cons, List.mem_cons, not_or]
        refine ⟨?_, hearlier hunique other (List.mem_cons_of_mem _ hother)⟩
        intro hsame
        apply (hdistinct hunique).1
        exact List.mem_map.mpr ⟨other, hother, String.toList_inj.mp hsame⟩

end Tag

end Xml
end XmlPipeline
