import XmlPipeline.Proofs.Xml.Merging

/-!
This module contains the ways in which content can be written: what is passed over stands anywhere between the
pieces of a text, and character data stands as it is, behind references, or in CDATA sections.
-/

namespace XmlPipeline

namespace Text

theorem cutAround?_marker {body : List Char} (stem : List Char) {last : Char} (hlast : last ∉ stem)
    (h : ¬ stem ++ [last] <:+: body) (rest : List Char) :
    cutAround? (stem ++ [last]) (body ++ (stem ++ [last] ++ rest)) = some (body, rest) := by
  have hself := afterMarker?_self (stem ++ [last]) rest
  induction body with
  | nil =>
    rw [List.nil_append]
    cases hcs : stem ++ [last] ++ rest with
    | nil => simp at hcs
    | cons c cs =>
      rw [hcs] at hself
      simp [cutAround?, hself]
  | cons c body ih =>
    have hinner : ¬ stem ++ [last] <:+: body := fun hmem => h (hmem.trans (List.suffix_cons c body).isInfix)
    have hmiss : afterMarker? (stem ++ [last]) (c :: body ++ (stem ++ [last] ++ rest)) = none := by
      cases hafter : afterMarker? (stem ++ [last]) (c :: body ++ (stem ++ [last] ++ rest)) with
      | none => rfl
      | some after =>
        -- The marker would stand in the body, or its last character in the stem.
        rcases List.append_eq_append_iff.mp (eq_of_afterMarker? hafter) with
          ⟨beyond, hbeyond, hafter⟩ | ⟨beyond, hbeyond, -⟩
        · rcases List.eq_nil_or_concat beyond with rfl | ⟨inner, final, rfl⟩
          · exact absurd (by simp) (hbeyond ▸ h)
          · rw [List.concat_eq_append, ← List.append_assoc] at hbeyond
            obtain ⟨hstem, hfinal⟩ := List.append_inj' hbeyond rfl
            obtain rfl : last = final := by simpa using hfinal
            have hshort : inner.length < stem.length := by
              rw [hstem, List.length_append]
              exact Nat.lt_add_of_pos_left (Nat.succ_pos _)
            have hindex := congrArg (·[inner.length]?) hafter
            simp only [List.append_assoc] at hindex
            rw [List.getElem?_append_left hshort] at hindex
            exact absurd (List.mem_of_getElem? (by simpa using hindex)) hlast
        · exact absurd ⟨[], beyond, by simpa using hbeyond.symm⟩ h
    simp only [List.cons_append] at hmiss ⊢
    rw [cutAround?, hmiss]
    simp only
    rw [ih hinner]
    rfl

end Text

namespace Xml

namespace Markup

variable {body content : List Char}

theorem makes_comment (h : ¬ ['-', '-', '>'] <:+: body) :
    Makes ('!' :: '-' :: '-' :: (body ++ ['-', '-', '>'])) .ignored := by
  intro rest
  have hcut := Text.cutAround?_marker ['-', '-'] (by decide) h rest
  simp only [List.cons_append, List.nil_append] at hcut
  simp [scanTag, scanDeclaration, hcut]

theorem makes_instruction (hfirst : body.head? ≠ some '>') (h : ¬ ['?', '>'] <:+: body) :
    Makes ('?' :: (body ++ ['?', '>'])) .ignored := by
  intro rest
  have hcut := Text.cutAround?_marker ['?'] (by decide) h rest
  have hsplit : '?' :: (body ++ ['?', '>']) ++ rest = '?' :: (body ++ (['?'] ++ ['>'] ++ rest)) := by simp
  rw [hsplit]
  unfold scanTag scanInstruction
  simp only
  split
  · next heq =>
    cases body with
    | nil => simp at heq
    | cons first body =>
      obtain ⟨rfl, -⟩ := List.cons.inj heq
      exact absurd rfl hfirst
  · rw [show ['?', '>'] = ['?'] ++ ['>'] from rfl, hcut]

theorem makes_cdata (h : ¬ [']', ']', '>'] <:+: content) :
    Makes ("![CDATA[".toList ++ (content ++ [']', ']', '>'])) (.cdata content) := by
  intro rest
  have hcut := Text.cutAround?_marker [']', ']'] (by decide) h rest
  simp only [List.cons_append, List.nil_append] at hcut
  simp [scanTag, scanDeclaration, Text.afterMarker?, hcut]

end Markup

/--
A comment or a processing instruction.
-/
inductive Skipped : List Char → Prop where
  | comment {body : List Char} (hbody : ¬ ['-', '-', '>'] <:+: body) :
    Skipped ('<' :: '!' :: '-' :: '-' :: (body ++ ['-', '-', '>']))
  | instruction {body : List Char} (hfirst : body.head? ≠ some '>') (hbody : ¬ ['?', '>'] <:+: body) :
    Skipped ('<' :: '?' :: (body ++ ['?', '>']))

/--
The ways to write character data. References are resolved in plain data only.
-/
inductive Writes : List Char → List Char → Prop where
  | data {raw characters : List Char} (hraw : '<' ∉ raw) (hcharacters : unescape raw = .ok characters) :
    Writes raw characters
  | cdata {characters : List Char} (hcharacters : ¬ [']', ']', '>'] <:+: characters) :
    Writes ('<' :: ("![CDATA[".toList ++ (characters ++ [']', ']', '>']))) characters

namespace Reader

variable {reader : Reader} {written characters : List Char}

theorem gathered_skipped (hpending : reader.pending = false) (h : Skipped written) (size : Nat)
    (tail : List Char) :
    (reader.within size (written ++ tail)).gathered = (reader.within size tail).gathered := by
  cases h with
  | comment hbody =>
    rw [List.cons_append]
    exact gathered_of_skip (step_of_makes hpending (Markup.makes_comment hbody) size tail)
  | instruction hfirst hbody =>
    rw [List.cons_append]
    exact gathered_of_skip (step_of_makes hpending (Markup.makes_instruction hfirst hbody) size tail)

theorem gathered_writes (hpending : reader.pending = false) (h : Writes written characters) (size : Nat)
    (tail : List Char) :
    (reader.within size (written ++ tail)).gathered
      = (reader.within size tail).gathered.map (Event.text (String.ofList characters)).onto := by
  cases h with
  | data hraw hcharacters => exact gathered_data hpending hraw hcharacters size tail
  | cdata hcharacters =>
    have hstep := step_of_makes hpending (Markup.makes_cdata hcharacters) size tail
    rw [List.cons_append]
    cases characters with
    | nil =>
      rw [gathered_of_skip hstep, String.ofList_nil, Event.onto_nil]
      exact Option.map_id_apply.symm
    | cons first characters => exact gathered_of_event hstep

end Reader
end Xml
end XmlPipeline
