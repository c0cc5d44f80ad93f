import XmlPipeline.Proofs.Xml.WrittenMarkup
import XmlPipeline.Xml.Markup

/-!
This module contains what the pieces of a text depend on. The main statement is that a piece of markup is
found by its own characters, whatever comes behind them.
-/

namespace XmlPipeline

namespace Text

theorem afterMarker?_append {marker cs : List Char} (h : marker.length ≤ cs.length) (more : List Char) :
    afterMarker? marker (cs ++ more) = (afterMarker? marker cs).map (· ++ more) := by
  induction marker generalizing cs with
  | nil => simp [afterMarker?]
  | cons m marker ih =>
    cases cs with
    | nil => simp at h
    | cons c cs =>
      simp only [List.cons_append, afterMarker?]
      split
      · exact ih (by simpa using h)
      · rfl

theorem afterMarker?_self (marker more : List Char) : afterMarker? marker (marker ++ more) = some more := by
  induction marker with
  | nil => rfl
  | cons m marker ih => simpa [afterMarker?] using ih

theorem cutAround?_any_rest {marker cs before after : List Char}
    (h : cutAround? marker cs = some (before, after)) (more : List Char) :
    cutAround? marker (before ++ marker ++ more) = some (before, more) := by
  induction cs generalizing before with
  | nil =>
    obtain ⟨rest, hrest, heq⟩ := Option.map_eq_some_iff.mp h
    obtain ⟨rfl, rfl⟩ := Prod.mk.inj heq
    obtain ⟨rfl, -⟩ := List.append_eq_nil_iff.mp (eq_of_afterMarker? hrest).symm
    cases more <;> rfl
  | cons c cs ih =>
    have hcs := eq_of_cutAround? h
    simp only [cutAround?] at h
    split at h
    · next rest hrest =>
      obtain ⟨rfl, rfl⟩ := Prod.mk.inj (Option.some.inj h)
      have hself := afterMarker?_self marker more
      rw [List.nil_append]
      cases hmore : marker ++ more with
      | nil =>
        rw [hmore] at hself
        simp [cutAround?, hself]
      | cons first rest =>
        rw [hmore] at hself
        simp [cutAround?, hself]
    · next hnone =>
      obtain ⟨⟨inner, rest⟩, hcut, heq⟩ := Option.map_eq_some_iff.mp h
      obtain ⟨rfl, rfl⟩ := Prod.mk.inj heq
      -- The marker is no longer than what is known to stand here.
      have hlength : marker.length ≤ (c :: inner ++ marker).length := by simp; omega
      have hmiss : afterMarker? marker (c :: inner ++ marker) = none := by
        rw [hcs, afterMarker?_append hlength] at hnone
        exact Option.map_eq_none_iff.mp hnone
      have hstill : afterMarker? marker (c :: inner ++ marker ++ more) = none := by
        rw [afterMarker?_append hlength, hmiss]
        rfl
      simp only [List.cons_append] at hstill ⊢
      simp only [cutAround?, hstill]
      rw [ih hcut]
      rfl

end Text

namespace Xml
namespace Markup

variable {cs content after : List Char} {piece : Markup}

theorem cutTag?_any_rest {quote : Option Char} (h : cutTag? quote cs = some (content, after))
    (more : List Char) : cutTag? quote (content ++ '>' :: more) = some (content, more) := by
  induction cs generalizing quote content with
  | nil => simp [cutTag?] at h
  | cons c cs ih =>
    have step : ∀ {quote inner}, cutTag?.more c (cutTag? quote cs) = some (inner, after) →
        ∃ tail, inner = c :: tail
          ∧ cutTag?.more c (cutTag? quote (tail ++ '>' :: more)) = some (inner, more) := by
      intro quote inner h
      rw [cutTag?_more] at h
      obtain ⟨⟨tail, rest⟩, hcut, heq⟩ := Option.map_eq_some_iff.mp h
      obtain ⟨rfl, rfl⟩ := Prod.mk.inj heq
      refine ⟨tail, rfl, ?_⟩
      rw [ih hcut]
      rfl
    simp only [cutTag?] at h
    split at h
    · obtain ⟨tail, rfl, htail⟩ := step h
      simpa [cutTag?] using htail
    · split at h
      · next hgt =>
        obtain ⟨rfl, rfl⟩ := Prod.mk.inj (Option.some.inj h)
        simp [cutTag?]
      · next hgt =>
        obtain ⟨tail, rfl, htail⟩ := step h
        simpa [cutTag?, hgt] using htail

theorem cutDoctype?_more (c : Char) (cut : Option (List Char × List Char)) :
    cutDoctype?.more c cut = cut.map fun (content, after) => (c :: content, after) := by
  cases cut <;> rfl

theorem cutDoctype?_any_rest {depth : Nat} (h : cutDoctype? depth cs = some (content, after)) :
    cs = content ++ '>' :: after
      ∧ ∀ more, cutDoctype? depth (content ++ '>' :: more) = some (content, more) := by
  induction cs generalizing depth content with
  | nil => simp [cutDoctype?] at h
  | cons c cs ih =>
    have step : ∀ {depth inner}, cutDoctype?.more c (cutDoctype? depth cs) = some (inner, after) →
        ∃ tail, inner = c :: tail ∧ cs = tail ++ '>' :: after
          ∧ ∀ more, cutDoctype?.more c (cutDoctype? depth (tail ++ '>' :: more)) = some (inner, more) := by
      intro depth inner h
      rw [cutDoctype?_more] at h
      obtain ⟨⟨tail, rest⟩, hcut, heq⟩ := Option.map_eq_some_iff.mp h
      obtain ⟨rfl, rfl⟩ := Prod.mk.inj heq
      obtain ⟨hcs, hmore⟩ := ih hcut
      refine ⟨tail, rfl, hcs, ?_⟩
      intro more
      rw [hmore]
      rfl
    simp only [cutDoctype?] at h
    split at h
    · next hlt =>
      obtain ⟨tail, rfl, rfl, hmore⟩ := step h
      exact ⟨rfl, fun more => by simpa [cutDoctype?, hlt] using hmore more⟩
    · next hlt =>
      split at h
      · next hgt =>
        split at h
        · obtain ⟨rfl, rfl⟩ := Prod.mk.inj (Option.some.inj h)
          simp [cutDoctype?, hgt]
        · obtain ⟨tail, rfl, rfl, hmore⟩ := step h
          exact ⟨rfl, fun more => by simpa [cutDoctype?, hlt, hgt] using hmore more⟩
      · next hgt =>
        obtain ⟨tail, rfl, rfl, hmore⟩ := step h
        exact ⟨rfl, fun more => by simpa [cutDoctype?, hlt, hgt] using hmore more⟩

theorem afterKeyword?_any_rest {marker : List Char} (h : afterKeyword? marker cs = some after) :
    ∃ keyword, cs = keyword ++ after ∧ ∀ more, afterKeyword? marker (keyword ++ more) = some more := by
  obtain ⟨rest, hrest, rfl⟩ := Option.map_eq_some_iff.mp h
  have hlength : marker.length ≤ cs.length := by
    have := congrArg List.length (Text.eq_of_afterMarker? hrest)
    simp only [List.length_map, List.length_append] at this
    omega
  refine ⟨cs.take marker.length, (List.take_append_drop _ _).symm, ?_⟩
  intro more
  have htake : (cs.take marker.length).length = marker.length := List.length_take_of_le hlength
  have hmarker : (cs.take marker.length).map Char.toUpper = marker := by
    have hmap := Text.eq_of_afterMarker? hrest
    rw [List.map_take, hmap, List.take_left]
  have hdrop : (cs.take marker.length ++ more).drop marker.length = more := List.drop_left' htake
  unfold afterKeyword?
  rw [List.map_append, hmarker, Text.afterMarker?_self, hdrop]
  rfl

def Makes (taken : List Char) (piece : Markup) : Prop :=
  ∀ rest, scanTag (taken ++ rest) = .ok (piece, rest)

theorem scanDeclaration_of_letter {first : Char} (h : first = 'D' ∨ first = 'd') (cs : List Char) :
    scanDeclaration (first :: cs)
      = match afterKeyword? ['O', 'C', 'T', 'Y', 'P', 'E'] cs with
        | none => .error .unclosedDoctype
        | some cs =>
          match cutDoctype? 0 cs with
          | none => .error .unclosedDoctype
          | some (content, after) =>
            if content.all isSpace then .error .unnamedDoctype else .ok (.ignored, after) := by
  rcases h with rfl | rfl <;> rfl

theorem exists_makes_doctype {first : Char} (hfirst : first = 'D' ∨ first = 'd')
    (h : scanDeclaration (first :: cs) = .ok (piece, after)) :
    ∃ taken, first :: cs = taken ++ after
      ∧ ∀ more, scanDeclaration (taken ++ more) = .ok (piece, more) := by
  rw [scanDeclaration_of_letter hfirst] at h
  split at h
  · cases h
  · next declared hkeyword =>
    split at h
    · cases h
    · next content rest hcut =>
      split at h
      · cases h
      · next hnamed =>
        obtain ⟨rfl, rfl⟩ := Prod.mk.inj (Except.ok.inj h)
        obtain ⟨keyword, rfl, hmoreKeyword⟩ := afterKeyword?_any_rest hkeyword
        obtain ⟨rfl, hmoreContent⟩ := cutDoctype?_any_rest hcut
        refine ⟨first :: (keyword ++ (content ++ ['>'])), by simp, ?_⟩
        intro more
        have hmore := hmoreKeyword (content ++ '>' :: more)
        have hsplit : first :: (keyword ++ (content ++ ['>'])) ++ more
            = first :: (keyword ++ (content ++ '>' :: more)) := by simp
        rw [hsplit, scanDeclaration_of_letter hfirst, hmore]
        simp only
        rw [hmoreContent]
        simp only
        rw [if_neg hnamed]

theorem exists_makes_declaration (h : scanDeclaration cs = .ok (piece, after)) :
    ∃ taken, cs = taken ++ after ∧ ∀ more, scanDeclaration (taken ++ more) = .ok (piece, more) := by
  have hscan := h
  unfold scanDeclaration at h
  split at h
  · next inner =>
    split at h
    · cases h
    · next content hmarker =>
      split at h
      · cases h
      · next characters rest hcut =>
        obtain ⟨rfl, rfl⟩ := Prod.mk.inj (Except.ok.inj h)
        refine ⟨'[' :: (['C', 'D', 'A', 'T', 'A', '['] ++ (characters ++ [']', ']', '>'])), ?_, ?_⟩
        · rw [Text.eq_of_afterMarker? hmarker, Text.eq_of_cutAround? hcut]
          simp
        · intro more
          have hmore := Text.cutAround?_any_rest hcut more
          simp only [List.append_assoc, List.cons_append, List.nil_append] at hmore
          simp [scanDeclaration, Text.afterMarker?, hmore]
  · next inner =>
    split at h
    · next inner =>
      split at h
      · cases h
      · next comment rest hcut =>
        obtain ⟨rfl, rfl⟩ := Prod.mk.inj (Except.ok.inj h)
        refine ⟨'-' :: '-' :: (comment ++ ['-', '-', '>']), ?_, ?_⟩
        · rw [Text.eq_of_cutAround? hcut]
          simp
        · intro more
          have hmore := Text.cutAround?_any_rest hcut more
          simp only [List.append_assoc, List.cons_append, List.nil_append] at hmore
          simp [scanDeclaration, hmore]
    · cases h
  · next first inner hbracket hdash =>
    split at h
    · next hfirst => exact exists_makes_doctype hfirst hscan
    · cases h
  · cases h

theorem exists_makes_instruction (h : scanInstruction cs = .ok (piece, after)) :
    ∃ taken, cs = taken ++ after ∧ ∀ more, scanInstruction (taken ++ more) = .ok (piece, more) := by
  unfold scanInstruction at h
  split at h
  · cases h
  · next hne =>
    split at h
    · cases h
    · next content rest hcut =>
      obtain ⟨rfl, rfl⟩ := Prod.mk.inj (Except.ok.inj h)
      have hcs := Text.eq_of_cutAround? hcut
      refine ⟨content ++ ['?', '>'], hcs, ?_⟩
      intro more
      have hmore := Text.cutAround?_any_rest hcut more
      unfold scanInstruction
      split
      · next other heq =>
        -- A closing bracket at the start would have been there before.
        cases content with
        | nil => simp at heq
        | cons first content =>
          obtain ⟨rfl, -⟩ := List.cons.inj heq
          exact absurd hcs (hne _)
      · rw [hmore]

theorem exists_makes (h : scanTag cs = .ok (piece, after)) :
    ∃ taken, cs = taken ++ after ∧ Makes taken piece := by
  unfold scanTag at h
  split at h
  · next inner =>
    obtain ⟨taken, rfl, hmore⟩ := exists_makes_declaration h
    exact ⟨'!' :: taken, rfl, hmore⟩
  · next inner =>
    obtain ⟨taken, rfl, hmore⟩ := exists_makes_instruction h
    exact ⟨'?' :: taken, rfl, hmore⟩
  · next inner =>
    split at h
    · cases h
    · next content rest hcut =>
      obtain ⟨rfl, rfl⟩ := Prod.mk.inj (Except.ok.inj h)
      refine ⟨'/' :: (content ++ ['>']), by simp [eq_of_cutTag? hcut], ?_⟩
      intro more
      simp [scanTag, cutTag?_any_rest hcut more]
  · next hdeclaration hinstruction hclosing =>
    split at h
    · cases h
    · next content rest hcut =>
      obtain ⟨rfl, rfl⟩ := Prod.mk.inj (Except.ok.inj h)
      have hcs := eq_of_cutTag? hcut
      refine ⟨content ++ ['>'], by simp [hcs], ?_⟩
      intro more
      have hmore := cutTag?_any_rest hcut more
      rw [List.append_assoc, List.singleton_append]
      unfold scanTag
      -- The first character of the piece says which kind of markup it is.
      have hhead : ∀ {c other}, content ++ '>' :: more = c :: other → c = '>' ∨ ∃ inner, cs = c :: inner := by
        intro c other heq
        cases content with
        | nil => exact .inl (List.cons.inj heq).1.symm
        | cons first content =>
          obtain ⟨rfl, -⟩ := List.cons.inj heq
          exact .inr ⟨_, hcs⟩
      split
      · next other heq =>
        obtain hc | ⟨inner, hinner⟩ := hhead heq
        · cases hc
        · exact absurd hinner (hdeclaration _)
      · next other heq =>
        obtain hc | ⟨inner, hinner⟩ := hhead heq
        · cases hc
        · exact absurd hinner (hinstruction _)
      · next other heq =>
        obtain hc | ⟨inner, hinner⟩ := hhead heq
        · cases hc
        · exact absurd hinner (hclosing _)
      · rw [hmore]

end Markup
end Xml
end XmlPipeline
