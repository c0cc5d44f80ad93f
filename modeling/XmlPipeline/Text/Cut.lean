/-!
This module contains the ways in which the readers cut a text in two: at the first character of a
class, and around the first occurrence of a marker. What is cut off is never longer than the text.
-/

namespace XmlPipeline
namespace Text

def cutAt? (stop : Char → Bool) : List Char → Option (List Char × Char × List Char)
  | [] => none
  | c :: cs =>
    if stop c then
      some ([], c, cs)
    else
      (cutAt? stop cs).map fun (before, found, after) => (c :: before, found, after)

theorem eq_of_cutAt? {stop : Char → Bool} {cs before after : List Char} {found : Char}
    (h : cutAt? stop cs = some (before, found, after)) : cs = before ++ found :: after := by
  induction cs generalizing before with
  | nil => simp [cutAt?] at h
  | cons c cs ih =>
    simp only [cutAt?] at h
    split at h
    · simp_all
    · simp only [Option.map_eq_some_iff] at h
      obtain ⟨⟨b, f, a⟩, hcut, heq⟩ := h
      simp only [Prod.mk.injEq] at heq
      obtain ⟨rfl, rfl, rfl⟩ := heq
      simp [ih hcut]

theorem stop_of_cutAt? {stop : Char → Bool} {cs before after : List Char} {found : Char}
    (h : cutAt? stop cs = some (before, found, after)) : stop found = true := by
  induction cs generalizing before with
  | nil => simp [cutAt?] at h
  | cons c cs ih =>
    simp only [cutAt?] at h
    split at h
    · simp_all
    · simp only [Option.map_eq_some_iff] at h
      obtain ⟨⟨b, f, a⟩, hcut, heq⟩ := h
      simp only [Prod.mk.injEq] at heq
      obtain ⟨-, rfl, rfl⟩ := heq
      exact ih hcut

theorem not_stop_of_cutAt? {stop : Char → Bool} {cs before after : List Char} {found : Char}
    (h : cutAt? stop cs = some (before, found, after)) : ∀ c ∈ before, stop c = false := by
  induction cs generalizing before with
  | nil => simp [cutAt?] at h
  | cons c cs ih =>
    simp only [cutAt?] at h
    split at h
    · obtain ⟨rfl, -⟩ := Prod.mk.inj (Option.some.inj h)
      simp
    · next hc =>
      obtain ⟨⟨inner, _, _⟩, hcut, heq⟩ := Option.map_eq_some_iff.mp h
      simp only [Prod.mk.injEq] at heq
      obtain ⟨rfl, rfl, rfl⟩ := heq
      exact List.forall_mem_cons.mpr ⟨by simpa using hc, ih hcut⟩

def afterMarker? : (marker : List Char) → List Char → Option (List Char)
  | [], cs => some cs
  | m :: marker, c :: cs => if m = c then afterMarker? marker cs else none
  | _ :: _, [] => none

theorem eq_of_afterMarker? {marker cs after : List Char}
    (h : afterMarker? marker cs = some after) : cs = marker ++ after := by
  induction marker generalizing cs with
  | nil => simp_all [afterMarker?]
  | cons m marker ih =>
    cases cs with
    | nil => simp [afterMarker?] at h
    | cons c cs =>
      simp only [afterMarker?] at h
      split at h
      · subst_vars
        simp [ih h]
      · simp at h

def cutAround? (marker : List Char) : List Char → Option (List Char × List Char)
  | [] => (afterMarker? marker []).map fun after => ([], after)
  | c :: cs =>
    match afterMarker? marker (c :: cs) with
    | some after => some ([], after)
    | none => (cutAround? marker cs).map fun (before, after) => (c :: before, after)

theorem eq_of_cutAround? {marker cs before after : List Char}
    (h : cutAround? marker cs = some (before, after)) : cs = before ++ marker ++ after := by
  induction cs generalizing before with
  | nil =>
    simp only [cutAround?, Option.map_eq_some_iff] at h
    obtain ⟨a, ha, heq⟩ := h
    simp only [Prod.mk.injEq] at heq
    obtain ⟨rfl, rfl⟩ := heq
    simpa using eq_of_afterMarker? ha
  | cons c cs ih =>
    simp only [cutAround?] at h
    split at h
    · next a ha =>
      simp only [Option.some.injEq, Prod.mk.injEq] at h
      obtain ⟨rfl, rfl⟩ := h
      simpa using eq_of_afterMarker? ha
    · simp only [Option.map_eq_some_iff] at h
      obtain ⟨⟨b, a⟩, hcut, heq⟩ := h
      simp only [Prod.mk.injEq] at heq
      obtain ⟨rfl, rfl⟩ := heq
      simp [ih hcut]

end Text
end XmlPipeline
