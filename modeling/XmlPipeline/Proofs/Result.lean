import Mathlib.Data.List.Forall2

/-!
This module contains the results of what may fail, taken apart.
-/

namespace XmlPipeline

theorem exists_of_bind_ok {ε α β : Type} {first : Except ε α} {next : α → Except ε β} {result : β}
    (h : first >>= next = .ok result) : ∃ value, first = .ok value ∧ next value = .ok result := by
  cases first with
  | error error => cases h
  | ok value => exact ⟨value, rfl, h⟩

theorem exists_of_map_ok {ε α β : Type} {first : Except ε α} {change : α → β} {result : β}
    (h : first.map change = .ok result) : ∃ value, first = .ok value ∧ result = change value := by
  cases first with
  | error error => cases h
  | ok value => exact ⟨value, rfl, (Except.ok.inj h).symm⟩

theorem eq_error_of_map {ε α β : Type} {first : Except ε α} {change : α → β} {error : ε}
    (h : first.map change = .error error) : first = .error error := by
  cases first with
  | error other => exact congrArg Except.error (Except.error.inj h)
  | ok value => cases h

theorem exists_of_mapError_ok {ε ε' α : Type} {first : Except ε α} {report : ε → ε'} {result : α}
    (h : first.mapError report = .ok result) : first = .ok result := by
  cases first with
  | error error => cases h
  | ok value => exact congrArg Except.ok (Except.ok.inj h)

theorem mapError_eq_ok_iff {ε ε' α : Type} {first : Except ε α} {report : ε → ε'} {result : α} :
    first.mapError report = .ok result ↔ first = .ok result := by
  refine ⟨exists_of_mapError_ok, ?_⟩
  rintro rfl
  rfl

theorem forall₂_of_mapM_ok {ε α β : Type} {f : α → Except ε β} {values : List α} {results : List β}
    (h : values.mapM f = .ok results) :
    List.Forall₂ (fun value result => f value = .ok result) values results := by
  induction values generalizing results with
  | nil =>
    obtain rfl := Except.ok.inj h
    exact .nil
  | cons value values ih =>
    rw [List.mapM_cons] at h
    obtain ⟨result, hresult, hmore⟩ := exists_of_bind_ok h
    obtain ⟨results, hresults, hsame⟩ := exists_of_bind_ok hmore
    obtain rfl := Except.ok.inj hsame
    exact .cons hresult (ih hresults)

theorem eq_ok_of_toOption {ε α : Type} {result : Except ε α} {value : α}
    (h : result.toOption = some value) : result = .ok value := by
  cases result with
  | error error => cases h
  | ok other => exact congrArg Except.ok (Option.some.inj h)

end XmlPipeline
