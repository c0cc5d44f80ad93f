import Mathlib.Data.List.Basic
import Mathlib.Data.List.Induction
import XmlPipeline.Pipeline.Definition
import XmlPipeline.Proofs.Xml.Content

/-!
This module contains the proof that adding declarations one after the other, each of them shadowing the
ones before it, gives the declarations that are in force.
-/

namespace XmlPipeline

open Xml

namespace Definition

variable {bindings : List NamespaceBinding} {binding : NamespaceBinding}

theorem any_pfx_iff :
    bindings.any (·.pfx == binding.pfx) = true ↔ binding.pfx ∈ bindings.map (·.pfx) := by
  simp

theorem map_pfx_shadow :
    (shadow bindings binding).map (·.pfx)
      = if binding.pfx ∈ bindings.map (·.pfx) then bindings.map (·.pfx)
        else bindings.map (·.pfx) ++ [binding.pfx] := by
  unfold shadow
  simp only [any_pfx_iff]
  split
  · rw [List.map_map]
    apply List.map_congr_left
    intro other _
    by_cases h : other.pfx = binding.pfx <;> simp [h]
  · simp

theorem mem_shadow {other : NamespaceBinding} (h : other ∈ shadow bindings binding) :
    other = binding ∨ other ∈ bindings ∧ other.pfx ≠ binding.pfx := by
  unfold shadow at h
  simp only [any_pfx_iff] at h
  split at h
  · obtain ⟨old, hold, rfl⟩ := List.mem_map.mp h
    by_cases hpfx : old.pfx = binding.pfx
    · simp [hpfx]
    · simp [hpfx, hold]
  · next hnew =>
    cases List.mem_append.mp h with
    | inl hmem =>
      refine .inr ⟨hmem, ?_⟩
      intro hpfx
      apply hnew
      rw [← hpfx]
      exact List.mem_map_of_mem hmem
    | inr hmem => exact .inl (List.mem_singleton.mp hmem)

theorem eraseDups_concat (prefixes : List (Option String)) (pfx : Option String) :
    (prefixes ++ [pfx]).eraseDups
      = if pfx ∈ prefixes then prefixes.eraseDups else prefixes.eraseDups ++ [pfx] := by
  rw [List.eraseDups_append]
  by_cases h : pfx ∈ prefixes <;> simp [List.removeAll, h, List.eraseDups_cons]

theorem map_pfx_foldl_shadow (bindings : List NamespaceBinding) :
    (bindings.foldl shadow []).map (·.pfx) = (bindings.map (·.pfx)).eraseDups := by
  induction bindings using List.reverseRecOn with
  | nil => rfl
  | append_singleton bindings binding ih =>
    rw [List.foldl_concat, map_pfx_shadow, ih, List.map_append, List.map_singleton, eraseDups_concat]
    simp only [List.mem_eraseDups]

theorem innermost?_of_mem_foldl_shadow (h : binding ∈ bindings.foldl shadow []) :
    NamespaceBinding.innermost? binding.pfx bindings.reverse = some binding := by
  -- The last declaration is the innermost one, so the list is taken apart from its end.
  induction bindings using List.reverseRecOn with
  | nil => simp at h
  | append_singleton bindings last ih =>
    rw [List.foldl_concat] at h
    rw [List.reverse_append, List.reverse_singleton, List.singleton_append]
    unfold NamespaceBinding.innermost?
    cases mem_shadow h with
    | inl heq => simp [heq]
    | inr hold =>
      rw [List.find?_cons_of_neg]
      · exact ih hold.1
      · simp [Ne.symm hold.2]

theorem foldl_shadow (bindings : List NamespaceBinding) :
    bindings.foldl shadow []
      = (bindings.map (·.pfx)).eraseDups.filterMap (NamespaceBinding.innermost? · bindings.reverse) := by
  rw [← map_pfx_foldl_shadow, List.filterMap_map]
  symm
  calc
    (bindings.foldl shadow []).filterMap
        ((NamespaceBinding.innermost? · bindings.reverse) ∘ (·.pfx))
      = (bindings.foldl shadow []).filterMap some := by
        apply List.filterMap_congr
        intro binding h
        exact innermost?_of_mem_foldl_shadow h
    _ = bindings.foldl shadow [] := List.filterMap_some

theorem inScope_eq_inForce (d : Definition) :
    d.inScope = NamespaceBinding.inForce d.scopes.reverse.flatten := by
  unfold inScope NamespaceBinding.inForce
  rw [foldl_shadow]

end Definition
end XmlPipeline
