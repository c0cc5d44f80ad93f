import Mathlib.Data.List.Nodup
import XmlPipeline.Proofs.Pipeline.InForce
import XmlPipeline.Proofs.Xml.Lookup

/-!
This module contains the proof that the declarations in force, all made by one element, give each name the
namespace that it has under the nested declarations they come from. A content that can be read under the
nested declarations can be read under the gathered ones.
-/

namespace XmlPipeline
namespace Xml

/-! ### The declarations in force -/

namespace NamespaceBinding

variable {bindings : List NamespaceBinding} {binding : NamespaceBinding} {pfx : Option String}

/--
The declaration does not take a prefix back.
-/
def counts (binding : NamespaceBinding) : Bool :=
  !binding.uri.isEmpty || binding.pfx.isNone

theorem mem_inForce :
    binding ∈ inForce bindings
      ↔ innermost? binding.pfx bindings.reverse = some binding ∧ binding.counts = true := by
  unfold inForce
  rw [List.mem_filter, List.mem_filterMap]
  apply and_congr_left
  intro _
  constructor
  · rintro ⟨pfx, _, hfound⟩
    obtain rfl : binding.pfx = pfx := by simpa using List.find?_some hfound
    exact hfound
  · intro hfound
    have hmem : binding ∈ bindings := List.mem_reverse.mp (List.mem_of_find?_eq_some hfound)
    exact ⟨binding.pfx, List.mem_eraseDups.mpr (List.mem_map_of_mem hmem), hfound⟩

theorem mem_of_mem_inForce (h : binding ∈ inForce bindings) : binding ∈ bindings :=
  List.mem_reverse.mp (List.mem_of_find?_eq_some (mem_inForce.mp h).1)

theorem nodup_eraseDups (prefixes : List (Option String)) : prefixes.eraseDups.Nodup := by
  induction prefixes using List.reverseRecOn with
  | nil => exact List.nodup_nil
  | append_singleton prefixes pfx ih =>
    rw [Definition.eraseDups_concat]
    split
    · exact ih
    · next hnew =>
      rw [← List.concat_eq_append]
      exact ih.concat (by simpa using hnew)

theorem nodup_inForce (bindings : List NamespaceBinding) :
    ((inForce bindings).map (·.pfx)).Nodup := by
  unfold inForce
  apply List.Nodup.sublist (List.Sublist.map _ List.filter_sublist)
  rw [List.map_filterMap]
  apply List.Nodup.filterMap _ (nodup_eraseDups _)
  -- What is found under a prefix has that prefix.
  have hfound : ∀ pfx found, found ∈ (innermost? pfx bindings.reverse).map (·.pfx) → found = pfx := by
    intro pfx found hfound
    obtain ⟨binding, hbinding, rfl⟩ := Option.map_eq_some_iff.mp hfound
    simpa using List.find?_some hbinding
  intro first second found hfirst hsecond
  rw [← hfound first found hfirst, ← hfound second found hsecond]

theorem innermost?_eq_some_iff (hdistinct : (bindings.map (·.pfx)).Nodup) :
    innermost? pfx bindings.reverse = some binding ↔ binding ∈ bindings ∧ binding.pfx = pfx := by
  constructor
  · intro hfound
    refine ⟨List.mem_reverse.mp (List.mem_of_find?_eq_some hfound), ?_⟩
    simpa using List.find?_some hfound
  · rintro ⟨hmem, rfl⟩
    induction bindings with
    | nil => cases hmem
    | cons first bindings ih =>
      rw [List.map_cons, List.nodup_cons] at hdistinct
      rw [innermost?_cons]
      cases List.mem_cons.mp hmem with
      | inr hlater => rw [ih hdistinct.2 hlater, Option.some_or]
      | inl heq =>
        have hnone : innermost? binding.pfx bindings.reverse = none := by
          apply List.find?_eq_none.mpr
          intro other hother hsame
          apply hdistinct.1
          rw [← heq, ← beq_iff_eq.mp hsame]
          exact List.mem_map_of_mem (List.mem_reverse.mp hother)
        rw [hnone, Option.none_or, innermost?_singleton, if_pos (by rw [heq]), heq]

theorem innermost?_inForce (pfx : Option String) (bindings : List NamespaceBinding) :
    innermost? pfx (inForce bindings).reverse
      = (innermost? pfx bindings.reverse).filter (·.counts) := by
  ext binding
  rw [innermost?_eq_some_iff (nodup_inForce bindings), mem_inForce, Option.filter_eq_some_iff]
  constructor
  · rintro ⟨⟨hfound, hcounts⟩, rfl⟩
    exact ⟨hfound, hcounts⟩
  · rintro ⟨hfound, hcounts⟩
    obtain rfl : binding.pfx = pfx := by simpa using List.find?_some hfound
    exact ⟨⟨hfound, hcounts⟩, rfl⟩

end NamespaceBinding

namespace Scope

variable {bindings : List NamespaceBinding}

theorem alike_inForce (h : ∀ binding ∈ bindings, binding.Declarable) :
    (initial.addAll (NamespaceBinding.inForce bindings)).Alike (initial.addAll bindings) := by
  intro pfx
  unfold found?
  by_cases hxml : pfx = "xml"
  · rw [hxml, uri?_addAll_xml, uri?_addAll_xml]
  · rw [uri?_addAll (fun binding hbinding => h binding (NamespaceBinding.mem_of_mem_inForce hbinding)) hxml,
      uri?_addAll h hxml, NamespaceBinding.innermost?_inForce]
    cases hfound : NamespaceBinding.innermost? (written pfx) bindings.reverse with
    | none => rfl
    | some binding =>
      cases hcounts : binding.counts with
      | true => simp [Option.filter_some, hcounts]
      | false =>
        -- A prefix that was taken back is not one of the two that are in force outside of all elements.
        obtain ⟨hempty, hsome⟩ : binding.uri = "" ∧ binding.pfx.isSome = true := by
          simpa [NamespaceBinding.counts] using hcounts
        have hpfx : binding.pfx = written pfx := by simpa using List.find?_some hfound
        have hwritten : written pfx = some pfx := by
          unfold written at hpfx ⊢
          split at hpfx
          · simp [hpfx] at hsome
          · next hne => rw [if_neg hne]
        have hallowed := (h binding (List.mem_reverse.mp (List.mem_of_find?_eq_some hfound))).allowed pfx
          (hpfx.trans hwritten)
        rw [if_neg hxml] at hallowed
        have hinitial : initial.uri? pfx = none := by
          simp [initial, uri?, Ne.symm hxml, Ne.symm hallowed.1]
        simp [Option.filter_some, hcounts, hempty, hinitial]

end Scope

theorem Content.readable_gathered {outer : List NamespaceBinding} {start : ElementStart}
    {inner : Content} (houter : ∀ binding ∈ outer, binding.Declarable)
    (hstart : start.Readable (Scope.initial.addAll (outer ++ start.namespaces)))
    (hinner : inner.Readable (Scope.initial.addAll (outer ++ start.namespaces))) :
    (element { start with namespaces := NamespaceBinding.inForce (outer ++ start.namespaces) } inner
      .empty).Readable .initial := by
  have hdeclarable : ∀ binding ∈ outer ++ start.namespaces, binding.Declarable := by
    intro binding hbinding
    cases List.mem_append.mp hbinding with
    | inl hmem => exact houter binding hmem
    | inr hmem => exact hstart.namespaces_declarable binding hmem
  have halike : (Scope.initial.addAll (outer ++ start.namespaces)).Alike
      (Scope.initial.addAll (NamespaceBinding.inForce (outer ++ start.namespaces))) := by
    intro pfx
    exact (Scope.alike_inForce hdeclarable pfx).symm
  have hroot := hstart.alike halike
  refine ⟨?_, hinner.alike halike, trivial⟩
  exact { hroot with
    namespaces_declarable := fun binding hbinding =>
      hdeclarable binding (NamespaceBinding.mem_of_mem_inForce hbinding)
    namespaces_distinct := NamespaceBinding.nodup_inForce _ }

end Xml
end XmlPipeline
