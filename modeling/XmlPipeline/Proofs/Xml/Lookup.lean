import XmlPipeline.Proofs.Xml.Readable

/-!
This module contains what prefixes stand for in a scope: which scopes give all names the same namespaces,
and which one of nested declarations counts for a prefix.
-/

namespace XmlPipeline
namespace Xml

/-! ### Scopes that give names the same namespaces -/

namespace Scope

variable {scope other : Scope} {bindings : List NamespaceBinding} {binding : NamespaceBinding}
  {pfx : String}

def found? (scope : Scope) (pfx : String) : Option String :=
  (scope.uri? pfx).filter (!·.isEmpty)

def Alike (scope other : Scope) : Prop :=
  ∀ pfx, scope.found? pfx = other.found? pfx

theorem resolvePrefix_eq (scope : Scope) (pfx : String) :
    scope.resolvePrefix pfx
      = match scope.found? pfx with
        | some uri => if pfx.isEmpty then .error (.unknownPrefix pfx) else .ok uri
        | none => .error (.unknownPrefix pfx) := by
  unfold resolvePrefix found?
  cases scope.uri? pfx with
  | none => rfl
  | some uri => cases huri : uri.isEmpty <;> simp [huri, Option.filter_some]

theorem Alike.elementName (h : scope.Alike other) (raw : List Char) :
    scope.elementName raw = other.elementName raw := by
  have hdefault : (scope.uri? "").filter (!·.isEmpty) = (other.uri? "").filter (!·.isEmpty) := h ""
  unfold Scope.elementName
  simp only [resolvePrefix_eq, h _, hdefault]

theorem Alike.attributeName (h : scope.Alike other) (raw : List Char) :
    scope.attributeName raw = other.attributeName raw := by
  unfold Scope.attributeName
  simp only [resolvePrefix_eq, h _]

theorem Alike.add (h : scope.Alike other) (binding : NamespaceBinding) :
    (scope.add binding).Alike (other.add binding) := by
  intro pfx
  unfold Scope.add
  split
  · exact h pfx
  · have hpfx := h pfx
    unfold found? uri? at hpfx ⊢
    rw [List.find?_cons, List.find?_cons]
    split
    · rfl
    · exact hpfx

theorem Alike.addAll (h : scope.Alike other) (bindings : List NamespaceBinding) :
    (scope.addAll bindings).Alike (other.addAll bindings) := by
  induction bindings generalizing scope other with
  | nil => exact h
  | cons binding bindings ih => exact ih (h.add binding)

end Scope

theorem ElementStart.Readable.alike {scope other : Scope} {start : ElementStart}
    (h : start.Readable scope) (halike : scope.Alike other) : start.Readable other where
  writable := h.writable
  resolved := by rw [← halike.elementName]; exact h.resolved
  attributes_writable := h.attributes_writable
  attributes_resolved attr hattr := by
    rw [← halike.attributeName]
    exact h.attributes_resolved attr hattr
  attributes_undeclaring := h.attributes_undeclaring
  attributes_distinct := h.attributes_distinct
  namespaces_declarable := h.namespaces_declarable
  namespaces_distinct := h.namespaces_distinct

theorem Content.Readable.alike {scope other : Scope} {content : Content}
    (h : content.Readable scope) (halike : scope.Alike other) : content.Readable other := by
  induction content generalizing scope other with
  | empty => trivial
  | text characters rest ih => exact ⟨h.1, ih h.2 halike⟩
  | element start inner rest ihInner ihRest =>
    obtain ⟨hstart, hinner, hrest⟩ := h
    have hwithin := halike.addAll start.namespaces
    exact ⟨hstart.alike hwithin, ihInner hinner hwithin, ihRest hrest halike⟩

/-! ### What nested declarations give a prefix -/

namespace NamespaceBinding

theorem innermost?_singleton (pfx : Option String) (binding : NamespaceBinding) :
    innermost? pfx [binding] = if binding.pfx = pfx then some binding else none := by
  by_cases h : binding.pfx = pfx <;> simp [innermost?, h]

theorem innermost?_cons (pfx : Option String) (first : NamespaceBinding)
    (bindings : List NamespaceBinding) :
    innermost? pfx (first :: bindings).reverse
      = (innermost? pfx bindings.reverse).or (innermost? pfx [first]) := by
  unfold innermost?
  rw [List.reverse_cons, List.find?_append]

end NamespaceBinding

namespace Scope

variable {scope : Scope} {bindings : List NamespaceBinding} {binding : NamespaceBinding}
  {pfx : String}

def written (pfx : String) : Option String :=
  if pfx = "" then none else some pfx

theorem getD_eq_iff (h : binding.Declarable) : binding.pfx.getD "" = pfx ↔ binding.pfx = written pfx := by
  unfold written
  cases hpfx : binding.pfx with
  | none =>
    by_cases hempty : pfx = "" <;> simp [hempty, eq_comm]
  | some own =>
    have hne := (h.name own hpfx).ne_empty
    by_cases hempty : pfx = "" <;> simp [hempty, hne]

theorem uri?_add_of_ne (scope : Scope) (binding : NamespaceBinding) (hpfx : pfx ≠ "xml") :
    (scope.add binding).uri? pfx
      = if binding.pfx.getD "" = pfx then some binding.uri else scope.uri? pfx := by
  unfold add uri?
  split
  · next hxml => simp [hxml, Ne.symm hpfx]
  · by_cases hsame : binding.pfx.getD "" = pfx
    · rw [List.find?_cons_of_pos (by simpa using hsame)]
      simp [hsame]
    · rw [List.find?_cons_of_neg (by simpa using hsame)]
      simp [hsame]

theorem uri?_add (h : binding.Declarable) (hpfx : pfx ≠ "xml") :
    (scope.add binding).uri? pfx
      = ((NamespaceBinding.innermost? (written pfx) [binding]).map (·.uri)).or (scope.uri? pfx) := by
  rw [uri?_add_of_ne scope binding hpfx]
  simp only [NamespaceBinding.innermost?_singleton, ← getD_eq_iff h]
  split <;> rfl

theorem uri?_add_xml (scope : Scope) (binding : NamespaceBinding) :
    (scope.add binding).uri? "xml" = scope.uri? "xml" := by
  unfold add
  split
  · rfl
  · next hxml =>
    have hne : (binding.pfx.getD "" == "xml") = false := by
      cases hpfx : binding.pfx <;> simp_all
    unfold uri?
    rw [List.find?_cons, hne]

theorem uri?_addAll (h : ∀ binding ∈ bindings, binding.Declarable) (hpfx : pfx ≠ "xml") :
    (scope.addAll bindings).uri? pfx
      = ((NamespaceBinding.innermost? (written pfx) bindings.reverse).map (·.uri)).or
          (scope.uri? pfx) := by
  induction bindings generalizing scope with
  | nil => rfl
  | cons binding bindings ih =>
    have hrest : ((scope.add binding).addAll bindings).uri? pfx = _ :=
      ih fun other hother => h other (List.mem_cons_of_mem _ hother)
    rw [uri?_add (h binding List.mem_cons_self) hpfx] at hrest
    rw [NamespaceBinding.innermost?_cons, Option.map_or, Option.or_assoc]
    exact hrest

theorem uri?_addAll_xml (scope : Scope) (bindings : List NamespaceBinding) :
    (scope.addAll bindings).uri? "xml" = scope.uri? "xml" := by
  induction bindings generalizing scope with
  | nil => rfl
  | cons binding bindings ih => exact (ih (scope.add binding)).trans (uri?_add_xml scope binding)

end Scope

end Xml
end XmlPipeline
