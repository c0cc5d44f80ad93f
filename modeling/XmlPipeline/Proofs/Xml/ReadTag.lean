import Mathlib.Data.List.Forall2
import Mathlib.Data.List.Nodup
import XmlPipeline.Proofs.Result
import XmlPipeline.Xml.Namespace

/-!
This module contains what the opening of a read tag holds: the names as they are written, each attribute
once, and no declaration among the attributes.
-/

namespace XmlPipeline

namespace Xml

/-! ### Names as they are written -/

theorem lexical_of_splitName {raw : List Char} {name : QName}
    (h : splitName raw = (name.pfx, name.localName)) : name.lexical.toList = raw := by
  unfold splitName at h
  unfold QName.lexical
  split at h
  · next pfx colon localName hcut =>
    have hcolon : colon = ':' := by simpa using Text.stop_of_cutAt? hcut
    rw [Text.eq_of_cutAt? hcut, hcolon, ← (Prod.mk.inj h).1, ← (Prod.mk.inj h).2]
    simp
  · rw [← (Prod.mk.inj h).1, ← (Prod.mk.inj h).2]
    simp

namespace Scope

variable {scope : Scope} {raw : List Char} {name : QName}

theorem splitName_of_elementName (h : scope.elementName raw = .ok name) :
    splitName raw = (name.pfx, name.localName) := by
  unfold elementName at h
  split at h
  · next pfx localName hsplit =>
    cases hresolve : scope.resolvePrefix pfx with
    | error error => simp [hresolve, Except.map] at h
    | ok uri =>
      rw [hresolve] at h
      rw [hsplit, ← Except.ok.inj h]
  · next localName hsplit =>
    rw [hsplit, ← Except.ok.inj h]

theorem splitName_of_attributeName (h : scope.attributeName raw = .ok name) :
    splitName raw = (name.pfx, name.localName) := by
  unfold attributeName at h
  split at h
  · next pfx localName hsplit =>
    cases hresolve : scope.resolvePrefix pfx with
    | error error => simp [hresolve, Except.map] at h
    | ok uri =>
      rw [hresolve] at h
      rw [hsplit, ← Except.ok.inj h]
  · next localName hsplit =>
    rw [hsplit, ← Except.ok.inj h]

theorem lexical_of_elementName (h : scope.elementName raw = .ok name) : name.lexical.toList = raw :=
  lexical_of_splitName (splitName_of_elementName h)

theorem lexical_of_attributeName (h : scope.attributeName raw = .ok name) :
    name.lexical.toList = raw :=
  lexical_of_splitName (splitName_of_attributeName h)

end Scope

theorem undeclaring_of_declaredPrefix? {name : QName}
    (h : declaredPrefix? name.lexical.toList = none) :
    name.lexical ≠ "xmlns" ∧ name.pfx ≠ some "xmlns" := by
  constructor
  · intro hlexical
    simp [hlexical, declaredPrefix?, Text.afterMarker?] at h
  · intro hpfx
    have hlist : name.lexical.toList = 'x' :: 'm' :: 'l' :: 'n' :: 's' :: ':' :: name.localName.toList := by
      unfold QName.lexical
      rw [hpfx]
      simp
    simp [hlist, declaredPrefix?, Text.afterMarker?] at h

/-! ### The attributes of a tag -/

namespace RawAttribute

def isDeclaration (attr : RawAttribute) : Bool :=
  (declaredPrefix? attr.key).isSome

end RawAttribute

namespace Tag

variable {size position : Nat} {earlier : List RawAttribute} {cs key after : List Char}
  {attr : RawAttribute}

theorem key_of_scanValue (h : scanValue size key position cs = .attribute attr after) :
    attr.key = key := by
  unfold scanValue at h
  split at h
  · cases h
  · split at h
    · split at h
      · cases h
      · rw [← (Scan.attribute.inj h).1]
    · cases h

theorem key_of_scanAttribute (h : scanAttribute size earlier cs = .attribute attr after) :
    attr.key ∉ earlier.map (·.key) := by
  unfold scanAttribute at h
  split at h
  · cases h
  · simp only at h
    split at h
    · cases h
    · split at h
      · cases h
      · next hnone =>
        rw [key_of_scanValue h, List.mem_map]
        rintro ⟨other, hother, hkey⟩
        have hdistinct := List.find?_eq_none.mp hnone other hother
        exact hdistinct (beq_iff_eq.mpr hkey)
    · cases h

theorem nodup_scanAttributes (size : Nat) (earlier : List RawAttribute) (cs : List Char) :
    ((scanAttributes true size earlier cs).1.map (·.key)).Nodup
      ∧ ∀ attr ∈ (scanAttributes true size earlier cs).1, attr.key ∉ earlier.map (·.key) := by
  rw [scanAttributes]
  split
  · simp
  · simp
  · next attr after h =>
    obtain ⟨hnodup, hlater⟩ := nodup_scanAttributes size (attr :: earlier) after
    constructor
    · rw [List.map_cons, List.nodup_cons]
      refine ⟨?_, hnodup⟩
      intro hmem
      obtain ⟨other, hother, hkey⟩ := List.mem_map.mp hmem
      apply hlater other hother
      rw [hkey]
      exact List.mem_cons_self
    · intro other hother
      cases List.mem_cons.mp hother with
      | inl heq =>
        rw [heq]
        exact key_of_scanAttribute h
      | inr hmem =>
        intro hearlier
        exact hlater other hmem (List.mem_cons_of_mem _ hearlier)
termination_by cs.length
decreasing_by exact scanAttribute_length (by assumption)

theorem nodup_read (content : List Char) : ((read true content).attributes.map (·.key)).Nodup :=
  (nodup_scanAttributes _ _ _).1

end Tag

/-! ### The opening -/

namespace Scope

variable {scope inner : Scope} {start next : ElementStart}

theorem addAttribute_cases {attr : RawAttribute} (h : scope.addAttribute start attr = .ok next) :
    (∃ pfx value, declaredPrefix? attr.key = some pfx ∧ unescape attr.value = .ok value
      ∧ next = { start with
          namespaces := start.namespaces ++ [{ pfx, uri := String.ofList value }] })
    ∨ ∃ name value, attr.isDeclaration = false ∧ scope.attributeName attr.key = .ok name
      ∧ next = { start with
          attributes := start.attributes ++ [{ name, value }] } := by
  unfold addAttribute at h
  obtain ⟨value, hvalue, h⟩ := exists_of_bind_ok h
  have hvalue := exists_of_mapError_ok hvalue
  simp only at h
  split at h
  · next pfx hpfx => exact .inl ⟨pfx, value, hpfx, hvalue, (Except.ok.inj h).symm⟩
  · next hnone =>
    obtain ⟨name, hname, h⟩ := exists_of_bind_ok h
    refine .inr ⟨name, String.ofList value, ?_, hname, (Except.ok.inj h).symm⟩
    simp [RawAttribute.isDeclaration, hnone]

structure Collected (scope : Scope) (attrs : List RawAttribute) (start final : ElementStart) : Prop where
  name : final.name = start.name
  attributes : ∃ more, final.attributes = start.attributes ++ more
    ∧ List.Forall₂ (fun raw attr => scope.attributeName raw.key = .ok attr.name)
      (attrs.filter (!·.isDeclaration)) more
  namespaces : ∃ more, final.namespaces = start.namespaces ++ more
    ∧ List.Forall₂ (fun raw binding => declaredPrefix? raw.key = some binding.pfx
        ∧ unescape raw.value = .ok binding.uri.toList)
      (attrs.filter (·.isDeclaration)) more

theorem Collected.cons {attr : RawAttribute} {attrs : List RawAttribute} {final : ElementStart}
    (h : scope.addAttribute start attr = .ok next) (hrest : scope.Collected attrs next final) :
    scope.Collected (attr :: attrs) start final := by
  obtain ⟨hname, ⟨attributes, hattributes, hresolved⟩, ⟨namespaces, hnamespaces, hdeclared⟩⟩ := hrest
  cases addAttribute_cases h with
  | inl h =>
    obtain ⟨pfx, value, hpfx, hvalue, rfl⟩ := h
    have hdeclaration : attr.isDeclaration = true := by simp [RawAttribute.isDeclaration, hpfx]
    refine ⟨hname, ⟨attributes, hattributes, ?_⟩, ⟨_, by rw [hnamespaces, List.append_assoc], ?_⟩⟩
    · rw [List.filter_cons_of_neg (by simp [hdeclaration])]
      exact hresolved
    · rw [List.filter_cons_of_pos hdeclaration]
      exact .cons ⟨hpfx, by simpa using hvalue⟩ hdeclared
  | inr h =>
    obtain ⟨name, value, hdeclaration, hattribute, rfl⟩ := h
    refine ⟨hname, ⟨_, by rw [hattributes, List.append_assoc], ?_⟩, ⟨namespaces, hnamespaces, ?_⟩⟩
    · rw [List.filter_cons_of_pos (by simp [hdeclaration])]
      exact .cons hattribute hresolved
    · rw [List.filter_cons_of_neg (by simp [hdeclaration])]
      exact hdeclared

theorem collected_of_foldlM {attrs : List RawAttribute} {final : ElementStart}
    (h : attrs.foldlM scope.addAttribute start = .ok final) : scope.Collected attrs start final := by
  induction attrs generalizing start with
  | nil =>
    obtain rfl := Except.ok.inj h
    exact ⟨rfl, ⟨[], by simp, .nil⟩, ⟨[], by simp, .nil⟩⟩
  | cons attr attrs ih =>
    rw [List.foldlM_cons] at h
    obtain ⟨next, hnext, hrest⟩ := exists_of_bind_ok h
    exact Collected.cons hnext (ih hrest)

theorem openElement_cases {content : List Char} (h : scope.openElement content = .ok (start, inner)) :
    scope.declareAll (Tag.read false content).attributes = .ok inner
      ∧ inner.elementName (Tag.nameOf content) = .ok start.name
      ∧ (Tag.read true content).failure = none
      ∧ inner.Collected (Tag.read true content).attributes { name := start.name } start := by
  unfold openElement at h
  obtain ⟨within, hwithin, h⟩ := exists_of_bind_ok h
  obtain ⟨name, hname, h⟩ := exists_of_bind_ok h
  obtain ⟨final, hfinal, h⟩ := exists_of_bind_ok h
  split at h
  · cases h
  · next hnone =>
    obtain ⟨rfl, rfl⟩ := Prod.mk.inj (Except.ok.inj h)
    have hcollected := collected_of_foldlM hfinal
    have hsame : final.name = name := hcollected.name
    rw [hsame]
    exact ⟨hwithin, hname, hnone, hcollected⟩

end Scope

namespace ElementStart

/--
Each attribute is there once, and none of them is a declaration.
-/
structure Distinct (start : ElementStart) : Prop where
  attributes_distinct : (start.attributes.map (·.name.lexical)).Nodup
  attributes_undeclaring : ∀ attr ∈ start.attributes,
    attr.name.lexical ≠ "xmlns" ∧ attr.name.pfx ≠ some "xmlns"

end ElementStart

namespace Scope

variable {scope inner : Scope} {start : ElementStart}

theorem keys_of_collected {attrs : List RawAttribute} {name : QName}
    (h : scope.Collected attrs { name } start) :
    start.attributes.map (·.name.lexical.toList)
      = (attrs.filter (!·.isDeclaration)).map (·.key) := by
  obtain ⟨more, hmore, hresolved⟩ := h.attributes
  rw [hmore, List.nil_append]
  clear hmore
  generalize attrs.filter (!·.isDeclaration) = raws at hresolved
  induction hresolved with
  | nil => rfl
  | cons hname _ ih => rw [List.map_cons, List.map_cons, lexical_of_attributeName hname, ih]

theorem distinct_of_openElement {content : List Char}
    (h : scope.openElement content = .ok (start, inner)) : start.Distinct := by
  obtain ⟨_, _, _, hcollected⟩ := openElement_cases h
  have hkeys := keys_of_collected hcollected
  constructor
  · have hnodup : (start.attributes.map (·.name.lexical.toList)).Nodup := by
      rw [hkeys]
      exact (Tag.nodup_read content).sublist (List.Sublist.map _ List.filter_sublist)
    apply List.Nodup.of_map String.toList
    rw [List.map_map]
    exact hnodup
  · intro attr hattr
    apply undeclaring_of_declaredPrefix?
    have hmem : attr.name.lexical.toList ∈ start.attributes.map (·.name.lexical.toList) :=
      List.mem_map_of_mem hattr
    rw [hkeys] at hmem
    obtain ⟨raw, hraw, hkey⟩ := List.mem_map.mp hmem
    rw [← hkey]
    simpa [RawAttribute.isDeclaration] using (List.mem_filter.mp hraw).2

end Scope
end Xml
end XmlPipeline
