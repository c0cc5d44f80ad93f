import XmlPipeline.Proofs.Xml.Content
import XmlPipeline.Xml.Document

/-!
This module contains the class of documents whose markup says all that they hold: well-formed names,
namespaces that come from the declarations in force, and texts that do not run into each other.
-/

namespace XmlPipeline
namespace Xml

def isNameStart (c : Char) : Bool :=
  let n := c.toNat
  (0x41 ≤ n && n ≤ 0x5A) || n == 0x5F || (0x61 ≤ n && n ≤ 0x7A) || (0xC0 ≤ n && n ≤ 0xD6)
    || (0xD8 ≤ n && n ≤ 0xF6) || (0xF8 ≤ n && n ≤ 0x2FF) || (0x370 ≤ n && n ≤ 0x37D)
    || (0x37F ≤ n && n ≤ 0x1FFF) || (0x200C ≤ n && n ≤ 0x200D) || (0x2070 ≤ n && n ≤ 0x218F)
    || (0x2C00 ≤ n && n ≤ 0x2FEF) || (0x3001 ≤ n && n ≤ 0xD7FF) || (0xF900 ≤ n && n ≤ 0xFDCF)
    || (0xFDF0 ≤ n && n ≤ 0xFFFD) || (0x10000 ≤ n && n ≤ 0xEFFFF)

def isNameChar (c : Char) : Bool :=
  let n := c.toNat
  isNameStart c || n == 0x2D || n == 0x2E || (0x30 ≤ n && n ≤ 0x39) || n == 0xB7
    || (0x300 ≤ n && n ≤ 0x36F) || (0x203F ≤ n && n ≤ 0x2040)

def IsNCName (name : String) : Prop :=
  match name.toList with
  | [] => False
  | first :: rest => isNameStart first = true ∧ ∀ c ∈ rest, isNameChar c = true

instance (name : String) : Decidable (IsNCName name) :=
  match h : name.toList with
  | [] => .isFalse (by simp [IsNCName, h])
  | first :: rest =>
    decidable_of_iff (isNameStart first = true ∧ rest.all isNameChar = true) <| by
      simp [IsNCName, h]

namespace QName

def IsWritable (name : QName) : Prop :=
  IsNCName name.localName ∧ ∀ pfx ∈ name.pfx, IsNCName pfx

/--
The namespace of a prefixed name is the one that the declarations, the innermost one first, give to the
prefix.
-/
def IsPrefixed (bindings : List NamespaceBinding) (pfx : String) (name : QName) : Prop :=
  if pfx = "xml" then
    name.uri = some xmlNamespace
  else
    ∃ binding, NamespaceBinding.innermost? (some pfx) bindings = some binding
      ∧ name.uri = some binding.uri

def IsElementName (bindings : List NamespaceBinding) (name : QName) : Prop :=
  match name.pfx with
  | some pfx => name.IsPrefixed bindings pfx
  | none =>
    name.uri = ((NamespaceBinding.innermost? none bindings).map (·.uri)).filter (!·.isEmpty)

def IsAttributeName (bindings : List NamespaceBinding) (name : QName) : Prop :=
  match name.pfx with
  | some pfx => name.IsPrefixed bindings pfx
  | none => name.uri = none

end QName

namespace NamespaceBinding

structure WellFormed (binding : NamespaceBinding) : Prop where
  name : ∀ pfx ∈ binding.pfx, IsNCName pfx
  unreserved : binding.pfx ≠ some "xml" ∧ binding.pfx ≠ some "xmlns"
    ∧ binding.uri ≠ xmlNamespace ∧ binding.uri ≠ xmlnsNamespace
  nonempty : binding.pfx.isSome → binding.uri ≠ ""
  plain : ∀ c ∈ ['&', '<', '>', '\'', '"'], c ∉ binding.uri.toList

end NamespaceBinding

namespace ElementStart

/--
The opening is well-formed where the declarations `bindings` are in force, its own ones included.
-/
structure WellFormed (bindings : List NamespaceBinding) (start : ElementStart) : Prop where
  writable : start.name.IsWritable
  resolved : start.name.IsElementName bindings
  attributes_writable : ∀ attr ∈ start.attributes, attr.name.IsWritable
  attributes_resolved : ∀ attr ∈ start.attributes, attr.name.IsAttributeName bindings
  attributes_undeclaring : ∀ attr ∈ start.attributes,
    attr.name.lexical ≠ "xmlns" ∧ attr.name.pfx ≠ some "xmlns"
  attributes_distinct : (start.attributes.map (·.name.lexical)).Nodup
  namespaces_wellFormed : ∀ binding ∈ start.namespaces, binding.WellFormed
  namespaces_distinct : (start.namespaces.map (·.pfx)).Nodup

end ElementStart

namespace Content

def StartsWithText : Content → Prop
  | text .. => True
  | _ => False

/--
The content is well-formed inside of the declarations `bindings`, which are listed from the innermost one
to the outermost one.
-/
def WellFormed (bindings : List NamespaceBinding) : Content → Prop
  | empty => True
  | text characters rest =>
    characters ≠ "" ∧ ¬ rest.StartsWithText ∧ rest.WellFormed bindings
  | element start inner rest =>
    start.WellFormed (start.namespaces.reverse ++ bindings)
      ∧ inner.WellFormed (start.namespaces.reverse ++ bindings) ∧ rest.WellFormed bindings

end Content

namespace Document

def WellFormed (document : Document) : Prop :=
  ∃ start inner, document.events = (Content.element start inner .empty).events
    ∧ (Content.element start inner .empty).WellFormed []

end Document

/-! ### Decidability -/

instance (name : QName) : Decidable name.IsWritable :=
  inferInstanceAs (Decidable (IsNCName name.localName ∧ ∀ pfx ∈ name.pfx, IsNCName pfx))

instance (bindings : List NamespaceBinding) (pfx : String) (name : QName) :
    Decidable (name.IsPrefixed bindings pfx) :=
  inferInstanceAs <| Decidable <|
    if pfx = "xml" then
      name.uri = some xmlNamespace
    else
      ∃ binding ∈ NamespaceBinding.innermost? (some pfx) bindings, name.uri = some binding.uri

instance (bindings : List NamespaceBinding) (name : QName) :
    Decidable (name.IsElementName bindings) :=
  match h : name.pfx with
  | some pfx => decidable_of_iff (name.IsPrefixed bindings pfx) (by simp [QName.IsElementName, h])
  | none =>
    decidable_of_iff
      (name.uri = ((NamespaceBinding.innermost? none bindings).map (·.uri)).filter (!·.isEmpty))
      (by simp [QName.IsElementName, h])

instance (bindings : List NamespaceBinding) (name : QName) :
    Decidable (name.IsAttributeName bindings) :=
  match h : name.pfx with
  | some pfx => decidable_of_iff (name.IsPrefixed bindings pfx) (by simp [QName.IsAttributeName, h])
  | none => decidable_of_iff (name.uri = none) (by simp [QName.IsAttributeName, h])

instance (binding : NamespaceBinding) : Decidable binding.WellFormed :=
  decidable_of_iff
    ((∀ pfx ∈ binding.pfx, IsNCName pfx)
      ∧ (binding.pfx ≠ some "xml" ∧ binding.pfx ≠ some "xmlns"
        ∧ binding.uri ≠ xmlNamespace ∧ binding.uri ≠ xmlnsNamespace)
      ∧ (binding.pfx.isSome → binding.uri ≠ "")
      ∧ (['&', '<', '>', '\'', '"'].all fun c => c ∉ binding.uri.toList) = true)
    ⟨fun ⟨name, unreserved, nonempty, plain⟩ =>
        ⟨name, unreserved, nonempty, fun c hc => of_decide_eq_true (List.all_eq_true.mp plain c hc)⟩,
      fun h => ⟨h.name, h.unreserved, h.nonempty,
        List.all_eq_true.mpr fun c hc => decide_eq_true (h.plain c hc)⟩⟩

instance (bindings : List NamespaceBinding) (start : ElementStart) :
    Decidable (start.WellFormed bindings) :=
  decidable_of_iff
    (start.name.IsWritable ∧ start.name.IsElementName bindings
      ∧ (∀ attr ∈ start.attributes, attr.name.IsWritable)
      ∧ (∀ attr ∈ start.attributes, attr.name.IsAttributeName bindings)
      ∧ (∀ attr ∈ start.attributes, attr.name.lexical ≠ "xmlns" ∧ attr.name.pfx ≠ some "xmlns")
      ∧ (start.attributes.map (·.name.lexical)).Nodup
      ∧ (∀ binding ∈ start.namespaces, binding.WellFormed)
      ∧ (start.namespaces.map (·.pfx)).Nodup)
    ⟨fun ⟨h₁, h₂, h₃, h₄, h₅, h₆, h₇, h₈⟩ => ⟨h₁, h₂, h₃, h₄, h₅, h₆, h₇, h₈⟩,
      fun ⟨h₁, h₂, h₃, h₄, h₅, h₆, h₇, h₈⟩ => ⟨h₁, h₂, h₃, h₄, h₅, h₆, h₇, h₈⟩⟩

instance : (content : Content) → Decidable content.StartsWithText
  | .text .. => .isTrue trivial
  | .empty => .isFalse id
  | .element .. => .isFalse id

def Content.decWellFormed (bindings : List NamespaceBinding) :
    (content : Content) → Decidable (content.WellFormed bindings)
  | empty => .isTrue trivial
  | text characters rest =>
    let _ := rest.decWellFormed bindings
    inferInstanceAs (Decidable (characters ≠ "" ∧ ¬ rest.StartsWithText ∧ rest.WellFormed bindings))
  | element start inner rest =>
    let _ := inner.decWellFormed (start.namespaces.reverse ++ bindings)
    let _ := rest.decWellFormed bindings
    inferInstanceAs <| Decidable <|
      start.WellFormed (start.namespaces.reverse ++ bindings)
        ∧ inner.WellFormed (start.namespaces.reverse ++ bindings) ∧ rest.WellFormed bindings

instance (bindings : List NamespaceBinding) (content : Content) :
    Decidable (content.WellFormed bindings) :=
  content.decWellFormed bindings

/-! ### Characters of names -/

theorem isNameChar_of_isNameStart {c : Char} (h : isNameStart c = true) : isNameChar c = true := by
  unfold isNameChar
  simp [h]

theorem IsNCName.isNameChar {name : String} (h : IsNCName name) :
    ∀ c ∈ name.toList, isNameChar c = true := by
  intro c hc
  unfold IsNCName at h
  split at h
  · exact h.elim
  · next first rest heq =>
    rw [heq] at hc
    cases List.mem_cons.mp hc with
    | inl hfirst => exact hfirst ▸ isNameChar_of_isNameStart h.1
    | inr hrest => exact h.2 c hrest

theorem IsNCName.exists_cons {name : String} (h : IsNCName name) :
    ∃ first rest, name.toList = first :: rest ∧ isNameStart first = true := by
  unfold IsNCName at h
  split at h
  · exact h.elim
  · next first rest heq => exact ⟨first, rest, heq, h.1⟩

theorem IsNCName.ne_empty {name : String} (h : IsNCName name) : name ≠ "" := by
  obtain ⟨first, rest, heq, _⟩ := h.exists_cons
  intro hempty
  simp [hempty] at heq

end Xml
end XmlPipeline
