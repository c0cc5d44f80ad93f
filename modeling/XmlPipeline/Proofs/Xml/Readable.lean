import XmlPipeline.Proofs.Xml.WellFormed

/-!
This module contains the class of contents that can be read from markup: the names in them are the ones
that the scope gives to them, and each declaration is one that the reader allows. In contrast to
well-formed ones, they can take prefixes back, declare the prefix `xml`, and have one text after the other.
-/

namespace XmlPipeline
namespace Xml

namespace NamespaceBinding

structure Declarable (binding : NamespaceBinding) : Prop where
  name : ∀ pfx ∈ binding.pfx, IsNCName pfx
  allowed : ∀ pfx ∈ binding.pfx,
    if pfx = "xml" then binding.uri = xmlNamespace
    else pfx ≠ "xmlns" ∧ binding.uri ≠ xmlNamespace ∧ binding.uri ≠ xmlnsNamespace
  plain : ∀ c ∈ ['&', '<', '>', '\'', '"'], c ∉ binding.uri.toList

theorem WellFormed.declarable {binding : NamespaceBinding} (h : binding.WellFormed) :
    binding.Declarable := by
  obtain ⟨hxml, hxmlns, huri, huri'⟩ := h.unreserved
  refine ⟨h.name, ?_, h.plain⟩
  intro pfx hpfx
  have hpfx : binding.pfx = some pfx := hpfx
  rw [hpfx] at hxml hxmlns
  rw [if_neg (by simpa using hxml)]
  exact ⟨by simpa using hxmlns, huri, huri'⟩

end NamespaceBinding

namespace Scope

def add (scope : Scope) (binding : NamespaceBinding) : Scope :=
  if binding.pfx = some "xml" then scope else (binding.pfx.getD "", binding.uri) :: scope

def addAll (scope : Scope) (bindings : List NamespaceBinding) : Scope :=
  bindings.foldl add scope

theorem addAll_append (scope : Scope) (first second : List NamespaceBinding) :
    scope.addAll (first ++ second) = (scope.addAll first).addAll second :=
  List.foldl_append

end Scope

namespace ElementStart

structure Readable (scope : Scope) (start : ElementStart) : Prop where
  writable : start.name.IsWritable
  resolved : scope.elementName start.name.lexical.toList = .ok start.name
  attributes_writable : ∀ attr ∈ start.attributes, attr.name.IsWritable
  attributes_resolved : ∀ attr ∈ start.attributes,
    scope.attributeName attr.name.lexical.toList = .ok attr.name
  attributes_undeclaring : ∀ attr ∈ start.attributes,
    attr.name.lexical ≠ "xmlns" ∧ attr.name.pfx ≠ some "xmlns"
  attributes_distinct : (start.attributes.map (·.name.lexical)).Nodup
  namespaces_declarable : ∀ binding ∈ start.namespaces, binding.Declarable
  namespaces_distinct : (start.namespaces.map (·.pfx)).Nodup

end ElementStart

/-! ### Texts that run into each other -/

def joinTexts : List Event → List Event
  | [] => []
  | .text characters :: events =>
    match joinTexts events with
    | .text more :: events => .text (characters ++ more) :: events
    | events => .text characters :: events
  | event :: events => event :: joinTexts events

theorem joinTexts_closing (events more : List Event) (name : QName) :
    joinTexts (events ++ .closing name :: more)
      = joinTexts events ++ .closing name :: joinTexts more := by
  induction events with
  | nil => rfl
  | cons event events ih =>
    cases event with
    | opening start =>
      simp only [List.cons_append, joinTexts]
      rw [ih]
    | closing other =>
      simp only [List.cons_append, joinTexts]
      rw [ih]
    | text characters =>
      simp only [List.cons_append, joinTexts]
      rw [ih]
      cases joinTexts events with
      | nil => rfl
      | cons first rest => cases first <;> rfl

namespace Content

def addText (characters : String) : Content → Content
  | text more rest => text (characters ++ more) rest
  | content => text characters content

def joined : Content → Content
  | empty => empty
  | text characters rest => rest.joined.addText characters
  | element start inner rest => element start inner.joined rest.joined

def TextsApart : Content → Prop
  | empty => True
  | text _ rest => ¬ rest.StartsWithText ∧ rest.TextsApart
  | element _ inner rest => inner.TextsApart ∧ rest.TextsApart

def Readable (scope : Scope) : Content → Prop
  | empty => True
  | text characters rest => characters ≠ "" ∧ rest.Readable scope
  | element start inner rest =>
    start.Readable (scope.addAll start.namespaces) ∧ inner.Readable (scope.addAll start.namespaces)
      ∧ rest.Readable scope

variable {scope : Scope} {content : Content} {characters : String}

theorem events_addText (characters : String) {content : Content} {events : List Event}
    (h : content.events = joinTexts events) :
    (content.addText characters).events = joinTexts (.text characters :: events) := by
  rw [joinTexts, ← h]
  cases content <;> rfl

theorem events_joined (content : Content) : content.joined.events = joinTexts content.events := by
  induction content with
  | empty => rfl
  | text characters rest ih => exact events_addText characters ih
  | element start inner rest ihInner ihRest =>
    simp only [joined, events, List.cons_append, joinTexts]
    rw [joinTexts_closing, ihInner, ihRest]

theorem TextsApart.addText (characters : String) (h : content.TextsApart) :
    (content.addText characters).TextsApart := by
  cases content with
  | empty => exact ⟨id, h⟩
  | text more rest => exact h
  | element start inner rest => exact ⟨id, h⟩

theorem textsApart_joined (content : Content) : content.joined.TextsApart := by
  induction content with
  | empty => trivial
  | text characters rest ih => exact ih.addText characters
  | element start inner rest ihInner ihRest => exact ⟨ihInner, ihRest⟩

theorem Readable.addText (hne : characters ≠ "") (h : content.Readable scope) :
    (content.addText characters).Readable scope := by
  cases content with
  | empty => exact ⟨hne, h⟩
  | text more rest =>
    refine ⟨?_, h.2⟩
    intro hempty
    exact hne (String.append_eq_empty_iff.mp hempty).1
  | element start inner rest => exact ⟨hne, h⟩

theorem Readable.joined (h : content.Readable scope) : content.joined.Readable scope := by
  induction content generalizing scope with
  | empty => trivial
  | text characters rest ih => exact (ih h.2).addText h.1
  | element start inner rest ihInner ihRest =>
    obtain ⟨hstart, hinner, hrest⟩ := h
    exact ⟨hstart, ihInner hinner, ihRest hrest⟩

theorem Readable.declarable (h : content.Readable scope) :
    ∀ start, .opening start ∈ content.events → ∀ binding ∈ start.namespaces, binding.Declarable := by
  induction content generalizing scope with
  | empty => simp [events]
  | text characters rest ih =>
    intro start hstart
    exact ih h.2 start (by simpa [events] using hstart)
  | element start inner rest ihInner ihRest =>
    obtain ⟨hstart, hinner, hrest⟩ := h
    intro other hother
    simp only [events, List.cons_append, List.mem_cons, List.mem_append, reduceCtorEq, false_or,
      Event.opening.injEq] at hother
    rcases hother with rfl | hother | hother
    · exact hstart.namespaces_declarable
    · exact ihInner hinner other hother
    · exact ihRest hrest other hother

end Content
end Xml
end XmlPipeline
