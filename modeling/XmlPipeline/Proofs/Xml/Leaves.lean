import XmlPipeline.Proofs.Xml.LineBreaks

/-!
This module contains the elements that no other elements are inside of, and what indented markup makes of
their texts.
-/

namespace XmlPipeline
namespace Xml

/--
An element that no elements are inside of, with the text in it. `depth` elements are around it.
-/
structure Leaf where
  depth : Nat
  start : ElementStart
  characters : String
  deriving DecidableEq

namespace Leaf

def indented (leaf : Leaf) : Leaf :=
  if leaf.characters = "" then
    { leaf with characters := String.ofList (lineBreak leaf.depth) }
  else
    leaf

theorem indented_eq_self_iff (leaf : Leaf) : leaf.indented = leaf ↔ leaf.characters ≠ "" := by
  obtain ⟨depth, start, characters⟩ := leaf
  unfold indented
  split
  · next hempty =>
    obtain rfl : characters = "" := hempty
    simp [lineBreak]
  · next hnonempty => simpa using hnonempty

end Leaf

namespace Content

def hasElement : Content → Bool
  | empty => false
  | text _ rest => rest.hasElement
  | element .. => true

def leaves (depth : Nat) : Content → List Leaf
  | empty => []
  | text _ rest => rest.leaves depth
  | element start inner rest =>
    (if inner.hasElement then
      inner.leaves (depth + 1)
    else
      [{ depth, start, characters := inner.characters }]) ++ rest.leaves depth

variable {bindings : List NamespaceBinding} {content : Content}

theorem hasElement_behindBreak (broken : Bool) (depth : Nat) (content : Content) :
    (behindBreak broken depth content).hasElement = content.hasElement := by
  cases broken <;> rfl

theorem leaves_behindBreak (broken : Bool) (depth around : Nat) (content : Content) :
    (behindBreak broken depth content).leaves around = content.leaves around := by
  cases broken <;> rfl

theorem hasElement_lined (content : Content) (depth : Nat) (afterTag : Bool) :
    (content.lined depth afterTag).hasElement = content.hasElement := by
  induction content generalizing depth afterTag with
  | empty => exact hasElement_behindBreak ..
  | text characters rest ih => exact ih depth false
  | element start inner rest => exact hasElement_behindBreak ..

theorem lined_of_texts (h : content.hasElement = false) (depth : Nat) :
    content.lined depth false = content := by
  induction content with
  | empty => rfl
  | text characters rest ih => exact congrArg (text characters) (ih h)
  | element start inner rest => cases h

theorem characters_lined (h : content.WellFormed bindings) (htexts : content.hasElement = false)
    (depth : Nat) :
    (content.lined depth true).characters
      = if content.characters = "" then String.ofList (lineBreak depth) else content.characters := by
  cases content with
  | empty => simp [lined, behindBreak, characters]
  | text characters rest =>
    have hrest : rest.hasElement = false := htexts
    have hsame : (text characters rest).lined depth true = text characters rest :=
      congrArg (text characters) (lined_of_texts hrest depth)
    have hnonempty : (text characters rest).characters ≠ "" := by
      intro hempty
      exact h.1 (String.append_eq_empty_iff.mp hempty).1
    rw [hsame, if_neg hnonempty]
  | element start inner rest => cases htexts

theorem leaves_element_lined {start : ElementStart} {inner rest spaced : Content} {depth : Nat}
    (h : inner.WellFormed bindings)
    (hinner : (inner.lined depth true).leaves (depth + 1)
      = (inner.leaves (depth + 1)).map Leaf.indented)
    (hrest : spaced.leaves depth = (rest.leaves depth).map Leaf.indented) :
    (element start (inner.lined depth true) spaced).leaves depth
      = ((element start inner rest).leaves depth).map Leaf.indented := by
  rw [leaves, leaves, List.map_append, hrest, hasElement_lined]
  congr 1
  cases htexts : inner.hasElement with
  | true => exact hinner
  | false =>
    simp only [Bool.false_eq_true, ↓reduceIte, List.map_cons, List.map_nil]
    rw [characters_lined h htexts, Leaf.indented]
    split <;> rfl

theorem leaves_lined (h : content.WellFormed bindings) (depth : Nat) (afterTag : Bool) :
    (content.lined depth afterTag).leaves (depth + 1)
      = (content.leaves (depth + 1)).map Leaf.indented := by
  induction content generalizing bindings depth afterTag with
  | empty => exact leaves_behindBreak ..
  | text characters rest ih => exact ih h.2.2 depth false
  | element start inner rest ihInner ihRest =>
    obtain ⟨_, hinner, hrest⟩ := h
    rw [lined, leaves_behindBreak]
    exact leaves_element_lined hinner (ihInner hinner (depth + 1) true) (ihRest hrest depth true)

theorem leaves_root_lined {start : ElementStart} {inner : Content}
    (h : (element start inner .empty).WellFormed bindings) :
    (element start (inner.lined 0 true) .empty).leaves 0
      = ((element start inner .empty).leaves 0).map Leaf.indented :=
  leaves_element_lined h.2.1 (leaves_lined h.2.1 0 true) rfl

end Content

theorem map_indented_eq_self_iff (leaves : List Leaf) :
    leaves.map Leaf.indented = leaves ↔ ∀ leaf ∈ leaves, leaf.characters ≠ "" := by
  have hself := List.map_inj_left (l := leaves) (f := Leaf.indented) (g := id)
  rw [List.map_id] at hself
  rw [hself]
  exact forall₂_congr fun leaf _ => leaf.indented_eq_self_iff

theorem Document.read_toXml_leaves {start : ElementStart} {inner : Content}
    (h : (Content.element start inner .empty).WellFormed []) :
    let written := Content.element start inner .empty
    ∃ again : Content,
      Document.read (toXml { events := written.events } true) = .ok { events := again.events }
      ∧ again.events.filter (·.isTag) = written.events.filter (·.isTag)
      ∧ again.leaves 0 = (written.leaves 0).map Leaf.indented := by
  have hspaced : (Content.element start inner .empty).Spaced
      (.element start (inner.lined 0 true) .empty) :=
    .element (inner.spaced_lined 0 true) .empty
  exact ⟨_, read_toXml_lined h, hspaced.tags, Content.leaves_root_lined h⟩

end Xml
end XmlPipeline
