import XmlPipeline.Proofs.Xml.Nesting

/-!
This module contains the tags that open the elements of a text. The main statement says of each element that
the reader yields which tag it was read from, and in which scope.
-/

namespace XmlPipeline
namespace Xml

namespace Markup

def opening? : Markup → Option (List Char)
  | startTag content => some content
  | emptyTag content => some content
  | _ => none

/--
The contents of the tags in a text that open elements, in their order, up to the first markup that is not
well-formed.
-/
def openings : List Char → List (List Char)
  | [] => []
  | c :: cs =>
    match _h : scan c cs with
    | .error _ => []
    | .ok (piece, rest) => piece.opening?.toList ++ openings rest
termination_by cs => cs.length
decreasing_by
  have := scan_length _h
  simp only [List.length_cons]
  omega

theorem openings_of_scan {c : Char} {cs rest : List Char} {piece : Markup}
    (h : scan c cs = .ok (piece, rest)) :
    openings (c :: cs) = piece.opening?.toList ++ openings rest := by
  rw [openings]
  split
  · next heq => simp [h] at heq
  · next heq =>
    rw [h] at heq
    obtain ⟨rfl, rfl⟩ := Prod.mk.inj (Except.ok.inj heq)
    rfl

end Markup

namespace Content

/--
Each element was read from a tag that passes the test, in the scope that is in force around it. Each text
has characters.
-/
def Opened (test : List Char → Prop) (scope : Scope) : Content → Prop
  | empty => True
  | text characters rest => characters ≠ "" ∧ rest.Opened test scope
  | element start inner rest =>
    (∃ tag within, test tag ∧ scope.openElement tag = .ok (start, within) ∧ inner.Opened test within)
      ∧ rest.Opened test scope

end Content

namespace Reader

variable {reader before next : Reader} {test : List Char → Prop}

def Passes (test : List Char → Prop) (reader : Reader) : Prop :=
  ∀ tag ∈ Markup.openings reader.rest, test tag

def Step.Opens (test : List Char → Prop) (reader : Reader) : Step → Prop
  | event (.opening start) next =>
    ∃ tag within, test tag ∧ reader.scope.openElement tag = .ok (start, within)
      ∧ next.scopes = within :: reader.scopes ∧ next.Passes test
  | event (.text characters) next =>
    characters ≠ "" ∧ next.scopes = reader.scopes ∧ next.Passes test
  | event (.closing _) next => next.scopes = reader.scopes.tail ∧ next.Passes test
  | skip next => next.scopes = reader.scopes ∧ next.Passes test
  | failure _ => True
  | done => True

theorem scope_congr (h : reader.scopes = before.scopes) : reader.scope = before.scope := by
  unfold scope
  rw [h]

theorem Step.Opens.congr {step : Step} (h : reader.scopes = before.scopes)
    (hstep : step.Opens test reader) : step.Opens test before := by
  unfold Opens at hstep ⊢
  rwa [scope_congr h, h] at hstep

theorem enter_opens {tag : List Char} (hpasses : reader.Passes test) (htag : test tag)
    (isEmpty : Bool) : (reader.enter tag isEmpty).Opens test reader := by
  unfold enter
  split
  · trivial
  · next start within hopen => exact ⟨tag, within, htag, hopen, rfl, hpasses⟩

theorem leave_opens (hpasses : reader.Passes test) (hscopes : reader.scopes = before.scopes)
    (name : List Char) : (reader.leave name).Opens test before := by
  unfold leave
  split
  · trivial
  · exact ⟨congrArg List.tail hscopes, hpasses⟩

theorem take_opens {piece : Markup} {rest : List Char} (hpiece : ∀ tag ∈ piece.opening?, test tag)
    (hpasses : ({ reader with rest } : Reader).Passes test) :
    (reader.take piece rest).Opens test reader := by
  have hsame : ({ reader with rest } : Reader).scopes = reader.scopes := rfl
  cases piece with
  | ignored => exact ⟨rfl, hpasses⟩
  | text raw =>
    simp only [take]
    split
    · trivial
    · exact ⟨rfl, hpasses⟩
    · next characters hne _ => exact ⟨by simpa using hne, rfl, hpasses⟩
  | cdata characters =>
    cases characters with
    | nil => exact ⟨rfl, hpasses⟩
    | cons first characters => exact ⟨by simp, rfl, hpasses⟩
  | startTag tag => exact (enter_opens hpasses (hpiece tag rfl) false).congr hsame
  | emptyTag tag => exact (enter_opens hpasses (hpiece tag rfl) true).congr hsame
  | endTag name =>
    simp only [take]
    split
    · trivial
    · split
      · apply leave_opens
        · exact hpasses
        · rfl
      · trivial

theorem step_opens (hpasses : reader.Passes test) : reader.step.Opens test reader := by
  unfold step
  split
  · split
    · trivial
    · apply leave_opens
      · exact hpasses
      · rfl
  · split
    · split <;> trivial
    · next hrest =>
      split
      · trivial
      · next piece rest hscan =>
        have hopenings := Markup.openings_of_scan hscan
        rw [← hrest] at hopenings
        apply take_opens
        · intro tag htag
          apply hpasses
          rw [hopenings, Option.mem_def.mp htag]
          exact List.mem_cons_self
        · intro tag htag
          apply hpasses
          rw [hopenings]
          exact List.mem_append_right _ htag

theorem exists_step {event : Event} {more : List Event} (hpasses : reader.Passes test)
    (h : reader.events.1 = event :: more) :
    ∃ next : Reader, (Step.event event next).Opens test reader ∧ next.events.1 = more := by
  have hopens := step_opens hpasses
  fun_induction Reader.events reader with
  | case1 reader first next hstep others failure hothers ih =>
    obtain ⟨rfl, rfl⟩ := List.cons.inj h
    rw [hstep] at hopens
    exact ⟨next, hopens, congrArg Prod.fst hothers⟩
  | case2 reader next hstep ih =>
    rw [hstep] at hopens
    obtain ⟨hscopes, hnext⟩ := hopens
    obtain ⟨after, hafter, hmore⟩ := ih hnext h (step_opens hnext)
    exact ⟨after, hafter.congr hscopes, hmore⟩
  | case3 reader error hstep => cases h
  | case4 reader hstep => cases h

theorem opened_of_events {content : Content} {more : List Event} (hpasses : reader.Passes test)
    (h : reader.events.1 = content.events ++ more) :
    content.Opened test reader.scope
      ∧ ∃ next : Reader, next.scopes = reader.scopes ∧ next.Passes test ∧ next.events.1 = more := by
  -- Inside of an element the reader holds one more scope, which the closing takes off again.
  induction content generalizing reader more with
  | empty => exact ⟨trivial, reader, rfl, hpasses, h⟩
  | text characters rest ih =>
    obtain ⟨next, ⟨hne, hscopes, hnext⟩, hmore⟩ := exists_step hpasses h
    obtain ⟨hrest, last, hlast, hpasses, hevents⟩ := ih hnext hmore
    rw [scope_congr hscopes] at hrest
    exact ⟨⟨hne, hrest⟩, last, hlast.trans hscopes, hpasses, hevents⟩
  | element start inner rest ihInner ihRest =>
    have hsplit : reader.events.1
        = .opening start :: (inner.events ++ .closing start.name :: (rest.events ++ more)) := by
      rw [h]
      simp [Content.events]
    obtain ⟨opened, ⟨tag, within, htag, hopen, hscopes, hopened⟩, hmore⟩ := exists_step hpasses hsplit
    obtain ⟨hinner, atClosing, hatClosing, hpasses, hevents⟩ := ihInner hopened hmore
    obtain ⟨closed, ⟨htail, hclosed⟩, hmore⟩ := exists_step hpasses hevents
    have hwithin : opened.scope = within := by
      unfold scope
      rw [hscopes]
      rfl
    have hback : closed.scopes = reader.scopes := by
      rw [htail, hatClosing, hscopes]
      rfl
    obtain ⟨hrest, last, hlast, hpasses, hevents⟩ := ihRest hclosed hmore
    rw [hwithin] at hinner
    rw [scope_congr hback] at hrest
    exact ⟨⟨⟨tag, within, htag, hopen, hinner⟩, hrest⟩, last, hlast.trans hback, hpasses, hevents⟩

theorem opened_ofText {source : String} {content : Content}
    (htags : ∀ tag ∈ Markup.openings (withoutMark source.toList), test tag)
    (h : (ofText source).events.1 = content.events) : content.Opened test .initial := by
  have hpasses : (ofText source).Passes test := htags
  exact (opened_of_events hpasses (h.trans (List.append_nil _).symm)).1

end Reader
end Xml
end XmlPipeline
