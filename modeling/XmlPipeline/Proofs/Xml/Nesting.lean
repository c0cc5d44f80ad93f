import Mathlib.Logic.Relation
import XmlPipeline.Proofs.Xml.Content
import XmlPipeline.Proofs.Xml.ReadTag
import XmlPipeline.Xml.Document

/-!
This module contains the nesting of elements in what the reader yields. The main statement holds for all
texts, also for those that the reader fails on somewhere.
-/

namespace XmlPipeline
namespace Xml

/--
The events lead from these open elements to those, the innermost one first. Each closing has the name of
the innermost element that is still open.
-/
inductive Nested : List QName → List Event → List QName → Prop where
  | nil : Nested names [] names
  | opening {start : ElementStart} (rest : Nested (start.name :: names) events last) :
    Nested names (.opening start :: events) last
  | text (rest : Nested names events last) : Nested names (.text content :: events) last
  | closing (rest : Nested names events last) : Nested (name :: names) (.closing name :: events) last

namespace Nested

variable {names between last : List QName} {events more : List Event}

theorem append (h : Nested names events between) (hmore : Nested between more last) :
    Nested names (events ++ more) last := by
  induction h with
  | nil => exact hmore
  | opening _ ih => exact .opening (ih hmore)
  | text _ ih => exact .text (ih hmore)
  | closing _ ih => exact .closing (ih hmore)

theorem closings (names : List QName) : Nested names (names.map .closing) [] := by
  induction names with
  | nil => exact .nil
  | cons name names ih => exact .closing ih

def closed (elements : List (QName × Content)) : List Event :=
  elements.flatMap fun (name, content) => .closing name :: content.events

theorem exists_closed (h : Nested names events []) :
    ∃ (content : Content) (elements : List (QName × Content)),
      elements.map (·.1) = names ∧ events = content.events ++ closed elements := by
  generalize hlast : [] = last at h
  induction h with
  | nil => exact ⟨.empty, [], hlast, rfl⟩
  | @opening names events last start _ ih =>
    obtain ⟨inner, elements, hnames, rfl⟩ := ih hlast
    -- The first of the closings is the one of the element that is opened here.
    cases elements with
    | nil => simp at hnames
    | cons element elements =>
      obtain ⟨name, rest⟩ := element
      obtain ⟨hname, houter⟩ := List.cons.inj hnames
      obtain rfl : name = start.name := hname
      refine ⟨.element start inner rest, elements, houter, ?_⟩
      simp [Content.events, closed]
  | @text names events last characters _ ih =>
    obtain ⟨content, elements, hnames, rfl⟩ := ih hlast
    exact ⟨.text characters content, elements, hnames, rfl⟩
  | @closing names events last name _ ih =>
    obtain ⟨content, elements, rfl, rfl⟩ := ih hlast
    exact ⟨.empty, (name, content) :: elements, rfl, by simp [Content.events, closed]⟩

theorem exists_content (h : Nested [] events []) : ∃ content : Content, events = content.events := by
  obtain ⟨content, elements, hnames, rfl⟩ := h.exists_closed
  obtain rfl := List.map_eq_nil_iff.mp hnames
  exact ⟨content, by simp [closed]⟩

end Nested

namespace Event

def Proper : Event → Prop
  | opening start => start.Distinct
  | text content => content ≠ ""
  | closing _ => True

end Event

namespace Reader

/--
The three stacks of a reader agree on which elements are open: their written names, the scopes in which
these resolve to their names, and the count.
-/
structure Tracks (reader : Reader) (names : List QName) : Prop where
  tags : reader.tags = names.map (·.lexical.toList)
  scopes : List.Forall₂ (fun scope name => scope.elementName name.lexical.toList = .ok name)
    reader.scopes names
  depth : reader.depth = names.length
  pending : reader.pending = true → names ≠ []

def Step.Follows (names : List QName) : Step → Prop
  | event yielded next => ∃ last, Nested names [yielded] last ∧ yielded.Proper ∧ next.Tracks last
  | skip next => next.Tracks names
  | failure _ => True
  | done => names = []

variable {reader next : Reader} {names : List QName}

theorem Tracks.enter (h : reader.Tracks names) (content : List Char) (isEmpty : Bool) :
    (reader.enter content isEmpty).Follows names := by
  unfold Reader.enter
  split
  · trivial
  · next start inner hopen =>
    obtain ⟨_, hname, _, _⟩ := Scope.openElement_cases hopen
    have hlexical : Tag.nameOf content = start.name.lexical.toList :=
      (Scope.lexical_of_elementName hname).symm
    refine ⟨start.name :: names, .opening .nil, Scope.distinct_of_openElement hopen, ?_⟩
    rw [hlexical] at hname ⊢
    refine ⟨?_, ?_, ?_, ?_⟩
    · rw [h.tags, List.map_cons]
    · exact .cons hname h.scopes
    · rw [h.depth, List.length_cons]
    · simp

theorem leave_follows {name : QName} (htags : reader.tags = names.map (·.lexical.toList))
    (hscopes : List.Forall₂ (fun scope name => scope.elementName name.lexical.toList = .ok name)
      reader.scopes (name :: names))
    (hdepth : reader.depth = names.length + 1) (hpending : reader.pending = false) :
    (reader.leave name.lexical.toList).Follows (name :: names) := by
  obtain ⟨scope, scopes, hname, hrest, hcons⟩ := List.forall₂_cons_right_iff.mp hscopes
  -- The scope of the opening is still the innermost one, so the name is resolved as it was then.
  have hscope : reader.scope = scope := by
    unfold Reader.scope
    rw [hcons]
    rfl
  unfold leave
  rw [hscope, hname]
  refine ⟨names, .closing .nil, trivial, ?_⟩
  refine ⟨htags, ?_, ?_, ?_⟩
  · rw [hcons]
    exact hrest
  · simp [hdepth]
  · simp [hpending]

theorem Tracks.take (h : reader.Tracks names) (hpending : reader.pending = false) (piece : Markup)
    (rest : List Char) : (reader.take piece rest).Follows names := by
  have hrest : ({ reader with rest } : Reader).Tracks names := ⟨h.tags, h.scopes, h.depth, h.pending⟩
  cases piece with
  | ignored => exact hrest
  | text raw =>
    simp only [Reader.take]
    split
    · trivial
    · exact hrest
    · next content hne _ =>
      refine ⟨names, .text .nil, ?_, hrest⟩
      simpa [Event.Proper] using hne
  | cdata content =>
    cases content with
    | nil => exact hrest
    | cons first content =>
      refine ⟨names, .text .nil, ?_, hrest⟩
      simp [Event.Proper]
  | startTag content => exact hrest.enter content false
  | emptyTag content => exact hrest.enter content true
  | endTag name =>
    simp only [Reader.take]
    split
    · trivial
    · next tag tags htags =>
      split
      · next heq =>
        rw [h.tags] at htags
        obtain ⟨innermost, outer, rfl, rfl, rfl⟩ := List.map_eq_cons_iff.mp htags
        rw [← heq]
        exact leave_follows rfl h.scopes h.depth hpending
      · trivial

theorem Tracks.step (h : reader.Tracks names) : reader.step.Follows names := by
  unfold Reader.step
  split
  · next hpending =>
    obtain ⟨innermost, outer, rfl⟩ := List.exists_cons_of_ne_nil (h.pending hpending)
    rw [h.tags]
    exact leave_follows rfl h.scopes h.depth rfl
  · next hpending =>
    split
    · split
      · next hdepth =>
        rw [h.depth] at hdepth
        exact List.length_eq_zero_iff.mp hdepth
      · trivial
    · split
      · trivial
      · exact h.take (by simpa using hpending) _ _

theorem Tracks.events (h : reader.Tracks names) :
    ∃ last, Nested names reader.events.1 last ∧ (reader.events.2 = none → last = [])
      ∧ ∀ event ∈ reader.events.1, event.Proper := by
  fun_induction Reader.events reader generalizing names with
  | case1 reader event next hstep more failure hmore ih =>
    have hfollows := h.step
    rw [hstep] at hfollows
    obtain ⟨between, hevent, hproper, hnext⟩ := hfollows
    obtain ⟨last, hnested, hend, hrest⟩ := ih hnext
    rw [hmore] at hnested hend hrest
    refine ⟨last, hevent.append hnested, hend, ?_⟩
    intro other hother
    cases List.mem_cons.mp hother with
    | inl heq => exact heq ▸ hproper
    | inr hmem => exact hrest other hmem
  | case2 reader next hstep ih =>
    have hfollows := h.step
    rw [hstep] at hfollows
    exact ih hfollows
  | case3 reader error hstep => exact ⟨names, .nil, by simp, by simp⟩
  | case4 reader hstep =>
    have hfollows := h.step
    rw [hstep] at hfollows
    exact ⟨names, .nil, fun _ => hfollows, by simp⟩

def Reaches : Reader → Reader → Prop :=
  Relation.ReflTransGen fun reader next => reader.step.reader? = some next

theorem Tracks.reader? (h : reader.Tracks names) (hstep : reader.step.reader? = some next) :
    ∃ last, next.Tracks last := by
  have hfollows := h.step
  cases hcase : reader.step with
  | event event other =>
    rw [hcase] at hfollows hstep
    obtain ⟨last, _, _, hnext⟩ := hfollows
    exact ⟨last, Option.some.inj hstep ▸ hnext⟩
  | skip other =>
    rw [hcase] at hfollows hstep
    exact ⟨names, Option.some.inj hstep ▸ hfollows⟩
  | failure error => simp [hcase, Step.reader?] at hstep
  | done => simp [hcase, Step.reader?] at hstep

theorem Tracks.reaches (h : reader.Tracks names) (hreaches : reader.Reaches next) :
    ∃ last, next.Tracks last := by
  induction hreaches with
  | refl => exact ⟨names, h⟩
  | tail _ hstep ih =>
    obtain ⟨between, hbetween⟩ := ih
    exact hbetween.reader? hstep

theorem Tracks.depth_closing {name : QName} (h : reader.Tracks names)
    (hstep : reader.step = .event (.closing name) next) : next.depth + 1 = reader.depth := by
  have hfollows := h.step
  rw [hstep] at hfollows
  obtain ⟨last, hnested, _, hnext⟩ := hfollows
  cases hnested with
  | closing hrest =>
    cases hrest
    rw [hnext.depth, h.depth, List.length_cons]

theorem tracks_ofText (source : String) : (ofText source).Tracks [] :=
  ⟨rfl, .nil, rfl, by simp [ofText]⟩

theorem events_nested (source : String) :
    (∃ names, Nested [] (ofText source).events.1 names
        ∧ ((ofText source).events.2 = none → names = [])
        ∧ ∃ content : Content, content.events = (ofText source).events.1 ++ names.map .closing)
      ∧ (∀ event ∈ (ofText source).events.1, event.Proper)
      ∧ (∀ reader next name, (ofText source).Reaches reader →
          reader.step = .event (.closing name) next → next.depth + 1 = reader.depth)
      ∧ ∀ document, Document.read source = .ok document →
          ∃ content : Content, document.events = content.events := by
  have htracks := tracks_ofText source
  obtain ⟨names, hnested, hend, hproper⟩ := htracks.events
  refine ⟨⟨names, hnested, hend, ?_⟩, hproper, ?_, ?_⟩
  · obtain ⟨content, hcontent⟩ := (hnested.append (.closings names)).exists_content
    exact ⟨content, hcontent.symm⟩
  · intro reader next name hreaches hstep
    obtain ⟨last, hreader⟩ := htracks.reaches hreaches
    exact hreader.depth_closing hstep
  · intro document hread
    unfold Document.read at hread
    split at hread
    · next events hevents =>
      rw [hevents] at hnested hend
      obtain rfl := hend rfl
      obtain ⟨content, hcontent⟩ := hnested.exists_content
      rw [← Except.ok.inj hread]
      exact ⟨content, hcontent⟩
    · cases hread

end Reader
end Xml
end XmlPipeline
