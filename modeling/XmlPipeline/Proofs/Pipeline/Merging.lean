import XmlPipeline.Proofs.Output.JsonAttributes
import XmlPipeline.Proofs.Pipeline.Copying
import XmlPipeline.Proofs.Pipeline.Failing
import XmlPipeline.Proofs.Xml.Merging
import XmlPipeline.Proofs.Xml.Permuting

/-!
This module contains what a definition does not depend on: how character data is divided into texts, and the
order of the attributes of elements outside of responses.
-/

namespace XmlPipeline

open Xml

/-! ### Attributes in another order -/

theorem find?_perm {α : Type} {test : α → Bool} {items items' : List α} (hperm : items.Perm items')
    (hone : ∀ a ∈ items, ∀ b ∈ items, test a = true → test b = true → a = b) :
    items.find? test = items'.find? test := by
  cases hfind : items.find? test with
  | none =>
    rw [eq_comm, List.find?_eq_none]
    exact fun a ha => List.find?_eq_none.mp hfind a (hperm.mem_iff.mpr ha)
  | some a =>
    have ha := List.mem_of_find?_eq_some hfind
    have htest := List.find?_some hfind
    cases hfind' : items'.find? test with
    | none => exact absurd htest (List.find?_eq_none.mp hfind' a (hperm.mem_iff.mp ha))
    | some b =>
      have hb := hperm.mem_iff.mpr (List.mem_of_find?_eq_some hfind')
      rw [hone a ha b hb htest (List.find?_some hfind')]

theorem latest?_perm {κ : Type} {α : Type} [DecidableEq κ] {entries entries' : List (κ × α)}
    (hperm : entries.Perm entries') (hdistinct : (entries.map (·.1)).Nodup) (key : κ) :
    latest? key entries = latest? key entries' := by
  have hdistinct' := (hperm.map (·.1)).nodup_iff.mp hdistinct
  by_cases hkey : ∃ entry ∈ entries, entry.1 = key
  · obtain ⟨entry, hentry, rfl⟩ := hkey
    rw [latest?_of_nodup hdistinct hentry, latest?_of_nodup hdistinct' (hperm.mem_iff.mp hentry)]
  · have hnone : ∀ entry ∈ entries, entry.1 ≠ key := fun entry hentry heq => hkey ⟨entry, hentry, heq⟩
    rw [latest?_eq_none hnone, latest?_eq_none fun entry hentry => hnone entry (hperm.mem_iff.mpr hentry)]

theorem SortedMap.ofList_perm {κ : Type} {α : Type} [Ord κ] [Std.TransOrd κ] [Std.LawfulEqOrd κ]
    [DecidableEq κ] {entries entries' : List (κ × α)} (hperm : entries.Perm entries')
    (hdistinct : (entries.map (·.1)).Nodup) : SortedMap.ofList entries = SortedMap.ofList entries' := by
  have hlist : (SortedMap.ofList entries).toList = (SortedMap.ofList entries').toList := by
    apply Assoc.eq_of_find? (SortedMap.ascending _) (SortedMap.ascending _)
    intro key
    rw [SortedMap.find?_ofList, SortedMap.find?_ofList, latest?_perm hperm hdistinct]
  cases hmap : SortedMap.ofList entries
  cases hmap' : SortedMap.ofList entries'
  simpa [hmap, hmap'] using hlist

namespace Xml

namespace ElementStart

variable {start start' : ElementStart}

/--
No attribute is there twice, and no two of them that are in no namespace have the same local name.
-/
structure Apart (start : ElementStart) : Prop where
  nodup : start.attributes.Nodup
  eq_of_localName : ∀ attr ∈ start.attributes, ∀ other ∈ start.attributes, attr.name.uri = none →
    other.name.uri = none → attr.name.localName = other.name.localName → attr = other

theorem Rearranged.attribute?_eq (h : start.Rearranged start') (hapart : start.Apart) (localName : String) :
    start'.attribute? localName = start.attribute? localName := by
  unfold attribute?
  rw [find?_perm h.attributes]
  intro attr hattr other hother hfirst hsecond
  simp only [Bool.and_eq_true, Option.isNone_iff_eq_none, beq_iff_eq] at hfirst hsecond
  exact hapart.eq_of_localName attr hattr other hother hfirst.1 hsecond.1
    (hfirst.2.trans hsecond.2.symm)

end ElementStart

namespace Scope

variable {scope inner : Scope} {start : ElementStart}

theorem uri_of_attributeName {raw : List Char} {name : QName} (h : scope.attributeName raw = .ok name)
    (huri : name.uri = none) : name.pfx = none := by
  unfold attributeName at h
  split at h
  · obtain ⟨uri, -, rfl⟩ := exists_of_map_ok h
    cases huri
  · rw [← Except.ok.inj h]

theorem apart_of_openElement {content : List Char} (h : scope.openElement content = .ok (start, inner)) :
    start.Apart := by
  have hdistinct := (distinct_of_openElement h).attributes_distinct
  obtain ⟨-, -, -, hcollected⟩ := openElement_cases h
  obtain ⟨attributes, hattributes, hresolved⟩ := hcollected.attributes
  obtain rfl : start.attributes = attributes := hattributes
  have hplain : ∀ attr ∈ start.attributes, attr.name.uri = none → attr.name.lexical = attr.name.localName := by
    intro attr hattr huri
    obtain ⟨raw, -, hname⟩ := exists_of_mem_right hresolved hattr
    simp [QName.lexical, uri_of_attributeName hname huri]
  refine ⟨.of_map _ hdistinct, ?_⟩
  intro attr hattr other hother hfirst hsecond hlocal
  apply List.inj_on_of_nodup_map hdistinct hattr hother
  rw [hplain attr hattr hfirst, hplain other hother hsecond, hlocal]

end Scope

theorem Reader.apart_of_step {reader next : Reader} {start : ElementStart} (hpending : reader.pending = false)
    (h : reader.step = .event (.opening start) next) : start.Apart := by
  cases hrest : reader.rest with
  | nil =>
    rw [step_of_nil hpending hrest] at h
    split at h <;> cases h
  | cons c cs =>
    cases hscan : Markup.scan c cs with
    | error error =>
      rw [step_of_scan_error hpending hrest hscan] at h
      cases h
    | ok result =>
      obtain ⟨piece, rest⟩ := result
      rw [step_of_scan hpending hrest hscan] at h
      obtain ⟨content, isEmpty, -, henter⟩ := piece_of_opening h
      unfold enter at henter
      split at henter
      · cases henter
      · next opened inner hopen =>
        obtain rfl := Event.opening.inj (Step.event.inj henter).1
        exact Scope.apart_of_openElement hopen

end Xml

namespace Definition

variable {d d' : Definition} {start start' : ElementStart} {event : Event} {events : List Event}

theorem serializerOptions_rearranged (h : start.Rearranged start') (hapart : start.Apart) :
    SortedMap.ofList (serializerOptions start') = SortedMap.ofList (serializerOptions start) := by
  unfold serializerOptions
  rw [eq_comm]
  apply SortedMap.ofList_perm ((h.attributes.filter _).map _)
  rw [List.map_map]
  apply List.Nodup.map_on _ (hapart.nodup.filter _)
  intro attr hattr other hother hlocal
  obtain ⟨hattr, hfirst⟩ := List.mem_filter.mp hattr
  obtain ⟨hother, hsecond⟩ := List.mem_filter.mp hother
  simp only [Bool.and_eq_true, Option.isNone_iff_eq_none] at hfirst hsecond
  exact hapart.eq_of_localName attr hattr other hother hfirst.1.1 hsecond.1.1 hlocal

theorem openElement_rearranged (h : start.Rearranged start') (hapart : start.Apart)
    (hin : start.name.isIn pipelineNamespace = true) (d : Definition) :
    d.openElement start' = d.openElement start := by
  have hattribute := h.attribute?_eq hapart
  have hoptions := serializerOptions_rearranged h hapart
  unfold openElement openPipeline openTransformer openParameter openJsonSerializer directive stepName
  rw [h.name, hin]
  simp only [hattribute, hoptions, ↓reduceIte]

theorem apply_rearranged (h : start.Rearranged start') (hapart : start.Apart)
    (hin : start.name.isIn pipelineNamespace = true) (hcapture : d.capture = none) :
    d.apply (.opening start') = d.apply (.opening start) := by
  rw [apply_opening hcapture, apply_opening hcapture, h.namespaces, openElement_rearranged h hapart hin]

/-! ### Character data in another division -/

/--
The definitions differ at most in how the character data of a response that is being copied is divided.
-/
structure Alike (d d' : Definition) : Prop where
  others : { d' with capture := none } = { d with capture := none }
  capture : (d'.capture.map fun capture => (capture.events.flatMap Event.markup, capture.depth))
    = d.capture.map fun capture => (capture.events.flatMap Event.markup, capture.depth)

theorem Alike.refl (d : Definition) : d.Alike d :=
  ⟨rfl, rfl⟩

theorem Alike.cases (h : d.Alike d') :
    d' = d ∧ d.capture = none
      ∨ ∃ capture events, d.capture = some capture
        ∧ d' = { d with capture := some { events, depth := capture.depth } }
        ∧ events.flatMap Event.markup = capture.events.flatMap Event.markup := by
  obtain ⟨hothers, hcapture⟩ := h
  cases d
  rename_i capture _
  cases d'
  rename_i capture' _
  simp only [mk.injEq] at hothers
  obtain ⟨rfl, rfl, rfl, rfl, rfl, -, rfl⟩ := hothers
  cases capture with
  | none =>
    left
    have hnone : capture' = none := by simpa using hcapture
    rw [hnone]
    exact ⟨rfl, rfl⟩
  | some capture =>
    right
    obtain ⟨other, hother, heq⟩ := Option.map_eq_some_iff.mp hcapture
    obtain ⟨hmarkup, hdepth⟩ := Prod.mk.inj heq
    have hsome : capture' = some other := hother
    refine ⟨capture, other.events, rfl, ?_, hmarkup⟩
    rw [hsome, ← hdepth]

theorem Alike.apply (h : d.Alike d') (event : Event) :
    (d'.apply event).1 = (d.apply event).1 ∧ (d.apply event).2.Alike (d'.apply event).2 := by
  rcases h.cases with ⟨rfl, -⟩ | ⟨capture, events, hcapture, rfl, hmarkup⟩
  · exact ⟨rfl, .refl _⟩
  · cases event with
    | opening start =>
      simp only [Definition.apply, hcapture]
      exact ⟨trivial, rfl, by simp [hmarkup]⟩
    | text content =>
      simp only [Definition.apply, hcapture]
      exact ⟨trivial, rfl, by simp [hmarkup]⟩
    | closing name =>
      obtain ⟨copied, depth⟩ := capture
      have hbody : ({ events := events ++ [.closing name] } : Document).toXml false
          = ({ events := copied ++ [.closing name] } : Document).toXml false := by
        unfold Document.toXml
        rw [Layout.render_plain rfl, Layout.render_plain rfl, List.flatMap_append, List.flatMap_append,
          hmarkup]
      simp only [Definition.apply, closeElement, hcapture]
      split
      · exact ⟨trivial, rfl, by simp [hmarkup]⟩
      · simp only [closeResponse, hbody]
        exact ⟨trivial, .refl _⟩

theorem Alike.finish (h : d.Alike d') : d'.finish = d.finish := by
  rcases h.cases with ⟨rfl, -⟩ | ⟨capture, events, hcapture, rfl, -⟩
  · rfl
  · unfold Definition.finish isCapturing
    rw [hcapture]
    rfl

theorem Alike.conclude (h : d.Alike d') (events : List Event) :
    d'.conclude events none = d.conclude events none := by
  induction events generalizing d d' with
  | nil => exact h.finish
  | cons event events ih =>
    obtain ⟨hresult, halike⟩ := h.apply event
    have hsource : d'.source = d.source := by
      rcases h.cases with ⟨rfl, -⟩ | ⟨_, _, _, rfl, -⟩ <;> rfl
    rw [conclude_cons, conclude_cons]
    generalize d.apply event = applied at hresult halike ⊢
    generalize d'.apply event = applied' at hresult halike ⊢
    obtain ⟨result, next⟩ := applied
    obtain ⟨result', next'⟩ := applied'
    obtain rfl : result' = result := hresult
    cases result' with
    | ok => exact ih halike
    | error error => rw [hsource]

theorem alike_text_text (d : Definition) (first second : String) :
    ((d.apply (.text first)).2.apply (.text second)).2.Alike (d.apply (.text (first ++ second))).2 := by
  refine ⟨?_, ?_⟩
  · simp [apply, String.append_assoc]
  · cases hcapture : d.capture <;> simp [apply, hcapture, Event.markup, escape]

theorem alike_text_empty (d : Definition) : (d.apply (.text "")).2.Alike d := by
  refine ⟨?_, ?_⟩
  · simp [apply]
  · cases hcapture : d.capture <;> simp [apply, hcapture, Event.markup, escape]

theorem conclude_text (d : Definition) (characters : String) (events : List Event) :
    d.conclude (.text characters :: events) none
      = (d.apply (.text characters)).2.conclude events none := by
  rw [conclude_cons]
  rfl

theorem conclude_onto (d : Definition) (event : Event) (events : List Event) :
    d.conclude (event.onto events) none = d.conclude (event :: events) none := by
  cases event with
  | opening start => rfl
  | closing name => rfl
  | text characters =>
    by_cases htext : ∃ more rest, events = .text more :: rest
    · obtain ⟨more, rest, rfl⟩ := htext
      have honto : (Event.text characters).onto (.text more :: rest) = .text (characters ++ more) :: rest := rfl
      rw [honto, conclude_text, conclude_text, conclude_text]
      exact (alike_text_text d characters more).conclude rest
    · by_cases hempty : characters = ""
      · rw [hempty, Event.onto_empty, conclude_text]
        exact (alike_text_empty d).conclude events
      · have honto : (Event.text characters).onto events = .text characters :: events := by
          cases events with
          | nil => simp [Event.onto, hempty]
          | cons first rest =>
            cases first with
            | text more => exact absurd ⟨more, rest, rfl⟩ htext
            | opening => simp [Event.onto, hempty]
            | closing => simp [Event.onto, hempty]
        rw [honto]

theorem conclude_foldr_onto (d : Definition) (events more : List Event) :
    d.conclude (events.foldr Event.onto more) none = d.conclude (events ++ more) none := by
  induction events generalizing d with
  | nil => rfl
  | cons event events ih =>
    rw [List.foldr_cons, conclude_onto, List.cons_append, conclude_cons, conclude_cons]
    split
    · exact ih _
    · rfl

theorem conclude_merged (d : Definition) (events : List Event) :
    d.conclude (Event.merged events) none = d.conclude events none := by
  have hfoldr := d.conclude_foldr_onto events []
  rwa [List.append_nil] at hfoldr

/-! ### Places outside of responses -/

def CopiesAmong (d : Definition) (names : List QName) : Prop :=
  ∀ depth, d.depth? = some depth →
    ∃ inner name outer, names = inner ++ name :: outer ∧ depth = inner.length + 1
      ∧ name.is responseNamespace "response" = true

theorem CopiesAmong.given {names last : List QName} (hnested : Nested names events last)
    (h : d.CopiesAmong names) : (d.given events).CopiesAmong last := by
  have hcons : ∀ (d : Definition) event events, d.given (event :: events) = (d.apply event).2.given events := by
    intro d event events
    rw [← List.singleton_append]
    show (d.given [event]).given events = _
    rw [show d.given [event] = (d.apply event).2 from given_concat d [] event]
  induction hnested generalizing d with
  | nil => exact h
  | @opening names events last start _ ih =>
    rw [hcons]
    apply ih
    intro depth hdepth
    cases hbefore : d.depth? with
    | none =>
      obtain ⟨hresponse, rfl⟩ := depth?_opening_of_none hbefore hdepth
      exact ⟨[], start.name, names, rfl, rfl, hresponse⟩
    | some before =>
      obtain ⟨inner, name, outer, rfl, rfl, hname⟩ := h before hbefore
      rw [depth?_opening hbefore] at hdepth
      obtain rfl := Option.some.inj hdepth
      exact ⟨start.name :: inner, name, outer, rfl, rfl, hname⟩
  | @text names events last content _ ih =>
    rw [hcons]
    apply ih
    intro depth hdepth
    rw [depth?_text] at hdepth
    exact h depth hdepth
  | @closing names events last name _ ih =>
    rw [hcons]
    apply ih
    intro depth hdepth
    rw [depth?_closing] at hdepth
    obtain ⟨before, hbefore, rfl⟩ := Option.map_eq_some_iff.mp hdepth
    obtain ⟨hbefore, hdeep⟩ := Option.filter_eq_some_iff.mp hbefore
    obtain ⟨inner, other, outer, hnames, rfl, hother⟩ := h before hbefore
    cases inner with
    | nil => simp at hdeep
    | cons first inner =>
      obtain ⟨-, rfl⟩ := List.cons.inj hnames
      exact ⟨inner, other, outer, rfl, by simp, hother⟩

theorem capture_eq_none_of_nested {names : List QName} {source : Option String}
    (hnested : Nested [] events names)
    (houtside : ∀ name ∈ names, name.is responseNamespace "response" = false)
    (h : ({ source } : Definition).handleAll events = .ok d) : d.capture = none := by
  have hfirst : ({ source } : Definition).CopiesAmong [] := by
    intro depth hdepth
    cases hdepth
  have hcopies := hfirst.given hnested
  rw [given_of_handleAll h] at hcopies
  cases hcapture : d.capture with
  | none => rfl
  | some capture =>
    obtain ⟨inner, name, outer, rfl, -, hname⟩ := hcopies capture.depth (by simp [depth?, hcapture])
    simp [houtside name (by simp)] at hname

end Definition
end XmlPipeline
