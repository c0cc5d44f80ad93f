import XmlPipeline.Proofs.Pipeline.Opening
import XmlPipeline.Proofs.Pipeline.Literal

/-!
This module contains the definitions that are accepted: those in which each element may open at the place
where it stands, as the elements before it have made that place. The main statement also says which element
is to blame for a refusal.
-/

namespace XmlPipeline

open Xml

namespace Vocabulary

/-! ### Places -/

def outline : Content → Content
  | .empty => .empty
  | .text characters rest => .text characters (outline rest)
  | .element start inner rest =>
    .element start (if isResponse start then .empty else outline inner) (outline rest)

def opensNamed (localName : String) : Event → Bool
  | .opening start => isNamed localName start
  | _ => false

def closesNamed (localName : String) : Event → Bool
  | .closing name => name.is pipelineNamespace localName
  | _ => false

def closesResponse : Event → Bool
  | .closing name => name.is responseNamespace "response"
  | _ => false

def makesStep (event : Event) : Bool :=
  opensNamed "transformer" event || opensNamed "json-serializer" event || closesResponse event

def movesParameter (event : Event) : Bool :=
  opensNamed "parameter" event || closesNamed "parameter" event || makesStep event

def last? (test : Event → Bool) (events : List Event) : Option Event :=
  (events.filter test).getLast?

/--
The place after some events outside of responses. It follows a transform if the last step was made by the
opening of one, and it is in a parameter if that parameter was opened after all that closes it.
-/
def placeAfter (events : List Event) : Place where
  afterTransform := (last? makesStep events).any (opensNamed "transformer")
  inParameter := (last? movesParameter events).any (opensNamed "parameter")

def Place.next (place : Place) (event : Event) : Place where
  afterTransform := if makesStep event then opensNamed "transformer" event else place.afterTransform
  inParameter := if movesParameter event then opensNamed "parameter" event else place.inParameter

theorem last?_concat (test : Event → Bool) (events : List Event) (event : Event) :
    last? test (events ++ [event]) = if test event then some event else last? test events := by
  unfold last?
  cases htest : test event <;> simp [htest]

theorem placeAfter_concat (events : List Event) (event : Event) :
    placeAfter (events ++ [event]) = (placeAfter events).next event := by
  unfold placeAfter Place.next
  rw [last?_concat, last?_concat]
  congr 1 <;> split <;> rfl

/-! ### Judgements -/

/--
What is to be said of events that come after some other ones: each element may open, or the first one that
may not has this fault.
-/
inductive Judged : List Event → List Event → Option Error → Prop where
  | done (before : List Event) : Judged before [] none
  | passed {before events : List Event} {event : Event} {fault : Option Error}
    (hevent : ∀ start, event = .opening start → Permitted (placeAfter before) start)
    (hevents : Judged (before ++ [event]) events fault) : Judged before (event :: events) fault
  | failed {before events : List Event} {start : ElementStart} {error : Error}
    (hfault : Fault (placeAfter before) start error) :
    Judged before (.opening start :: events) (some error)

variable {before first second events : List Event} {event : Event} {fault : Option Error} {error : Error}

theorem Judged.singleton
    (h : ∀ start, event = .opening start → Permitted (placeAfter before) start) :
    Judged before [event] none :=
  .passed h (.done _)

theorem Judged.append (h : Judged before first none) (h' : Judged (before ++ first) second fault) :
    Judged before (first ++ second) fault := by
  generalize hnone : none = verdict at h
  induction h with
  | done => simpa using h'
  | passed hevent _ ih =>
    apply Judged.passed hevent
    exact ih (by simpa using h') hnone
  | failed => cases hnone

theorem Judged.append_of_fault (h : Judged before first (some error)) (second : List Event) :
    Judged before (first ++ second) (some error) := by
  generalize hsome : some error = verdict at h
  induction h with
  | done => cases hsome
  | passed hevent _ ih => exact .passed hevent (ih hsome)
  | failed hfault =>
    obtain rfl := Option.some.inj hsome
    exact .failed hfault

theorem Judged.permitted (h : Judged before events none) {start : ElementStart} {after : List Event}
    (hsplit : events = first ++ .opening start :: after) :
    Permitted (placeAfter (before ++ first)) start := by
  generalize hnone : none = verdict at h
  induction h generalizing first with
  | done => simp at hsplit
  | passed hevent _ ih =>
    cases first with
    | nil =>
      obtain ⟨rfl, -⟩ := List.cons.inj hsplit
      simpa using hevent start rfl
    | cons other first =>
      obtain ⟨rfl, hrest⟩ := List.cons.inj hsplit
      simpa using ih hrest hnone
  | failed => cases hnone

theorem Judged.exists_fault (h : Judged before events (some error)) :
    ∃ first start after, events = first ++ .opening start :: after
      ∧ Judged before first none ∧ Fault (placeAfter (before ++ first)) start error := by
  generalize hsome : some error = verdict at h
  induction h with
  | done => cases hsome
  | @passed before events event _ hevent _ ih =>
    obtain ⟨first, start, after, rfl, hfirst, hfault⟩ := ih hsome
    exact ⟨event :: first, start, after, rfl, .passed hevent hfirst, by simpa using hfault⟩
  | @failed before events start error hfault =>
    obtain rfl := Option.some.inj hsome
    exact ⟨[], start, events, rfl, .done before, by simpa using hfault⟩

theorem Fault.cause?_eq_none {place : Place} {start : ElementStart} (h : Fault place start error) :
    error.cause? = none := by
  cases h with
  | timeToLive _ _ herror =>
    obtain ⟨_, _, _, _, rfl⟩ := herror
    rfl
  | timeToIdle _ _ _ herror =>
    obtain ⟨_, _, _, _, rfl⟩ := herror
    rfl
  | _ => rfl

end Vocabulary

namespace Definition

open Vocabulary

variable {d d' : Definition} {start : ElementStart} {name : QName} {before : List Event}
  {content : Content} {fault : Option Error}

/-! ### One event -/

theorem place_addStep (d : Definition) (step : Step) :
    (d.addStep step).place = { afterTransform := step.transform?.isSome, inParameter := false } := by
  simp [place, addStep]

theorem next_opening (place : Place) {localName : String} (h : isNamed localName start = true) :
    place.next (.opening start) = {
      afterTransform := if localName == "transformer" || localName == "json-serializer"
        then localName == "transformer" else place.afterTransform
      inParameter := if localName == "parameter" || localName == "transformer"
          || localName == "json-serializer"
        then localName == "parameter" else place.inParameter } := by
  simp [Place.next, movesParameter, makesStep, opensNamed, closesNamed, closesResponse, isNamed_eq h,
    or_assoc]

theorem next_foreign (place : Place) (h : isForeign start = true) :
    place.next (.opening start) = place := by
  simp [Place.next, movesParameter, makesStep, opensNamed, closesNamed, closesResponse,
    isNamed_foreign h]

theorem place_opens (h : d.Opens start d') :
    d'.place = if isResponse start then d.place else d.place.next (.opening start) := by
  cases h with
  | pipeline hnamed cache =>
    rw [isResponse_named hnamed, next_opening _ hnamed]
    rfl
  | transformer hnamed step =>
    rw [isResponse_named hnamed, next_opening _ hnamed, place_addStep]
    rfl
  | parameter hnamed before step hsteps =>
    rw [isResponse_named hnamed, next_opening _ hnamed]
    simp [place, inParameter, hsteps, Step.transform?]
  | value hnamed =>
    rw [isResponse_named hnamed, next_opening _ hnamed]
    rfl
  | serializer hnamed step =>
    rw [isResponse_named hnamed, next_opening _ hnamed, place_addStep]
    rfl
  | response hresponse =>
    rw [if_pos hresponse]
    rfl
  | foreign hforeign =>
    rw [(isForeign_iff.mp hforeign).2, next_foreign _ hforeign]
    rfl

theorem place_addValue (d : Definition) (value : String) : (d.addValue value).place = d.place := by
  unfold addValue
  split
  · next hlast => simp [place, hlast, Step.transform?]
  · rfl

theorem next_closing (place : Place) (hresponse : name.is responseNamespace "response" = false) :
    place.next (.closing name)
      = { place with
          inParameter := if name.is pipelineNamespace "parameter" then false else place.inParameter } := by
  simp [Place.next, movesParameter, makesStep, opensNamed, closesNamed, closesResponse, hresponse]

theorem place_closeElement (hcapture : d.capture = none)
    (hresponse : name.is responseNamespace "response" = false) :
    (d.closeElement name).place = d.place.next (.closing name) := by
  unfold closeElement
  rw [hcapture, next_closing _ hresponse, QName.is]
  simp only
  split
  · next hin =>
    split
    · next hlocal => simp [place_addValue, hlocal]
    · next hlocal => simp [place, hlocal, hin]
    · next hother =>
      have hother : name.localName ≠ "parameter" := hother
      simp [hother]
  · next hin => simp [hin]

/-! ### Whole contents -/

structure Follows (d : Definition) (before : List Event) : Prop where
  capture : d.capture = none
  place : d.place = placeAfter before

/--
The definition takes the events in as they are judged, and stands behind them if it takes in all of them.
-/
def Takes (d : Definition) (events before outlined : List Event) : Prop :=
  (∃ d', d.handleAll events = .ok d' ∧ d'.source = d.source ∧ d'.Follows (before ++ outlined)
      ∧ Judged before outlined none)
    ∨ ∃ error, d.handleAll events = .error (.invalidDefinition d.source error)
      ∧ Judged before outlined (some error)

theorem Takes.append {first second outlined more : List Event} (h : d.Takes first before outlined)
    (h' : ∀ d' : Definition, d'.source = d.source → d'.Follows (before ++ outlined) →
      d'.Takes second (before ++ outlined) more) :
    d.Takes (first ++ second) before (outlined ++ more) := by
  unfold Takes
  rw [handleAll_append]
  rcases h with ⟨between, hfirst, hsource, hfollows, hjudged⟩ | ⟨error, hfirst, hjudged⟩
  · rw [hfirst]
    rcases h' between hsource hfollows with ⟨last, hsecond, hlast, hend, hrest⟩ | ⟨error, hsecond, hrest⟩
    · refine .inl ⟨last, hsecond, hlast.trans hsource, ?_, hjudged.append hrest⟩
      simpa using hend
    · exact .inr ⟨error, hsource ▸ hsecond, hjudged.append hrest⟩
  · rw [hfirst]
    exact .inr ⟨error, rfl, hjudged.append_of_fault more⟩

theorem Follows.takes_text (h : d.Follows before) (characters : String) :
    d.Takes [.text characters] before [.text characters] := by
  refine .inl ⟨{ d with text := d.text ++ characters, capture := none }, ?_, rfl, ?_, ?_⟩
  · simp [handleAll, handle, apply, h.capture]
  · refine ⟨rfl, ?_⟩
    rw [placeAfter_concat, ← h.place]
    rfl
  · exact .singleton (by simp)

theorem Follows.takes_opening (h : d.Follows before) (hresponse : isResponse start = false) :
    d.Takes [.opening start] before [.opening start] := by
  obtain ⟨hcapture, hplace⟩ := h
  rcases apply_opening_cases hcapture start with
    ⟨opened, happly, hopens, hpermitted⟩ | ⟨error, happly, hfault⟩
  · refine .inl ⟨opened, ?_, ?_, ?_, ?_⟩
    · simp [handleAll, handle, happly]
    · cases hopens <;> rfl
    · refine ⟨(hopens.capture hresponse).trans hcapture, ?_⟩
      have hnext := place_opens hopens
      rw [if_neg (by simp [hresponse])] at hnext
      rw [placeAfter_concat, hnext, ← hplace]
      rfl
    · apply Judged.singleton
      rintro _ ⟨⟩
      exact hplace ▸ hpermitted
  · refine .inr ⟨error, ?_, .failed (hplace ▸ hfault)⟩
    simp [handleAll, handle, happly]

theorem source_addValue (d : Definition) (value : String) : (d.addValue value).source = d.source := by
  unfold addValue
  split <;> rfl

theorem source_closeElement (d : Definition) (name : QName) :
    (d.closeElement name).source = d.source := by
  unfold closeElement
  split
  · simp only
    split <;> rfl
  · split
    · split
      · exact source_addValue d d.text
      · rfl
      · rfl
    · rfl

theorem Follows.takes_closing (h : d.Follows before)
    (hresponse : name.is responseNamespace "response" = false) :
    d.Takes [.closing name] before [.closing name] := by
  let closed := d.closeElement name
  have hgains := closeElement_gains h.capture name
  refine .inl ⟨{ closed with scopes := closed.scopes.tail, text := "" }, rfl, ?_, ?_, ?_⟩
  · exact source_closeElement d name
  · refine ⟨hgains.capture.trans h.capture, ?_⟩
    have hplace := place_closeElement h.capture hresponse
    rw [placeAfter_concat, ← h.place, ← hplace]
    rfl
  · exact .singleton (by simp)

theorem Follows.takes_response (h : d.Follows before) (hresponse : isResponse start = true)
    (inner : Content) :
    d.Takes (Content.element start inner .empty).events before
      [.opening start, .closing start.name] := by
  have hin := not_isIn_of_isResponse hresponse
  let step := Step.respond (responseOf d.scopes.reverse.flatten start inner)
  obtain ⟨text, hcopied⟩ := Leads.copied h.capture hresponse d.text
  refine .inl ⟨{ d.addStep step with text }, hcopied, rfl, ⟨h.capture, ?_⟩, ?_⟩
  · have hplace : ({ d.addStep step with text } : Definition).place
        = { afterTransform := false, inParameter := false } := place_addStep d step
    have hclosing : closesResponse (.closing start.name) = true := hresponse
    have hsplit : before ++ [.opening start, .closing start.name]
        = before ++ [.opening start] ++ [.closing start.name] := by simp
    rw [hplace, hsplit, placeAfter_concat]
    simp [Place.next, movesParameter, makesStep, opensNamed, hclosing]
  · apply Judged.passed
    · rintro _ ⟨⟩
      exact permitted_of_not_isIn hin
    · exact .singleton (by simp)

theorem Follows.takes (h : d.Follows before) (content : Content) :
    d.Takes content.events before (outline content).events := by
  induction content generalizing d before with
  | empty =>
    refine .inl ⟨d, rfl, rfl, ?_, .done before⟩
    simpa [outline, Content.events] using h
  | text characters rest ih =>
    exact (h.takes_text characters).append fun next _ hnext => ih hnext
  | element start inner rest ihInner ihRest =>
    rw [events_element]
    cases hresponse : isResponse start with
    | true =>
      have hresponseElement := (h.takes_response hresponse inner).append
        fun next _ hnext => ihRest hnext
      simpa [outline, hresponse, Content.events] using hresponseElement
    | false =>
      have hopening := h.takes_opening hresponse
      have hinner := hopening.append fun next _ hnext => ihInner hnext
      have hclosing := hinner.append fun next _ hnext => hnext.takes_closing hresponse
      have hrest := hclosing.append fun next _ hnext => ihRest hnext
      simpa [outline, hresponse, Content.events] using hrest

end Definition

namespace Pipeline

open Vocabulary

theorem ofEvents_accepts (content : Content) :
    ((∃ pipeline, ofEvents (content.events.map .ok) = .ok pipeline)
        ↔ ∀ before start after, (outline content).events = before ++ .opening start :: after →
            Permitted (placeAfter before) start)
      ∧ ∀ error, ofEvents (content.events.map .ok) = .error error →
          ∃ before start after fault, (outline content).events = before ++ .opening start :: after
            ∧ (∀ first other rest, before = first ++ .opening other :: rest →
                Permitted (placeAfter first) other)
            ∧ Fault (placeAfter before) start fault
            ∧ error = .invalidDefinition none fault ∧ fault.cause? = none := by
  have hfollows : ({} : Definition).Follows [] := ⟨rfl, rfl⟩
  unfold ofEvents
  rw [Definition.ofEvents_go]
  rcases hfollows.takes content with ⟨d', hread, _, hlast, hjudged⟩ | ⟨fault, hread, hjudged⟩
  · have hfinish : d'.finish = .ok { steps := d'.steps, cache := d'.cache } := by
      simp [Definition.finish, Definition.isCapturing, hlast.capture]
    rw [hread]
    simp only [Except.bind, hfinish]
    constructor
    · constructor
      · intro _ before start after hsplit
        simpa using hjudged.permitted hsplit
      · intro _
        exact ⟨_, rfl⟩
    · intro error herror
      cases herror
  · obtain ⟨before, start, after, hsplit, hbefore, hfault⟩ := hjudged.exists_fault
    rw [hread]
    simp only [Except.bind]
    constructor
    · constructor
      · rintro ⟨pipeline, hpipeline⟩
        cases hpipeline
      · intro hall
        exact absurd (hall before start after hsplit) (by simpa using hfault.not_permitted)
    · rintro _ ⟨⟩
      refine ⟨before, start, after, fault, hsplit, ?_, by simpa using hfault, rfl, hfault.cause?_eq_none⟩
      intro first other rest hfirst
      simpa using hbefore.permitted hfirst

end Pipeline
end XmlPipeline
