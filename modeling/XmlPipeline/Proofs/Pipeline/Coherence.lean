import XmlPipeline.Proofs.Pipeline.Opening

/-!
This module contains what stays true of a definition while events are taken in, in any order and also
after some of them were refused: where the open parameter is, how deep a copied response is open, and how
the steps grow.
-/

namespace XmlPipeline

open Xml

namespace Xml.Event

def isOpening : Event → Bool
  | opening _ => true
  | _ => false

def isClosing : Event → Bool
  | closing _ => true
  | _ => false

end Xml.Event

namespace Step

/--
The steps after an event, against those before it. There may be one more step at the end, or the last step
may have one more parameter, or the last parameter of the last step one more value.
-/
inductive Grows : List Step → List Step → Prop where
  | same (steps : List Step) : Grows steps steps
  | step (steps : List Step) (step : Step) : Grows steps (steps ++ [step])
  | parameter (before : List Step) (step : TransformStep) (parameter : Parameter) :
    Grows (before ++ [.transform step])
      (before ++ [.transform { step with parameters := step.parameters ++ [parameter] }])
  | value (before : List Step) (step : TransformStep) (parameters : List Parameter)
    (parameter : Parameter) (value : String) :
    Grows (before ++ [.transform { step with parameters := parameters ++ [parameter] }])
      (before ++ [.transform { step with parameters := parameters ++ [parameter.addValue value] }])

end Step

namespace Definition

variable {d d' : Definition} {start : ElementStart} {event : Event} {index depth : Nat}

def given (d : Definition) (events : List Event) : Definition :=
  events.foldl (fun d event => (d.handle event).2) d

theorem given_concat (d : Definition) (events : List Event) (event : Event) :
    d.given (events ++ [event]) = ((d.given events).apply event).2 := by
  have hhandle : ∀ d : Definition, (d.handle event).2 = (d.apply event).2 := by
    intro d
    unfold handle
    split <;> simp_all
  unfold given
  rw [List.foldl_concat, hhandle]

/-! ### The open parameter -/

/--
The open parameter is the last one of the last step, which is a transform.
-/
def Coherent (d : Definition) : Prop :=
  ∀ index, d.parameter = some index →
    ∃ before step, d.steps = before ++ [.transform step] ∧ step.parameters.length = index + 1

theorem coherent_of_none (h : d.parameter = none) : d.Coherent := by
  intro index hindex
  rw [h] at hindex
  cases hindex

theorem coherent_inParameter (d : Definition) (before : List Step) (step : TransformStep)
    (parameters : List Parameter) (parameter : Parameter) :
    (d.inParameter before step parameters parameter).Coherent := by
  intro index hindex
  obtain rfl : parameters.length = index := Option.some.inj hindex
  exact ⟨before, _, rfl, by simp⟩

theorem Coherent.congr (h : d.Coherent) (hsteps : d'.steps = d.steps)
    (hparameter : d'.parameter = d.parameter) : d'.Coherent := by
  intro index hindex
  rw [hsteps]
  exact h index (hparameter ▸ hindex)

theorem Coherent.exists_inParameter (h : d.Coherent) (hindex : d.parameter = some index) :
    ∃ before step parameters parameter, d = d.inParameter before step parameters parameter := by
  obtain ⟨before, step, hsteps, hlength⟩ := h index hindex
  rcases List.eq_nil_or_concat' step.parameters with hnil | ⟨parameters, parameter, hparameters⟩
  · simp [hnil] at hlength
  · refine ⟨before, step, parameters, parameter, ?_⟩
    obtain rfl : parameters.length = index := by simpa [hparameters] using hlength
    cases d
    simp only at hindex hsteps
    simp [inParameter, ← hparameters, hindex, hsteps]

theorem addValue_of_none (h : d.parameter = none) (value : String) : d.addValue value = d := by
  unfold addValue
  rw [h]

theorem Coherent.opens (h : d.Coherent) (hopens : d.Opens start d') : d'.Coherent := by
  cases hopens with
  | pipeline _ cache => exact h.congr rfl rfl
  | transformer _ step => exact coherent_of_none rfl
  | parameter _ before step _ => exact coherent_inParameter d before step _ _
  | value => exact h.congr rfl rfl
  | serializer _ step => exact coherent_of_none rfl
  | response => exact h.congr rfl rfl
  | foreign => exact h

theorem Coherent.addValue (h : d.Coherent) (value : String) : (d.addValue value).Coherent := by
  cases hparameter : d.parameter with
  | none =>
    rw [addValue_of_none hparameter]
    exact h
  | some index =>
    obtain ⟨before, step, parameters, parameter, heq⟩ := h.exists_inParameter hparameter
    rw [heq, addValue_inParameter]
    exact coherent_inParameter d before step parameters _

theorem Coherent.closeElement (h : d.Coherent) (name : QName) : (d.closeElement name).Coherent := by
  unfold Definition.closeElement
  split
  · simp only
    split
    · exact h.congr rfl rfl
    · exact coherent_of_none rfl
  · split
    · split
      · exact h.addValue d.text
      · exact coherent_of_none rfl
      · exact h
    · exact h

theorem Coherent.apply (h : d.Coherent) (event : Event) : (d.apply event).2.Coherent := by
  cases event with
  | opening start =>
    have hentered : (d.enter start.namespaces).Coherent := h.congr rfl rfl
    cases hcapture : d.capture with
    | some capture =>
      simp only [Definition.apply, hcapture]
      exact h.congr rfl rfl
    | none =>
      rcases apply_opening_cases hcapture start with ⟨opened, happly, hopens, -⟩ | ⟨error, happly, -⟩
      · exact happly ▸ hentered.opens hopens
      · exact happly ▸ hentered
  | text content => exact h.congr rfl rfl
  | closing name => exact (h.closeElement name).congr rfl rfl

/-! ### The steps -/

theorem Opens.grows (h : d.Opens start d') : Step.Grows d.steps d'.steps := by
  cases h with
  | pipeline => exact .same d.steps
  | transformer _ step => exact .step d.steps _
  | parameter _ before step hsteps =>
    rw [hsteps]
    exact .parameter before step _
  | value => exact .same d.steps
  | serializer _ step => exact .step d.steps _
  | response => exact .same d.steps
  | foreign => exact .same d.steps

theorem Coherent.grows_addValue (h : d.Coherent) (value : String) :
    Step.Grows d.steps (d.addValue value).steps := by
  cases hparameter : d.parameter with
  | none =>
    rw [addValue_of_none hparameter]
    exact .same d.steps
  | some index =>
    obtain ⟨before, step, parameters, parameter, heq⟩ := h.exists_inParameter hparameter
    rw [heq, addValue_inParameter]
    exact .value before step parameters parameter value

theorem Coherent.grows_closeElement (h : d.Coherent) (name : QName) :
    Step.Grows d.steps (d.closeElement name).steps := by
  unfold Definition.closeElement
  split
  · simp only
    split
    · exact .same d.steps
    · exact .step d.steps _
  · split
    · split
      · exact h.grows_addValue d.text
      · exact .same d.steps
      · exact .same d.steps
    · exact .same d.steps

theorem Coherent.grows_apply (h : d.Coherent) (event : Event) :
    Step.Grows d.steps (d.apply event).2.steps := by
  cases event with
  | opening start =>
    cases hcapture : d.capture with
    | some capture =>
      simp only [Definition.apply, hcapture]
      exact .same d.steps
    | none =>
      rcases apply_opening_cases hcapture start with ⟨opened, happly, hopens, -⟩ | ⟨error, happly, -⟩
      · exact happly ▸ hopens.grows
      · exact happly ▸ .same d.steps
  | text content => exact .same d.steps
  | closing name => exact h.grows_closeElement name

/-! ### The copied response -/

def depth? (d : Definition) : Option Nat :=
  d.capture.map (·.depth)

theorem isCapturing_of_depth? (h : d.depth? = some depth) : d.isCapturing = true := by
  obtain ⟨capture, hcapture, -⟩ := Option.map_eq_some_iff.mp h
  simp [isCapturing, hcapture]

theorem depth?_opening (h : d.depth? = some depth) :
    (d.apply (.opening start)).2.depth? = some (depth + 1) := by
  obtain ⟨capture, hcapture, rfl⟩ := Option.map_eq_some_iff.mp h
  unfold Definition.apply
  simp only [hcapture]
  rfl

theorem Opens.depth? (h : d.Opens start d') (hcapture : d.capture = none) (hdepth : d'.depth? = some depth) :
    Vocabulary.isResponse start = true ∧ depth = 1 := by
  cases hresponse : Vocabulary.isResponse start with
  | false => simp [Definition.depth?, h.capture hresponse, hcapture] at hdepth
  | true =>
    cases h with
    | response => exact ⟨rfl, (Option.some.inj hdepth).symm⟩
    | foreign hforeign => simp [(isForeign_iff.mp hforeign).2] at hresponse
    | _ hnamed => simp [isResponse_named hnamed] at hresponse

theorem depth?_opening_of_none (h : d.depth? = none)
    (hdepth : (d.apply (.opening start)).2.depth? = some depth) :
    Vocabulary.isResponse start = true ∧ depth = 1 := by
  have hcapture : d.capture = none := Option.map_eq_none_iff.mp h
  rcases apply_opening_cases hcapture start with ⟨opened, happly, hopens, -⟩ | ⟨error, happly, -⟩
  · rw [happly] at hdepth
    exact hopens.depth? hcapture hdepth
  · rw [happly] at hdepth
    simp [depth?, enter, hcapture] at hdepth

theorem depth?_text (d : Definition) (content : String) :
    (d.apply (.text content)).2.depth? = d.depth? := by
  unfold Definition.apply depth?
  simp only [Option.map_map]
  rfl

theorem addValue_capture (d : Definition) (value : String) : (d.addValue value).capture = d.capture := by
  unfold addValue
  split <;> rfl

theorem depth?_closing (d : Definition) (name : QName) :
    (d.apply (.closing name)).2.depth? = (d.depth?.filter (1 < ·)).map (· - 1) := by
  unfold Definition.apply depth? closeElement
  cases hcapture : d.capture with
  | none =>
    simp only
    split
    · split
      · simp [addValue_capture, hcapture]
      · simp
      · simp [hcapture]
    · simp [hcapture]
  | some capture =>
    obtain ⟨events, depth⟩ := capture
    cases depth with
    | zero => simp [closeResponse, Option.filter_some]
    | succ depth => cases depth <;> simp [closeResponse, Option.filter_some]

/--
A response is being copied since the last opening of one. `depth` of its elements are open, the response
itself being one of them.
-/
def CopiesSince (d : Definition) (events : List Event) (depth : Nat) : Prop :=
  ∃ before start since, events = before ++ .opening start :: since
    ∧ Vocabulary.isResponse start = true
    ∧ (d.given before).isCapturing = false
    ∧ (∀ read, read <+: since → (d.given (before ++ .opening start :: read)).isCapturing = true)
    ∧ 1 ≤ depth
    ∧ depth + since.countP Event.isClosing = 1 + since.countP Event.isOpening

theorem copiesSince_opening {events : List Event} (hresponse : Vocabulary.isResponse start = true)
    (hbefore : (d.given events).depth? = none)
    (hafter : (d.given (events ++ [.opening start])).depth? = some 1) :
    d.CopiesSince (events ++ [.opening start]) 1 := by
  refine ⟨events, start, [], rfl, hresponse, ?_, ?_, Nat.le_refl 1, rfl⟩
  · simpa [isCapturing, depth?] using hbefore
  · intro read hread
    rw [List.prefix_nil.mp hread]
    exact isCapturing_of_depth? hafter

theorem CopiesSince.concat {events : List Event} {next : Nat} (h : d.CopiesSince events depth)
    (hnext : (d.given (events ++ [event])).depth? = some next) (hpositive : 1 ≤ next)
    (hcount : next + [event].countP Event.isClosing = depth + [event].countP Event.isOpening) :
    d.CopiesSince (events ++ [event]) next := by
  obtain ⟨before, start, since, rfl, hresponse, hbefore, hsince, -, hdepth⟩ := h
  refine ⟨before, start, since ++ [event], by simp, hresponse, hbefore, ?_, hpositive, ?_⟩
  · intro read hread
    cases List.prefix_concat_iff.mp hread with
    | inl hall =>
      rw [hall]
      simpa using isCapturing_of_depth? hnext
    | inr hpart => exact hsince read hpart
  · rw [List.countP_append, List.countP_append]
    omega

theorem copiesSince_given (d : Definition) (h : d.depth? = none) (events : List Event) (depth : Nat)
    (hdepth : (d.given events).depth? = some depth) : d.CopiesSince events depth := by
  induction events using List.reverseRecOn generalizing depth with
  | nil =>
    have hnone : (d.given []).depth? = none := h
    rw [hnone] at hdepth
    cases hdepth
  | append_singleton events event ih =>
    have hnext := hdepth
    rw [given_concat] at hdepth
    cases event with
    | opening start =>
      cases hbefore : (d.given events).depth? with
      | none =>
        obtain ⟨hresponse, rfl⟩ := depth?_opening_of_none hbefore hdepth
        exact copiesSince_opening hresponse hbefore hnext
      | some before =>
        rw [depth?_opening hbefore] at hdepth
        obtain rfl := Option.some.inj hdepth
        exact (ih before hbefore).concat hnext (by omega) rfl
    | text content =>
      rw [depth?_text] at hdepth
      have hcopies := ih depth hdepth
      have hpositive : 1 ≤ depth := by
        obtain ⟨_, _, _, _, _, _, _, hpositive, _⟩ := hcopies
        exact hpositive
      exact hcopies.concat hnext hpositive rfl
    | closing name =>
      rw [depth?_closing] at hdepth
      obtain ⟨before, hbefore, rfl⟩ := Option.map_eq_some_iff.mp hdepth
      obtain ⟨hbefore, hdeep⟩ := Option.filter_eq_some_iff.mp hbefore
      have hdeep : 1 < before := by simpa using hdeep
      apply (ih before hbefore).concat hnext (by omega)
      simp [Event.isClosing, Event.isOpening]
      omega

/-! ### Whole runs -/

theorem coherent_given (h : d.Coherent) (events : List Event) : (d.given events).Coherent := by
  induction events using List.reverseRecOn with
  | nil => exact h
  | append_singleton events event ih =>
    rw [given_concat]
    exact ih.apply event

theorem given_invariant (source : Option String) (events : List Event) :
    (({ source } : Definition).given events).Coherent
      ∧ (∀ capture, (({ source } : Definition).given events).capture = some capture →
        ({ source } : Definition).CopiesSince events capture.depth)
      ∧ ∀ event, Step.Grows (({ source } : Definition).given events).steps
          (({ source } : Definition).given (events ++ [event])).steps := by
  have hcoherent := coherent_given (d := { source }) (coherent_of_none rfl) events
  refine ⟨hcoherent, ?_, ?_⟩
  · intro capture hcapture
    apply copiesSince_given _ rfl
    simp [depth?, hcapture]
  · intro event
    rw [given_concat]
    exact hcoherent.grows_apply event

end Definition
end XmlPipeline
