import XmlPipeline.Proofs.Pipeline.Reading
import XmlPipeline.Proofs.Xml.ReadTag

/-!
This module contains the elements that may open at a place of a definition, the faults of those that may
not, and what an opening does to a definition.
-/

namespace XmlPipeline

open Xml

namespace Vocabulary

/-! ### What may open where -/

/--
What counts of the elements before a place: whether the last step there is a transform, and whether a
parameter is open.
-/
structure Place where
  afterTransform : Bool
  inParameter : Bool

def localNames : List String :=
  ["pipeline", "transformer", "parameter", "value", "json-serializer"]

structure Permitted (place : Place) (start : ElementStart) : Prop where
  known : start.name.isIn pipelineNamespace = true → start.name.localName ∈ localNames
  pipeline : isNamed "pipeline" start = true → start.attribute? "cache" = some "true" →
    Timed start "cache-time-to-live" ∧ Timed start "cache-time-to-idle"
  transformer : isNamed "transformer" start = true → Filled start "xsl-path"
  parameter : isNamed "parameter" start = true →
    place.afterTransform = true ∧ Filled start "name"
  value : isNamed "value" start = true → place.inParameter = true

def Mistimed (start : ElementStart) (attr : String) (error : Error) : Prop :=
  ∃ value problem, start.attribute? attr = some value
    ∧ Text.readUnsigned 10 Text.maxUnsigned32 (Text.trimChars value.toList) = .error problem
    ∧ error = .malformed (some attr) (some value)
      ("\"" ++ attr ++ "\" is not a whole number of seconds: " ++ problem.message)

/--
The error that belongs to an element that may not open. Of two faults of one element the first one counts.
-/
inductive Fault (place : Place) (start : ElementStart) : Error → Prop where
  | unknown (hin : start.name.isIn pipelineNamespace = true)
    (hunknown : start.name.localName ∉ localNames) :
    Fault place start (.unsupportedElement start.name.localName)
  | timeToLive {error : Error} (hnamed : isNamed "pipeline" start = true)
    (hcache : start.attribute? "cache" = some "true")
    (herror : Mistimed start "cache-time-to-live" error) : Fault place start error
  | timeToIdle {error : Error} (hnamed : isNamed "pipeline" start = true)
    (hcache : start.attribute? "cache" = some "true") (hlive : Timed start "cache-time-to-live")
    (herror : Mistimed start "cache-time-to-idle" error) : Fault place start error
  | pathless (hnamed : isNamed "transformer" start = true) (hpath : ¬ Filled start "xsl-path") :
    Fault place start (.missingAttribute "transformer" "xsl-path")
  | strayParameter (hnamed : isNamed "parameter" start = true) (hplace : place.afterTransform = false) :
    Fault place start (.unexpectedElement "parameter")
  | nameless (hnamed : isNamed "parameter" start = true) (hplace : place.afterTransform = true)
    (hname : ¬ Filled start "name") : Fault place start (.missingAttribute "parameter" "name")
  | strayValue (hnamed : isNamed "value" start = true) (hplace : place.inParameter = false) :
    Fault place start (.unexpectedElement "value")

variable {place : Place} {start : ElementStart} {attr : String} {error : Error}

theorem Mistimed.not_timed (h : Mistimed start attr error) : ¬ Timed start attr := by
  obtain ⟨value, problem, hattr, hproblem, -⟩ := h
  intro htimed
  obtain ⟨n, hn⟩ := htimed value hattr
  rw [hproblem] at hn
  cases hn

theorem Fault.not_permitted (h : Fault place start error) : ¬ Permitted place start := by
  intro hpermitted
  cases h with
  | unknown hin hunknown => exact hunknown (hpermitted.known hin)
  | timeToLive hnamed hcache herror => exact herror.not_timed (hpermitted.pipeline hnamed hcache).1
  | timeToIdle hnamed hcache _ herror => exact herror.not_timed (hpermitted.pipeline hnamed hcache).2
  | pathless hnamed hpath => exact hpath (hpermitted.transformer hnamed)
  | strayParameter hnamed hplace => simp [(hpermitted.parameter hnamed).1] at hplace
  | nameless hnamed _ hname => exact hname (hpermitted.parameter hnamed).2
  | strayValue hnamed hplace => simp [hpermitted.value hnamed] at hplace

theorem permitted_of_not_isIn (h : start.name.isIn pipelineNamespace = false) :
    Permitted place start := by
  have hnamed : ∀ localName, isNamed localName start = true → False := by
    intro localName hnamed
    simp [Definition.isNamed_iff, h] at hnamed
  exact {
    known := fun hin => by simp [h] at hin
    pipeline := fun h => (hnamed _ h).elim
    transformer := fun h => (hnamed _ h).elim
    parameter := fun h => (hnamed _ h).elim
    value := fun h => (hnamed _ h).elim }

theorem permitted_of_isNamed {localName : String} (h : isNamed localName start = true)
    (hknown : localName ∈ localNames)
    (hpipeline : localName = "pipeline" → start.attribute? "cache" = some "true" →
      Timed start "cache-time-to-live" ∧ Timed start "cache-time-to-idle")
    (htransformer : localName = "transformer" → Filled start "xsl-path")
    (hparameter : localName = "parameter" → place.afterTransform = true ∧ Filled start "name")
    (hvalue : localName = "value" → place.inParameter = true) : Permitted place start := by
  have hsame : ∀ other, isNamed other start = true → localName = other := by
    intro other hother
    simpa [Definition.isNamed_eq h] using hother
  exact {
    known := fun _ => (Definition.isNamed_iff.mp h).2 ▸ hknown
    pipeline := fun hnamed => hpipeline (hsame _ hnamed)
    transformer := fun hnamed => htransformer (hsame _ hnamed)
    parameter := fun hnamed => hparameter (hsame _ hnamed)
    value := fun hnamed => hvalue (hsame _ hnamed) }

end Vocabulary

/-! ### What is read from the attributes -/

namespace Attribute

variable {start : ElementStart} {attr : String}

theorem require_cases (start : ElementStart) (element attr : String) :
    (∃ value, start.attribute? attr = some value
        ∧ require (start.attribute? attr) element attr = .ok value ∧ Vocabulary.Filled start attr)
      ∨ require (start.attribute? attr) element attr = .error (.missingAttribute element attr)
        ∧ ¬ Vocabulary.Filled start attr := by
  unfold require Vocabulary.Filled
  cases hattr : start.attribute? attr with
  | none => simp
  | some value => cases hblank : Text.isBlankText value <;> simp [hblank]

theorem seconds_cases (start : ElementStart) (attr : String) (default : Nat) :
    (∃ n, seconds (start.attribute? attr) attr default = .ok n ∧ Vocabulary.Timed start attr)
      ∨ ∃ error, seconds (start.attribute? attr) attr default = .error error
        ∧ Vocabulary.Mistimed start attr error := by
  unfold seconds Vocabulary.Timed Vocabulary.Mistimed
  cases hattr : start.attribute? attr with
  | none => simp
  | some value =>
    cases hread : Text.readUnsigned 10 Text.maxUnsigned32 (Text.trimChars value.toList) with
    | ok n => simp [hread]
    | error problem => simp [hread]

end Attribute

namespace Definition

open Vocabulary

variable {d d' : Definition} {start : ElementStart}

theorem directive_cases (start : ElementStart) :
    (∃ cache, directive start = .ok cache ∧ (start.attribute? "cache" = some "true" →
        Timed start "cache-time-to-live" ∧ Timed start "cache-time-to-idle"))
      ∨ ∃ error, directive start = .error error ∧ start.attribute? "cache" = some "true"
        ∧ (Mistimed start "cache-time-to-live" error
          ∨ Timed start "cache-time-to-live" ∧ Mistimed start "cache-time-to-idle" error) := by
  unfold directive Attribute.flag
  by_cases hcache : start.attribute? "cache" = some "true"
  · rcases Attribute.seconds_cases start "cache-time-to-live" 60 with
      ⟨live, hlive, htimed⟩ | ⟨error, hlive, hmistimed⟩
    · rcases Attribute.seconds_cases start "cache-time-to-idle" 60 with
        ⟨idle, hidle, htimed'⟩ | ⟨error, hidle, hmistimed⟩
      · simp [hcache, hlive, hidle, htimed, htimed', bind, Except.bind, pure, Except.pure]
      · simp [hcache, hlive, hidle, htimed, hmistimed, bind, Except.bind]
    · simp [hcache, hlive, hmistimed, bind, Except.bind]
  · simp [hcache, pure, Except.pure]

/-! ### What an opening does -/

def place (d : Definition) : Place where
  afterTransform := (d.steps.getLast?.bind Step.transform?).isSome
  inParameter := d.parameter.isSome

inductive Opens (d : Definition) (start : ElementStart) : Definition → Prop where
  | pipeline (hnamed : isNamed "pipeline" start = true) (cache : CacheDirective) :
    Opens d start { d with cache }
  | transformer (hnamed : isNamed "transformer" start = true) (step : TransformStep)
    (hparameters : step.parameters = []) : Opens d start (d.addStep (.transform step))
  | parameter (hnamed : isNamed "parameter" start = true) (before : List Step) (step : TransformStep)
    (hsteps : d.steps = before ++ [.transform step]) :
    Opens d start (d.inParameter before step step.parameters {
      name := (start.attribute? "name").getD ""
      uri := start.attribute? "uri"
      type := (start.attribute? "type").getD defaultParameterType })
  | value (hnamed : isNamed "value" start = true) (hparameter : d.parameter.isSome = true) :
    Opens d start { d with text := "" }
  | serializer (hnamed : isNamed "json-serializer" start = true) (step : SerializerStep) :
    Opens d start (d.addStep (.serialize .json step))
  | response (hresponse : isResponse start = true) : Opens d start (d.openResponse start)
  | foreign (hforeign : isForeign start = true) : Opens d start d

theorem openPipeline_cases (d : Definition) (h : isNamed "pipeline" start = true) :
    (∃ d', d.openPipeline start = .ok d' ∧ Opens d start d' ∧ Permitted d.place start)
      ∨ ∃ error, d.openPipeline start = .error error ∧ Fault d.place start error := by
  unfold openPipeline
  rcases directive_cases start with ⟨cache, hcache, htimed⟩ | ⟨error, herror, hcache, hfault⟩
  · rw [hcache]
    refine .inl ⟨_, rfl, .pipeline h cache, ?_⟩
    exact permitted_of_isNamed h (by decide) (fun _ => htimed) (by simp) (by simp) (by simp)
  · rw [herror]
    refine .inr ⟨error, rfl, ?_⟩
    rcases hfault with hlive | ⟨hlive, hidle⟩
    · exact .timeToLive h hcache hlive
    · exact .timeToIdle h hcache hlive hidle

theorem openTransformer_cases (d : Definition) (h : isNamed "transformer" start = true) :
    (∃ d', d.openTransformer start = .ok d' ∧ Opens d start d' ∧ Permitted d.place start)
      ∨ ∃ error, d.openTransformer start = .error error ∧ Fault d.place start error := by
  unfold openTransformer
  rcases Attribute.require_cases start "transformer" "xsl-path" with
    ⟨path, -, hpath, hfilled⟩ | ⟨herror, hfilled⟩
  · rw [hpath]
    refine .inl ⟨_, rfl, .transformer h _ rfl, ?_⟩
    exact permitted_of_isNamed h (by decide) (by simp) (fun _ => hfilled) (by simp) (by simp)
  · rw [herror]
    exact .inr ⟨_, rfl, .pathless h hfilled⟩

theorem openParameter_cases (d : Definition) (h : isNamed "parameter" start = true) :
    (∃ d', d.openParameter start = .ok d' ∧ Opens d start d' ∧ Permitted d.place start)
      ∨ ∃ error, d.openParameter start = .error error ∧ Fault d.place start error := by
  unfold openParameter
  split
  · next step hlast =>
    have hplace : d.place.afterTransform = true := by simp [place, hlast, Step.transform?]
    rcases Attribute.require_cases start "parameter" "name" with
      ⟨name, hattr, hname, hfilled⟩ | ⟨herror, hfilled⟩
    · obtain ⟨before, hsteps⟩ := List.getLast?_eq_some_iff.mp hlast
      have hopens := Opens.parameter h before step hsteps
      rw [hname]
      refine .inl ⟨_, rfl, ?_, ?_⟩
      · simpa [inParameter, hsteps, hattr] using hopens
      · exact permitted_of_isNamed h (by decide) (by simp) (by simp) (fun _ => ⟨hplace, hfilled⟩) (by simp)
    · rw [herror]
      exact .inr ⟨_, rfl, .nameless h hplace hfilled⟩
  · next hother =>
    refine .inr ⟨_, rfl, .strayParameter h ?_⟩
    cases hlast : d.steps.getLast? with
    | none => simp [place, hlast]
    | some step =>
      cases step with
      | transform step => exact absurd hlast (hother step)
      | validate => simp [place, hlast, Step.transform?]
      | serialize => simp [place, hlast, Step.transform?]
      | respond => simp [place, hlast, Step.transform?]

theorem openValue_cases (d : Definition) (h : isNamed "value" start = true) :
    (∃ d', d.openValue = .ok d' ∧ Opens d start d' ∧ Permitted d.place start)
      ∨ ∃ error, d.openValue = .error error ∧ Fault d.place start error := by
  unfold openValue
  split
  · next hnone =>
    refine .inr ⟨_, rfl, .strayValue h ?_⟩
    simpa [place] using hnone
  · next hsome =>
    have hparameter : d.parameter.isSome = true := by
      simpa [Option.isSome_iff_ne_none] using hsome
    refine .inl ⟨_, rfl, .value h hparameter, ?_⟩
    exact permitted_of_isNamed h (by decide) (by simp) (by simp) (by simp) (fun _ => hparameter)

theorem openElement_cases (d : Definition) (start : ElementStart) :
    (∃ d', d.openElement start = .ok d' ∧ Opens d start d' ∧ Permitted d.place start)
      ∨ ∃ error, d.openElement start = .error error ∧ Fault d.place start error := by
  unfold openElement
  split
  · next hin =>
    have hnamed : ∀ {localName}, start.name.localName = localName → isNamed localName start = true :=
      fun hlocal => isNamed_iff.mpr ⟨hin, hlocal⟩
    split
    · next hlocal => exact openPipeline_cases d (hnamed hlocal)
    · next hlocal => exact openTransformer_cases d (hnamed hlocal)
    · next hlocal => exact openParameter_cases d (hnamed hlocal)
    · next hlocal => exact openValue_cases d (hnamed hlocal)
    · next hlocal =>
      refine .inl ⟨_, rfl, .serializer (hnamed hlocal) _, ?_⟩
      exact permitted_of_isNamed (hnamed hlocal) (by decide) (by simp) (by simp) (by simp) (by simp)
    · next hpipeline htransformer hparameter hvalue hserializer =>
      refine .inr ⟨_, rfl, .unknown hin ?_⟩
      simp only [localNames, List.mem_cons, List.not_mem_nil, or_false]
      rintro (h | h | h | h | h)
      · exact hpipeline h
      · exact htransformer h
      · exact hparameter h
      · exact hvalue h
      · exact hserializer h
  · next hin =>
    have hin : start.name.isIn pipelineNamespace = false := by simpa using hin
    split
    · next hresponse => exact .inl ⟨_, rfl, .response hresponse, permitted_of_not_isIn hin⟩
    · next hresponse =>
      refine .inl ⟨_, rfl, .foreign ?_, permitted_of_not_isIn hin⟩
      exact isForeign_iff.mpr ⟨hin, by simpa [isResponse] using hresponse⟩

theorem apply_opening_cases (hcapture : d.capture = none) (start : ElementStart) :
    (∃ d', d.apply (.opening start) = (.ok (), d') ∧ Opens (d.enter start.namespaces) start d'
        ∧ Permitted d.place start)
      ∨ ∃ error, d.apply (.opening start) = (.error error, d.enter start.namespaces)
        ∧ Fault d.place start error := by
  rcases openElement_cases (d.enter start.namespaces) start with
    ⟨opened, hopen, hopens, hpermitted⟩ | ⟨error, hopen, hfault⟩
  · refine .inl ⟨opened, ?_, hopens, hpermitted⟩
    unfold enter at hopen
    simp only [apply, hcapture] at hopen ⊢
    rw [hopen]
  · refine .inr ⟨error, ?_, hfault⟩
    unfold enter at hopen ⊢
    simp only [apply, hcapture] at hopen ⊢
    rw [hopen]

theorem opens_of_apply (hcapture : d.capture = none)
    (h : d.apply (.opening start) = (.ok (), d')) : Opens (d.enter start.namespaces) start d' := by
  rcases apply_opening_cases hcapture start with ⟨other, hother, hopens, -⟩ | ⟨error, herror, -⟩
  · rw [hother] at h
    exact (Prod.mk.inj h).2 ▸ hopens
  · rw [herror] at h
    cases (Prod.mk.inj h).1

theorem Opens.capture (h : d.Opens start d') (hresponse : isResponse start = false) :
    d'.capture = d.capture := by
  cases h with
  | response h => simp [h] at hresponse
  | _ => rfl

end Definition
end XmlPipeline
