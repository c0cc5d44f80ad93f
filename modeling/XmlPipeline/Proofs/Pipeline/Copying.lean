import XmlPipeline.Proofs.Pipeline.Refusal

/-!
This module contains what a response does to the definition that it stands in. The main statement is that
nothing but the body of one step depends on what is inside of it.
-/

namespace XmlPipeline

open Xml
open Xml.Event (Within Balanced level)

namespace Definition

variable {d d' d'' : Definition} {start : ElementStart} {event : Event} {events inner : List Event}

/-! ### The copy of a response -/

theorem given_of_handleAll (h : d.handleAll events = .ok d') : d.given events = d' := by
  induction events generalizing d with
  | nil => exact Except.ok.inj h
  | cons event events ih =>
    obtain ⟨next, happly, hrest⟩ := exists_of_handleAll h
    rw [← ih hrest]
    show ((d.handle event).2).given events = _
    rw [handle_of_apply happly]

theorem handleAll_concat (h : d.handleAll events = .ok d') (happly : d'.apply event = (.ok (), d'')) :
    d.handleAll (events ++ [event]) = .ok d'' := by
  rw [handleAll_append, h]
  simp only [Except.bind, handleAll]
  rw [handle_of_apply happly]

def root (d : Definition) (start : ElementStart) : ElementStart :=
  { start with namespaces := (d.enter start.namespaces).inScope }

def copied (d : Definition) (start : ElementStart) (inner : List Event) (name : QName) : ResponseStep where
  body := ({ events := .opening (d.root start) :: (inner ++ [.closing name]) } : Document).toXml false

theorem apply_opening_response (hcapture : d.capture = none)
    (hresponse : Vocabulary.isResponse start = true) :
    d.apply (.opening start)
      = (.ok (), (d.enter start.namespaces).copying [.opening (d.root start)] 1) := by
  have hin := not_isIn_of_isResponse hresponse
  unfold Vocabulary.isResponse at hresponse
  simp only [apply, hcapture, openElement, hin, hresponse]
  rfl

theorem handleAll_inner (hcapture : d.capture = none)
    (hresponse : Vocabulary.isResponse start = true) (h : Within inner) :
    ∃ text scopes, d.handleAll (.opening start :: inner)
      = .ok ({ d with text, scopes }.copying (.opening (d.root start) :: inner) (level inner + 1)) := by
  induction inner using List.reverseRecOn with
  | nil =>
    refine ⟨d.text, start.namespaces :: d.scopes, ?_⟩
    simp only [handleAll]
    rw [handle_of_apply (apply_opening_response hcapture hresponse)]
    rfl
  | append_singleton inner event ih =>
    have hinner := h.of_prefix (List.prefix_append inner [event])
    obtain ⟨text, scopes, hread⟩ := ih hinner
    rw [← List.cons_append]
    cases event with
    | opening other =>
      refine ⟨text, other.namespaces :: scopes, handleAll_concat hread ?_⟩
      rw [Event.level_opening hinner]
      rfl
    | text content =>
      refine ⟨text ++ content, scopes, handleAll_concat hread ?_⟩
      rw [Event.level_text]
      rfl
    | closing name =>
      -- This is not the closing of the response, as there is an element to close inside of it.
      refine ⟨"", scopes.tail, handleAll_concat hread ?_⟩
      rw [Event.level_closing h]
      rfl

theorem scopes_of_handleAll (h : d.handleAll (.opening start :: inner) = .ok d') (hinner : Balanced inner) :
    d'.scopes = start.namespaces :: d.scopes := by
  obtain ⟨next, happly, hread⟩ := exists_of_handleAll h
  have hnext := scopes_opening d start
  have hscopes := scopes_given_balanced next hinner
  rw [happly] at hnext
  rw [given_of_handleAll hread] at hscopes
  exact hscopes.trans hnext

theorem handleAll_response (hcapture : d.capture = none)
    (hresponse : Vocabulary.isResponse start = true) (h : Balanced inner) (name : QName) :
    d.handleAll (.opening start :: (inner ++ [.closing name]))
      = .ok { d.addStep (.respond (d.copied start inner name)) with text := "" } := by
  obtain ⟨text, scopes, hread⟩ := handleAll_inner hcapture hresponse h.within
  obtain rfl : scopes = start.namespaces :: d.scopes := scopes_of_handleAll hread h
  rw [← List.cons_append]
  apply handleAll_concat hread
  rw [h.level_eq]
  simp [apply, closeElement, copying, closeResponse, addStep, copied, hcapture]

/-! ### What comes behind a response -/

/--
The definition with more steps before its own ones, a response being the last of them.
-/
def behind (d : Definition) (steps : List Step) (response : ResponseStep) : Definition :=
  { d with steps := steps ++ .respond response :: d.steps }

section

variable (steps : List Step) (response : ResponseStep)

theorem addStep_behind (d : Definition) (step : Step) :
    (d.behind steps response).addStep step = (d.addStep step).behind steps response := by
  simp [addStep, behind]

theorem getLast?_behind (d : Definition) :
    (d.behind steps response).steps.getLast? = some (d.steps.getLast?.getD (.respond response)) := by
  simp only [behind, List.getLast?_append, List.getLast?_cons]
  rfl

theorem dropLast_behind {step : Step} (h : d.steps.getLast? = some step) :
    (d.behind steps response).steps.dropLast = steps ++ .respond response :: d.steps.dropLast := by
  obtain ⟨before, hsteps⟩ := List.getLast?_eq_some_iff.mp h
  have hsplit : (d.behind steps response).steps = (steps ++ .respond response :: before) ++ [step] := by
    simp [behind, hsteps]
  rw [hsplit, hsteps, List.dropLast_concat, List.dropLast_concat]

theorem stepName_behind (d : Definition) (start : ElementStart) (kind : String)
    (other : ResponseStep) :
    (d.behind steps response).stepName start kind = (d.behind steps other).stepName start kind := by
  simp [stepName, behind]

end

theorem openPipeline_behind (d : Definition) (steps : List Step) (response : ResponseStep)
    (start : ElementStart) :
    (d.behind steps response).openPipeline start
      = (d.openPipeline start).map (·.behind steps response) := by
  unfold openPipeline
  cases directive start <;> rfl

theorem openTransformer_behind (d : Definition) (steps : List Step) (start : ElementStart) :
    ∃ opened : Except Error Definition, ∀ response,
      (d.behind steps response).openTransformer start = opened.map (·.behind steps response) := by
  let name := (d.behind steps { body := "" }).stepName start "transformer"
  let logged := Attribute.flag (start.attribute? "log")
  let path := Attribute.require (start.attribute? "xsl-path") "transformer" "xsl-path"
  refine ⟨path.map fun templatePath => d.addStep (.transform { name, templatePath, logged }), ?_⟩
  intro response
  have hname : (d.behind steps response).stepName start "transformer" = name :=
    stepName_behind steps response d start _ _
  unfold openTransformer
  rw [hname]
  cases hpath : path with
  | error error => simp [path, hpath, bind, Except.bind, Except.map]
  | ok templatePath =>
    simp [path, hpath, bind, Except.bind, pure, Except.pure, Except.map, addStep_behind, logged]

theorem openParameter_behind (d : Definition) (steps : List Step) (start : ElementStart) :
    ∃ opened : Except Error Definition, ∀ response,
      (d.behind steps response).openParameter start = opened.map (·.behind steps response) := by
  cases hlast : d.steps.getLast? with
  | none =>
    -- The last step is the response, which has no parameters.
    refine ⟨.error (.unexpectedElement "parameter"), ?_⟩
    intro response
    unfold openParameter
    rw [getLast?_behind, hlast]
    rfl
  | some step =>
    refine ⟨d.openParameter start, ?_⟩
    intro response
    have hdrop := dropLast_behind steps response hlast
    unfold openParameter
    rw [getLast?_behind, hlast]
    cases step with
    | transform step =>
      simp only [Option.getD_some, hdrop]
      cases Attribute.require (start.attribute? "name") "parameter" "name" with
      | error error => rfl
      | ok name => simp [bind, Except.bind, pure, Except.pure, Except.map, behind]
    | _ => rfl

theorem openValue_behind (d : Definition) (steps : List Step) (response : ResponseStep) :
    (d.behind steps response).openValue = d.openValue.map (·.behind steps response) := by
  have hparameter : (d.behind steps response).parameter = d.parameter := rfl
  unfold openValue
  rw [hparameter]
  split <;> rfl

theorem openJsonSerializer_behind (d : Definition) (steps : List Step) (start : ElementStart) :
    ∃ opened : Definition, ∀ response,
      (d.behind steps response).openJsonSerializer start = opened.behind steps response := by
  let name := (d.behind steps { body := "" }).stepName start "json-serializer"
  let logged := Attribute.flag (start.attribute? "log")
  refine ⟨d.addStep (.serialize .json { name, logged, options := .ofList (serializerOptions start) }), ?_⟩
  intro response
  have hname : (d.behind steps response).stepName start "json-serializer" = name :=
    stepName_behind steps response d start _ _
  unfold openJsonSerializer
  rw [hname, addStep_behind]

theorem openElement_behind (d : Definition) (steps : List Step) (start : ElementStart) :
    ∃ opened : Except Error Definition, ∀ response,
      (d.behind steps response).openElement start = opened.map (·.behind steps response) := by
  by_cases hin : start.name.isIn pipelineNamespace = true
  · by_cases hlocal : start.name.localName ∈ Vocabulary.localNames
    · simp only [Vocabulary.localNames, List.mem_cons, List.not_mem_nil, or_false] at hlocal
      rcases hlocal with hlocal | hlocal | hlocal | hlocal | hlocal
      all_goals simp only [openElement, hin, hlocal, ↓reduceIte]
      · exact ⟨_, fun response => openPipeline_behind d steps response start⟩
      · exact openTransformer_behind d steps start
      · exact openParameter_behind d steps start
      · exact ⟨_, fun response => openValue_behind d steps response⟩
      · obtain ⟨opened, hopened⟩ := openJsonSerializer_behind d steps start
        exact ⟨.ok opened, fun response => congrArg Except.ok (hopened response)⟩
    · refine ⟨.error (.unsupportedElement start.name.localName), ?_⟩
      intro response
      simp only [Vocabulary.localNames, List.mem_cons, List.not_mem_nil, or_false, not_or] at hlocal
      simp [openElement, hin, hlocal]
      rfl
  · by_cases hresponse : start.name.is responseNamespace "response" = true
    · refine ⟨.ok (d.openResponse start), ?_⟩
      intro response
      simp only [openElement, hin, hresponse, ↓reduceIte]
      rfl
    · refine ⟨.ok d, ?_⟩
      intro response
      simp only [openElement, hin, hresponse]
      rfl

theorem addValue_behind (d : Definition) (steps : List Step) (response : ResponseStep)
    (value : String) :
    (d.behind steps response).addValue value = (d.addValue value).behind steps response := by
  have hparameter : (d.behind steps response).parameter = d.parameter := rfl
  unfold addValue
  rw [getLast?_behind, hparameter]
  cases d.parameter with
  | none => rfl
  | some index =>
    cases hlast : d.steps.getLast? with
    | none => rfl
    | some step =>
      cases step with
      | transform step =>
        have hdrop := dropLast_behind steps response hlast
        simp only [Option.getD_some, hdrop]
        simp [behind]
      | _ => rfl

theorem closeElement_behind (d : Definition) (steps : List Step) (response : ResponseStep)
    (name : QName) :
    (d.behind steps response).closeElement name = (d.closeElement name).behind steps response := by
  have hcapture : (d.behind steps response).capture = d.capture := rfl
  unfold closeElement
  rw [hcapture]
  cases d.capture with
  | some capture =>
    simp only
    split
    · rfl
    · simp only [closeResponse, addStep_behind]
      rfl
  | none =>
    simp only
    split
    · split
      · exact addValue_behind d steps response d.text
      · rfl
      · rfl
    · rfl

theorem apply_opening (hcapture : d.capture = none) (start : ElementStart) :
    d.apply (.opening start)
      = match (d.enter start.namespaces).openElement start with
        | .ok opened => (.ok (), opened)
        | .error error => (.error error, d.enter start.namespaces) := by
  cases hopen : (d.enter start.namespaces).openElement start with
  | ok opened =>
    simp only [enter, hcapture] at hopen
    simp only [apply, hcapture, hopen]
  | error error =>
    simp only [enter, hcapture] at hopen
    simp only [apply, enter, hcapture, hopen]

theorem apply_behind (d : Definition) (steps : List Step) (event : Event) :
    ∃ (result : Except Error Unit) (next : Definition), ∀ response,
      (d.behind steps response).apply event = (result, next.behind steps response) := by
  cases event with
  | opening start =>
    cases hcapture : d.capture with
    | some capture =>
      refine ⟨.ok (), (d.apply (.opening start)).2, ?_⟩
      intro response
      have hbehind : (d.behind steps response).capture = some capture := hcapture
      simp only [apply, hcapture, hbehind]
      rfl
    | none =>
      obtain ⟨opened, hopened⟩ := openElement_behind (d.enter start.namespaces) steps start
      have happly : ∀ response, (d.behind steps response).apply (.opening start)
          = match opened.map (·.behind steps response) with
            | .ok opened => (.ok (), opened)
            | .error error => (.error error, (d.enter start.namespaces).behind steps response) := by
        intro response
        have hbehind : (d.behind steps response).capture = none := hcapture
        rw [apply_opening hbehind, ← hopened response]
        rfl
      cases opened with
      | ok opened => exact ⟨.ok (), opened, happly⟩
      | error error => exact ⟨.error error, d.enter start.namespaces, happly⟩
  | text content =>
    refine ⟨.ok (), (d.apply (.text content)).2, ?_⟩
    intro response
    rfl
  | closing name =>
    refine ⟨.ok (), (d.apply (.closing name)).2, ?_⟩
    intro response
    simp only [apply, closeElement_behind]
    rfl

theorem handleAll_behind (d : Definition) (steps : List Step) (events : List Event) :
    ∃ outcome : Except Error Definition, ∀ response,
      (d.behind steps response).handleAll events = outcome.map (·.behind steps response) := by
  induction events generalizing d with
  | nil => exact ⟨.ok d, fun _ => rfl⟩
  | cons event events ih =>
    obtain ⟨result, next, happly⟩ := apply_behind d steps event
    cases result with
    | error error =>
      refine ⟨.error (.invalidDefinition d.source error), ?_⟩
      intro response
      simp only [handleAll, handle, happly]
      rfl
    | ok =>
      obtain ⟨outcome, hrest⟩ := ih next
      refine ⟨outcome, ?_⟩
      intro response
      simp only [handleAll, handle, happly, hrest]

end Definition

namespace Pipeline

def behind (pipeline : Pipeline) (steps : List Step) (response : ResponseStep) : Pipeline :=
  { pipeline with steps := steps ++ .respond response :: pipeline.steps }

end Pipeline

namespace Definition

variable {d : Definition} {start : ElementStart} {before after : List Event}

theorem finish_behind (d : Definition) (steps : List Step) (response : ResponseStep) :
    (d.behind steps response).finish = d.finish.map (·.behind steps response) := by
  have hcapture : (d.behind steps response).isCapturing = d.isCapturing := rfl
  unfold finish
  rw [hcapture]
  split <;> rfl

theorem exists_outcome (hcapture : d.capture = none) (hresponse : Vocabulary.isResponse start = true)
    {source : Option String} (hbefore : ({ source } : Definition).given before = d) (after : List Event) :
    ∃ outcome : Except Error Pipeline, ∀ inner name, Balanced inner →
      (({ source } : Definition).handleAll
          (before ++ .opening start :: (inner ++ .closing name :: after))).bind finish
        = outcome.map (·.behind d.steps (d.copied start inner name)) := by
  cases hread : ({ source } : Definition).handleAll before with
  | error error =>
    refine ⟨.error error, ?_⟩
    intro inner name _
    rw [handleAll_append, hread]
    rfl
  | ok read =>
    obtain rfl : read = d := (given_of_handleAll hread).symm.trans hbefore
    obtain ⟨outcome, hafter⟩ :=
      handleAll_behind { read with steps := [], parameter := none, text := "" } read.steps after
    refine ⟨outcome.bind finish, ?_⟩
    intro inner name hinner
    have hcopied : { read.addStep (.respond (read.copied start inner name)) with text := "" }
        = { read with steps := [], parameter := none, text := "" }.behind read.steps
            (read.copied start inner name) := rfl
    have hsplit : Event.opening start :: (inner ++ .closing name :: after)
        = .opening start :: (inner ++ [.closing name]) ++ after := by simp
    rw [handleAll_append, hread, hsplit]
    simp only [Except.bind]
    rw [handleAll_append, handleAll_response hcapture hresponse hinner, hcopied]
    simp only [Except.bind, hafter]
    cases outcome with
    | error error => rfl
    | ok last => exact finish_behind last read.steps _

end Definition

namespace Pipeline

theorem read_of_events {text : String} {events : List Event} (source : Option String)
    (h : (Reader.ofText text).events = (events, none)) :
    read source text = (({ source } : Definition).handleAll events).bind Definition.finish := by
  unfold read
  rw [h]
  rfl

theorem response_isolated {d : Definition} {start : ElementStart} (hcapture : d.isCapturing = false)
    (hresponse : Vocabulary.isResponse start = true) :
    (∀ inner name, Balanced inner →
        (∀ read, read <+: inner →
          ∃ d', d.handleAll (.opening start :: read) = .ok d' ∧ d'.isCapturing = true)
        ∧ d.handleAll (.opening start :: (inner ++ [.closing name]))
          = .ok { d with
              steps := d.steps ++ [.respond (d.copied start inner name)], parameter := none, text := "" })
      ∧ ∀ source before after, ({ source } : Definition).given before = d →
          ∃ outcome : Except Error Pipeline, ∀ inner name, Balanced inner →
            (∀ text, (Reader.ofText text).events
                = (before ++ .opening start :: (inner ++ .closing name :: after), none) →
              read source text = outcome.map (·.behind d.steps (d.copied start inner name)))
            ∧ (source = none →
              ofEvents ((before ++ .opening start :: (inner ++ .closing name :: after)).map .ok)
                = outcome.map (·.behind d.steps (d.copied start inner name))) := by
  have hcapture : d.capture = none := by simpa [Definition.isCapturing] using hcapture
  constructor
  · intro inner name hinner
    refine ⟨?_, Definition.handleAll_response hcapture hresponse hinner name⟩
    intro read hread
    obtain ⟨text, scopes, hcopied⟩ :=
      Definition.handleAll_inner hcapture hresponse (hinner.within.of_prefix hread)
    exact ⟨_, hcopied, rfl⟩
  · intro source before after hbefore
    obtain ⟨outcome, houtcome⟩ := Definition.exists_outcome hcapture hresponse hbefore after
    refine ⟨outcome, ?_⟩
    intro inner name hinner
    constructor
    · intro text htext
      rw [read_of_events source htext, houtcome inner name hinner]
    · rintro rfl
      unfold ofEvents
      rw [Definition.ofEvents_go, houtcome inner name hinner]

def responseStart : ElementStart where
  name := { localName := "response", uri := responseNamespace }

def unruly : List Event :=
  [.opening (sampleStart "value" []), .closing { localName := "other" },
    .opening responseStart, .opening (sampleStart "json-serializer" []), .text "x",
    .closing responseStart.name, .closing (sampleStart "parameter" []).name]

def inParameter : List Event :=
  [.opening (sampleStart "transformer" [("xsl-path", "a.xsl")]),
    .opening (sampleStart "parameter" [("name", "p")]), .text "y"]

theorem response_isolated_unruly :
    let d := ({} : Definition).given inParameter
    let around (inner : List Event) : List Event :=
      inParameter ++ .opening responseStart :: (inner ++ .closing responseStart.name
        :: [.opening (sampleStart "json-serializer" [])])
    d.isCapturing = false ∧ Vocabulary.isResponse responseStart = true ∧ Balanced unruly
      ∧ d.parameter = some 0 ∧ d.text = "y"
      ∧ d.handleAll (.opening responseStart :: (unruly ++ [.closing responseStart.name]))
        = .ok { d with
            steps := d.steps ++ [.respond (d.copied responseStart unruly responseStart.name)]
            parameter := none
            text := "" }
      ∧ ∃ outcome : Except Error Pipeline, ∀ inner, Balanced inner →
        ofEvents ((around inner).map .ok)
          = outcome.map (·.behind d.steps (d.copied responseStart inner responseStart.name)) := by
  intro d around
  have hcapture : d.isCapturing = false := by decide +kernel
  have hresponse : Vocabulary.isResponse responseStart = true := by decide
  have hbalanced : Balanced unruly := by decide
  obtain ⟨hcopied, houtcome⟩ := response_isolated hcapture hresponse
  obtain ⟨outcome, houtcome⟩ := houtcome none inParameter _ rfl
  refine ⟨hcapture, hresponse, hbalanced, by decide +kernel, by decide +kernel,
    (hcopied unruly _ hbalanced).2, outcome, ?_⟩
  intro inner hinner
  exact (houtcome inner responseStart.name hinner).2 rfl

end Pipeline
end XmlPipeline
