import XmlPipeline.Proofs.Pipeline.InForce
import XmlPipeline.Proofs.Pipeline.Vocabulary

/-!
This module contains the course that the reading of a definition takes along the elements of a document.
The main statement is that a document of the vocabulary is read as the steps that its elements denote.
-/

namespace XmlPipeline

open Xml

namespace Definition

variable {d d' d'' : Definition} {first second : List Event}

theorem handleAll_append (d : Definition) (first second : List Event) :
    d.handleAll (first ++ second) = (d.handleAll first).bind (·.handleAll second) := by
  induction first generalizing d with
  | nil => rfl
  | cons event first ih =>
    simp only [List.cons_append, handleAll]
    split
    · apply ih
    · rfl

theorem ofEvents_go (d : Definition) (events : List Event) :
    Pipeline.ofEvents.go d (events.map .ok) = (d.handleAll events).bind finish := by
  induction events generalizing d with
  | nil => rfl
  | cons event events ih =>
    simp only [List.map_cons, Pipeline.ofEvents.go, handleAll]
    split
    · apply ih
    · rfl

theorem handle_of_apply {event : Event} (h : d.apply event = (.ok (), d')) :
    d.handle event = (.ok (), d') := by
  unfold handle
  rw [h]

/--
The events are taken in and lead from one state to another one, whatever character data there is in the
first one. What character data there is in the second one is left open.
-/
def Leads (d : Definition) (events : List Event) (d' : Definition) : Prop :=
  ∀ text, ∃ text', { d with text }.handleAll events = .ok { d' with text := text' }

theorem Leads.nil : Leads d [] d := by
  intro text
  exact ⟨text, rfl⟩

theorem Leads.append (h : Leads d first d') (h' : Leads d' second d'') :
    Leads d (first ++ second) d'' := by
  intro text
  obtain ⟨text', hfirst⟩ := h text
  obtain ⟨text'', hsecond⟩ := h' text'
  refine ⟨text'', ?_⟩
  rw [handleAll_append, hfirst]
  exact hsecond

theorem Leads.of_apply {event : Event}
    (h : ∀ text, ∃ text', { d with text }.apply event = (.ok (), { d' with text := text' })) :
    Leads d [event] d' := by
  intro text
  obtain ⟨text', h⟩ := h text
  refine ⟨text', ?_⟩
  simp only [handleAll]
  rw [handle_of_apply h]

theorem Leads.text (hcapture : d.capture = none) (characters : String) :
    Leads d [.text characters] d := by
  apply Leads.of_apply
  intro text
  refine ⟨text ++ characters, ?_⟩
  simp [apply, hcapture]

def enter (d : Definition) (namespaces : List NamespaceBinding) : Definition :=
  { d with scopes := namespaces :: d.scopes }

theorem Leads.opening {start : ElementStart} (hcapture : d.capture = none)
    (h : ∀ text, ∃ text',
      openElement { d.enter start.namespaces with text } start = .ok { d' with text := text' }) :
    Leads d [.opening start] d' := by
  apply Leads.of_apply
  intro text
  obtain ⟨text', h⟩ := h text
  refine ⟨text', ?_⟩
  cases d
  subst hcapture
  simp only [enter] at h
  simp only [apply, h]

theorem Leads.closing {namespaces : List NamespaceBinding} {name : QName}
    (h : ∀ text, closeElement { d.enter namespaces with text } name
      = { d'.enter namespaces with text }) :
    Leads (d.enter namespaces) [.closing name] d' := by
  apply Leads.of_apply
  intro text
  refine ⟨"", ?_⟩
  simp only [apply, h]
  simp [enter]

theorem Leads.element {start : ElementStart} {inner : Content} {opened read : Definition}
    (hopening : Leads d [.opening start] opened) (hinner : Leads opened inner.events read)
    (hclosing : Leads read [.closing start.name] d') :
    Leads d (Content.element start inner .empty).events d' := by
  have := (hopening.append hinner).append hclosing
  simpa [Content.events] using this

theorem events_element (start : ElementStart) (inner rest : Content) :
    (Content.element start inner rest).events
      = (Content.element start inner .empty).events ++ rest.events := by
  simp [Content.events]

/-! ### Elements without a meaning -/

theorem openElement_foreign {start : ElementStart} (h : Vocabulary.isForeign start = true) :
    d.openElement start = .ok d := by
  simp only [Vocabulary.isForeign, Vocabulary.isResponse, Bool.and_eq_true, Bool.not_eq_true'] at h
  unfold openElement
  rw [h.1, h.2]
  rfl

theorem closeElement_foreign {start : ElementStart} (hcapture : d.capture = none)
    (h : Vocabulary.isForeign start = true) : d.closeElement start.name = d := by
  simp only [Vocabulary.isForeign, Bool.and_eq_true, Bool.not_eq_true'] at h
  unfold closeElement
  rw [hcapture]
  simp [h.1]

theorem Leads.foreignElement {start : ElementStart} {inner : Content} (hcapture : d.capture = none)
    (h : Vocabulary.isForeign start = true)
    (hinner : Leads (d.enter start.namespaces) inner.events (d.enter start.namespaces)) :
    Leads d (Content.element start inner .empty).events d := by
  have hopening : Leads d [.opening start] (d.enter start.namespaces) := by
    apply Leads.opening hcapture
    intro text
    exact ⟨text, openElement_foreign h⟩
  have hclosing : Leads (d.enter start.namespaces) [.closing start.name] d := by
    apply Leads.closing
    intro text
    exact closeElement_foreign hcapture h
  exact Leads.element hopening hinner hclosing

theorem Leads.foreign {content : Content} (hcapture : d.capture = none)
    (h : Vocabulary.Foreign content) : Leads d content.events d := by
  induction content generalizing d with
  | empty => exact Leads.nil
  | text characters rest ih => exact (Leads.text hcapture characters).append (ih hcapture h)
  | element start inner rest ihInner ihRest =>
    obtain ⟨hstart, hinner, hrest⟩ := h
    rw [events_element]
    apply Leads.append _ (ihRest hcapture hrest)
    exact Leads.foreignElement hcapture hstart (ihInner hcapture hinner)

theorem Leads.among {known : ElementStart → Content → Prop} {test : ElementStart → Bool}
    (state : List (ElementStart × Content) → Definition)
    (hcapture : ∀ read, (state read).capture = none)
    (htest : ∀ start inner, known start inner → test start = true)
    (hforeign : ∀ start, Vocabulary.isForeign start = true → test start = false)
    (hknown : ∀ read start inner, known start inner →
      Leads (state read) (Content.element start inner .empty).events (state (read ++ [(start, inner)])))
    {content : Content} (h : Vocabulary.Among known content) (read : List (ElementStart × Content)) :
    Leads (state read) content.events (state (read ++ content.children test)) := by
  -- The state goes along with the known elements that were read, and foreign ones leave it as it is.
  induction content generalizing read with
  | empty => simpa [Content.events, Content.children] using Leads.nil
  | text characters rest ih => exact (Leads.text (hcapture read) characters).append (ih h read)
  | element start inner rest _ ihRest =>
    obtain ⟨hstart, hrest⟩ := h
    rw [events_element]
    unfold Content.children
    cases hstart with
    | inl hstart =>
      rw [htest start inner hstart]
      apply (hknown read start inner hstart).append
      simpa using ihRest hrest (read ++ [(start, inner)])
    | inr hstart =>
      rw [hforeign start hstart.1]
      apply Leads.append _ (ihRest hrest read)
      apply Leads.foreignElement (hcapture read) hstart.1
      exact Leads.foreign (hcapture read) hstart.2

/-! ### Values and parameters -/

theorem isNamed_iff {localName : String} {start : ElementStart} :
    Vocabulary.isNamed localName start = true
      ↔ start.name.isIn pipelineNamespace = true ∧ start.name.localName = localName := by
  simp [Vocabulary.isNamed, QName.is]

theorem isNamed_eq {localName : String} {start : ElementStart}
    (h : Vocabulary.isNamed localName start = true) (other : String) :
    Vocabulary.isNamed other start = (localName == other) := by
  obtain ⟨hin, rfl⟩ := isNamed_iff.mp h
  simp [Vocabulary.isNamed, QName.is, hin]

theorem isForeign_iff {start : ElementStart} :
    Vocabulary.isForeign start = true
      ↔ start.name.isIn pipelineNamespace = false ∧ Vocabulary.isResponse start = false := by
  simp [Vocabulary.isForeign]

theorem isNamed_foreign {localName : String} {start : ElementStart}
    (h : Vocabulary.isForeign start = true) : Vocabulary.isNamed localName start = false := by
  simp [Vocabulary.isNamed, QName.is, (isForeign_iff.mp h).1]

def inParameter (d : Definition) (steps : List Step) (step : TransformStep)
    (parameters : List Parameter) (parameter : Parameter) : Definition :=
  { d with
    steps := steps ++ [.transform { step with parameters := parameters ++ [parameter] }]
    parameter := some parameters.length }

def between (d : Definition) (steps : List Step) : Definition :=
  { d with steps, parameter := none }

variable {start : ElementStart} {inner : Content}

theorem handleAll_characters {content : Content} (hcapture : d.capture = none)
    (h : Vocabulary.Characters content) :
    d.handleAll content.events = .ok { d with text := d.text ++ content.characters } := by
  induction content generalizing d with
  | empty => simp [Content.events, Content.characters, handleAll]
  | text characters rest ih =>
    have happly : d.apply (.text characters) = (.ok (), { d with text := d.text ++ characters }) := by
      simp [apply, hcapture]
    simp only [Content.events, Content.characters, handleAll]
    rw [handle_of_apply happly]
    have hrest := ih (d := { d with text := d.text ++ characters }) hcapture h
    simpa [String.append_assoc] using hrest
  | element => exact h.elim

section Parameters

variable (steps : List Step) (step : TransformStep) (parameters : List Parameter)
  (parameter : Parameter)

theorem inParameter_enter (namespaces : List NamespaceBinding) :
    (d.enter namespaces).inParameter steps step parameters parameter
      = (d.inParameter steps step parameters parameter).enter namespaces := rfl

theorem addValue_inParameter (d : Definition) (value : String) :
    (d.inParameter steps step parameters parameter).addValue value
      = d.inParameter steps step parameters (parameter.addValue value) := by
  unfold addValue inParameter
  simp [List.modify_eq_set]

theorem Leads.valueElement (hcapture : d.capture = none) (h : Vocabulary.IsValue start inner) :
    Leads (d.inParameter steps step parameters parameter) (Content.element start inner .empty).events
      (d.inParameter steps step parameters (parameter.addValue inner.characters)) := by
  obtain ⟨hin, hlocal⟩ := isNamed_iff.mp h.1
  intro text
  refine ⟨"", ?_⟩
  let opened := { (d.enter start.namespaces).inParameter steps step parameters parameter with text := "" }
  have hopening : { d.inParameter steps step parameters parameter with text }.apply (.opening start)
      = (.ok (), opened) := by
    simp [apply, inParameter, hcapture, openElement, hin, hlocal, openValue, opened, enter]
  have hinner : opened.handleAll inner.events = .ok { opened with text := inner.characters } := by
    simpa [opened] using handleAll_characters (d := opened) hcapture h.2
  have hclosing : { opened with text := inner.characters }.apply (.closing start.name)
      = (.ok (), { d.inParameter steps step parameters (parameter.addValue inner.characters) with
          text := "" }) := by
    have hvalue := addValue_inParameter steps step parameters parameter
      { d.enter start.namespaces with text := inner.characters } inner.characters
    simp [apply, closeElement, hin, hlocal, opened, inParameter, enter, hcapture] at hvalue ⊢
    simp [hvalue]
  simp only [Content.events, List.cons_append, handleAll]
  rw [handle_of_apply hopening]
  simp only [handleAll_append, hinner, Except.bind, handleAll]
  rw [handle_of_apply hclosing]

theorem Leads.valueElements (hcapture : d.capture = none) (h : Vocabulary.Among Vocabulary.IsValue inner) :
    Leads (d.inParameter steps step parameters parameter) inner.events
      (d.inParameter steps step parameters { parameter with
        values := parameter.values
          ++ (inner.children (Vocabulary.isNamed "value")).map fun (_, value) => value.characters }) := by
  let state (read : List (ElementStart × Content)) : Definition :=
    d.inParameter steps step parameters
      { parameter with values := parameter.values ++ read.map fun (_, value) => value.characters }
  have hvalue : ∀ read start inner, Vocabulary.IsValue start inner →
      Leads (state read) (Content.element start inner .empty).events (state (read ++ [(start, inner)])) := by
    intro read start inner h
    have := Leads.valueElement steps step parameters
      { parameter with values := parameter.values ++ read.map fun (_, value) => value.characters }
      hcapture h
    simpa [state, Parameter.addValue] using this
  have := Leads.among state (fun _ => hcapture) (fun _ _ h => h.1) (fun _ => isNamed_foreign) hvalue h []
  simpa [state] using this

theorem openElement_parameter (d : Definition) (h : Vocabulary.isNamed "parameter" start = true)
    (hname : Vocabulary.Filled start "name") :
    (d.between (steps ++ [.transform { step with parameters }])).openElement start
      = .ok (d.inParameter steps step parameters {
          name := (start.attribute? "name").getD ""
          uri := start.attribute? "uri"
          type := (start.attribute? "type").getD "xs:string" }) := by
  obtain ⟨hin, hlocal⟩ := isNamed_iff.mp h
  obtain ⟨name, hname, hblank⟩ := hname
  simp [openElement, openParameter, between, inParameter, hin, hlocal, hname, Attribute.require,
    hblank, defaultParameterType, bind, Except.bind, pure, Except.pure]

theorem Leads.parameterElement (hcapture : d.capture = none) (h : Vocabulary.IsParameter start inner) :
    Leads (d.between (steps ++ [.transform { step with parameters }]))
      (Content.element start inner .empty).events
      (d.between (steps ++ [.transform { step with
        parameters := parameters ++ [Vocabulary.parameterOf start inner] }])) := by
  obtain ⟨hnamed, hname, hvalues⟩ := h
  obtain ⟨hin, hlocal⟩ := isNamed_iff.mp hnamed
  let opened : Parameter := {
    name := (start.attribute? "name").getD ""
    uri := start.attribute? "uri"
    type := (start.attribute? "type").getD "xs:string" }
  have hopening : Leads (d.between (steps ++ [.transform { step with parameters }])) [.opening start]
      ((d.enter start.namespaces).inParameter steps step parameters opened) := by
    refine Leads.opening hcapture ?_
    intro text
    refine ⟨text, ?_⟩
    exact openElement_parameter steps step parameters { d.enter start.namespaces with text } hnamed hname
  have hinner := Leads.valueElements (d := d.enter start.namespaces) steps step parameters opened
    hcapture hvalues
  have hclosing : Leads
      ((d.enter start.namespaces).inParameter steps step parameters (Vocabulary.parameterOf start inner))
      [.closing start.name]
      (d.between (steps ++ [.transform { step with
        parameters := parameters ++ [Vocabulary.parameterOf start inner] }])) := by
    rw [inParameter_enter]
    apply Leads.closing
    intro text
    simp [closeElement, inParameter, between, enter, hin, hlocal, hcapture]
  exact Leads.element hopening hinner hclosing

theorem Leads.parameterElements (hcapture : d.capture = none)
    (h : Vocabulary.Among Vocabulary.IsParameter inner) :
    Leads (d.between (steps ++ [.transform { step with parameters }])) inner.events
      (d.between (steps ++ [.transform { step with
        parameters := parameters ++ (inner.children (Vocabulary.isNamed "parameter")).map
          fun (parameter, values) => Vocabulary.parameterOf parameter values }])) := by
  let state (read : List (ElementStart × Content)) : Definition :=
    d.between (steps ++ [.transform { step with
      parameters := parameters ++ read.map fun (parameter, values) =>
        Vocabulary.parameterOf parameter values }])
  have hparameter : ∀ read start inner, Vocabulary.IsParameter start inner →
      Leads (state read) (Content.element start inner .empty).events (state (read ++ [(start, inner)])) := by
    intro read start inner h
    have := Leads.parameterElement steps step
      (parameters ++ read.map fun (parameter, values) => Vocabulary.parameterOf parameter values)
      hcapture h
    simpa [state] using this
  have := Leads.among state (fun _ => hcapture) (fun _ _ h => h.1) (fun _ => isNamed_foreign)
    hparameter h []
  simpa [state] using this

end Parameters

/-! ### Steps -/

section Steps

variable (steps : List Step)

theorem stepName_between (d : Definition) (start : ElementStart) (kind : String) :
    (d.between steps).stepName start kind = Vocabulary.stepName kind (steps.length + 1) start := by
  unfold stepName Vocabulary.stepName
  cases start.attribute? "name" <;> rfl

theorem Leads.closing_named (namespaces : List NamespaceBinding) {localName : String}
    (hcapture : d.capture = none) (h : Vocabulary.isNamed localName start = true)
    (hvalue : localName ≠ "value") (hparameter : localName ≠ "parameter") :
    Leads ((d.between steps).enter namespaces) [.closing start.name] (d.between steps) := by
  obtain ⟨hin, hlocal⟩ := isNamed_iff.mp h
  apply Leads.closing
  intro text
  simp only [closeElement, between, enter, hcapture, hin, hlocal, ↓reduceIte]

theorem Leads.transformer (hcapture : d.capture = none) (h : Vocabulary.IsTransformer start inner) :
    Leads (d.between steps) (Content.element start inner .empty).events
      (d.between (steps ++ [.transform (Vocabulary.transformOf (steps.length + 1) start inner)])) := by
  obtain ⟨hnamed, ⟨path, hpath, hblank⟩, hparameters⟩ := h
  obtain ⟨hin, hlocal⟩ := isNamed_iff.mp hnamed
  let opened : TransformStep := {
    name := Vocabulary.stepName "transformer" (steps.length + 1) start
    templatePath := path
    logged := start.attribute? "log" == some "true" }
  have hopening : Leads (d.between steps) [.opening start]
      ((d.enter start.namespaces).between (steps ++ [.transform opened])) := by
    refine Leads.opening hcapture ?_
    intro text
    refine ⟨text, ?_⟩
    have hname := stepName_between steps { d.enter start.namespaces with text } start "transformer"
    simp only [openElement, enter, hin, hlocal, openTransformer, hpath, Attribute.require, hblank]
    simp [bind, Except.bind, pure, Except.pure, addStep, between, opened, Attribute.flag, enter] at hname ⊢
    exact hname
  have hinner := Leads.parameterElements steps opened [] (d := d.enter start.namespaces) hcapture hparameters
  have hclosing := Leads.closing_named
    (steps ++ [.transform (Vocabulary.transformOf (steps.length + 1) start inner)])
    start.namespaces hcapture hnamed (by decide) (by decide)
  apply Leads.element hopening hinner
  have htransform : { opened with
      parameters := [] ++ (inner.children (Vocabulary.isNamed "parameter")).map
        fun (parameter, values) => Vocabulary.parameterOf parameter values }
      = Vocabulary.transformOf (steps.length + 1) start inner := by
    simp [opened, Vocabulary.transformOf, hpath]
  rw [htransform]
  exact hclosing

theorem serializerOptions_eq (start : ElementStart) :
    serializerOptions start = Vocabulary.optionsOf start := by
  unfold serializerOptions Vocabulary.optionsOf
  rw [← List.filterMap_eq_map, List.filterMap_filter]
  congr 1
  funext attr
  simp [and_assoc]

theorem Leads.serializer (hcapture : d.capture = none) (h : Vocabulary.IsSerializer start inner) :
    Leads (d.between steps) (Content.element start inner .empty).events
      (d.between (steps ++ [.serialize .json (Vocabulary.serializerOf (steps.length + 1) start)])) := by
  obtain ⟨hnamed, hforeign⟩ := h
  obtain ⟨hin, hlocal⟩ := isNamed_iff.mp hnamed
  let made := steps ++ [.serialize .json (Vocabulary.serializerOf (steps.length + 1) start)]
  have hopening : Leads (d.between steps) [.opening start] ((d.between made).enter start.namespaces) := by
    refine Leads.opening hcapture ?_
    intro text
    refine ⟨text, ?_⟩
    have hname := stepName_between steps { d.enter start.namespaces with text } start "json-serializer"
    simp only [openElement, enter, hin, hlocal, openJsonSerializer, serializerOptions_eq]
    simp [addStep, between, Vocabulary.serializerOf, Attribute.flag, enter, made] at hname ⊢
    exact hname
  have hinner : Leads ((d.between made).enter start.namespaces) inner.events
      ((d.between made).enter start.namespaces) := Leads.foreign hcapture hforeign
  have hclosing := Leads.closing_named made start.namespaces hcapture hnamed (by decide) (by decide)
  exact Leads.element hopening hinner hclosing

def copying (d : Definition) (events : List Event) (depth : Nat) : Definition :=
  { d with capture := some { events, depth } }

theorem copying_enter (events : List Event) (depth : Nat) (namespaces : List NamespaceBinding) :
    (d.enter namespaces).copying events depth = (d.copying events depth).enter namespaces := rfl

theorem Leads.copy (events : List Event) (depth : Nat) (content : Content) :
    Leads (d.copying events (depth + 1)) content.events
      (d.copying (events ++ content.events) (depth + 1)) := by
  -- An opening adds one to the depth, which is never zero before the closing of the response itself.
  induction content generalizing d events depth with
  | empty => simpa [Content.events] using Leads.nil
  | text characters rest ih =>
    have htext : Leads (d.copying events (depth + 1)) [.text characters]
        (d.copying (events ++ [.text characters]) (depth + 1)) := by
      apply Leads.of_apply
      intro text
      exact ⟨text ++ characters, rfl⟩
    have hrest := ih (d := d) (events ++ [.text characters]) depth
    simpa [Content.events] using htext.append (by simpa using hrest)
  | element start inner rest ihInner ihRest =>
    have hopening : Leads (d.copying events (depth + 1)) [.opening start]
        ((d.enter start.namespaces).copying (events ++ [.opening start]) (depth + 1 + 1)) := by
      apply Leads.of_apply
      intro text
      exact ⟨text, rfl⟩
    have hinner := ihInner (d := d.enter start.namespaces) (events ++ [.opening start]) (depth + 1)
    have hclosing : Leads
        ((d.copying (events ++ [.opening start] ++ inner.events) (depth + 1 + 1)).enter start.namespaces)
        [.closing start.name]
        (d.copying (events ++ [.opening start] ++ inner.events ++ [.closing start.name])
          (depth + 1)) := by
      apply Leads.closing
      intro text
      rfl
    have hrest := ihRest (d := d)
      (events ++ [.opening start] ++ inner.events ++ [.closing start.name]) depth
    simpa [Content.events] using (Leads.element hopening hinner hclosing).append hrest

theorem not_isIn_of_isResponse (h : Vocabulary.isResponse start = true) :
    start.name.isIn pipelineNamespace = false := by
  simp only [Vocabulary.isResponse, QName.is, QName.isIn, Bool.and_eq_true, beq_iff_eq] at h
  unfold QName.isIn
  rw [h.1]
  decide

theorem isResponse_named {localName : String} (h : Vocabulary.isNamed localName start = true) :
    Vocabulary.isResponse start = false := by
  by_contra hresponse
  have hin := not_isIn_of_isResponse (by simpa using hresponse)
  simp [(isNamed_iff.mp h).1] at hin

theorem isStep_named {localName : String} (h : Vocabulary.isNamed localName start = true) :
    Vocabulary.isStep start = (localName == "transformer" || localName == "json-serializer") := by
  unfold Vocabulary.isStep
  rw [isNamed_eq h, isNamed_eq h, isResponse_named h, Bool.or_false]

theorem Leads.copied (hcapture : d.capture = none) (h : Vocabulary.isResponse start = true) :
    Leads d (Content.element start inner .empty).events
      (d.addStep (.respond (Vocabulary.responseOf d.scopes.reverse.flatten start inner))) := by
  have hin := not_isIn_of_isResponse h
  let root := { start with
    namespaces := NamespaceBinding.inForce (d.scopes.reverse.flatten ++ start.namespaces) }
  have hopening : Leads d [.opening start]
      ((d.enter start.namespaces).copying [.opening root] 1) := by
    refine Leads.opening hcapture ?_
    intro text
    refine ⟨text, ?_⟩
    unfold Vocabulary.isResponse at h
    unfold openElement openResponse
    rw [hin, h, inScope_eq_inForce]
    simp [copying, enter, root]
  have hinner := Leads.copy (d := d.enter start.namespaces) [.opening root] 0 inner
  have hclosing : Leads ((d.enter start.namespaces).copying ([.opening root] ++ inner.events) 1)
      [.closing start.name]
      (d.addStep (.respond (Vocabulary.responseOf d.scopes.reverse.flatten start inner))) := by
    rw [copying_enter]
    apply Leads.closing
    intro text
    simp [closeElement, closeResponse, addStep, enter, copying, Vocabulary.responseOf, root, hcapture]
  exact Leads.element hopening hinner hclosing

theorem Leads.response (hcapture : d.capture = none) (h : Vocabulary.isResponse start = true) :
    Leads (d.between steps) (Content.element start inner .empty).events
      (d.between (steps
        ++ [.respond (Vocabulary.responseOf d.scopes.reverse.flatten start inner)])) :=
  Leads.copied (d := d.between steps) hcapture h

end Steps

theorem stepOf_of_isNamed {localName : String} (outer : List NamespaceBinding) (number : Nat)
    (h : Vocabulary.isNamed localName start = true) :
    Vocabulary.stepOf outer number start inner
      = if localName = "transformer" then .transform (Vocabulary.transformOf number start inner)
        else .serialize .json (Vocabulary.serializerOf number start) := by
  simp [Vocabulary.stepOf, isResponse_named h, isNamed_eq h]

theorem Leads.stepElement (steps : List Step) (hcapture : d.capture = none)
    (h : Vocabulary.IsStep start inner) :
    Leads (d.between steps) (Content.element start inner .empty).events
      (d.between (steps
        ++ [Vocabulary.stepOf d.scopes.reverse.flatten (steps.length + 1) start inner])) := by
  rcases h with h | h | h
  · rw [stepOf_of_isNamed _ _ h.1]
    exact Leads.transformer steps hcapture h
  · rw [stepOf_of_isNamed _ _ h.1]
    exact Leads.serializer steps hcapture h
  · unfold Vocabulary.stepOf
    rw [if_pos h]
    exact Leads.response steps hcapture h

theorem isStep_of_IsStep (h : Vocabulary.IsStep start inner) : Vocabulary.isStep start = true := by
  unfold Vocabulary.isStep
  rcases h with h | h | h
  · simp [h.1]
  · simp [h.1]
  · simp [h]

theorem isStep_foreign (h : Vocabulary.isForeign start = true) : Vocabulary.isStep start = false := by
  unfold Vocabulary.isStep
  rw [isNamed_foreign h, isNamed_foreign h, (isForeign_iff.mp h).2]
  rfl

theorem Leads.stepElements (hcapture : d.capture = none)
    (h : Vocabulary.Among Vocabulary.IsStep inner) :
    Leads (d.between []) inner.events
      (d.between (Vocabulary.stepsOf d.scopes.reverse.flatten inner)) := by
  let state (read : List (ElementStart × Content)) : Definition :=
    d.between <| read.mapIdx fun index (start, inner) =>
      Vocabulary.stepOf d.scopes.reverse.flatten (index + 1) start inner
  have hstep : ∀ read start inner, Vocabulary.IsStep start inner →
      Leads (state read) (Content.element start inner .empty).events (state (read ++ [(start, inner)])) := by
    intro read start inner h
    have := Leads.stepElement (read.mapIdx fun index (start, inner) =>
      Vocabulary.stepOf d.scopes.reverse.flatten (index + 1) start inner) hcapture h
    simpa [state] using this
  exact Leads.among state (fun _ => hcapture) (fun _ _ h => isStep_of_IsStep h)
    (fun _ h => isStep_foreign h) hstep h []

/-! ### Whole definitions -/

theorem seconds_of_timed {attr : String} (default : Nat) (h : Vocabulary.Timed start attr) :
    ∃ n, Attribute.seconds (start.attribute? attr) attr default = .ok n := by
  unfold Attribute.seconds
  cases hattr : start.attribute? attr with
  | none => exact ⟨default, rfl⟩
  | some value =>
    obtain ⟨n, hn⟩ := h value hattr
    refine ⟨n, ?_⟩
    simp only [hn]

theorem directive_of_timed
    (h : start.attribute? "cache" = some "true" →
      Vocabulary.Timed start "cache-time-to-live" ∧ Vocabulary.Timed start "cache-time-to-idle") :
    ∃ cache, directive start = .ok cache := by
  unfold directive Attribute.flag
  by_cases hcache : start.attribute? "cache" = some "true"
  · obtain ⟨live, hlive⟩ := seconds_of_timed 60 (h hcache).1
    obtain ⟨idle, hidle⟩ := seconds_of_timed 60 (h hcache).2
    simp [hcache, hlive, hidle, bind, Except.bind, pure, Except.pure]
  · simp [hcache, pure, Except.pure]

theorem Leads.pipeline (hcapture : d.capture = none) (hsteps : d.between [] = d)
    (h : Vocabulary.IsPipeline start inner) :
    ∃ cache, directive start = .ok cache ∧
      Leads d (Content.element start inner .empty).events
        ({ d with cache }.between
          (Vocabulary.stepsOf (d.scopes.reverse.flatten ++ start.namespaces) inner)) := by
  obtain ⟨hnamed, htimed, hinner⟩ := h
  obtain ⟨hin, hlocal⟩ := isNamed_iff.mp hnamed
  obtain ⟨cache, hcache⟩ := directive_of_timed htimed
  refine ⟨cache, hcache, ?_⟩
  have hopening : Leads d [.opening start] (({ d with cache }.enter start.namespaces).between []) := by
    refine Leads.opening hcapture ?_
    intro text
    refine ⟨text, ?_⟩
    rw [← hsteps]
    simp [openElement, hin, hlocal, openPipeline, hcache, bind, Except.bind, pure, Except.pure, enter,
      between]
  have hinner := Leads.stepElements (d := { d with cache }.enter start.namespaces) hcapture hinner
  have hclosing := Leads.closing_named (d := { d with cache })
    (Vocabulary.stepsOf (d.scopes.reverse.flatten ++ start.namespaces) inner)
    start.namespaces hcapture hnamed (by decide) (by decide)
  apply Leads.element hopening hinner
  simpa [enter, between] using hclosing

end Definition

namespace Pipeline

theorem ofEvents_pipeline {before after inner : Content} {start : ElementStart}
    (hbefore : Vocabulary.Foreign before) (hpipeline : Vocabulary.IsPipeline start inner)
    (hafter : Vocabulary.Foreign after) :
    ∃ cache, Definition.directive start = .ok cache ∧
      ofEvents ((before.events ++ (Content.element start inner after).events).map .ok)
        = .ok { steps := Vocabulary.stepsOf start.namespaces inner, cache } := by
  obtain ⟨cache, hcache, hroot⟩ := Definition.Leads.pipeline (d := {}) rfl rfl hpipeline
  refine ⟨cache, hcache, ?_⟩
  have hfirst : Definition.Leads {} before.events {} := Definition.Leads.foreign rfl hbefore
  have hlast := (hfirst.append hroot).append (Definition.Leads.foreign rfl hafter)
  obtain ⟨text, hread⟩ := hlast ""
  unfold ofEvents
  rw [Definition.ofEvents_go, Definition.events_element, ← List.append_assoc]
  have hread : Definition.handleAll {} _ = .ok _ := hread
  rw [hread]
  rfl

def sampleStart (localName : String) (attributes : List (String × String)) : ElementStart where
  name := { localName, uri := pipelineNamespace }
  attributes := attributes.map fun (key, value) => { name := { localName := key }, value }

def sampleSteps : Content :=
  .text "\n" <| .element (sampleStart "transformer" [("xsl-path", "a.xsl")])
    (.element (sampleStart "parameter" [("name", "p")])
      (.text "x" <| .element (sampleStart "value" []) (.text "o" <| .text "ne" .empty) <|
        .element { name := { localName := "note" } } (.text "y" .empty) .empty) .empty) <|
  .element { name := { localName := "response", uri := responseNamespace } }
    (.element (sampleStart "transformer" []) .empty .empty) <|
  .element (sampleStart "json-serializer" [("pretty-print", "true")]) .empty .empty

theorem ofEvents_pipeline_sampleSteps :
    Vocabulary.Foreign .empty
      ∧ Vocabulary.IsPipeline (sampleStart "pipeline" []) sampleSteps
      ∧ (Vocabulary.stepsOf [] sampleSteps).map Step.name
          = ["transformer-1", "response", "json-serializer-3"]
      ∧ ∃ cache, Definition.directive (sampleStart "pipeline" []) = .ok cache ∧
          ofEvents ((Content.empty.events ++ (Content.element (sampleStart "pipeline" []) sampleSteps
              .empty).events).map .ok)
            = .ok { steps := Vocabulary.stepsOf [] sampleSteps, cache } := by
  have hforeign : Vocabulary.Foreign .empty := trivial
  have hpipeline : Vocabulary.IsPipeline (sampleStart "pipeline" []) sampleSteps := by
    simp [Vocabulary.IsPipeline, Vocabulary.Among, Vocabulary.IsStep, Vocabulary.IsTransformer,
      Vocabulary.IsParameter, Vocabulary.IsValue, Vocabulary.IsSerializer, Vocabulary.Foreign,
      Vocabulary.Characters, Vocabulary.Filled, Vocabulary.isNamed, Vocabulary.isResponse,
      Vocabulary.isForeign, QName.is, QName.isIn, ElementStart.attribute?, sampleSteps, sampleStart]
    decide
  exact ⟨hforeign, hpipeline, by decide, ofEvents_pipeline hforeign hpipeline hforeign⟩

end Pipeline
end XmlPipeline
