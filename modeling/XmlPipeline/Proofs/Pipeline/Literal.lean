import Mathlib.Data.List.Forall2
import XmlPipeline.Proofs.Pipeline.Gathered
import XmlPipeline.Proofs.Pipeline.Reading
import XmlPipeline.Proofs.Xml.ReadContent
import XmlPipeline.Proofs.Xml.RoundTrip

/-!
This module contains the literal bodies that a definition comes to. The main statement is that each of them
is markup of the response that it was copied from, and is read as that response.
-/

namespace XmlPipeline

open Xml

namespace Vocabulary

/--
A response, with the declarations of the elements that it stands in, the outermost one first.
-/
structure Response where
  outer : List NamespaceBinding
  start : ElementStart
  inner : Content

namespace Response

def events (response : Response) : List Event :=
  let namespaces := NamespaceBinding.inForce (response.outer ++ response.start.namespaces)
  (Content.element { response.start with namespaces } response.inner .empty).events

def body (response : Response) : String :=
  (responseOf response.outer response.start response.inner).body

/--
The declarations in force are allowed, and the response can be read where they are.
-/
structure Readable (response : Response) : Prop where
  outer : ∀ binding ∈ response.outer, binding.Declarable
  start : response.start.Readable
    (Scope.initial.addAll (response.outer ++ response.start.namespaces))
  inner : response.inner.Readable
    (Scope.initial.addAll (response.outer ++ response.start.namespaces))

theorem Readable.read_body {response : Response} (h : response.Readable) :
    Document.read response.body = .ok { events := joinTexts response.events } := by
  have hread := Document.read_toXml_joined (Content.readable_gathered h.outer h.start h.inner)
  simpa [body, events, responseOf, Content.events] using hread

end Response

/--
The responses in a content that stands in elements with the declarations `outer`. A response inside of
another one is a part of it.
-/
def responses (outer : List NamespaceBinding) : Content → List Response
  | .empty => []
  | .text _ rest => responses outer rest
  | .element start inner rest =>
    if isResponse start then { outer, start, inner } :: responses outer rest
    else responses (outer ++ start.namespaces) inner ++ responses outer rest

theorem readable_of_mem_responses {outer : List NamespaceBinding} {content : Content}
    (houter : ∀ binding ∈ outer, binding.Declarable)
    (h : content.Readable (Scope.initial.addAll outer)) :
    ∀ response ∈ responses outer content, response.Readable := by
  induction content generalizing outer with
  | empty => simp [responses]
  | text characters rest ih => exact ih houter h.2
  | element start inner rest ihInner ihRest =>
    obtain ⟨hstart, hinner, hrest⟩ := h
    rw [← Scope.addAll_append] at hstart hinner
    have hdeeper : ∀ binding ∈ outer ++ start.namespaces, binding.Declarable := by
      intro binding hbinding
      cases List.mem_append.mp hbinding with
      | inl hmem => exact houter binding hmem
      | inr hmem => exact hstart.namespaces_declarable binding hmem
    intro response hresponse
    unfold responses at hresponse
    split at hresponse
    · cases List.mem_cons.mp hresponse with
      | inl heq => exact heq ▸ ⟨houter, hstart, hinner⟩
      | inr hmem => exact ihRest houter hrest response hmem
    · cases List.mem_append.mp hresponse with
      | inl hmem => exact ihInner hdeeper hinner response hmem
      | inr hmem => exact ihRest houter hrest response hmem

end Vocabulary

namespace Step

def body? : Step → Option String
  | respond step => some step.body
  | _ => none

end Step

namespace Definition

variable {d d' d'' : Definition} {start : ElementStart}

def bodies (d : Definition) : List String :=
  d.steps.filterMap Step.body?

structure Gains (d : Definition) (more : List String) (d' : Definition) : Prop where
  capture : d'.capture = d.capture
  scopes : d'.scopes = d.scopes
  bodies : d'.bodies = d.bodies ++ more

theorem Gains.trans {first second : List String} (h : d.Gains first d') (h' : d'.Gains second d'') :
    d.Gains (first ++ second) d'' where
  capture := h'.capture.trans h.capture
  scopes := h'.scopes.trans h.scopes
  bodies := by rw [h'.bodies, h.bodies, List.append_assoc]

theorem gains_nil (hcapture : d'.capture = d.capture) (hscopes : d'.scopes = d.scopes)
    (hsteps : d'.bodies = d.bodies) : d.Gains [] d' :=
  ⟨hcapture, hscopes, hsteps.trans (List.append_nil _).symm⟩

theorem gains_addStep {step : Step} {more : List String} (h : step.body?.toList = more) :
    d.Gains more (d.addStep step) := by
  refine ⟨rfl, rfl, ?_⟩
  rw [← h]
  cases hbody : step.body? <;> simp [bodies, addStep, hbody]

theorem Gains.leave {namespaces : List NamespaceBinding} {more : List String}
    (h : (d.enter namespaces).Gains more d') : d.Gains more { d' with scopes := d'.scopes.tail } where
  capture := h.capture
  scopes := congrArg List.tail h.scopes
  bodies := h.bodies

theorem bodies_replace {step other : TransformStep} (h : d.steps.getLast? = some (.transform step)) :
    (d.steps.dropLast ++ [Step.transform other]).filterMap Step.body? = d.bodies := by
  obtain ⟨before, hsteps⟩ := List.getLast?_eq_some_iff.mp h
  unfold bodies
  rw [hsteps]
  simp [List.filterMap_cons, Step.body?]

theorem openElement_gains (hresponse : Vocabulary.isResponse start = false)
    (h : d.openElement start = .ok d') : d.Gains [] d' := by
  unfold Vocabulary.isResponse at hresponse
  unfold openElement at h
  rw [hresponse] at h
  split at h
  · split at h
    · obtain ⟨cache, _, h⟩ := exists_of_bind_ok h
      rw [← Except.ok.inj h]
      exact gains_nil rfl rfl rfl
    · obtain ⟨path, _, h⟩ := exists_of_bind_ok h
      rw [← Except.ok.inj h]
      exact gains_addStep rfl
    · unfold openParameter at h
      split at h
      · next step hlast =>
        obtain ⟨name, _, h⟩ := exists_of_bind_ok h
        rw [← Except.ok.inj h]
        exact gains_nil rfl rfl (bodies_replace hlast)
      · cases h
    · unfold openValue at h
      split at h
      · cases h
      · rw [← Except.ok.inj h]
        exact gains_nil rfl rfl rfl
    · rw [← Except.ok.inj h]
      exact gains_addStep rfl
    · cases h
  · rw [← Except.ok.inj h]
    exact gains_nil rfl rfl rfl

theorem addValue_gains (d : Definition) (value : String) : d.Gains [] (d.addValue value) := by
  unfold addValue
  split
  · next hlast => exact gains_nil rfl rfl (bodies_replace hlast)
  · exact gains_nil rfl rfl rfl

theorem closeElement_gains (hcapture : d.capture = none) (name : QName) :
    d.Gains [] (d.closeElement name) := by
  unfold closeElement
  split
  · next heq =>
    rw [hcapture] at heq
    cases heq
  · split
    · split
      · exact addValue_gains d d.text
      · exact gains_nil rfl rfl rfl
      · exact gains_nil rfl rfl rfl
    · exact gains_nil rfl rfl rfl

theorem exists_of_handleAll {event : Event} {events : List Event}
    (h : d.handleAll (event :: events) = .ok d') :
    ∃ next, d.apply event = (.ok (), next) ∧ next.handleAll events = .ok d' := by
  unfold handleAll handle at h
  split at h
  · next next hnext =>
    split at hnext
    · next heq =>
      obtain rfl := (Prod.mk.inj hnext).2
      exact ⟨_, heq, h⟩
    · cases (Prod.mk.inj hnext).1
  · cases h

theorem apply_text_gains {characters : String} (h : d.apply (.text characters) = (.ok (), d'))
    (hcapture : d.capture = none) : d.Gains [] d' := by
  unfold apply at h
  obtain rfl := (Prod.mk.inj h).2
  exact gains_nil (by simp [hcapture]) rfl rfl

theorem apply_opening_gains (h : d.apply (.opening start) = (.ok (), d')) (hcapture : d.capture = none)
    (hresponse : Vocabulary.isResponse start = false) : (d.enter start.namespaces).Gains [] d' := by
  unfold apply at h
  simp only at h
  split at h
  · next heq =>
    rw [hcapture] at heq
    cases heq
  · split at h
    · next next hopen =>
      obtain rfl := (Prod.mk.inj h).2
      exact openElement_gains hresponse hopen
    · cases (Prod.mk.inj h).1

theorem apply_closing_gains {name : QName} (h : d.apply (.closing name) = (.ok (), d'))
    (hcapture : d.capture = none) :
    ({ d with scopes := d.scopes.tail } : Definition).Gains [] d' := by
  unfold apply at h
  obtain rfl := (Prod.mk.inj h).2
  have hclosed := closeElement_gains hcapture name
  exact ⟨hclosed.capture, congrArg List.tail hclosed.scopes, hclosed.bodies⟩

theorem copied_gains {inner : Content} (hcapture : d.capture = none)
    (hresponse : Vocabulary.isResponse start = true)
    (h : d.handleAll (Content.element start inner .empty).events = .ok d') :
    d.Gains [(Vocabulary.responseOf d.scopes.reverse.flatten start inner).body] d' := by
  obtain ⟨text, hcopied⟩ := Leads.copied hcapture hresponse d.text
  rw [Except.ok.inj (h.symm.trans hcopied)]
  let step := Step.respond (Vocabulary.responseOf d.scopes.reverse.flatten start inner)
  have hstep : d.Gains step.body?.toList (d.addStep step) := gains_addStep rfl
  exact ⟨hstep.capture, hstep.scopes, hstep.bodies⟩

theorem handleAll_gains {content : Content} (hcapture : d.capture = none)
    (h : d.handleAll content.events = .ok d') :
    d.Gains ((Vocabulary.responses d.scopes.reverse.flatten content).map (·.body)) d' := by
  induction content generalizing d d' with
  | empty =>
    obtain rfl := Except.ok.inj h
    exact gains_nil rfl rfl rfl
  | text characters rest ih =>
    obtain ⟨next, hnext, hrest⟩ := exists_of_handleAll h
    have htext := apply_text_gains hnext hcapture
    have hlast := ih (htext.capture.trans hcapture) hrest
    rw [htext.scopes] at hlast
    exact htext.trans hlast
  | element start inner rest ihInner ihRest =>
    unfold Vocabulary.responses
    split
    · next hresponse =>
      -- The response is copied as a whole, whatever elements there are inside of it.
      rw [events_element, handleAll_append] at h
      obtain ⟨read, hread, hrest⟩ := exists_of_bind_ok h
      have hcopied := copied_gains hcapture hresponse hread
      have hlast := ihRest (hcopied.capture.trans hcapture) hrest
      rw [hcopied.scopes] at hlast
      exact hcopied.trans hlast
    · next hresponse =>
      have hsplit : d.handleAll (.opening start :: (inner.events ++ .closing start.name :: rest.events))
          = .ok d' := h
      obtain ⟨opened, hopened, hmore⟩ := exists_of_handleAll hsplit
      rw [handleAll_append] at hmore
      obtain ⟨read, hread, hmore⟩ := exists_of_bind_ok hmore
      obtain ⟨closed, hclosed, hrest⟩ := exists_of_handleAll hmore
      have hopening := apply_opening_gains hopened hcapture (by simpa using hresponse)
      have hinner := ihInner (hopening.capture.trans hcapture) hread
      have hclosing := apply_closing_gains hclosed
        (hinner.capture.trans (hopening.capture.trans hcapture))
      have helement := (hopening.trans hinner).leave.trans hclosing
      have hlast := ihRest (helement.capture.trans hcapture) hrest
      rw [helement.scopes] at hlast
      have hwithin : opened.scopes.reverse.flatten
          = d.scopes.reverse.flatten ++ start.namespaces := by
        rw [hopening.scopes]
        simp [enter]
      rw [hwithin] at helement
      rw [List.map_append]
      simpa using helement.trans hlast

end Definition

namespace Pipeline

theorem read_responses (source : Option String) (text : String) (pipeline : Pipeline)
    (hplain : ∀ tag ∈ Markup.openings (Reader.withoutMark text.toList), Tag.Plain tag)
    (h : read source text = .ok pipeline) :
    ∃ content : Content, (Reader.ofText text).events = (content.events, none)
      ∧ List.Forall₂
          (fun response body => Document.read body = .ok { events := joinTexts response.events })
          (Vocabulary.responses [] content) (pipeline.steps.filterMap Step.body?) := by
  unfold read at h
  simp only at h
  obtain ⟨definition, hdefinition, h⟩ := exists_of_bind_ok h
  split at h
  · cases h
  · next hfailure =>
    obtain ⟨names, hnested, hend, hproper⟩ := (Reader.tracks_ofText text).events
    obtain rfl := hend hfailure
    obtain ⟨content, hcontent⟩ := hnested.exists_content
    refine ⟨content, Prod.ext hcontent hfailure, ?_⟩
    rw [hcontent] at hdefinition
    have hgains := Definition.handleAll_gains rfl hdefinition
    have hsteps : pipeline.steps = definition.steps := by
      unfold Definition.finish at h
      split at h
      · cases h
      · rw [← Except.ok.inj h]
    have hbodies : pipeline.steps.filterMap Step.body?
        = (Vocabulary.responses [] content).map (·.body) := by
      rw [hsteps]
      exact hgains.bodies
    rw [hbodies, List.forall₂_map_right_iff, List.forall₂_same]
    intro response hresponse
    have hreadable : content.Readable (Scope.initial.addAll []) :=
      Reader.readable_ofText hplain hcontent
    exact (Vocabulary.readable_of_mem_responses (by simp) hreadable response hresponse).read_body

def sampleText : String :=
  -- Inside of the response, one prefix is taken back and the default namespace is another one.
  "<a xmlns=\"u\" xmlns:q=\"v\">"
    ++ "<r:response xmlns=\"w\" xmlns:q=\"\" xmlns:r=\"http://www.armatiek.com/xslweb/response\">"
    ++ "<x/>b<![CDATA[<]]></r:response></a>"

def samplePipeline : Pipeline where
  steps := [.respond {
    body := "<r:response xmlns=\"w\" xmlns:r=\"http://www.armatiek.com/xslweb/response\">"
      ++ "<x></x>b&lt;</r:response>" }]

theorem read_responses_sampleText :
    (∀ tag ∈ Markup.openings (Reader.withoutMark sampleText.toList), Tag.Plain tag)
      ∧ read none sampleText = .ok samplePipeline
      ∧ ∃ content : Content, (Reader.ofText sampleText).events = (content.events, none)
        ∧ List.Forall₂
            (fun response body => Document.read body = .ok { events := joinTexts response.events })
            (Vocabulary.responses [] content) (samplePipeline.steps.filterMap Step.body?) := by
  have hplain : ∀ tag ∈ Markup.openings (Reader.withoutMark sampleText.toList), Tag.Plain tag := by
    decide +kernel
  have hread : read none sampleText = .ok samplePipeline := by
    have hsome : (read none sampleText).toOption = some samplePipeline := by decide +kernel
    cases hcase : read none sampleText with
    | error error => simp [hcase, Except.toOption] at hsome
    | ok pipeline => simpa [hcase, Except.toOption] using hsome
  exact ⟨hplain, hread, read_responses none sampleText samplePipeline hplain hread⟩

end Pipeline
end XmlPipeline
