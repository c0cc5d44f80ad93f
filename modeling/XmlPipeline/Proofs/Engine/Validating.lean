import Mathlib.Data.List.Chain
import XmlPipeline.Proofs.Engine.Calls
import XmlPipeline.Proofs.Engine.Reports
import XmlPipeline.Proofs.Xml.Leaves

/-!
This module contains what is handed to the processor for a validator that follows a stylesheet: the markup of
what the stylesheet has produced, which is indented. An empty element is not empty any more when it is judged.
-/

namespace XmlPipeline

open Xml (Content Document Leaf)

variable {Program σ : Type} [ByteWriter σ]

namespace Setting

section

variable {setting : Setting Program} {turn : Turn Program} {before stage : Stage Program σ}

theorem head?_turns {steps : List Step} (h : turn ∈ (setting.turns steps before).head?) :
    ∃ step rest stage, steps = step :: rest ∧ setting.turn before rest.head? step = (turn, stage) := by
  cases steps with
  | nil => cases h
  | cons step rest =>
    cases hstep : step.isTerminal with
    | true => simp [turns, hstep] at h
    | false =>
      cases hturn : setting.turn before rest.head? step with
      | mk first stage =>
        obtain rfl : first = turn := by
          rw [turns_cons hstep hturn] at h
          split at h <;> exact Option.some.inj h
        exact ⟨step, rest, stage, rfl, hturn⟩

theorem isChain_turns {good : Turn Program → Turn Program → Prop}
    (hgood : ∀ {step following next first second} {before between after : Stage Program σ},
      setting.turn before (some following) step = (first, between) → first.failure = none →
      setting.turn between next following = (second, after) → good first second)
    (steps : List Step) (stage : Stage Program σ) : (setting.turns steps stage).IsChain good := by
  induction steps generalizing stage with
  | nil => exact .nil
  | cons step steps ih =>
    cases hstep : step.isTerminal with
    | true => simp [turns, hstep]
    | false =>
      cases hturn : setting.turn stage steps.head? step with
      | mk first between =>
        rw [turns_cons hstep hturn]
        cases hfailure : first.failure with
        | some error => exact .singleton first
        | none =>
          refine List.isChain_cons.mpr ⟨?_, ih between⟩
          intro second hsecond
          obtain ⟨following, rest, after, rfl, hfollowing⟩ := head?_turns hsecond
          exact hgood hturn hfailure hfollowing

theorem made_of_turn {step : TransformStep} {validator : ValidatorStep}
    (h : setting.turn before (some (.validate validator)) (.transform step) = (turn, stage))
    (hsuccess : turn.failure = none) :
    ∃ program, Journal.calls turn.requests
        = [.transformed program before.progress.source (setting.given step before.progress)]
      ∧ stage.progress.source = .document (setting.made step program before.progress) := by
  have hturn : setting.transformTurn before (some (.validate validator)) step = (turn, stage) := h
  obtain ⟨_, ⟨hfailure, _⟩ | ⟨program, kept, outlet, _, hresolved, hrequests, _, hend⟩⟩ :=
    transformTurn_cases hturn
  · exact absurd hsuccess hfailure
  · obtain hfailure | ⟨document?, out, hpassage, _, rfl⟩ := hend
    · exact absurd hsuccess hfailure
    · obtain rfl : Outlet.document = outlet := Except.ok.inj hresolved
      refine ⟨program, ?_, ?_⟩
      · rw [hrequests, Journal.calls_append, Journal.calls_append, Journal.calls_append,
          Journal.calls_compilation, Journal.calls_order, Journal.calls_closing]
        rfl
      · rw [passage_document] at hpassage
        split at hpassage
        · cases hpassage
        · obtain ⟨hdocument, _⟩ := Prod.mk.inj hpassage
          obtain rfl := Except.ok.inj hdocument
          rfl

end

end Setting

namespace Engine

/--
If the second of two turns is the one of a validator and the first the one of a stylesheet, the processor is
handed the indented markup of what the stylesheet has produced.
-/
def HandsOver (engine : Engine Program) (first second : Turn Program) : Prop :=
  ∀ step validator, first.step = .transform step → second.step = .validate validator →
    ∃ program source parameters,
      let produced : Document := {
        events := (engine.processor.transform program source parameters).events }
      Journal.calls first.requests = [.transformed program source parameters]
        ∧ Journal.calls second.requests = [.validated validator.schemaPaths (.text (produced.toXml true))
          (ValidationReport.stepLabel validator.name)]

end Engine

theorem Setting.handsOver (setting : Setting Program) {step following : Step} {next : Option Step}
    {first second : Turn Program} {before between after : Stage Program σ}
    (hfirst : setting.turn before (some following) step = (first, between))
    (hsuccess : first.failure = none)
    (hsecond : setting.turn between next following = (second, after)) :
    setting.engine.HandsOver first second := by
  intro transform validator htransform hvalidator
  obtain rfl : step = .transform transform := (step_of_turn hfirst).symm.trans htransform
  obtain rfl : following = .validate validator := (step_of_turn hsecond).symm.trans hvalidator
  obtain ⟨program, hcalls, hsource⟩ := made_of_turn hfirst hsuccess
  obtain ⟨_, hrequests, _⟩ := validatorTurn_cases hsecond
  refine ⟨program, before.progress.source, setting.given transform before.progress, hcalls, ?_⟩
  rw [hrequests, validationRequest, hsource]
  rfl

namespace Engine

theorem isChain_turns (engine : Engine Program) (files : FileReader) (pipeline : Pipeline)
    (input : String) (parameters : ParameterSet) (inDevelopment : Bool) (out : σ) :
    (engine.turns files pipeline input parameters inDevelopment out).IsChain engine.HandsOver := by
  unfold turns
  split
  · exact .nil
  · split
    · exact .nil
    · next properties templates _ =>
      let setting := engine.setting files inDevelopment properties parameters
      simp only
      split <;> exact setting.isChain_turns setting.handsOver _ _

/--
A validator that follows a stylesheet is handed a text that reads back as what the stylesheet has produced, with
the same tags and the same texts in the leaves, but for the empty leaves: in each of them there is a line break.
-/
theorem execute_validated (engine : Engine Program) (files : FileReader) (pipeline : Pipeline)
    (input : String) (parameters : ParameterSet) (inDevelopment : Bool) (out : σ) :
    let turns := engine.turns files pipeline input parameters inDevelopment out
    let outcome := engine.execute files pipeline input parameters inDevelopment out
    Ended (pipeline.plan engine.config) inDevelopment turns outcome.1
      ∧ outcome.2.journal.calls = Journal.calls (turns.flatMap Turn.requests)
      ∧ turns.IsChain fun first second => ∀ step validator,
        first.step = .transform step → second.step = .validate validator →
          ∃ program source given text,
            Journal.calls first.requests = [.transformed program source given]
              ∧ Journal.calls second.requests = [.validated validator.schemaPaths (.text text)
                (ValidationReport.stepLabel validator.name)]
              ∧ ∀ start inner,
                let produced := Content.element start inner .empty
                produced.WellFormed [] →
                (engine.processor.transform program source given).events = produced.events →
                  ∃ judged : Content, Document.read text = .ok { events := judged.events }
                    ∧ judged.events.filter (·.isTag) = produced.events.filter (·.isTag)
                    ∧ judged.leaves 0 = (produced.leaves 0).map Leaf.indented
                    ∧ (judged.leaves 0 = produced.leaves 0
                      ↔ ∀ leaf ∈ produced.leaves 0, leaf.characters ≠ "") := by
  intro turns outcome
  obtain ⟨hrequests, hended⟩ : _ ∧ Ended (pipeline.plan engine.config) inDevelopment turns outcome.1 :=
    engine.execute_turns files pipeline input parameters inDevelopment out
  have hchain : turns.IsChain engine.HandsOver :=
    engine.isChain_turns files pipeline input parameters inDevelopment out
  refine ⟨hended, ?_, hchain.imp ?_⟩
  · rw [← Journal.calls_requests, hrequests, Journal.calls_append, Journal.calls_preparation]
    rfl
  · intro first second hhands step validator hstep hvalidator
    obtain ⟨program, source, given, hfirst, hsecond⟩ := hhands step validator hstep hvalidator
    refine ⟨program, source, given, _, hfirst, hsecond, ?_⟩
    intro start inner produced hproduced hevents
    obtain ⟨judged, hread, htags, hleaves⟩ := Document.read_toXml_leaves hproduced
    rw [hevents]
    refine ⟨judged, hread, htags, hleaves, ?_⟩
    rw [hleaves]
    exact Xml.map_indented_eq_self_iff _

def emptyingProcessor : Processor Unit where
  compile _ := { result := .ok () }
  outputProperties _ := .empty
  transform _ _ _ :=
    .emitAll [.opening { name := { localName := "a" } }, .closing { localName := "a" }] .finish
  validate _ source _ := .ok { output := source.toText }

def emptyingEngine : Engine Unit where
  config := {}
  processor := emptyingProcessor

/--
An empty element is not empty in the text that is judged.
-/
theorem execute_emptyingEngine :
    let outcome := emptyingEngine.execute sampleFiles samplePipeline "x" .empty false sampleSink
    let root : Xml.ElementStart := { name := { localName := "a" } }
    (Content.element root .empty .empty).WellFormed []
      ∧ .transformed () (.text "x") .empty ∈ outcome.2.journal.calls
      ∧ (emptyingProcessor.transform () (.text "x") .empty).events
        = (Content.element root .empty .empty).events
      ∧ .validated ["second.xsd"] (.text "<a>\n</a>") "Step: second" ∈ outcome.2.journal.calls
      ∧ Document.read "<a>\n</a>"
        = .ok { events := (Content.element root (.text "\n" .empty) .empty).events } := by
  refine ⟨by decide, by decide +kernel, rfl, by decide +kernel, eq_ok_of_toOption (by decide +kernel)⟩

end Engine
end XmlPipeline
