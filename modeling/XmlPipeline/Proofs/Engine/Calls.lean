import XmlPipeline.Proofs.Engine.Conclusion
import XmlPipeline.Proofs.Engine.Reached
import XmlPipeline.Proofs.Result

/-!
This module contains the calls of the processor: one for each stylesheet and for each validator that is run, in
the order of the plan. The main statement tells this of the executions that succeed and of those that fail.
-/

namespace XmlPipeline

open RunM

variable {Program σ : Type}

/--
The steps with a finishing step among them, which stands before a serializer at the end or else at the end.
-/
inductive Finished (finishing : Step) : List Step → List Step → Prop where
  | beforeSerializer {before : List Step} {last : Step} (terminal : last.isTerminal = true) :
    Finished finishing (before ++ [last]) (before ++ [finishing, last])
  | atEnd {before : List Step} {last : Step} (other : last.isTerminal = false) :
    Finished finishing (before ++ [last]) (before ++ [last, finishing])

theorem withFinishingStep_finished (finishing : Step) {steps : List Step} (h : steps ≠ []) :
    Finished finishing steps (withFinishingStep finishing steps) := by
  obtain ⟨before, last, rfl⟩ : ∃ before last, steps = before ++ [last] :=
    ⟨_, _, (List.dropLast_concat_getLast h).symm⟩
  unfold withFinishingStep
  rw [List.getLast?_concat, List.dropLast_concat]
  simp only
  split
  · next hlast => exact .beforeSerializer hlast
  · next hlast =>
    rw [List.append_assoc]
    exact .atEnd (Bool.eq_false_iff.mpr hlast)

namespace Journal

theorem calls_compilation (inDevelopment : Bool) (templates : TemplateCache Program) (path : Path) :
    Journal.calls (Engine.compilation inDevelopment templates path) = [] := by
  obtain h | h := Engine.compilation_cases inDevelopment templates path <;> rw [h] <;> rfl

theorem calls_preparation (engine : Engine Program) (pipeline : Pipeline) (inDevelopment : Bool) :
    Journal.calls (engine.preparation pipeline inDevelopment) = [] := by
  obtain h | ⟨path, h⟩ := engine.preparation_cases pipeline inDevelopment <;> rw [h] <;> rfl

theorem calls_order (setting : Setting Program) (next : Option Step) :
    Journal.calls (setting.order next) = [] := by
  unfold Setting.order
  split <;> rfl

theorem calls_closing (setting : Setting Program) (step : TransformStep) (turn : Turn Program) :
    Journal.calls (setting.closing step turn) = [] := by
  obtain h | ⟨name, content, h⟩ := setting.closing_cases step turn <;> rw [h] <;> rfl

end Journal

namespace Engine

/--
The calls are made for these steps, one for each stylesheet and for each validator. A stylesheet is run as the
processor has compiled it from its path.
-/
inductive Called (engine : Engine Program) : List Step → Journal Program → Prop where
  | nil : Called engine [] []
  | respond {step : ResponseStep} (rest : Called engine steps calls) :
    Called engine (.respond step :: steps) calls
  | transform {step : TransformStep} {program : Program}
    (compiled : (engine.processor.compile (engine.config.templatePath step).normalize).result
      = .ok program)
    (rest : Called engine steps calls) :
    Called engine (.transform step :: steps) (.transformed program source parameters :: calls)
  | validate {step : ValidatorStep} (rest : Called engine steps calls) :
    Called engine (.validate step :: steps)
      (.validated step.schemaPaths source (ValidationReport.stepLabel step.name) :: calls)

variable {engine : Engine Program}

theorem Called.append {steps more : List Step} {calls moreCalls : Journal Program}
    (h : engine.Called steps calls) (hmore : engine.Called more moreCalls) :
    engine.Called (steps ++ more) (calls ++ moreCalls) := by
  induction h with
  | nil => exact hmore
  | respond _ ih => exact .respond ih
  | transform compiled _ ih => exact .transform compiled ih
  | validate _ ih => exact .validate ih

def Calling (engine : Engine Program) (turn : Turn Program) : Prop :=
  engine.Called [turn.step] (Journal.calls turn.requests)
    ∨ turn.failure ≠ none ∧ Journal.calls turn.requests = []

theorem Calling.called {turns : List (Turn Program)} (h : ∀ turn ∈ turns, engine.Calling turn)
    (succeeded : ∀ turn ∈ turns, turn.failure = none) :
    engine.Called (turns.map Turn.step) (Journal.calls (turns.flatMap Turn.requests)) := by
  induction turns with
  | nil => exact .nil
  | cons turn turns ih =>
    obtain ⟨hturn, hturns⟩ := List.forall_mem_cons.mp h
    obtain ⟨hsuccess, hrest⟩ := List.forall_mem_cons.mp succeeded
    have hcalled := hturn.resolve_right fun hfailure => hfailure.1 hsuccess
    rw [List.flatMap_cons, Journal.calls_append]
    exact hcalled.append (ih hturns hrest)

end Engine

namespace Setting

variable [ByteWriter σ] {turn : Turn Program} {before stage : Stage Program σ}

theorem calling_of_turn (setting : Setting Program) {step : Step} {next : Option Step}
    (hstep : step.isTerminal = false)
    (hcoherent : before.templates.Coherent setting.engine.processor)
    (h : setting.turn before next step = (turn, stage)) : setting.engine.Calling turn := by
  cases step with
  | serialize kind step => cases hstep
  | respond step =>
    obtain ⟨rfl, _⟩ := Prod.mk.inj h
    exact .inl (.respond .nil)
  | validate step =>
    obtain ⟨hstep, hrequests, _⟩ := validatorTurn_cases h
    left
    rw [hstep, hrequests]
    exact .validate .nil
  | transform step =>
    have hcompilation := Journal.calls_compilation setting.inDevelopment before.templates
      (setting.engine.config.templatePath step)
    have horder := Journal.calls_order setting next
    obtain ⟨hstep, ⟨hfailure, hrequests | hrequests⟩
      | ⟨program, templates, outlet, hcompiled, _, hrequests, _⟩⟩ := transformTurn_cases h
    · rw [← hrequests] at hcompilation
      exact .inr ⟨hfailure, hcompilation⟩
    · right
      rw [hrequests, Journal.calls_append, hcompilation, horder]
      exact ⟨hfailure, rfl⟩
    · obtain ⟨kept, hprogram, _⟩ :=
        Engine.program_of_coherent hcoherent setting.inDevelopment step
      obtain ⟨hresult, _⟩ := Prod.mk.inj (hprogram.symm.trans hcompiled)
      left
      rw [hstep, hrequests, Journal.calls_append, Journal.calls_append, Journal.calls_append,
        hcompilation, horder, Journal.calls_closing]
      exact .transform (exists_of_mapError_ok hresult) .nil

end Setting

namespace Engine

variable {engine : Engine Program}

/--
The calls of an execution that fails. If a step fails, they are the ones for the steps before it, and there may
be one more for itself.
-/
inductive Interrupted (engine : Engine Program) (plan : List Step) (turns : List (Turn Program))
    (calls : Journal Program) : Error → Prop where
  | unprepared {error : Error} (none : calls = []) : Interrupted engine plan turns calls error
  | broken {before after : List Step} {failing : Turn Program} {error : Error}
    (executed : executed plan = before ++ failing.step :: after)
    (last : turns.getLast? = some failing) (failure : failing.failure = some error)
    (called : engine.Called before calls ∨ engine.Called (before ++ [failing.step]) calls) :
    Interrupted engine plan turns calls error
  | undelivered {message : String} (called : engine.Called (executed plan) calls) :
    Interrupted engine plan turns calls (.io message (some "flush response"))

end Engine

section

variable {engine : Engine Program}

theorem Concluded.called {plan : List Step} {turns : List (Turn Program)}
    {counted : Nat × Option SerializerKind} (h : Concluded plan turns (.ok counted))
    (hcalling : ∀ turn ∈ turns, engine.Calling turn) :
    engine.Called (executed plan) (Journal.calls (turns.flatMap Turn.requests))
      ∧ counted = ((executed plan).length, (stop? plan).map Prod.fst) := by
  obtain ⟨hsteps, hsuccess, hcounted⟩ := h.of_ok
  rw [← hsteps, List.length_map]
  exact ⟨Engine.Calling.called hcalling hsuccess, hcounted⟩

theorem Concluded.interrupted {plan : List Step} {turns : List (Turn Program)} {error : Error}
    (h : Concluded plan turns (.error error)) (hcalling : ∀ turn ∈ turns, engine.Calling turn) :
    engine.Interrupted plan turns (Journal.calls (turns.flatMap Turn.requests)) error := by
  cases h with
  | @broken turns failing error part succeeded failure =>
    obtain ⟨after, hplan⟩ := part
    rw [List.map_append, List.append_assoc] at hplan
    have hbefore := Engine.Calling.called
      (fun turn hturn => hcalling turn (List.mem_append_left _ hturn)) succeeded
    apply Engine.Interrupted.broken hplan.symm List.getLast?_concat failure
    rw [List.flatMap_append, Journal.calls_append, List.flatMap_singleton]
    obtain hcalled | ⟨_, hnone⟩ := hcalling failing (by simp)
    · exact .inr (hbefore.append hcalled)
    · rw [hnone, List.append_nil]
      exact .inl hbefore

end

namespace Engine

variable [ByteWriter σ] {engine : Engine Program}

/--
The plan has one finishing step among the steps of the pipeline. An execution calls the processor for the steps
before the first serializer of the plan, and for no other ones.
-/
theorem Reached.execute_called (h : engine.Reached) (files : FileReader) (pipeline : Pipeline)
    (input : String) (parameters : ParameterSet) (inDevelopment : Bool) (out : σ) :
    let plan := pipeline.plan engine.config
    let turns := engine.turns files pipeline input parameters inDevelopment out
    let outcome := engine.execute files pipeline input parameters inDevelopment out
    (pipeline.steps ≠ [] → Finished (.transform engine.config.responseStep) pipeline.steps plan)
      ∧ (∀ summary, outcome.1 = .ok summary →
        engine.Called (executed plan) outcome.2.journal.calls
          ∧ summary.stepsRun = (executed plan).length
          ∧ summary.serializer = (stop? plan).map Prod.fst)
      ∧ ∀ error, outcome.1 = .error error →
        engine.Interrupted plan turns outcome.2.journal.calls error := by
  intro plan turns outcome
  obtain ⟨hrequests, hended⟩ : _ ∧ Ended plan inDevelopment turns outcome.1 :=
    engine.execute_turns files pipeline input parameters inDevelopment out
  have hcalling : ∀ turn ∈ turns, engine.Calling turn :=
    forall_turns_of_coherent h.coherent files pipeline input parameters inDevelopment out
      fun properties => (engine.setting files inDevelopment properties parameters).calling_of_turn
  have hcalls : outcome.2.journal.calls = Journal.calls (turns.flatMap Turn.requests) := by
    rw [← Journal.calls_requests, hrequests, Journal.calls_append, Journal.calls_preparation]
    rfl
  refine ⟨withFinishingStep_finished _, ?_⟩
  rw [hcalls]
  generalize outcome.1 = result at hended
  cases hended with
  | unprepared hnone =>
    refine ⟨nofun, ?_⟩
    intro error _
    rw [hnone]
    exact .unprepared rfl
  | broken hconcluded =>
    refine ⟨nofun, ?_⟩
    rintro _ ⟨⟩
    exact hconcluded.interrupted hcalling
  | undelivered _ hconcluded =>
    obtain ⟨hcalled, _⟩ := hconcluded.called hcalling
    refine ⟨nofun, ?_⟩
    rintro _ ⟨⟩
    exact .undelivered hcalled
  | completed hconcluded =>
    obtain ⟨hcalled, hcounted⟩ := hconcluded.called hcalling
    obtain ⟨hsteps, hserializer⟩ := Prod.mk.inj hcounted
    refine ⟨?_, nofun⟩
    rintro _ ⟨⟩
    exact ⟨hcalled, hsteps, hserializer⟩

def serializedPipeline : Pipeline where
  steps := [.validate { name := "first", schemaPaths := ["first.xsd"] },
    .transform { name := "second", templatePath := "second.xsl" }, .serialize .json { name := "third" },
    .transform { name := "fourth", templatePath := "fourth.xsl" }]

def serializedSummary : Summary where
  stepsRun := 2
  properties := .empty
  serializer := some .json

theorem execute_called_serializedPipeline :
    let outcome := sampleEngine.execute sampleFiles serializedPipeline "x" .empty false sampleSink
    sampleEngine.Reached ∧ outcome.1 = .ok serializedSummary
      ∧ sampleEngine.Called (serializedPipeline.steps.take 2) outcome.2.journal.calls := by
  intro outcome
  have hreached : sampleEngine.Reached := .new rfl
  have hresult : outcome.1 = .ok serializedSummary := eq_ok_of_toOption (by decide +kernel)
  obtain ⟨_, hsuccess, _⟩ :=
    hreached.execute_called sampleFiles serializedPipeline "x" .empty false sampleSink
  exact ⟨hreached, hresult, (hsuccess serializedSummary hresult).1⟩

end Engine
end XmlPipeline
