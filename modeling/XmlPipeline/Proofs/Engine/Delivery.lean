import XmlPipeline.Proofs.Engine.Abort
import XmlPipeline.Proofs.Engine.Threading

/-!
This module contains what reaches the response in the course of an execution: nothing at all, or what the
last step that is run delivers, which is then a stylesheet.
-/

namespace XmlPipeline

open RunM

theorem getLast?_executed_cons {step last : Step} {plan : List Step} (hstep : step.isTerminal = false)
    (h : (executed plan).getLast? = some last) :
    (executed (step :: plan)).getLast? = some last := by
  rw [executed_cons hstep, List.getLast?_cons, h]
  rfl

namespace Setting

variable {Program σ : Type} [ByteWriter σ] {setting : Setting Program}

/--
What the last step that is run has delivered to the writer `out`. The step is a stylesheet. While it runs,
it writes to the final serializer only. Its destination, be it the final serializer or one that makes a body
in the end, is finished after it has ended well.
-/
inductive Delivered (setting : Setting Program) (plan : List Step) (calls : Journal Program)
    (out : σ) : σ → Prop where
  | writing {step : TransformStep} {program : Program} {source : Source} {parameters : ParameterSet}
    {properties : OutputProperties} (last : (executed plan).getLast? = some (.transform step))
    (call : calls.getLast? = some (.transformed program source parameters))
    (resolved : setting.resolved step (plan.find? (·.isTerminal)) = .ok (.final properties)) :
    Delivered setting plan calls out
      (setting.filled program source parameters ((Outlet.final properties).connect out)).out
  | finishing {step : TransformStep} {program : Program} {source : Source} {parameters : ParameterSet}
    {outlet : Outlet} (last : (executed plan).getLast? = some (.transform step))
    (call : calls.getLast? = some (.transformed program source parameters))
    (resolved : setting.resolved step (plan.find? (·.isTerminal)) = .ok outlet)
    (ending : (setting.engine.processor.transform program source parameters).outcome
      (outlet.connect out).answer [] = .ok ()) :
    Delivered setting plan calls out
      ((setting.filled program source parameters (outlet.connect out)).finish setting.files).2.out

theorem Delivered.cons {plan : List Step} {calls : Journal Program} {out after : σ}
    (h : setting.Delivered plan calls out after) {step : Step} (hstep : step.isTerminal = false)
    (more : Journal Program) : setting.Delivered (step :: plan) (more ++ calls) out after := by
  have hfind : (step :: plan).find? (·.isTerminal) = plan.find? (·.isTerminal) := by
    rw [List.find?_cons_of_neg]
    simp [hstep]
  cases h with
  | writing last call resolved =>
    rw [← hfind] at resolved
    apply Delivered.writing (getLast?_executed_cons hstep last) _ resolved
    rw [List.getLast?_append, call]
    rfl
  | finishing last call resolved ending =>
    rw [← hfind] at resolved
    apply Delivered.finishing (getLast?_executed_cons hstep last) _ resolved ending
    rw [List.getLast?_append, call]
    rfl

theorem executed_nil_of_resolved {step : TransformStep} {plan : List Step} {outlet : Outlet}
    (h : setting.resolved step plan.head? = .ok outlet) (houtlet : outlet ≠ .document) :
    executed plan = [] ∧ plan.find? (·.isTerminal) = plan.head? := by
  cases plan with
  | nil => exact ⟨rfl, rfl⟩
  | cons next plan =>
    cases next with
    | transform next => exact absurd (Except.ok.inj h).symm houtlet
    | validate next => exact absurd (Except.ok.inj h).symm houtlet
    | respond next => cases h
    | serialize kind next => exact ⟨rfl, rfl⟩

theorem runSteps_sameWork {plan : List Step} (hplan : executed plan = []) (progress : Progress)
    (run : Run Program σ) : (perform (setting.runSteps plan progress) run).2.SameWork run := by
  obtain rfl | ⟨kind, serializer, rest, rfl⟩ := exists_of_executed_nil hplan
  · exact ⟨rfl, rfl⟩
  · exact ⟨rfl, run.calls_log _⟩

theorem delivered_passage {step : TransformStep} {plan : List Step} {program : Program}
    {source : Source} {parameters : ParameterSet} {outlet : Outlet}
    (resolved : setting.resolved step plan.head? = .ok outlet) (houtlet : outlet ≠ .document)
    {out : σ}
    (hwritten : outlet.isMemory = false
      ∨ (setting.engine.processor.transform program source parameters).outcome
        (outlet.connect out).answer [] = .ok ()) :
    setting.Delivered (.transform step :: plan) [.transformed program source parameters] out
      (setting.passage step program source parameters outlet out).2 := by
  obtain ⟨hplan, hfind⟩ := executed_nil_of_resolved resolved houtlet
  have hlast : (executed (.transform step :: plan)).getLast? = some (.transform step) := by
    have hexecuted : executed (.transform step :: plan) = .transform step :: executed plan := rfl
    rw [hexecuted, hplan]
    rfl
  have hresolved : setting.resolved step
      ((Step.transform step :: plan).find? (·.isTerminal)) = .ok outlet :=
    (congrArg (setting.resolved step) hfind).trans resolved
  unfold passage
  simp only
  cases hending : (setting.engine.processor.transform program source parameters).outcome
      (outlet.connect out).answer [] with
  | ok => exact .finishing hlast rfl hresolved hending
  | error error =>
    rw [hending] at hwritten
    cases outlet with
    | document => exact absurd rfl houtlet
    | body format => simp [Outlet.isMemory] at hwritten
    | final properties => exact .writing hlast rfl hresolved

def Course (setting : Setting Program) (plan : List Step) (progress : Progress)
    (run : Run Program σ) (outcome : Except Error (Progress × Option SerializerKind) × Run Program σ) :
    Prop :=
  (outcome.2.out = run.out
    ∧ ∀ error, outcome.1 = .error error → setting.Aborted run.templates plan progress error)
  ∨ ∃ calls, outcome.2.journal.calls = run.journal.calls ++ calls
    ∧ setting.Delivered plan calls run.out outcome.2.out

variable {plan : List Step} {progress : Progress} {run : Run Program σ} {error : Error}

theorem course_of_aborted (h : setting.Aborted run.templates plan progress error) :
    setting.Course plan progress run (perform (setting.runSteps plan progress) run) := by
  have hsame : run.templates = run.templates := rfl
  obtain ⟨after, hrun, hout⟩ := h.perform_runSteps hsame
  rw [hrun]
  refine .inl ⟨hout, ?_⟩
  intro _ herror
  rw [← Except.error.inj herror]
  exact h

theorem course_of_written {step : TransformStep} {program : Program} {kept : TemplateCache Program}
    {outlet : Outlet} (compiled : setting.program run.templates step = (.ok program, kept))
    (resolved : setting.resolved step plan.head? = .ok outlet) (houtlet : outlet ≠ .document)
    (hwritten : outlet.isMemory = false
      ∨ (setting.transformation step program progress).outcome (outlet.connect run.out).answer []
        = .ok ()) :
    setting.Course (.transform step :: plan) progress run
      (perform (setting.runSteps (.transform step :: plan) progress) run) := by
  obtain ⟨between, hrun, hout, _, hcalls⟩ := perform_runSteps_transform compiled resolved progress
  obtain ⟨hplan, _⟩ := executed_nil_of_resolved resolved houtlet
  have hdelivered := delivered_passage resolved houtlet hwritten
  have hwork : (perform (setting.runSteps (.transform step :: plan) progress) run).2.SameWork
      between := by
    rw [hrun]
    split
    · exact ⟨rfl, rfl⟩
    · exact runSteps_sameWork hplan _ between
  refine .inr ⟨_, hwork.2.trans hcalls, ?_⟩
  rw [hwork.1, hout]
  exact hdelivered

theorem runSteps_course (setting : Setting Program) (plan : List Step) (progress : Progress)
    (run : Run Program σ) :
    setting.Course plan progress run (perform (setting.runSteps plan progress) run) := by
  induction plan generalizing progress run with
  | nil => exact .inl ⟨rfl, nofun⟩
  | cons step plan ih =>
    cases step with
    | serialize kind step => exact .inl ⟨rfl, nofun⟩
    | respond step =>
      rw [perform_runSteps_respond]
      obtain ⟨hout, haborted⟩ | ⟨calls, hcalls, hdelivered⟩ :=
        ih (progress.responded step) (run.log [(Step.respond step).record])
      · exact .inl ⟨hout, fun error herror => .afterResponse (haborted error herror)⟩
      · rw [run.calls_log] at hcalls
        exact .inr ⟨calls, hcalls, hdelivered.cons rfl []⟩
    | validate step =>
      cases hvalidation : setting.validation step progress with
      | error error => exact course_of_aborted (.validation hvalidation)
      | ok validation =>
        obtain ⟨between, hrun, hout, htemplates, call, hcall⟩ :=
          setting.perform_runSteps_validate step plan progress run
        rw [hvalidation] at hrun
        rw [hrun]
        obtain ⟨hafter, haborted⟩ | ⟨calls, hcalls, hdelivered⟩ :=
          ih (progress.validated step validation) between
        · rw [htemplates] at haborted
          refine .inl ⟨hafter.trans hout, ?_⟩
          intro error herror
          exact .afterValidation hvalidation (haborted error herror)
        · rw [hcall, List.append_assoc] at hcalls
          rw [hout] at hdelivered
          exact .inr ⟨_, hcalls, hdelivered.cons rfl _⟩
    | transform step =>
      cases hcompiled : setting.program run.templates step with
      | mk first kept =>
        cases first with
        | error error => exact course_of_aborted (.compilation hcompiled)
        | ok program =>
          cases hresolved : setting.resolved step plan.head? with
          | error error => exact course_of_aborted (.resolution hcompiled hresolved)
          | ok outlet =>
            cases outlet with
            | final properties => exact course_of_written hcompiled hresolved nofun (.inl rfl)
            | body format =>
              cases hending : (setting.transformation step program progress).ending with
              | error error =>
                exact course_of_aborted (.transformation hcompiled hresolved rfl hending)
              | ok =>
                cases hrendered : format.render setting.files (setting.made step program progress) with
                | error error =>
                  exact course_of_aborted (.rendering hcompiled hresolved hending hrendered)
                | ok bytes =>
                  apply course_of_written hcompiled hresolved nofun
                  right
                  unfold Outlet.connect
                  simp only
                  rw [Target.answer_body]
                  exact hending
            | document =>
              cases hending : (setting.transformation step program progress).ending with
              | error error =>
                exact course_of_aborted (.transformation hcompiled hresolved rfl hending)
              | ok =>
                obtain ⟨between, hrun, hout, hkept, hcall⟩ :=
                  perform_runSteps_transform hcompiled hresolved progress
                rw [passage_to_document hending] at hrun hout
                simp only at hrun hout
                rw [hrun]
                obtain ⟨hafter, haborted⟩ | ⟨calls, hcalls, hdelivered⟩ :=
                  ih (progress.transformed (some (setting.made step program progress))) between
                · rw [hkept] at haborted
                  refine .inl ⟨hafter.trans hout, ?_⟩
                  intro error herror
                  exact .afterTransformation hcompiled hresolved hending (haborted error herror)
                · rw [hcall, List.append_assoc] at hcalls
                  rw [hout] at hdelivered
                  exact .inr ⟨_, hcalls, hdelivered.cons rfl _⟩

end Setting
end XmlPipeline
