import XmlPipeline.Proofs.Engine.Passage

/-!
This module contains pairs of runs that go the same way. The two runs may write their responses to
different writers, and one of them may be in development mode. As long as no stylesheet passes
different things on to the two writers, the runs have the same results.
-/

namespace XmlPipeline

namespace Run

variable {Program σ τ : Type}

structure Related (processor : Processor Program) (writers : σ → τ → Prop) (run : Run Program σ)
    (other : Run Program τ) : Prop where
  out : writers run.out other.out
  templates : run.templates.Coherent processor
  otherTemplates : other.templates.Coherent processor

end Run

namespace RunM

variable {Program σ τ α β : Type} {processor : Processor Program} {writers : σ → τ → Prop}

def Corresponds (processor : Processor Program) (writers : σ → τ → Prop)
    (action : RunM Program σ α) (other : RunM Program τ α) : Prop :=
  ∀ run otherRun, Run.Related processor writers run otherRun →
    Agree (Run.Related processor writers) (perform action run) (perform other otherRun)

namespace Corresponds

theorem pure (value : α) :
    Corresponds processor writers (pure value : RunM Program σ α) (pure value) :=
  fun _ _ h => ⟨rfl, h⟩

theorem throw (error : Error) :
    Corresponds processor writers (throw error : RunM Program σ α) (throw error) :=
  fun _ _ h => ⟨rfl, h⟩

theorem ofExcept (result : Except Error α) :
    Corresponds processor writers (MonadExcept.ofExcept result : RunM Program σ α)
      (MonadExcept.ofExcept result) := by
  intro run other h
  rw [perform_ofExcept, perform_ofExcept]
  exact ⟨rfl, h⟩

theorem log (records otherRecords : List LogRecord) :
    Corresponds processor writers (RunM.log records : RunM Program σ Unit)
      (RunM.log otherRecords) :=
  fun _ _ h => ⟨rfl, h.out, h.templates, h.otherTemplates⟩

theorem note (occurrence otherOccurrence : Occurrence Program) :
    Corresponds processor writers (RunM.note occurrence : RunM Program σ Unit)
      (RunM.note otherOccurrence) :=
  fun _ _ h => ⟨rfl, h.out, h.templates, h.otherTemplates⟩

theorem bind {action : RunM Program σ α} {other : RunM Program τ α}
    {next : α → RunM Program σ β} {otherNext : α → RunM Program τ β}
    (h : Corresponds processor writers action other)
    (hnext : ∀ value, Corresponds processor writers (next value) (otherNext value)) :
    Corresponds processor writers (action >>= next) (other >>= otherNext) := by
  intro run otherRun hrun
  obtain ⟨hresult, hbetween⟩ := h run otherRun hrun
  rw [perform_bind, perform_bind]
  cases hfirst : perform action run with
  | mk result between =>
    cases hsecond : perform other otherRun with
    | mk otherResult otherBetween =>
      rw [hfirst, hsecond] at hresult hbetween
      obtain rfl : result = otherResult := hresult
      cases result with
      | error error => exact ⟨rfl, hbetween⟩
      | ok value => exact hnext value between otherBetween hbetween

theorem buffered [ByteWriter σ] {action : RunM Program ByteSink α}
    (h : Corresponds processor Eq action action) :
    Corresponds processor Eq (RunM.buffered action : RunM Program σ α) (RunM.buffered action) := by
  intro run other hrun
  have hinner := h (run.redirect {}) (other.redirect {})
    ⟨rfl, hrun.templates, hrun.otherTemplates⟩
  rw [perform_buffered, perform_buffered]
  cases hfirst : perform action (run.redirect {}) with
  | mk result filled =>
    cases hsecond : perform action (other.redirect {}) with
    | mk otherResult otherFilled =>
      rw [hfirst, hsecond] at hinner
      obtain ⟨rfl, hout, htemplates, hotherTemplates⟩ := hinner
      cases result with
      | error error => exact ⟨rfl, hrun.out, htemplates, hotherTemplates⟩
      | ok value =>
        simp only
        rw [hout, hrun.out]
        cases ByteWriter.deliver otherFilled.out.received.toList other.out with
        | mk delivered out => cases delivered <;> exact ⟨rfl, rfl, htemplates, hotherTemplates⟩

end Corresponds
end RunM

namespace Engine

open RunM

variable {Program σ τ : Type} {writers : σ → τ → Prop} (engine : Engine Program)
  (inDevelopment otherMode : Bool)

theorem compileStep_corresponds (step : TransformStep) :
    Corresponds engine.processor writers (engine.compileStep inDevelopment step)
      (engine.compileStep otherMode step) := by
  intro run other hrun
  obtain ⟨after, hperform, htemplates, hout, _⟩ := engine.perform_compileStep inDevelopment step run
  obtain ⟨otherAfter, hother, hotherTemplates, hotherOut, _⟩ :=
    engine.perform_compileStep otherMode step other
  obtain ⟨kept, hprogram, hkept⟩ := program_of_coherent hrun.templates inDevelopment step
  obtain ⟨otherKept, hotherProgram, hotherKept⟩ :=
    program_of_coherent hrun.otherTemplates otherMode step
  rw [hprogram] at hperform htemplates
  rw [hotherProgram] at hother hotherTemplates
  rw [hperform, hother]
  refine ⟨rfl, ?_, ?_, ?_⟩
  · rw [hout, hotherOut]
    exact hrun.out
  · rw [htemplates]
    exact hkept
  · rw [hotherTemplates]
    exact hotherKept

theorem outputProperties_corresponds (pipeline : Pipeline) :
    Corresponds engine.processor writers (engine.outputProperties inDevelopment pipeline)
      (engine.outputProperties otherMode pipeline) := by
  unfold outputProperties
  split
  · apply Corresponds.pure
  · apply Corresponds.bind
    · apply compileStep_corresponds
    · intro program
      apply Corresponds.pure

end Engine

namespace Setting

open RunM

section

variable {Program σ τ : Type} {writers : σ → τ → Prop} (setting : Setting Program)
  (inDevelopment : Bool)

theorem outlet_corresponds (current : Step) (next : Option Step) :
    Corresponds setting.engine.processor writers (setting.outlet current next)
      ({ setting with inDevelopment }.outlet current next) := by
  unfold outlet
  split
  · apply Corresponds.bind (.note _ _)
    intro _
    apply Corresponds.bind (.log _ _)
    intro _
    apply Corresponds.ofExcept
  · apply Corresponds.bind (.log _ _)
    intro _
    apply Corresponds.ofExcept

theorem runValidator_corresponds (step : ValidatorStep) (progress : Progress) :
    Corresponds setting.engine.processor writers (setting.runValidator step progress)
      ({ setting with inDevelopment }.runValidator step progress) := by
  unfold runValidator
  apply Corresponds.bind (.note _ _)
  intro _
  apply Corresponds.bind (.ofExcept _)
  intro validation
  simp only
  split
  · apply Corresponds.pure
  · apply Corresponds.pure
  · apply Corresponds.bind (.log _ _)
    intro _
    apply Corresponds.pure

end

variable {Program σ τ : Type} [ByteWriter σ] [ByteWriter τ] {writers : σ → τ → Prop}

def Faithful (setting : Setting Program) (writers : σ → τ → Prop) : Prop :=
  ∀ step program source parameters outlet out other, writers out other →
    Agree writers (setting.passage step program source parameters outlet out)
      (setting.passage step program source parameters outlet other)

variable {setting : Setting Program} (inDevelopment : Bool)

theorem transform_corresponds (hwriters : setting.Faithful writers) (step : TransformStep)
    (program : Program) (source : Source) (parameters : ParameterSet) (outlet : Outlet) :
    Corresponds setting.engine.processor writers
      (setting.transform step program source parameters outlet)
      ({ setting with inDevelopment }.transform step program source parameters outlet) := by
  intro run other hrun
  obtain ⟨after, hperform, hout, htemplates, _⟩ :=
    setting.perform_transform step program source parameters outlet run
  obtain ⟨otherAfter, hother, hotherOut, hotherTemplates, _⟩ :=
    { setting with inDevelopment }.perform_transform step program source parameters outlet other
  obtain ⟨hresult, hwritten⟩ := hwriters step program source parameters outlet _ _ hrun.out
  rw [hperform, hother]
  refine ⟨hresult, ?_, ?_, ?_⟩
  · rw [hout, hotherOut]
    exact hwritten
  · rw [htemplates]
    exact hrun.templates
  · rw [hotherTemplates]
    exact hrun.otherTemplates

theorem runTransform_corresponds (hwriters : setting.Faithful writers) (step : TransformStep)
    (next : Option Step) (progress : Progress) :
    Corresponds setting.engine.processor writers (setting.runTransform step next progress)
      ({ setting with inDevelopment }.runTransform step next progress) := by
  unfold runTransform
  apply Corresponds.bind (setting.engine.compileStep_corresponds _ _ step)
  intro program
  apply Corresponds.bind (setting.outlet_corresponds _ _ next)
  intro outlet
  apply Corresponds.bind (transform_corresponds _ hwriters step program _ _ outlet)
  intro document?
  apply Corresponds.pure

theorem runSteps_corresponds (hwriters : setting.Faithful writers) (steps : List Step)
    (progress : Progress) :
    Corresponds setting.engine.processor writers (setting.runSteps steps progress)
      ({ setting with inDevelopment }.runSteps steps progress) := by
  induction steps generalizing progress with
  | nil => apply Corresponds.pure
  | cons step rest ih =>
    unfold runSteps
    apply Corresponds.bind (.log _ _)
    intro _
    cases step with
    | serialize kind step => apply Corresponds.pure
    | respond step => apply ih
    | transform step =>
      apply Corresponds.bind (runTransform_corresponds _ hwriters step _ progress)
      intro reached
      apply ih
    | validate step =>
      apply Corresponds.bind (setting.runValidator_corresponds _ step progress)
      intro reached
      apply ih

theorem run_corresponds (hwriters : setting.Faithful writers) (steps : List Step) (input : String) :
    Corresponds setting.engine.processor writers (setting.run steps input)
      ({ setting with inDevelopment }.run steps input) := by
  unfold Setting.run
  apply Corresponds.bind (runSteps_corresponds _ hwriters steps _)
  intro outcome
  apply Corresponds.bind (.log _ _)
  intro _
  apply Corresponds.pure

end Setting
end XmlPipeline
