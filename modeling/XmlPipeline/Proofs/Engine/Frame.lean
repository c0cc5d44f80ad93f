import XmlPipeline.Proofs.Engine.Steps

/-!
This module contains frames, which are changes of the parts of the state that an action does not look at. It
makes no difference whether the state is put into a frame before such an action or after it. This is so for
what has happened before the action, and in development mode for the cache of stylesheets. It is also so for
what becomes of the results that are shown, if the action has other diagnostics then.
-/

namespace XmlPipeline

namespace Diagnostics

def told {Program : Type} (diagnostics : Diagnostics) (occurrence : Occurrence Program) :
    Occurrence Program :=
  match occurrence, diagnostics with
  | .shown step content, logged => .logged { level := .debug, message := stepHeading step ++ content }
  | _, _ => occurrence

theorem map_told_kept {Program : Type} (journal : Journal Program) : journal.map kept.told = journal := by
  have hkept : (kept.told : Occurrence Program → Occurrence Program) = id := by
    funext occurrence
    cases occurrence <;> rfl
  rw [hkept, List.map_id]

theorem map_told_logged {Program : Type} (diagnostics : Diagnostics) (records : List LogRecord) :
    (records.map .logged : Journal Program).map diagnostics.told = records.map .logged := by
  simp [told]

def replacing (diagnostics other : Diagnostics) : Diagnostics :=
  match diagnostics with
  | logged => logged
  | kept => other

end Diagnostics

def Engine.under {Program : Type} (engine : Engine Program) (diagnostics : Diagnostics) : Engine Program :=
  { engine with diagnostics := diagnostics.replacing engine.diagnostics }

def Setting.under {Program : Type} (setting : Setting Program) (diagnostics : Diagnostics) :
    Setting Program :=
  { setting with engine := setting.engine.under diagnostics }

/--
A change of the writer of the response and of the cache, a journal of what happened earlier, and the diagnostics
that get what would have been kept.
-/
structure Frame (Program σ τ : Type) where
  out : σ → τ
  templates : TemplateCache Program → TemplateCache Program := id
  before : Journal Program := []
  diagnostics : Diagnostics := .kept

namespace Frame

variable {Program σ τ : Type}

def apply (frame : Frame Program σ τ) (run : Run Program σ) : Run Program τ where
  out := frame.out run.out
  templates := frame.templates run.templates
  listener := run.listener
  journal := frame.before ++ run.journal.map frame.diagnostics.told

theorem apply_note (frame : Frame Program σ τ) (run : Run Program σ)
    (occurrence : Occurrence Program) :
    (frame.apply run).note (frame.diagnostics.told occurrence) = frame.apply (run.note occurrence) := by
  simp [apply, Run.note]

theorem apply_log (frame : Frame Program σ τ) (run : Run Program σ) (records : List LogRecord) :
    (frame.apply run).log records = frame.apply (run.log records) := by
  unfold apply Run.log
  rw [List.map_append, Diagnostics.map_told_logged, List.append_assoc]

theorem apply_hear (frame : Frame Program σ τ) (run : Run Program σ) (notice : Notice) :
    (frame.apply run).hear notice = frame.apply (run.hear notice) := by
  have hlistener : (frame.apply run).listener = run.listener := rfl
  unfold Run.hear
  rw [hlistener, frame.apply_log]
  rfl

theorem apply_present (frame : Frame Program σ τ) (run : Run Program σ) (diagnostics : Diagnostics)
    (output : String × String) :
    (frame.apply run).present (frame.diagnostics.replacing diagnostics) output
      = frame.apply (run.present diagnostics output) := by
  cases diagnostics with
  | logged => cases frame.diagnostics <;> exact frame.apply_log run _
  | kept =>
    have hnote := frame.apply_note run (.shown output.1 output.2)
    cases hframe : frame.diagnostics <;> rw [hframe] at hnote <;> exact hnote

/--
The frame leaves the cache alone, or it is not used at all because of the development mode.
-/
def Fits (frame : Frame Program σ τ) (inDevelopment : Bool) : Prop :=
  inDevelopment = true ∨ frame.templates = id

def within (frame : Frame Program σ τ) (ρ : Type) : Frame Program ρ ρ where
  out := id
  templates := frame.templates
  before := frame.before
  diagnostics := frame.diagnostics

end Frame

namespace RunM

variable {Program σ τ α β : Type} {change : Run Program σ → Run Program τ}
  {frame : Frame Program σ τ}

/--
The second action does to the changed state what the first one does to the state itself.
-/
def Commutes (change : Run Program σ → Run Program τ) (action : RunM Program σ α)
    (other : RunM Program τ α) : Prop :=
  ∀ run, perform other (change run) = (perform action run).map id change

namespace Commutes

theorem pure (value : α) :
    Commutes change (pure value : RunM Program σ α) (pure value) :=
  fun _ => rfl

theorem throw (error : Error) :
    Commutes change (throw error : RunM Program σ α) (throw error) :=
  fun _ => rfl

theorem ofExcept (result : Except Error α) :
    Commutes change (MonadExcept.ofExcept result : RunM Program σ α)
      (MonadExcept.ofExcept result) := by
  intro run
  rw [perform_ofExcept, perform_ofExcept]
  rfl

theorem set (run : Run Program σ) :
    Commutes change (set run : RunM Program σ PUnit) (set (change run)) :=
  fun _ => rfl

theorem modify {first : Run Program σ → Run Program σ} {second : Run Program τ → Run Program τ}
    (h : ∀ run, second (change run) = change (first run)) :
    Commutes change (modify first : RunM Program σ PUnit) (modify second) :=
  fun run => congrArg (Prod.mk (Except.ok ())) (h run)

theorem note (occurrence : Occurrence Program) :
    Commutes frame.apply (RunM.note occurrence : RunM Program σ Unit)
      (RunM.note (frame.diagnostics.told occurrence)) :=
  modify fun run => frame.apply_note run occurrence

theorem log (records : List LogRecord) :
    Commutes frame.apply (RunM.log records : RunM Program σ Unit) (RunM.log records) :=
  modify fun run => frame.apply_log run records

theorem hear (notice : Notice) :
    Commutes frame.apply (RunM.hear notice : RunM Program σ Unit) (RunM.hear notice) :=
  modify fun run => frame.apply_hear run notice

theorem bind {action : RunM Program σ α} {other : RunM Program τ α}
    {next : α → RunM Program σ β} {otherNext : α → RunM Program τ β}
    (h : Commutes change action other)
    (hnext : ∀ value, Commutes change (next value) (otherNext value)) :
    Commutes change (action >>= next) (other >>= otherNext) := by
  intro run
  rw [perform_bind, perform_bind, h run]
  cases perform action run with
  | mk result between =>
    cases result with
    | error error => rfl
    | ok value => exact hnext value between

theorem get_bind {next : Run Program σ → RunM Program σ β}
    {otherNext : Run Program τ → RunM Program τ β}
    (h : ∀ run, Commutes change (next run) (otherNext (change run))) :
    Commutes change (getThe (Run Program σ) >>= next) (getThe (Run Program τ) >>= otherNext) :=
  fun run => h run run

theorem tryCatch {action : RunM Program σ α} {other : RunM Program τ α}
    {handle : Error → RunM Program σ α} {otherHandle : Error → RunM Program τ α}
    (h : Commutes change action other)
    (hhandle : ∀ error, Commutes change (handle error) (otherHandle error)) :
    Commutes change (tryCatch action handle) (tryCatch other otherHandle) := by
  intro run
  rw [perform_tryCatch, perform_tryCatch, h run]
  cases perform action run with
  | mk result between =>
    cases result with
    | error error => exact hhandle error between
    | ok value => rfl

theorem forM_hear (notices : List Notice) :
    Commutes frame.apply (notices.forM RunM.hear : RunM Program σ PUnit)
      (notices.forM RunM.hear) := by
  induction notices with
  | nil => exact pure _
  | cons notice notices ih => exact bind (hear notice) fun _ => ih

theorem buffered [ByteWriter σ] {frame : Frame Program σ σ} (hout : frame.out = id)
    {action other : RunM Program ByteSink α}
    (h : Commutes (frame.within ByteSink).apply action other) :
    Commutes frame.apply (RunM.buffered action) (RunM.buffered other) := by
  intro run
  have hinner : perform other ((frame.apply run).redirect {})
      = (perform action (run.redirect {})).map id (frame.within ByteSink).apply :=
    h (run.redirect {})
  have hsame : (frame.apply run).out = run.out := congrFun hout run.out
  have hredirect : ∀ (filled : Run Program ByteSink) (out : σ),
      ((frame.within ByteSink).apply filled).redirect out = frame.apply (filled.redirect out) := by
    intro filled out
    simp [Frame.apply, Frame.within, Run.redirect, hout]
  have hfilled : ∀ filled : Run Program ByteSink,
      ((frame.within ByteSink).apply filled).out = filled.out := fun _ => rfl
  rw [perform_buffered, perform_buffered, hinner, hsame]
  cases perform action (run.redirect {}) with
  | mk result filled =>
    simp only [Prod.map, id]
    cases result with
    | error error => simp only [hredirect]
    | ok value =>
      simp only [hfilled]
      cases ByteWriter.deliver filled.out.received.toList run.out with
      | mk delivered out => cases delivered <;> simp only [hredirect]

theorem grows {action : RunM Program σ α}
    (h : ∀ before, Commutes (Frame.apply { out := id, before }) action action) (run : Run Program σ) :
    run.journal <+: (perform action run).2.journal := by
  let unjournaled : Run Program σ := { run with journal := [] }
  have hrun : Frame.apply { out := id, before := run.journal } unjournaled = run := by
    simp [Frame.apply, unjournaled]
  have hperform := h run.journal unjournaled
  rw [hrun] at hperform
  rw [hperform]
  exact List.prefix_append _ _

end Commutes
end RunM

namespace Engine

open RunM

variable {Program σ τ : Type} {frame : Frame Program σ τ} (engine : Engine Program)
  {inDevelopment : Bool}

theorem compile_commutes (h : frame.Fits inDevelopment) (path : Path) :
    Commutes frame.apply (engine.compile inDevelopment path) (engine.compile inDevelopment path) := by
  unfold compile
  apply Commutes.get_bind
  intro run
  have hfound : (if inDevelopment then none else (frame.apply run).templates.find? path)
      = if inDevelopment then none else run.templates.find? path := by
    obtain rfl | hid := h
    · rfl
    · simp [Frame.apply, hid]
  simp only
  rw [hfound]
  split
  · apply Commutes.pure
  · apply Commutes.bind (.log _)
    intro _
    apply Commutes.bind (.note _)
    intro _
    apply Commutes.bind (.forM_hear _)
    intro _
    apply Commutes.bind (.ofExcept _)
    intro program
    split
    · next hmode =>
      apply Commutes.bind
      · apply Commutes.modify
        intro run
        have hid : frame.templates = id := h.resolve_left (by simpa using hmode)
        simp [Frame.apply, hid]
      · intro _
        apply Commutes.pure
    · apply Commutes.pure

theorem compileStep_commutes (h : frame.Fits inDevelopment) (step : TransformStep) :
    Commutes frame.apply (engine.compileStep inDevelopment step)
      (engine.compileStep inDevelopment step) := by
  unfold compileStep
  apply Commutes.tryCatch (engine.compile_commutes h _)
  intro error
  apply Commutes.throw

theorem outputProperties_commutes (h : frame.Fits inDevelopment) (pipeline : Pipeline) :
    Commutes frame.apply (engine.outputProperties inDevelopment pipeline)
      (engine.outputProperties inDevelopment pipeline) := by
  unfold outputProperties
  split
  · apply Commutes.pure
  · apply Commutes.bind (engine.compileStep_commutes h _)
    intro program
    apply Commutes.pure

end Engine

theorem Transformation.conduct_frame {Program σ : Type} [ByteWriter σ] {frame : Frame Program σ σ}
    (transformation : Transformation) (destination : Destination σ) (run : Run Program σ) :
    transformation.conduct destination (frame.apply run)
      = (transformation.conduct destination run).map id (.map id frame.apply) := by
  induction transformation generalizing destination run with
  | finish => rfl
  | fail error => rfl
  | report notice next ih =>
    unfold conduct
    rw [frame.apply_hear]
    exact ih destination (run.hear notice)
  | emit event next ih => exact ih _ (destination.write event).2 run

namespace Setting

open RunM

section

variable {Program σ τ : Type} {frame : Frame Program σ τ} (setting : Setting Program)

theorem outlet_commutes (current : Step) (next : Option Step) :
    Commutes frame.apply (setting.outlet current next) (setting.outlet current next) := by
  unfold outlet
  split
  · apply Commutes.bind (.note _)
    intro _
    apply Commutes.bind (.log _)
    intro _
    apply Commutes.ofExcept
  · apply Commutes.bind (.log _)
    intro _
    apply Commutes.ofExcept

theorem runValidator_commutes (step : ValidatorStep) (progress : Progress) :
    Commutes frame.apply (setting.runValidator step progress)
      (setting.runValidator step progress) := by
  unfold runValidator
  apply Commutes.bind (.note _)
  intro _
  apply Commutes.bind (.ofExcept _)
  intro validation
  simp only
  split
  · apply Commutes.pure
  · apply Commutes.pure
  · apply Commutes.bind (.log _)
    intro _
    apply Commutes.pure

end

variable {Program σ : Type} [ByteWriter σ] {frame : Frame Program σ σ} (setting : Setting Program)

theorem transform_commutes (hout : frame.out = id) (step : TransformStep) (program : Program)
    (source : Source) (parameters : ParameterSet) (outlet : Outlet) :
    Commutes frame.apply (setting.transform step program source parameters outlet)
      ((setting.under frame.diagnostics).transform step program source parameters outlet) := by
  have hredirect : ∀ (run : Run Program σ) (out : σ),
      (frame.apply run).redirect out = frame.apply (run.redirect out) := by
    intro run out
    simp [Frame.apply, Run.redirect, hout]
  unfold Setting.transform
  apply Commutes.bind (.note _)
  intro _
  apply Commutes.get_bind
  intro run
  have hsame : (frame.apply run).out = run.out := congrFun hout run.out
  simp only [Setting.under, Engine.under]
  rw [Transformation.conduct_frame, hsame]
  cases (setting.engine.processor.transform program source parameters).conduct
      { target := outlet.connect run.out
        tee := Tee.ofStep? setting.inDevelopment (.transform step) } run with
  | mk result reached =>
    obtain ⟨destination, conducted⟩ := reached
    simp only [Prod.map, id]
    rw [hredirect]
    apply Commutes.bind (.set _)
    intro _
    apply Commutes.bind (.ofExcept _)
    intro _
    apply Commutes.bind
    · apply Commutes.modify
      intro run
      apply hredirect
    · intro _
      apply Commutes.bind (.ofExcept _)
      intro _
      split
      · apply Commutes.bind
        · apply Commutes.modify
          intro run
          apply Frame.apply_present
        · intro _
          apply Commutes.pure
      · apply Commutes.pure

theorem runTransform_commutes (hout : frame.out = id) (h : frame.Fits setting.inDevelopment)
    (step : TransformStep) (next : Option Step) (progress : Progress) :
    Commutes frame.apply (setting.runTransform step next progress)
      ((setting.under frame.diagnostics).runTransform step next progress) := by
  unfold runTransform
  apply Commutes.bind (setting.engine.compileStep_commutes h step)
  intro program
  apply Commutes.bind (setting.outlet_commutes _ next)
  intro outlet
  apply Commutes.bind (setting.transform_commutes hout step program _ _ outlet)
  intro document?
  apply Commutes.pure

theorem runSteps_commutes (hout : frame.out = id) (h : frame.Fits setting.inDevelopment)
    (steps : List Step) (progress : Progress) :
    Commutes frame.apply (setting.runSteps steps progress)
      ((setting.under frame.diagnostics).runSteps steps progress) := by
  induction steps generalizing progress with
  | nil => apply Commutes.pure
  | cons step rest ih =>
    unfold runSteps
    apply Commutes.bind (.log _)
    intro _
    cases step with
    | serialize kind step => apply Commutes.pure
    | respond step => apply ih
    | transform step =>
      apply Commutes.bind (setting.runTransform_commutes hout h step _ progress)
      intro reached
      apply ih
    | validate step =>
      apply Commutes.bind (setting.runValidator_commutes step progress)
      intro reached
      apply ih

theorem run_commutes (hout : frame.out = id) (h : frame.Fits setting.inDevelopment)
    (steps : List Step) (input : String) :
    Commutes frame.apply (setting.run steps input)
      ((setting.under frame.diagnostics).run steps input) := by
  unfold Setting.run
  apply Commutes.bind (setting.runSteps_commutes hout h steps _)
  intro outcome
  apply Commutes.bind (.log _)
  intro _
  apply Commutes.pure

end Setting

namespace Engine

open RunM

variable {Program σ : Type} [ByteWriter σ]

theorem execution_commutes (engine : Engine Program) {frame : Frame Program σ σ}
    (hout : frame.out = id) {inDevelopment : Bool} (h : frame.Fits inDevelopment)
    (files : FileReader) (pipeline : Pipeline) (input : String) (parameters : ParameterSet) :
    Commutes frame.apply (engine.execution files pipeline input parameters inDevelopment)
      ((engine.under frame.diagnostics).execution files pipeline input parameters inDevelopment) := by
  rw [execution_eq, execution_eq]
  split
  · apply Commutes.throw
  · apply Commutes.bind (engine.outputProperties_commutes h pipeline)
    intro properties
    let setting := engine.setting files inDevelopment properties parameters
    have hwithin : (frame.within ByteSink).Fits setting.inDevelopment := h
    split
    · exact .buffered hout (setting.run_commutes rfl hwithin (pipeline.plan engine.config) input)
    · exact setting.run_commutes hout h (pipeline.plan engine.config) input

end Engine
end XmlPipeline
