import XmlPipeline.Proofs.Engine.Action

/-!
This module contains what a run makes of the cache of compiled stylesheets. As long as each stylesheet in
the cache is what the processor makes of its path, a stylesheet from the cache is as good as a new one.
-/

namespace XmlPipeline

open RunM

namespace TemplateCache

variable {Program : Type} {processor : Processor Program} {cache : TemplateCache Program}

/--
Each stylesheet in the cache is what the processor makes of its path.
-/
def Coherent (cache : TemplateCache Program) (processor : Processor Program) : Prop :=
  ∀ path program, cache.find? path = some program →
    (processor.compile path.normalize).result = .ok program

theorem coherent_empty (processor : Processor Program) :
    ({} : TemplateCache Program).Coherent processor := by
  intro path program h
  cases h

theorem Coherent.store (h : cache.Coherent processor) {path : Path} {program : Program}
    (hprogram : (processor.compile path.normalize).result = .ok program) :
    (cache.store path program).Coherent processor := by
  intro other found hfound
  rw [find?_store] at hfound
  split at hfound
  · next hsame =>
    rw [hsame, hprogram]
    exact congrArg Except.ok (Option.some.inj hfound)
  · exact h other found hfound

end TemplateCache

theorem RunM.perform_forM_hear {Program σ : Type} (notices : List Notice) (run : Run Program σ) :
    ∃ after, perform (notices.forM RunM.hear) run = (.ok (), after)
      ∧ after.templates = run.templates := by
  induction notices generalizing run with
  | nil => exact ⟨run, rfl, rfl⟩
  | cons notice notices ih => exact ih (run.hear notice)

namespace Engine

variable {Program σ : Type} {engine : Engine Program} {templates : TemplateCache Program}

def compiled (engine : Engine Program) (inDevelopment : Bool) (templates : TemplateCache Program)
    (path : Path) : Except Error Program × TemplateCache Program :=
  match if inDevelopment then none else templates.find? path with
  | some program => (.ok program, templates)
  | none =>
    match (engine.processor.compile path.normalize).result with
    | .error error => (.error error, templates)
    | .ok program =>
      (.ok program, if inDevelopment then templates else templates.store path program)

theorem perform_compile (engine : Engine Program) (inDevelopment : Bool) (path : Path)
    (run : Run Program σ) :
    ∃ after, perform (engine.compile inDevelopment path) run
        = ((engine.compiled inDevelopment run.templates path).1, after)
      ∧ after.templates = (engine.compiled inDevelopment run.templates path).2 := by
  unfold compile compiled
  rw [get_bind]
  simp only
  cases (if inDevelopment then none else run.templates.find? path) with
  | some program => exact ⟨run, rfl, rfl⟩
  | none =>
    obtain ⟨heard, hhear, htemplates⟩ :=
      perform_forM_hear (engine.processor.compile path.normalize).notices
        ((run.log [compileRecord path.normalize]).note (.compiled path.normalize))
    simp only
    rw [log_bind, note_bind, perform_bind, hhear]
    simp only
    rw [ofExcept_bind]
    cases (engine.processor.compile path.normalize).result with
    | error error => exact ⟨heard, rfl, htemplates⟩
    | ok program =>
      cases inDevelopment with
      | true => exact ⟨heard, rfl, htemplates⟩
      | false => exact ⟨_, rfl, congrArg (·.store path program) htemplates⟩

def program (engine : Engine Program) (inDevelopment : Bool) (templates : TemplateCache Program)
    (step : TransformStep) : Except Error Program × TemplateCache Program :=
  (engine.compiled inDevelopment templates (engine.config.templatePath step)).map
    (.mapError (.transformationFailed step.name)) id

theorem perform_compileStep (engine : Engine Program) (inDevelopment : Bool) (step : TransformStep)
    (run : Run Program σ) :
    ∃ after, perform (engine.compileStep inDevelopment step) run
        = ((engine.program inDevelopment run.templates step).1, after)
      ∧ after.templates = (engine.program inDevelopment run.templates step).2
      ∧ after.SameWork run := by
  have hquiet := engine.quiet_compileStep inDevelopment step run
  obtain ⟨after, hcompile, htemplates⟩ :=
    engine.perform_compile inDevelopment (engine.config.templatePath step) run
  unfold program
  unfold compileStep at hquiet ⊢
  rw [perform_tryCatch, hcompile] at hquiet ⊢
  cases hcompiled : engine.compiled inDevelopment run.templates (engine.config.templatePath step) with
  | mk result templates =>
    rw [hcompiled] at htemplates hquiet
    cases result <;> exact ⟨after, rfl, htemplates, hquiet⟩

def declared (engine : Engine Program) (inDevelopment : Bool) (templates : TemplateCache Program)
    (pipeline : Pipeline) : Except Error OutputProperties × TemplateCache Program :=
  match pipeline.lastTransform? with
  | none => (.ok .empty, templates)
  | some step =>
    (engine.program inDevelopment templates step).map (.map engine.processor.outputProperties) id

theorem perform_outputProperties (engine : Engine Program) (inDevelopment : Bool)
    (pipeline : Pipeline) (run : Run Program σ) :
    ∃ after, perform (engine.outputProperties inDevelopment pipeline) run
        = ((engine.declared inDevelopment run.templates pipeline).1, after)
      ∧ after.templates = (engine.declared inDevelopment run.templates pipeline).2
      ∧ after.SameWork run := by
  unfold outputProperties declared
  cases pipeline.lastTransform? with
  | none => exact ⟨run, rfl, rfl, rfl, rfl⟩
  | some step =>
    obtain ⟨after, hcompile, hafter⟩ := engine.perform_compileStep inDevelopment step run
    refine ⟨after, ?_, hafter⟩
    rw [perform_bind, hcompile]
    simp only
    cases engine.program inDevelopment run.templates step with
    | mk result templates => cases result <;> rfl

/-! ### Coherent caches -/

theorem compiled_of_coherent (h : templates.Coherent engine.processor) (inDevelopment : Bool)
    (path : Path) :
    ∃ kept, engine.compiled inDevelopment templates path
        = ((engine.processor.compile path.normalize).result, kept)
      ∧ kept.Coherent engine.processor := by
  unfold compiled
  split
  · next program hfound =>
    split at hfound
    · cases hfound
    · rw [h path program hfound]
      exact ⟨templates, rfl, h⟩
  · cases hresult : (engine.processor.compile path.normalize).result with
    | error error => exact ⟨templates, rfl, h⟩
    | ok program =>
      cases inDevelopment with
      | true => exact ⟨templates, rfl, h⟩
      | false => exact ⟨_, rfl, h.store hresult⟩

theorem program_of_coherent (h : templates.Coherent engine.processor) (inDevelopment : Bool)
    (step : TransformStep) :
    ∃ kept, engine.program inDevelopment templates step
        = ((engine.processor.compile (engine.config.templatePath step).normalize).result.mapError
          (.transformationFailed step.name), kept)
      ∧ kept.Coherent engine.processor := by
  obtain ⟨kept, hcompiled, hkept⟩ :=
    compiled_of_coherent h inDevelopment (engine.config.templatePath step)
  unfold program
  rw [hcompiled]
  exact ⟨kept, rfl, hkept⟩

theorem coherent_declared (h : templates.Coherent engine.processor) (inDevelopment : Bool)
    (pipeline : Pipeline) :
    (engine.declared inDevelopment templates pipeline).2.Coherent engine.processor := by
  unfold declared
  split
  · exact h
  · next step _ =>
    obtain ⟨kept, hprogram, hkept⟩ := program_of_coherent h inDevelopment step
    rw [hprogram]
    exact hkept

end Engine
end XmlPipeline
