import XmlPipeline.Proofs.Engine.Frame
import XmlPipeline.Proofs.Engine.Modes

/-!
This module contains the comparison of an engine with a new one. All that an engine keeps from one request to
the next is its cache of stylesheets, and the main statement is that this has no effect on what the next
request is answered.
-/

namespace XmlPipeline

open RunM

namespace Setting

variable {Program σ : Type} [ByteWriter σ]

theorem runSteps_templates (setting : Setting Program) (templates : TemplateCache Program)
    (steps : List Step) (progress : Progress) :
    ({ setting with engine := { setting.engine with templates } } : Setting Program).runSteps steps
        progress
      = (setting.runSteps steps progress : RunM Program σ (Progress × Option SerializerKind)) := by
  induction steps generalizing progress with
  | nil => rfl
  | cons step rest ih =>
    unfold runSteps
    cases step with
    | serialize kind step => rfl
    | respond step => simp only [ih]
    | transform step =>
      simp only [ih]
      rfl
    | validate step =>
      simp only [ih]
      rfl

end Setting

namespace Engine

section

variable {Program σ : Type} [ByteWriter σ] {engine : Engine Program}

def renewed (engine : Engine Program) : Engine Program where
  config := engine.config
  processor := engine.processor
  serializers := engine.serializers
  diagnostics := engine.diagnostics
  isClosed := engine.isClosed

theorem execution_renewed (engine : Engine Program) (files : FileReader) (pipeline : Pipeline)
    (input : String) (parameters : ParameterSet) (inDevelopment : Bool) :
    (engine.renewed.execution files pipeline input parameters inDevelopment : RunM Program σ Summary)
      = engine.execution files pipeline input parameters inDevelopment := by
  have hrun : ∀ {τ : Type} [ByteWriter τ] (properties : OutputProperties),
      ((engine.renewed.setting files inDevelopment properties parameters).run
          (pipeline.plan engine.config) input : RunM Program τ Summary)
        = (engine.setting files inDevelopment properties parameters).run
          (pipeline.plan engine.config) input := by
    intro τ _ properties
    unfold Setting.run
    rw [← (engine.setting files inDevelopment properties parameters).runSteps_templates {}]
    rfl
  rw [execution_eq, execution_eq]
  split
  · rfl
  · have hproperties : (engine.renewed.outputProperties inDevelopment pipeline : RunM Program σ _)
        = engine.outputProperties inDevelopment pipeline := rfl
    have hplan : pipeline.plan engine.renewed.config = pipeline.plan engine.config := rfl
    rw [hproperties, hplan]
    congr 1
    funext properties
    rw [hrun, hrun]

structure Alike (inDevelopment : Bool) (outcome other : Except Error Summary × Run Program σ) :
    Prop where
  result : outcome.1 = other.1
  out : outcome.2.out = other.2.out
  listener : inDevelopment = true → outcome.2.listener = other.2.listener

theorem Reached.execute_renewed (h : engine.Reached) (files : FileReader) (pipeline : Pipeline)
    (input : String) (parameters : ParameterSet) (inDevelopment : Bool) (out : σ) :
    Alike inDevelopment (engine.execute files pipeline input parameters inDevelopment out)
      (engine.renewed.execute files pipeline input parameters inDevelopment out) := by
  have hperform : ∀ engine : Engine Program,
      engine.execute files pipeline input parameters inDevelopment out
        = perform (engine.execution files pipeline input parameters inDevelopment)
          (engine.startRun inDevelopment out) :=
    fun _ => rfl
  rw [hperform, hperform, execution_renewed]
  cases inDevelopment with
  | true =>
    -- No stylesheet is looked up, so the new cache can as well be put in place afterwards.
    let frame : Frame Program σ σ := { out := id, templates := fun _ => {} }
    have hframe : frame.Fits true := .inl rfl
    have hcommutes := engine.execution_commutes rfl hframe files pipeline input parameters
      (engine.startRun true out)
    have hstart : frame.apply (engine.startRun true out) = engine.renewed.startRun true out := rfl
    have hunder : engine.under frame.diagnostics = engine := rfl
    rw [hstart, hunder] at hcommutes
    rw [hcommutes]
    exact ⟨rfl, rfl, fun _ => rfl⟩
  | false =>
    -- Every stylesheet that is found in the cache is the one that would be compiled.
    have hstart : Run.Related engine.processor Eq (engine.startRun false out)
        (engine.renewed.startRun false out) :=
      ⟨rfl, h.coherent, TemplateCache.coherent_empty _⟩
    obtain ⟨hresult, hrelated⟩ := engine.execution_corresponds files pipeline input parameters false
      _ _ hstart
    exact ⟨hresult, hrelated.out, nofun⟩

theorem answerFailure_alike {inDevelopment : Bool} (error : Error)
    {run other : Run Program (CountingWriter σ)} (hout : run.out = other.out)
    (hlistener : inDevelopment = true → run.listener = other.listener) :
    (answerFailure inDevelopment error run).1 = (answerFailure inDevelopment error other).1
      ∧ (answerFailure inDevelopment error run).2.out
        = (answerFailure inDevelopment error other).2.out := by
  have hlogged : (run.log [failureRecord error]).out = (other.log [failureRecord error]).out := hout
  unfold answerFailure
  split
  · rw [Run.out_writeBodyIfUntouched, Run.out_writeBodyIfUntouched, hout]
    exact ⟨rfl, rfl⟩
  · cases inDevelopment with
    | true =>
      have hsame : (run.log [failureRecord error]).listener
          = (other.log [failureRecord error]).listener :=
        hlistener rfl
      refine ⟨rfl, ?_⟩
      simp only [↓reduceIte]
      rw [Run.out_writeBody, Run.out_writeBody, hlogged, hsame]
    | false =>
      refine ⟨rfl, ?_⟩
      simp only [Bool.false_eq_true, ↓reduceIte]
      rw [Run.out_writeBodyIfUntouched, Run.out_writeBodyIfUntouched, hlogged]

theorem Reached.serve_renewed (h : engine.Reached) (files : FileTree) (request : Request) (out : σ) :
    (engine.serve files request out).1 = (engine.renewed.serve files request out).1
      ∧ (engine.serve files request out).2.out = (engine.renewed.serve files request out).2.out := by
  let counting : CountingWriter σ := { inner := out }
  have halike := h.execute_renewed files.reader request.pipeline request.input request.parameters
    engine.config.inDevelopment counting
  unfold serve
  have hclosed : engine.renewed.isClosed = engine.isClosed := rfl
  have hmode : engine.renewed.config = engine.config := rfl
  rw [hclosed, hmode]
  simp only
  split
  · rw [Run.out_writeBody, Run.out_writeBody]
    exact ⟨rfl, rfl⟩
  · cases hfirst : engine.execute files.reader request.pipeline request.input request.parameters
        engine.config.inDevelopment counting with
    | mk result run =>
      cases hsecond : engine.renewed.execute files.reader request.pipeline request.input
          request.parameters engine.config.inDevelopment counting with
      | mk otherResult other =>
        rw [hfirst, hsecond] at halike
        obtain ⟨rfl, hout, hlistener⟩ := halike
        cases result with
        | ok summary => exact ⟨rfl, congrArg CountingWriter.inner hout⟩
        | error error =>
          obtain ⟨hhead, hwritten⟩ := answerFailure_alike error hout hlistener
          exact ⟨hhead, congrArg CountingWriter.inner hwritten⟩

end

variable {Program : Type} {engine : Engine Program}

/--
Whatever an engine has been used for, the next execution and the next request come to what they would come to
with a new engine: the same result, answer and bytes, and the same way to release the resources.
-/
theorem Reached.isolated (h : engine.Reached) :
    (∀ {σ : Type} [ByteWriter σ] (files : FileReader) (pipeline : Pipeline) (input : String)
      (parameters : ParameterSet) (inDevelopment : Bool) (out : σ),
      let outcome := engine.execute files pipeline input parameters inDevelopment out
      let fresh := engine.renewed.execute files pipeline input parameters inDevelopment out
      outcome.1 = fresh.1 ∧ outcome.2.out = fresh.2.out)
    ∧ ∀ {σ : Type} [ByteWriter σ] (files : FileTree) (request : Request) (out : σ),
      let service := engine.handle files request out
      let fresh := engine.renewed.handle files request out
      service.head = fresh.head ∧ service.run.out = fresh.run.out
        ∧ service.cleanups = fresh.cleanups ∧ service.files = fresh.files := by
  constructor
  · intro σ _ files pipeline input parameters inDevelopment out
    have halike := h.execute_renewed files pipeline input parameters inDevelopment out
    exact ⟨halike.result, halike.out⟩
  · intro σ _ files request out
    obtain ⟨hhead, hout⟩ := h.serve_renewed files request out
    exact ⟨hhead, hout, rfl, rfl⟩

theorem isolated_warmEngine :
    warmEngine.Reached
      ∧ (warmEngine.execute sampleFiles samplePipeline "y" .empty false sampleSink).1
        = (warmEngine.renewed.execute sampleFiles samplePipeline "y" .empty false sampleSink).1
      ∧ (warmEngine.handle {} { pipeline := samplePipeline, input := "y" } sampleSink).head
        = (warmEngine.renewed.handle {} { pipeline := samplePipeline, input := "y" } sampleSink).head := by
  have hreached : warmEngine.Reached :=
    .execute (.new rfl) sampleFiles samplePipeline "x" .empty false sampleSink
  obtain ⟨hexecute, hhandle⟩ := hreached.isolated
  exact ⟨hreached, (hexecute sampleFiles samplePipeline "y" .empty false sampleSink).1,
    (hhandle {} { pipeline := samplePipeline, input := "y" } sampleSink).1⟩

end Engine
end XmlPipeline
