import XmlPipeline.Proofs.Engine.Correspondence
import XmlPipeline.Proofs.Engine.Steps
import XmlPipeline.Engine.Request

/-!
This module contains the engines that there can be. The cache of a new engine is empty, and everything that
is done with an engine keeps its cache coherent.
-/

namespace XmlPipeline

open RunM

namespace Setting

variable {Program σ : Type} [ByteWriter σ]

theorem faithful_eq (setting : Setting Program) : setting.Faithful (Eq : σ → σ → Prop) := by
  intro step program source parameters outlet out other h
  rw [h]
  exact ⟨rfl, rfl⟩

theorem run_corresponds_self (setting : Setting Program) (steps : List Step) (input : String) :
    Corresponds setting.engine.processor Eq (setting.run steps input : RunM Program σ Summary)
      (setting.run steps input) :=
  run_corresponds setting.inDevelopment setting.faithful_eq steps input

end Setting

namespace Run

variable {Program σ : Type} [ByteWriter σ]

theorem templates_writeBody (run : Run Program σ) (body : String) :
    (run.writeBody body).templates = run.templates := by
  unfold writeBody
  split <;> rfl

theorem templates_writeBodyIfUntouched (run : Run Program (CountingWriter σ)) (body : String) :
    (run.writeBodyIfUntouched body).templates = run.templates := by
  unfold writeBodyIfUntouched
  split
  · exact run.templates_writeBody body
  · rfl

theorem out_writeBody (run : Run Program σ) (body : String) :
    (run.writeBody body).out = (ByteWriter.deliver (utf8 body) run.out).2 := by
  unfold writeBody
  cases ByteWriter.deliver (utf8 body) run.out with
  | mk result out => cases result <;> rfl

theorem out_writeBodyIfUntouched (run : Run Program (CountingWriter σ)) (body : String) :
    (run.writeBodyIfUntouched body).out
      = if run.out.count = 0 then (ByteWriter.deliver (utf8 body) run.out).2 else run.out := by
  unfold writeBodyIfUntouched
  split
  · exact run.out_writeBody body
  · rfl

end Run

namespace Engine

section

variable {Program σ : Type} [ByteWriter σ]

theorem templates_answerFailure (inDevelopment : Bool) (error : Error)
    (run : Run Program (CountingWriter σ)) :
    (answerFailure inDevelopment error run).2.templates = run.templates := by
  unfold answerFailure
  split
  · apply Run.templates_writeBodyIfUntouched
  · cases inDevelopment with
    | true => apply Run.templates_writeBody
    | false => apply Run.templates_writeBodyIfUntouched

variable {engine : Engine Program}

theorem execution_corresponds (engine : Engine Program) (files : FileReader) (pipeline : Pipeline)
    (input : String) (parameters : ParameterSet) (inDevelopment : Bool) :
    Corresponds engine.processor Eq
      (engine.execution files pipeline input parameters inDevelopment : RunM Program σ Summary)
      (engine.execution files pipeline input parameters inDevelopment) := by
  rw [execution_eq]
  split
  · apply Corresponds.throw
  · apply Corresponds.bind (engine.outputProperties_corresponds _ _ pipeline)
    intro properties
    let setting := engine.setting files inDevelopment properties parameters
    split
    · exact .buffered (setting.run_corresponds_self (pipeline.plan engine.config) input)
    · exact setting.run_corresponds_self (pipeline.plan engine.config) input

theorem coherent_execute (h : engine.templates.Coherent engine.processor) (files : FileReader)
    (pipeline : Pipeline) (input : String) (parameters : ParameterSet) (inDevelopment : Bool)
    (out : σ) :
    (engine.execute files pipeline input parameters inDevelopment out).2.templates.Coherent
      engine.processor := by
  have hstart : Run.Related engine.processor Eq (engine.startRun inDevelopment out)
      (engine.startRun inDevelopment out) := ⟨rfl, h, h⟩
  exact (engine.execution_corresponds files pipeline input parameters inDevelopment _ _
    hstart).2.templates

theorem coherent_handle (h : engine.templates.Coherent engine.processor) (files : FileTree)
    (request : Request) (out : σ) :
    (engine.handle files request out).run.templates.Coherent engine.processor := by
  unfold handle serve
  simp only
  split
  · rw [Run.templates_writeBody]
    exact h
  · have hexecute := coherent_execute h files.reader request.pipeline request.input
      request.parameters engine.config.inDevelopment ({ inner := out } : CountingWriter σ)
    cases hresult : engine.execute files.reader request.pipeline request.input request.parameters
        engine.config.inDevelopment ({ inner := out } : CountingWriter σ) with
    | mk result run =>
      rw [hresult] at hexecute
      cases result with
      | ok summary => exact hexecute
      | error error =>
        have htemplates := templates_answerFailure engine.config.inDevelopment error run
        simp only [Run.redirect]
        rw [htemplates]
        exact hexecute

end

variable {Program : Type}

/--
The engines that come from a new one by what can be done with an engine.
-/
inductive Reached : Engine Program → Prop where
  | new {engine : Engine Program} (h : engine.templates = {}) : Reached engine
  | compile {engine : Engine Program} (h : Reached engine) (inDevelopment : Bool) (path : Path) :
    Reached <| engine.keeping
      (perform (engine.compile inDevelopment path) (engine.startRun inDevelopment ())).2
  | execute {engine : Engine Program} {σ : Type} [ByteWriter σ] (h : Reached engine)
    (files : FileReader) (pipeline : Pipeline) (input : String) (parameters : ParameterSet)
    (inDevelopment : Bool) (out : σ) :
    Reached (engine.keeping (engine.execute files pipeline input parameters inDevelopment out).2)
  | handle {engine : Engine Program} {σ : Type} [ByteWriter σ] (h : Reached engine)
    (files : FileTree) (request : Request) (out : σ) :
    Reached (engine.keeping (engine.handle files request out).run)
  | clearTemplates {engine : Engine Program} (h : Reached engine) : Reached engine.clearTemplates
  | close {engine : Engine Program} (h : Reached engine) : Reached engine.close
  | reopen {engine : Engine Program} (h : Reached engine) : Reached engine.reopen

theorem Reached.coherent {engine : Engine Program} (h : engine.Reached) :
    engine.templates.Coherent engine.processor := by
  induction h with
  | new h =>
    rw [h]
    exact TemplateCache.coherent_empty _
  | @compile engine _ inDevelopment path ih =>
    obtain ⟨after, hperform, htemplates⟩ :=
      engine.perform_compile inDevelopment path (engine.startRun inDevelopment ())
    obtain ⟨kept, hcompiled, hkept⟩ := compiled_of_coherent ih inDevelopment path
    have hstart : (engine.startRun inDevelopment ()).templates = engine.templates := rfl
    rw [hstart, hcompiled] at htemplates
    rw [hperform]
    unfold keeping
    simp only
    rw [htemplates]
    exact hkept
  | execute _ files pipeline input parameters inDevelopment out ih =>
    exact coherent_execute ih files pipeline input parameters inDevelopment out
  | handle _ files request out ih => exact coherent_handle ih files request out
  | clearTemplates _ ih => exact TemplateCache.coherent_empty _
  | close _ ih => exact ih
  | reopen _ ih => exact ih

end Engine
end XmlPipeline
