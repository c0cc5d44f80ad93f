import XmlPipeline.Engine.Request
import XmlPipeline.Proofs.Engine.Delivery

/-!
This module contains the executions that fail, and the service of requests whose executions fail. The main
statement is that an execution in production mode writes nothing to the response until the last step that is
run delivers its result, and that a request whose execution fails before that is answered with one error
body.
-/

namespace XmlPipeline

open RunM

theorem utf8_injective {s t : String} (h : utf8 s = utf8 t) : s = t := by
  have hbytes : s.toList.utf8Encode = t.toList.utf8Encode := congrArg List.toByteArray h
  rw [String.utf8Encode_toList, String.utf8Encode_toList] at hbytes
  exact String.toByteArray_inj.mp hbytes

namespace CountingWriter

def reliable {σ : Type} [ByteWriter σ] (reliable : Reliable σ) : Reliable (CountingWriter σ) where
  received writer := reliable.received writer.inner
  healthy writer := reliable.healthy writer.inner
  write := by
    intro writer bytes h hbytes
    obtain ⟨taken, inner, hwrite, hpositive, hreceived⟩ := reliable.write h hbytes
    refine ⟨taken, { inner, count := writer.count + taken }, ?_, hpositive, hreceived⟩
    simp only [ByteWriter.write, CountingWriter.write] at hwrite ⊢
    rw [hwrite]
  flush := by
    intro writer h
    obtain ⟨inner, hflush, hreceived⟩ := reliable.flush h
    refine ⟨{ writer with inner }, ?_, hreceived⟩
    simp only [ByteWriter.flush, CountingWriter.flush] at hflush ⊢
    rw [hflush]

end CountingWriter

namespace Run

variable {Program σ : Type} [ByteWriter σ] (reliable : Reliable σ)

theorem received_writeBody {run : Run Program σ} (h : reliable.healthy run.out) (body : String) :
    reliable.received (run.writeBody body).out = reliable.received run.out ++ utf8 body := by
  obtain ⟨out, hdeliver, hreceived, _⟩ := reliable.deliver (utf8 body) h
  unfold writeBody
  rw [hdeliver]
  exact hreceived

theorem received_writeBodyIfUntouched {run : Run Program (CountingWriter σ)} {out : σ}
    (h : run.out = { inner := out }) (hout : reliable.healthy out) (body : String) :
    reliable.received (run.writeBodyIfUntouched body).out.inner
      = reliable.received out ++ utf8 body := by
  have hhealthy : (CountingWriter.reliable reliable).healthy run.out := by
    rw [h]
    exact hout
  have hreceived := received_writeBody (CountingWriter.reliable reliable) hhealthy body
  have hcount : run.out.count = 0 := by rw [h]
  unfold writeBodyIfUntouched
  rw [if_pos hcount]
  rw [h] at hreceived
  exact hreceived

end Run

namespace Setting

variable {Program σ : Type} [ByteWriter σ] {run after : Run Program σ}

theorem run_of_error (setting : Setting Program) {steps : List Step} {input : String} {error : Error}
    (h : perform (setting.runSteps steps { source := .text input }) run = (.error error, after)) :
    perform (setting.run steps input) run = (.error error, after) := by
  unfold Setting.run
  rw [perform_bind, h]

theorem run_sameWork (setting : Setting Program) (steps : List Step) (input : String)
    (run : Run Program σ) :
    (perform (setting.run steps input) run).2.SameWork
        (perform (setting.runSteps steps { source := .text input }) run).2
      ∧ ∀ error, (perform (setting.run steps input) run).1 = .error error →
        (perform (setting.runSteps steps { source := .text input }) run).1 = .error error := by
  cases hsteps : perform (setting.runSteps steps { source := .text input }) run with
  | mk result after =>
    cases result with
    | error error =>
      rw [setting.run_of_error hsteps]
      refine ⟨⟨rfl, rfl⟩, ?_⟩
      intro _ herror
      rw [Except.error.inj herror]
    | ok outcome =>
      unfold Setting.run
      rw [perform_bind, hsteps]
      simp only
      rw [log_bind]
      exact ⟨⟨rfl, after.calls_log _⟩, nofun⟩

end Setting

namespace Engine

variable {Program : Type}

/--
The execution of a pipeline in production mode fails with this error, and nothing is written to the response.
-/
inductive Aborted (engine : Engine Program) (files : FileReader) (pipeline : Pipeline)
    (input : String) (parameters : ParameterSet) : Error → Prop where
  | empty (isEmpty : pipeline.steps.isEmpty) :
    Aborted engine files pipeline input parameters (.notFound none)
  | properties {kept : TemplateCache Program} {error : Error}
    (nonempty : pipeline.steps.isEmpty = false)
    (declared : engine.declared false engine.templates pipeline = (.error error, kept)) :
    Aborted engine files pipeline input parameters error
  | steps {properties : OutputProperties} {kept : TemplateCache Program} {error : Error}
    (nonempty : pipeline.steps.isEmpty = false)
    (declared : engine.declared false engine.templates pipeline = (.ok properties, kept))
    (aborted : (engine.setting files false properties parameters).Aborted kept
      (pipeline.plan engine.config) { source := .text input } error) :
    Aborted engine files pipeline input parameters error

def failureBody (engine : Engine Program) (error : Error) : String :=
  if engine.isClosed then unavailableBody
  else if error.isNotFound then notFoundBody
  else serverErrorBody

section

variable {σ : Type} [ByteWriter σ] {engine : Engine Program} {files : FileReader}
  {pipeline : Pipeline} {input : String} {parameters : ParameterSet} {error : Error}

theorem execute_of_empty (h : pipeline.steps.isEmpty) (out : σ) :
    engine.execute files pipeline input parameters false out
      = (.error (.notFound none), engine.startRun false out) := by
  have hperform : engine.execute files pipeline input parameters false out
      = perform (engine.execution files pipeline input parameters false) (engine.startRun false out) :=
    rfl
  rw [hperform, execution_eq, if_pos h]
  rfl

theorem execute_of_nonempty (h : pipeline.steps.isEmpty = false) (out : σ) :
    ∃ between : Run Program σ, engine.execute files pipeline input parameters false out
        = (match (engine.declared false engine.templates pipeline).1 with
          | .error error => (.error error, between)
          | .ok properties =>
            perform ((engine.setting files false properties parameters).run
              (pipeline.plan engine.config) input) between)
      ∧ between.templates = (engine.declared false engine.templates pipeline).2
      ∧ between.SameWork (engine.startRun false out) := by
  obtain ⟨between, hproperties, hbetween⟩ :=
    engine.perform_outputProperties false pipeline (engine.startRun false out)
  refine ⟨between, ?_, hbetween⟩
  have hperform : engine.execute files pipeline input parameters false out
      = perform (engine.execution files pipeline input parameters false) (engine.startRun false out) :=
    rfl
  have hstart : (engine.startRun false out).templates = engine.templates := rfl
  rw [hstart] at hproperties
  rw [hperform, execution_eq, if_neg (by simp [h]), perform_bind, hproperties]
  cases (engine.declared false engine.templates pipeline).1 <;> rfl

theorem Aborted.execute (h : engine.Aborted files pipeline input parameters error) (out : σ) :
    ∃ after, engine.execute files pipeline input parameters false out = (.error error, after)
      ∧ after.out = out := by
  cases h with
  | empty isEmpty => exact ⟨_, execute_of_empty isEmpty out, rfl⟩
  | properties nonempty declared =>
    obtain ⟨between, hexecute, _, hout, _⟩ := execute_of_nonempty nonempty out
    rw [declared] at hexecute
    exact ⟨between, hexecute, hout⟩
  | @steps properties _ _ nonempty declared aborted =>
    obtain ⟨between, hexecute, hkept, hout, _⟩ := execute_of_nonempty nonempty out
    rw [declared] at hexecute hkept
    obtain ⟨after, hsteps, hafter⟩ := aborted.perform_runSteps hkept
    have hrun := (engine.setting files false properties parameters).run_of_error hsteps
    exact ⟨after, hexecute.trans hrun, hafter.trans hout⟩

/--
The execution leaves the writer as it was, and then it fails only if it is aborted, or else it delivers
something.
-/
def Course (engine : Engine Program) (files : FileReader) (pipeline : Pipeline) (input : String)
    (parameters : ParameterSet) (out : σ) (outcome : Except Error Summary × Run Program σ) : Prop :=
  (outcome.2.out = out
    ∧ ∀ error, outcome.1 = .error error → engine.Aborted files pipeline input parameters error)
  ∨ ∃ properties kept, engine.declared false engine.templates pipeline = (.ok properties, kept)
    ∧ (engine.setting files false properties parameters).Delivered (pipeline.plan engine.config)
      outcome.2.journal.calls out outcome.2.out

theorem execute_course (engine : Engine Program) (files : FileReader) (pipeline : Pipeline)
    (input : String) (parameters : ParameterSet) (out : σ) :
    engine.Course files pipeline input parameters out
      (engine.execute files pipeline input parameters false out) := by
  cases hsteps : pipeline.steps.isEmpty with
  | true =>
    rw [execute_of_empty hsteps]
    refine .inl ⟨rfl, ?_⟩
    intro _ herror
    rw [← Except.error.inj herror]
    exact .empty hsteps
  | false =>
    obtain ⟨between, hexecute, hkept, hout, hcalls⟩ := execute_of_nonempty hsteps out
    cases hdeclared : engine.declared false engine.templates pipeline with
    | mk result kept =>
      rw [hdeclared] at hexecute hkept
      cases result with
      | error error =>
        rw [hexecute]
        refine .inl ⟨hout, ?_⟩
        intro _ herror
        rw [← Except.error.inj herror]
        exact .properties hsteps hdeclared
      | ok properties =>
        let setting := engine.setting files false properties parameters
        let plan := pipeline.plan engine.config
        obtain ⟨⟨hwritten, hmore⟩, hfailed⟩ := setting.run_sameWork plan input between
        rw [hexecute]
        obtain ⟨hafter, haborted⟩ | ⟨calls, hdone, hdelivered⟩ :=
          setting.runSteps_course plan { source := .text input } between
        · rw [hkept] at haborted
          refine .inl ⟨hwritten.trans (hafter.trans hout), ?_⟩
          intro error herror
          exact .steps hsteps hdeclared (haborted error (hfailed error herror))
        · have hbefore : between.journal.calls = [] := hcalls
          rw [hbefore, List.nil_append] at hdone
          rw [← hdone, ← hmore, ← hwritten, hout] at hdelivered
          exact .inr ⟨properties, kept, hdeclared, hdelivered⟩

theorem received_answerFailure (reliable : Reliable σ) {run : Run Program (CountingWriter σ)}
    {out : σ} (h : run.out = { inner := out }) (hout : reliable.healthy out) (error : Error) :
    reliable.received (answerFailure false error run).2.out.inner = reliable.received out
      ++ utf8 (if error.isNotFound then notFoundBody else serverErrorBody) := by
  unfold answerFailure
  split
  · exact run.received_writeBodyIfUntouched reliable h hout notFoundBody
  · exact (run.log [failureRecord error]).received_writeBodyIfUntouched reliable h hout
      serverErrorBody

theorem received_handle (reliable : Reliable σ) (hmode : engine.config.inDevelopment = false)
    {files : FileTree} {request : Request} {out : σ} (hout : reliable.healthy out)
    (h : engine.Aborted files.reader request.pipeline request.input request.parameters error) :
    reliable.received (engine.handle files request out).run.out
      = reliable.received out ++ utf8 (engine.failureBody error) := by
  unfold handle serve failureBody
  simp only
  rw [hmode]
  cases engine.isClosed with
  | true => exact (engine.startRun false out).received_writeBody reliable hout unavailableBody
  | false =>
    obtain ⟨after, hexecute, hafter⟩ := h.execute ({ inner := out } : CountingWriter σ)
    rw [hexecute]
    exact received_answerFailure reliable hafter hout error

end

/--
In production mode an execution writes nothing to the response until the last step that is run delivers its
result. If the execution fails before that, the writer of the response is as it was, whatever it is, and the
service of the request leaves one error body in any writer that never fails.
-/
theorem execute_delivery (engine : Engine Program) (hmode : engine.config.inDevelopment = false)
    (files : FileTree) (request : Request) :
    (∀ {σ : Type} [ByteWriter σ] (out : σ),
      engine.Course files.reader request.pipeline request.input request.parameters out
        (engine.execute files.reader request.pipeline request.input request.parameters false out))
    ∧ ∀ error, engine.Aborted files.reader request.pipeline request.input request.parameters error →
      (∀ {σ : Type} [ByteWriter σ] (out : σ), ∃ after,
        engine.execute files.reader request.pipeline request.input request.parameters false out
            = (.error error, after)
          ∧ after.out = out)
      ∧ ∀ {σ : Type} [ByteWriter σ] (reliable : Reliable σ) (out : σ), reliable.healthy out →
        reliable.received (engine.handle files request out).run.out
          = reliable.received out ++ utf8 (engine.failureBody error) := by
  constructor
  · intro σ _ out
    exact engine.execute_course files.reader request.pipeline request.input request.parameters out
  · intro error haborted
    constructor
    · intro σ _ out
      exact haborted.execute out
    · intro σ _ reliable out hout
      exact received_handle reliable hmode hout haborted

def brokenEngine (isClosed : Bool) : Engine Unit :=
  { sampleEngine with
    processor := { sampleProcessor with validate := fun _ _ _ => .error (.unexpected "broken") }
    isClosed }

def brokenError : Error :=
  .validationFailed "second" (.unexpected "broken")

theorem aborted_brokenEngine (isClosed : Bool) (files : FileReader) :
    (brokenEngine isClosed).Aborted files samplePipeline "x" .empty brokenError := by
  let step : TransformStep := { name := "first", templatePath := "first.xsl" }
  have hempty : (brokenEngine isClosed).templates.Coherent (brokenEngine isClosed).processor :=
    TemplateCache.coherent_empty _
  obtain ⟨templates, hfirst, hcoherent⟩ := program_of_coherent hempty false step
  obtain ⟨kept, hsecond, _⟩ := program_of_coherent hcoherent false step
  have hdeclared : (brokenEngine isClosed).declared false (brokenEngine isClosed).templates
      samplePipeline = (.ok .empty, templates) := by
    have hlast : samplePipeline.lastTransform? = some step := rfl
    unfold declared
    rw [hlast]
    simp only
    rw [hfirst]
    rfl
  have hcompiled : ((brokenEngine isClosed).setting files false .empty .empty).program templates step
      = (.ok (), kept) :=
    hsecond
  exact .steps rfl hdeclared (.afterTransformation hcompiled rfl rfl (.validation rfl))

def sampleRequest : Request where
  pipeline := samplePipeline
  input := "x"

theorem execute_delivery_brokenEngine :
    (brokenEngine false).config.inDevelopment = false
      ∧ (brokenEngine false).Aborted (FileTree.reader {}) samplePipeline "x" .empty brokenError
      ∧ ByteSink.reliable.healthy sampleSink
      ∧ ByteSink.reliable.received ((brokenEngine false).handle {} sampleRequest sampleSink).run.out
        = ByteSink.reliable.received sampleSink ++ utf8 serverErrorBody := by
  have haborted := aborted_brokenEngine false (FileTree.reader {})
  have hhealthy : ByteSink.reliable.healthy sampleSink := ⟨rfl, by simp [sampleSink], rfl⟩
  obtain ⟨_, hhandle⟩ :=
    (execute_delivery (brokenEngine false) rfl {} sampleRequest).2 brokenError haborted
  exact ⟨rfl, haborted, hhealthy, hhandle ByteSink.reliable sampleSink hhealthy⟩

/--
The body that a closed engine leaves is neither of the two that tell of the failure.
-/
theorem handle_closedEngine :
    (brokenEngine true).config.inDevelopment = false
      ∧ (brokenEngine true).Aborted (FileTree.reader {}) samplePipeline "x" .empty brokenError
      ∧ ByteSink.reliable.healthy sampleSink
      ∧ ByteSink.reliable.received ((brokenEngine true).handle {} sampleRequest sampleSink).run.out
        ≠ ByteSink.reliable.received sampleSink ++ utf8 serverErrorBody
      ∧ ByteSink.reliable.received ((brokenEngine true).handle {} sampleRequest sampleSink).run.out
        ≠ ByteSink.reliable.received sampleSink ++ utf8 notFoundBody := by
  have haborted := aborted_brokenEngine true (FileTree.reader {})
  have hhealthy : ByteSink.reliable.healthy sampleSink := ⟨rfl, by simp [sampleSink], rfl⟩
  have hhandle : ByteSink.reliable.received
      ((brokenEngine true).handle {} sampleRequest sampleSink).run.out
        = ByteSink.reliable.received sampleSink ++ utf8 unavailableBody :=
    received_handle ByteSink.reliable rfl hhealthy haborted
  have hserver : unavailableBody ≠ serverErrorBody := by decide +kernel
  have hnotFound : unavailableBody ≠ notFoundBody := by decide +kernel
  rw [hhandle]
  refine ⟨rfl, haborted, hhealthy, ?_, ?_⟩
  · intro h
    exact hserver (utf8_injective (List.append_cancel_left h))
  · intro h
    exact hnotFound (utf8_injective (List.append_cancel_left h))

end Engine
end XmlPipeline
