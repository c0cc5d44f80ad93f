import XmlPipeline.Proofs.Engine.Reached
import XmlPipeline.Proofs.Engine.Threading

/-!
This module contains the comparison of the two modes. In development mode stylesheets are compiled anew and
the response is held back, but over a byte writer that never fails this makes no difference to what comes of
an execution.
-/

namespace XmlPipeline

open RunM

variable {Program σ τ : Type} [ByteWriter σ] [ByteWriter τ]

/--
Neither writer fails, and the first one has got the bytes `before` more than the second one.
-/
structure Reliable.Ahead (reliable : Reliable σ) (model : Reliable τ) (before : List UInt8) (out : σ)
    (other : τ) : Prop where
  received : reliable.received out = before ++ model.received other
  healthy : reliable.healthy out
  model_healthy : model.healthy other

variable {reliable : Reliable σ} {model : Reliable τ} {before : List UInt8}

theorem BodyFormat.writeBody_ahead {out : σ} {other : τ} (format : BodyFormat) (files : FileReader)
    (document : Xml.Document) (h : reliable.Ahead model before out other) :
    Agree (reliable.Ahead model before) (format.writeBody files document out)
      (format.writeBody files document other) := by
  unfold writeBody
  cases format.render files document with
  | error error => exact ⟨rfl, h⟩
  | ok bytes =>
    obtain ⟨written, hwrite, hreceived, hwritten⟩ := reliable.writeAll bytes h.healthy
    obtain ⟨otherWritten, hother, hotherReceived, hotherWritten⟩ :=
      model.writeAll bytes h.model_healthy
    simp only
    rw [hwrite, hother]
    refine ⟨rfl, ?_, hwritten, hotherWritten⟩
    simp only
    rw [hreceived, hotherReceived, h.received, List.append_assoc]

theorem FinalSerializer.Alike.out {serializer : FinalSerializer σ} {other : FinalSerializer τ}
    (h : FinalSerializer.Alike reliable model before serializer other) :
    reliable.Ahead model before serializer.out other.out :=
  ⟨h.encoder.received, h.encoder.healthy, h.encoder.model_healthy⟩

theorem Setting.faithful_ahead (setting : Setting Program) :
    setting.Faithful (reliable.Ahead model before) := by
  intro step program source parameters outlet out other h
  let transformation := setting.engine.processor.transform program source parameters
  cases outlet with
  | document =>
    rw [passage_document, passage_document]
    cases transformation.ending <;> exact ⟨rfl, h⟩
  | body format =>
    rw [passage_body, passage_body]
    cases transformation.ending with
    | error error => exact ⟨rfl, h⟩
    | ok =>
      obtain ⟨hresult, hwritten⟩ :=
        format.writeBody_ahead setting.files { events := transformation.events } h
      exact ⟨congrArg (Except.map _) hresult, hwritten⟩
  | final properties =>
    have halike : FinalSerializer.Alike reliable model before (.create properties out)
        (.create properties other) :=
      .create properties h.healthy h.model_healthy h.received
    rw [passage_final, passage_final]
    simp only
    rw [halike.answer]
    let answer := (FinalSerializer.create properties other).answer
    have hfilled := halike.given (transformation.emitted answer [])
    cases transformation.outcome answer [] with
    | error error => exact ⟨rfl, hfilled.out⟩
    | ok => exact ⟨congrArg (Except.map _) hfilled.finish.1, hfilled.finish.2.out⟩

namespace Engine

variable {engine : Engine Program}

/--
What comes of the two modes is the same, and in development mode a failure leaves the writer as it was.
-/
def SameOutcome (reliable : Reliable σ) (out : σ)
    (development production : Except Error Summary × Run Program σ) : Prop :=
  development.1 = production.1
    ∧ (∀ summary, production.1 = .ok summary →
      reliable.received development.2.out = reliable.received production.2.out)
    ∧ ∀ error, production.1 = .error error → development.2.out = out

theorem run_modes (reliable : Reliable σ) (files : FileReader) (properties : OutputProperties)
    (parameters : ParameterSet) (steps : List Step) (input : String) {out : σ}
    (hout : reliable.healthy out) {first second : Run Program σ}
    (h : Run.Related engine.processor (fun first second => first = out ∧ second = out) first second) :
    SameOutcome reliable out
      (perform (buffered <| (engine.setting files true properties parameters).run steps input) first)
      (perform ((engine.setting files false properties parameters).run steps input) second) := by
  let setting := engine.setting files false properties parameters
  obtain ⟨⟨hfirst, hsecond⟩, htemplates, hotherTemplates⟩ := h
  have hempty : ByteSink.reliable.healthy {} := ⟨rfl, nofun, rfl⟩
  have hstart : Run.Related engine.processor
      (reliable.Ahead ByteSink.reliable (reliable.received out)) second (first.redirect {}) := by
    refine ⟨⟨?_, ?_, hempty⟩, hotherTemplates, htemplates⟩
    · rw [hsecond]
      exact (List.append_nil _).symm
    · rw [hsecond]
      exact hout
  have hfaithful : setting.Faithful (reliable.Ahead ByteSink.reliable (reliable.received out)) :=
    setting.faithful_ahead
  have hrun := Setting.run_corresponds true hfaithful steps input second
    (first.redirect {}) hstart
  unfold SameOutcome
  rw [perform_buffered]
  cases hproduction : perform (setting.run steps input) second with
  | mk result after =>
    cases hdevelopment : perform ({ setting with inDevelopment := true }.run steps input)
        (first.redirect ({} : ByteSink)) with
    | mk inner filled =>
      rw [hproduction, hdevelopment] at hrun
      obtain ⟨rfl, hwritten, _, _⟩ := hrun
      have hbuffer : perform ((engine.setting files true properties parameters).run steps input)
          (first.redirect {}) = (result, filled) := hdevelopment
      rw [hbuffer]
      cases result with
      | error error => exact ⟨rfl, nofun, fun _ _ => hfirst⟩
      | ok summary =>
        obtain ⟨delivered, hdeliver, hreceived, _⟩ :=
          reliable.deliver filled.out.received.toList (hfirst ▸ hout)
        simp only
        rw [hdeliver]
        refine ⟨rfl, ?_, nofun⟩
        intro _ _
        rw [hfirst] at hreceived
        exact hreceived.trans hwritten.received.symm

/--
Over a byte writer that never fails, an execution has the same result in both modes, and if it succeeds it
has written the same bytes. If it fails in development mode, the writer of the response is as it was.
-/
theorem execute_modes (reliable : Reliable σ) (hengine : engine.Reached) (files : FileReader)
    (pipeline : Pipeline) (input : String) (parameters : ParameterSet) {out : σ}
    (hout : reliable.healthy out) :
    SameOutcome reliable out (engine.execute files pipeline input parameters true out)
      (engine.execute files pipeline input parameters false out) := by
  have hstart : Run.Related engine.processor (fun first second => first = out ∧ second = out)
      (engine.startRun true out) (engine.startRun false out) :=
    ⟨⟨rfl, rfl⟩, hengine.coherent, hengine.coherent⟩
  have hperform : ∀ mode, engine.execute files pipeline input parameters mode out
      = perform (engine.execution files pipeline input parameters mode) (engine.startRun mode out) :=
    fun _ => rfl
  rw [hperform, hperform, execution_eq, execution_eq]
  split
  · exact ⟨rfl, nofun, fun _ _ => rfl⟩
  · obtain ⟨hresult, hbetween⟩ :=
      engine.outputProperties_corresponds true false pipeline _ _ hstart
    rw [perform_bind, perform_bind]
    cases hfirst : perform (engine.outputProperties true pipeline) (engine.startRun true out) with
    | mk result first =>
      cases hsecond : perform (engine.outputProperties false pipeline) (engine.startRun false out) with
      | mk otherResult second =>
        rw [hfirst, hsecond] at hresult hbetween
        obtain rfl : result = otherResult := hresult
        cases result with
        | error error => exact ⟨rfl, nofun, fun _ _ => hbetween.out.1⟩
        | ok properties => exact run_modes reliable files properties parameters _ input hout hbetween

def warmEngine : Engine Unit :=
  sampleEngine.keeping sampleExecution.2

theorem execute_modes_warmEngine :
    warmEngine.Reached ∧ ByteSink.reliable.healthy sampleSink
      ∧ SameOutcome ByteSink.reliable sampleSink
        (warmEngine.execute sampleFiles samplePipeline "y" .empty true sampleSink)
        (warmEngine.execute sampleFiles samplePipeline "y" .empty false sampleSink) := by
  have hreached : warmEngine.Reached :=
    .execute (.new rfl) sampleFiles samplePipeline "x" .empty false sampleSink
  have hhealthy : ByteSink.reliable.healthy sampleSink := ⟨rfl, by simp [sampleSink], rfl⟩
  exact ⟨hreached, hhealthy, execute_modes ByteSink.reliable hreached sampleFiles samplePipeline "y"
    .empty hhealthy⟩

end Engine
end XmlPipeline
