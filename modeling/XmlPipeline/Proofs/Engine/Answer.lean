import XmlPipeline.Proofs.Engine.Failure
import XmlPipeline.Proofs.Engine.Frame
import XmlPipeline.Proofs.Engine.Reached
import XmlPipeline.Proofs.Output.Recording

/-!
This module contains the answers to requests. The main statement tells, for all byte writers that keep what
they take, which bytes the service of a request leaves there: those of the pipeline, or those of an error
body. In development mode both can be there, if the response cannot be delivered in the end.
-/

namespace XmlPipeline

open RunM
open ByteWriter (Keeps)

section

variable {Program σ : Type} [ByteWriter σ] {holds : σ → Prop}

namespace Target

theorem keeps_write (keeps : Keeps holds) {target : Target σ} (h : holds target.out)
    (event : Xml.Event) : holds (target.write event).2.out := by
  cases target with
  | document events out => exact h
  | body format events out => exact h
  | final serializer => exact FinalSerializer.keeps_write keeps h event

theorem keeps_given (keeps : Keeps holds) {target : Target σ} (h : holds target.out)
    (events : List Xml.Event) : holds (target.given events).out := by
  induction events generalizing target with
  | nil => exact h
  | cons event events ih => exact ih (keeps_write keeps h event)

theorem keeps_finish (keeps : Keeps holds) {target : Target σ} (h : holds target.out)
    (files : FileReader) : holds (target.finish files).2.out := by
  cases target with
  | document events out => exact h
  | final serializer => exact FinalSerializer.keeps_finish keeps h
  | body format events out => exact format.keeps_writeBody keeps files _ h

end Target

theorem Outlet.out_connect (outlet : Outlet) (out : σ) : (outlet.connect out).out = out := by
  cases outlet <;> rfl

theorem Setting.keeps_delivered (keeps : Keeps holds) {setting : Setting Program} {plan : List Step}
    {calls : Journal Program} {out after : σ} (h : setting.Delivered plan calls out after)
    (hout : holds out) : holds after := by
  have hconnected : ∀ outlet : Outlet, holds (outlet.connect out).out := by
    intro outlet
    rw [outlet.out_connect]
    exact hout
  cases h with
  | writing _ _ _ => exact Target.keeps_given keeps (hconnected _) _
  | finishing _ _ _ _ => exact Target.keeps_finish keeps (Target.keeps_given keeps (hconnected _) _) _

end

namespace Engine

variable {Program σ : Type} [ByteWriter σ] {engine : Engine Program}

theorem execute_development (engine : Engine Program) (files : FileReader) (pipeline : Pipeline)
    (input : String) (parameters : ParameterSet) (out : σ) :
    engine.execute files pipeline input parameters true out
      = match engine.execute files pipeline input parameters true ({} : ByteSink) with
        | (.error error, filled) => (.error error, filled.redirect out)
        | (.ok summary, filled) =>
          match ByteWriter.deliver filled.out.received.toList out with
          | (.ok (), out) => (.ok summary, filled.redirect out)
          | (.error error, out) =>
            (.error (.io error.message (some "flush response")), filled.redirect out) := by
  have hperform : ∀ {τ : Type} [ByteWriter τ] (out : τ),
      engine.execute files pipeline input parameters true out
        = perform (engine.execution files pipeline input parameters true) (engine.startRun true out) :=
    fun _ => rfl
  rw [hperform, hperform, execution_eq, execution_eq]
  split
  · rfl
  · have hquiet := engine.quiet_outputProperties true pipeline
      (engine.startRun true ({} : ByteSink))
    let frame : Frame Program ByteSink σ := { out := fun _ => out }
    have hframe : frame.Fits true := .inl rfl
    have hcommutes := engine.outputProperties_commutes hframe pipeline
      (engine.startRun true ({} : ByteSink))
    have hstart : frame.apply (engine.startRun true ({} : ByteSink)) = engine.startRun true out := rfl
    rw [hstart] at hcommutes
    rw [perform_bind, perform_bind, hcommutes]
    cases hproperties : perform (engine.outputProperties true pipeline)
        (engine.startRun true ({} : ByteSink)) with
    | mk result between =>
      rw [hproperties] at hquiet
      have hempty : between.out = {} := hquiet.1
      have happly : frame.apply between = between.redirect out := by
        unfold Frame.apply Run.redirect
        rw [Diagnostics.map_told_kept]
        rfl
      cases result with
      | error error =>
        simp only [Prod.map, id]
        rw [happly]
      | ok properties =>
        simp only [Prod.map, id, ↓reduceIte]
        have hmemory : (frame.apply between).redirect ({} : ByteSink) = between.redirect {} := by
          rw [happly]
          rfl
        rw [perform_buffered, perform_buffered, hmemory, hempty]
        cases perform ((engine.setting files true properties parameters).run
            (pipeline.plan engine.config) input) (between.redirect ({} : ByteSink)) with
        | mk inner filled =>
          cases inner with
          | error error => rfl
          | ok summary =>
            obtain ⟨written, hdeliver, hreceived, _⟩ :=
              ByteSink.reliable.deliver filled.out.received.toList
                (show ByteSink.reliable.healthy {} from ⟨rfl, nofun, rfl⟩)
            have hsame : written.received.toList = filled.out.received.toList := hreceived
            have hout : (frame.apply between).out = out := rfl
            have hwritten : (filled.redirect written).out = written := rfl
            simp only
            rw [hdeliver, hout]
            simp only
            rw [hwritten, hsame]
            cases ByteWriter.deliver filled.out.received.toList out with
            | mk delivered out => cases delivered <;> rfl

theorem keeps_execute {holds : σ → Prop} (keeps : Keeps holds) (engine : Engine Program)
    (files : FileReader) (pipeline : Pipeline) (input : String) (parameters : ParameterSet)
    (inDevelopment : Bool) {out : σ} (h : holds out) :
    holds (engine.execute files pipeline input parameters inDevelopment out).2.out := by
  cases inDevelopment with
  | true =>
    rw [execute_development]
    split
    · exact h
    · next filled _ =>
      have hdelivered := keeps.deliver filled.out.received.toList h
      split
      · next heq =>
        rw [heq] at hdelivered
        exact hdelivered
      · next heq =>
        rw [heq] at hdelivered
        exact hdelivered
  | false =>
    obtain ⟨hsame, _⟩ | ⟨_, _, _, hdelivered⟩ :=
      engine.execute_course files pipeline input parameters out
    · rw [hsame]
      exact h
    · exact Setting.keeps_delivered keeps hdelivered h

/-! ### What is answered to a request -/

def requested (engine : Engine Program) (files : FileTree) (request : Request) (out : σ) :
    Except Error Summary × Run Program (CountingWriter σ) :=
  engine.execute files.reader request.pipeline request.input request.parameters
    engine.config.inDevelopment { inner := out }

def errorHead (inDevelopment : Bool) (error : Error) : ResponseHead :=
  if error.isNotFound then .notFound
  else if inDevelopment then .diagnostic
  else .serverError

def errorBody (inDevelopment : Bool) (error : Error) (listener : Listener) : String :=
  if error.isNotFound then notFoundBody
  else if inDevelopment then diagnosticBody error listener
  else serverErrorBody

theorem answerFailure_eq (inDevelopment : Bool) (error : Error)
    (run : Run Program (CountingWriter σ)) :
    (answerFailure inDevelopment error run).1 = errorHead inDevelopment error
      ∧ (answerFailure inDevelopment error run).2.out
        = if run.out.count = 0 ∨ inDevelopment ∧ error.isNotFound = false then
            (ByteWriter.deliver (utf8 (errorBody inDevelopment error run.listener)) run.out).2
          else
            run.out := by
  have hlogged : (run.log [failureRecord error]).out = run.out := rfl
  have hlistener : (run.log [failureRecord error]).listener = run.listener := rfl
  unfold answerFailure errorHead errorBody
  cases hkind : error.isNotFound with
  | true =>
    simp only [↓reduceIte]
    rw [Run.out_writeBodyIfUntouched]
    simp
  | false =>
    cases inDevelopment with
    | true =>
      simp only [Bool.false_eq_true, ↓reduceIte]
      rw [Run.out_writeBody, hlogged, hlistener]
      simp
    | false =>
      simp only [Bool.false_eq_true, ↓reduceIte]
      rw [Run.out_writeBodyIfUntouched, hlogged]
      simp

/--
The bytes that the service of a request with this head leaves in the writer `out`. There are those of the
pipeline as far as it has come, or a part of the body that tells of the failure. Both are there only if
everything went well in development mode until the response was delivered, and a part of it was.
-/
inductive Answered (recording : Recording σ) (engine : Engine Program) (files : FileTree)
    (request : Request) (out : σ) : ResponseHead → List UInt8 → Prop where
  | unavailable {bytes : List UInt8} (closed : engine.isClosed = true)
    (sent : bytes <+: utf8 unavailableBody) :
    Answered recording engine files request out .unavailable bytes
  | served {summary : Summary} {after : Run Program (CountingWriter σ)} {bytes : List UInt8}
    (opened : engine.isClosed = false)
    (executed : engine.requested files request out = (.ok summary, after))
    (output : recording.received after.out.inner = recording.received out ++ bytes) :
    Answered recording engine files request out ⟨200, summary.contentType⟩ bytes
  | refused {error : Error} {after : Run Program (CountingWriter σ)} {bytes : List UInt8}
    (opened : engine.isClosed = false)
    (executed : engine.requested files request out = (.error error, after))
    (untouched : recording.received after.out.inner = recording.received out)
    (sent : bytes <+: utf8 (errorBody engine.config.inDevelopment error after.listener)) :
    Answered recording engine files request out (errorHead engine.config.inDevelopment error) bytes
  | broken {error : Error} {after : Run Program (CountingWriter σ)} {bytes : List UInt8}
    (opened : engine.isClosed = false) (production : engine.config.inDevelopment = false)
    (executed : engine.requested files request out = (.error error, after))
    (output : recording.received after.out.inner = recording.received out ++ bytes)
    (begun : bytes ≠ []) :
    Answered recording engine files request out (errorHead false error) bytes
  | undelivered {error : Error} {after : Run Program (CountingWriter σ)} {summary : Summary}
    {filled : Run Program ByteSink} {bytes text : List UInt8}
    (opened : engine.isClosed = false) (development : engine.config.inDevelopment = true)
    (executed : engine.requested files request out = (.error error, after))
    (made : engine.execute files.reader request.pipeline request.input request.parameters true {}
      = (.ok summary, filled))
    (output : recording.received after.out.inner = recording.received out ++ bytes)
    (begun : bytes ≠ []) (part : bytes <+: filled.out.received.toList)
    (sent : text <+: utf8 (diagnosticBody error after.listener)) :
    Answered recording engine files request out .diagnostic (bytes ++ text)

theorem counted_requested (recording : Recording σ) (engine : Engine Program) (files : FileTree)
    (request : Request) (out : σ) :
    CountingWriter.Counted recording (recording.received out)
      (engine.requested files request out).2.out :=
  engine.keeps_execute (CountingWriter.keeps_counted recording _) _ _ _ _ _ ⟨[], by simp, rfl⟩

theorem made_of_begun {recording : Recording σ} (hmode : engine.config.inDevelopment = true)
    {files : FileTree} {request : Request} {out : σ} {error : Error}
    {after : Run Program (CountingWriter σ)} {bytes : List UInt8}
    (h : engine.requested files request out = (.error error, after))
    (houtput : recording.received after.out.inner = recording.received out ++ bytes)
    (hbegun : bytes ≠ []) :
    error.isNotFound = false ∧ ∃ summary filled,
      engine.execute files.reader request.pipeline request.input request.parameters true
          ({} : ByteSink)
        = (.ok summary, filled)
      ∧ bytes <+: filled.out.received.toList := by
  let counting : CountingWriter σ := { inner := out }
  unfold requested at h
  rw [hmode, execute_development] at h
  split at h
  · next memory filled heq =>
    obtain ⟨_, rfl⟩ := Prod.mk.inj h
    exact absurd (List.append_right_eq_self.mp houtput.symm) hbegun
  · next summary filled heq =>
    obtain ⟨sent, hsent, hreceived⟩ :=
      (CountingWriter.recording recording).deliver filled.out.received.toList counting
    split at h
    · cases (Prod.mk.inj h).1
    · next delivered reached hdeliver =>
      obtain ⟨herror, rfl⟩ := Prod.mk.inj h
      rw [hdeliver] at hreceived
      have hbytes : recording.received out ++ bytes = recording.received out ++ sent :=
        houtput.symm.trans hreceived
      obtain rfl := List.append_cancel_left hbytes
      rw [← Except.error.inj herror]
      exact ⟨rfl, summary, filled, heq, hsent⟩

theorem answered_failure (recording : Recording σ) (hopen : engine.isClosed = false)
    {files : FileTree} {request : Request} {out : σ} {error : Error}
    {after : Run Program (CountingWriter σ)}
    (h : engine.requested files request out = (.error error, after)) :
    ∃ bytes, recording.received
        (answerFailure engine.config.inDevelopment error after).2.out.inner
        = recording.received out ++ bytes
      ∧ engine.Answered recording files request out (errorHead engine.config.inDevelopment error)
        bytes := by
  have hcounted := engine.counted_requested recording files request out
  rw [h] at hcounted
  obtain ⟨bytes, houtput, hcount⟩ := hcounted
  obtain ⟨_, hout⟩ := answerFailure_eq engine.config.inDevelopment error after
  obtain ⟨text, htext, hreceived⟩ := (CountingWriter.recording recording).deliver
    (utf8 (errorBody engine.config.inDevelopment error after.listener)) after.out
  have hafter : recording.received (ByteWriter.deliver
      (utf8 (errorBody engine.config.inDevelopment error after.listener)) after.out).2.inner
        = recording.received after.out.inner ++ text :=
    hreceived
  rw [hout]
  by_cases hbegun : bytes = []
  · -- Nothing has been written, and the error body comes in the place of the response.
    subst hbegun
    have huntouched : recording.received after.out.inner = recording.received out := by
      simpa using houtput
    refine ⟨text, ?_, .refused hopen h huntouched htext⟩
    rw [if_pos (.inl hcount), hafter, huntouched]
  · have hnonzero : after.out.count ≠ 0 := by
      rw [hcount]
      simpa using hbegun
    cases hmode : engine.config.inDevelopment with
    | false =>
      refine ⟨bytes, ?_, .broken hopen hmode h houtput hbegun⟩
      rw [if_neg (by simp [hnonzero])]
      exact houtput
    | true =>
      -- The text for the developer does not care about what has been written.
      obtain ⟨hkind, summary, filled, hmade, hpart⟩ := made_of_begun hmode h houtput hbegun
      have hhead : errorHead true error = .diagnostic := by simp [errorHead, hkind]
      have hbody : errorBody true error after.listener = diagnosticBody error after.listener := by
        simp [errorBody, hkind]
      rw [hmode] at hafter htext
      rw [hbody] at htext
      rw [hhead, if_pos (.inr ⟨rfl, hkind⟩), hafter, houtput, List.append_assoc]
      exact ⟨bytes ++ text, rfl, .undelivered hopen hmode h hmade houtput hbegun hpart htext⟩

theorem exists_answered (recording : Recording σ) (engine : Engine Program) (files : FileTree)
    (request : Request) (out : σ) :
    ∃ bytes, recording.received (engine.handle files request out).run.out
        = recording.received out ++ bytes
      ∧ engine.Answered recording files request out (engine.handle files request out).head bytes := by
  unfold handle serve
  simp only
  cases hclosed : engine.isClosed with
  | true =>
    obtain ⟨sent, hsent, hreceived⟩ := recording.deliver (utf8 unavailableBody) out
    refine ⟨sent, ?_, .unavailable hclosed hsent⟩
    rw [if_pos rfl, Run.out_writeBody]
    exact hreceived
  | false =>
    have hcounted := engine.counted_requested recording files request out
    simp only [Bool.false_eq_true, ↓reduceIte]
    cases hexecuted : engine.requested files request out with
    | mk result after =>
      rw [hexecuted] at hcounted
      unfold requested at hexecuted
      rw [hexecuted]
      cases result with
      | ok summary =>
        obtain ⟨bytes, houtput, _⟩ := hcounted
        exact ⟨bytes, houtput, .served hclosed hexecuted houtput⟩
      | error error =>
        obtain ⟨hhead, _⟩ := answerFailure_eq engine.config.inDevelopment error after
        simp only
        rw [hhead]
        exact answered_failure recording hclosed hexecuted

def errorBodies (result : Except Error Summary) (listener : Listener) : List String :=
  let diagnostic :=
    match result with
    | .ok _ => []
    | .error error => [diagnosticBody error listener]
  unavailableBody :: notFoundBody :: serverErrorBody :: diagnostic

/--
The bytes are of one body only, the one that the pipeline has written or one that tells of its failure.
-/
def OfOneBody (recording : Recording σ) (engine : Engine Program) (files : FileTree)
    (request : Request) (out : σ) (bytes : List UInt8) : Prop :=
  let executed := engine.requested files request out
  recording.received out ++ bytes <+: recording.received executed.2.out.inner
    ∨ ∃ body ∈ errorBodies executed.1 executed.2.listener, bytes <+: utf8 body

instance (recording : Recording σ) (engine : Engine Program) (files : FileTree) (request : Request)
    (out : σ) (bytes : List UInt8) :
    Decidable (engine.OfOneBody recording files request out bytes) :=
  inferInstanceAs (Decidable (_ ∨ _))

theorem errorBody_mem (inDevelopment : Bool) (error : Error) (listener : Listener) :
    errorBody inDevelopment error listener ∈ errorBodies (.error error) listener := by
  have hbodies : errorBodies (.error error) listener
      = [unavailableBody, notFoundBody, serverErrorBody, diagnosticBody error listener] :=
    rfl
  rw [hbodies]
  unfold errorBody
  split
  · simp
  · cases inDevelopment <;> simp

theorem Answered.ofOneBody {recording : Recording σ} {files : FileTree} {request : Request} {out : σ}
    {head : ResponseHead} {bytes : List UInt8}
    (h : engine.Answered recording files request out head bytes)
    (hmode : engine.config.inDevelopment = false) :
    engine.OfOneBody recording files request out bytes := by
  unfold OfOneBody
  cases h with
  | unavailable _ sent => exact .inr ⟨unavailableBody, List.mem_cons_self, sent⟩
  | served _ executed output =>
    left
    rewrite [executed, output]
    exact List.prefix_refl _
  | refused _ executed _ sent =>
    rw [executed]
    exact .inr ⟨_, errorBody_mem _ _ _, sent⟩
  | broken _ _ executed output _ =>
    left
    rewrite [executed, output]
    exact List.prefix_refl _
  | undelivered _ development => simp [hmode] at development

/--
What is left of a request is of one body only, but for a response in development mode that cannot be delivered.
-/
theorem handle_answered (recording : Recording σ) (engine : Engine Program) (files : FileTree)
    (request : Request) (out : σ) :
    ∃ bytes, recording.received (engine.handle files request out).run.out
        = recording.received out ++ bytes
      ∧ engine.Answered recording files request out (engine.handle files request out).head bytes
      ∧ (engine.config.inDevelopment = false →
        engine.OfOneBody recording files request out bytes) := by
  obtain ⟨bytes, hreceived, hanswered⟩ := engine.exists_answered recording files request out
  exact ⟨bytes, hreceived, hanswered, hanswered.ofOneBody⟩

def developmentEngine : Engine Unit :=
  { sampleEngine with config := { inDevelopment := true } }

def unflushedSink : ByteSink where
  flushFails := true

/--
The text for the developer follows a response that is complete but for its flush.
-/
theorem handle_developmentEngine :
    let service := developmentEngine.handle {} sampleRequest unflushedSink
    service.head.status ≠ 200
      ∧ ¬ developmentEngine.OfOneBody ByteSink.recording {} sampleRequest unflushedSink
        (ByteSink.recording.received service.run.out) := by
  decide +kernel

end Engine
end XmlPipeline
