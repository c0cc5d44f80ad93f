import XmlPipeline.Engine.Execution

/-!
This module contains what comes of the actions of a run, one lemma for each way to build them. Most of the
actions around a step are quiet: neither the response nor the calls of the processor tell of them.
-/

namespace XmlPipeline

namespace Occurrence

variable {Program : Type}

def isCall : Occurrence Program → Bool
  | transformed .. => true
  | validated .. => true
  | _ => false

end Occurrence

namespace Journal

variable {Program : Type}

def calls (journal : Journal Program) : Journal Program :=
  journal.filter Occurrence.isCall

theorem calls_append (journal more : Journal Program) :
    Journal.calls (journal ++ more) = journal.calls ++ Journal.calls more := by
  unfold calls
  rw [List.filter_append]

theorem calls_logged (records : List LogRecord) :
    Journal.calls (records.map .logged : Journal Program) = [] := by
  unfold calls
  rw [List.filter_eq_nil_iff]
  intro occurrence h
  obtain ⟨record, _, rfl⟩ := List.mem_map.mp h
  simp [Occurrence.isCall]

end Journal

namespace Run

variable {Program σ : Type}

theorem calls_log (run : Run Program σ) (records : List LogRecord) :
    (run.log records).journal.calls = run.journal.calls := by
  unfold log
  rw [Journal.calls_append, Journal.calls_logged, List.append_nil]

theorem calls_note (run : Run Program σ) (occurrence : Occurrence Program) :
    (run.note occurrence).journal.calls = run.journal.calls ++ Journal.calls [occurrence] := by
  unfold note
  rw [Journal.calls_append]

theorem out_note (run : Run Program σ) (occurrence : Occurrence Program) :
    (run.note occurrence).out = run.out := rfl

theorem calls_hear (run : Run Program σ) (notice : Notice) :
    (run.hear notice).journal.calls = run.journal.calls := by
  unfold hear
  exact run.calls_log _

theorem calls_present (run : Run Program σ) (diagnostics : Diagnostics) (output : String × String) :
    (run.present diagnostics output).journal.calls = run.journal.calls := by
  unfold present
  cases diagnostics with
  | logged => exact run.calls_log _
  | kept =>
    simp only
    rw [calls_note]
    simp [Journal.calls, Occurrence.isCall]

theorem out_present (run : Run Program σ) (diagnostics : Diagnostics) (output : String × String) :
    (run.present diagnostics output).out = run.out := by
  cases diagnostics <;> rfl

/--
Neither the response nor the calls of the processor tell one run from the other.
-/
def SameWork (run other : Run Program σ) : Prop :=
  run.out = other.out ∧ run.journal.calls = other.journal.calls

theorem SameWork.trans {first second third : Run Program σ} (h : first.SameWork second)
    (hnext : second.SameWork third) : first.SameWork third :=
  ⟨h.1.trans hnext.1, h.2.trans hnext.2⟩

end Run

namespace RunM

variable {Program σ α β : Type} {run after : Run Program σ}

def perform (action : RunM Program σ α) (run : Run Program σ) : Except Error α × Run Program σ :=
  action.run.run run

theorem perform_pure (value : α) (run : Run Program σ) :
    perform (pure value) run = (.ok value, run) := rfl

theorem perform_ofExcept (result : Except Error α) (run : Run Program σ) :
    perform (MonadExcept.ofExcept result) run = (result, run) := by
  cases result <;> rfl

theorem perform_note (occurrence : Occurrence Program) (run : Run Program σ) :
    perform (RunM.note occurrence) run = (.ok (), run.note occurrence) := rfl

theorem perform_bind (action : RunM Program σ α) (next : α → RunM Program σ β)
    (run : Run Program σ) :
    perform (action >>= next) run
      = match perform action run with
        | (.ok value, between) => perform (next value) between
        | (.error error, after) => (.error error, after) := by
  unfold perform
  simp only [ExceptT.run_bind, StateT.run_bind]
  cases action.run.run run with
  | mk result after => cases result <;> rfl

theorem ofExcept_bind (result : Except Error α) (next : α → RunM Program σ β)
    (run : Run Program σ) :
    perform (MonadExcept.ofExcept result >>= next) run
      = match result with
        | .ok value => perform (next value) run
        | .error error => (.error error, run) := by
  rw [perform_bind, perform_ofExcept]
  cases result <;> rfl

theorem ofExcept_mapError_bind {ε : Type} (result : Except ε α) (report : ε → Error)
    (next : α → RunM Program σ β) (run : Run Program σ) :
    perform (MonadExcept.ofExcept (result.mapError report) >>= next) run
      = match result with
        | .ok value => perform (next value) run
        | .error error => (.error (report error), run) := by
  rw [ofExcept_bind]
  cases result <;> rfl

theorem get_bind (next : Run Program σ → RunM Program σ β) (run : Run Program σ) :
    perform (getThe (Run Program σ) >>= next) run = perform (next run) run := rfl

theorem set_bind (other : Run Program σ) (next : PUnit → RunM Program σ β) (run : Run Program σ) :
    perform (set other >>= next) run = perform (next ()) other := rfl

theorem modify_bind (change : Run Program σ → Run Program σ) (next : PUnit → RunM Program σ β)
    (run : Run Program σ) : perform (modify change >>= next) run = perform (next ()) (change run) := rfl

theorem log_bind (records : List LogRecord) (next : Unit → RunM Program σ β)
    (run : Run Program σ) :
    perform (RunM.log records >>= next) run = perform (next ()) (run.log records) := rfl

theorem note_bind (occurrence : Occurrence Program) (next : Unit → RunM Program σ β)
    (run : Run Program σ) :
    perform (RunM.note occurrence >>= next) run = perform (next ()) (run.note occurrence) := rfl

theorem pure_cases {value : α} {result : Except Error α}
    (h : perform (pure value) run = (result, after)) : result = .ok value ∧ after = run := by
  rw [perform_pure] at h
  exact ⟨(Prod.mk.inj h).1.symm, (Prod.mk.inj h).2.symm⟩

theorem bind_cases {action : RunM Program σ α} {next : α → RunM Program σ β}
    {result : Except Error β} (h : perform (action >>= next) run = (result, after)) :
    (∃ value between, perform action run = (.ok value, between)
      ∧ perform (next value) between = (result, after))
    ∨ ∃ error, perform action run = (.error error, after) ∧ result = .error error := by
  rw [perform_bind] at h
  cases haction : perform action run with
  | mk first between =>
    rw [haction] at h
    cases first with
    | ok value => exact .inl ⟨value, between, rfl, h⟩
    | error error =>
      obtain ⟨rfl, rfl⟩ := Prod.mk.inj h
      exact .inr ⟨error, rfl, rfl⟩

theorem perform_tryCatch (action : RunM Program σ α) (handle : Error → RunM Program σ α)
    (run : Run Program σ) :
    perform (tryCatch action handle) run
      = match perform action run with
        | (.ok value, after) => (.ok value, after)
        | (.error error, after) => perform (handle error) after := by
  unfold perform
  simp only [tryCatch, tryCatchThe, MonadExceptOf.tryCatch, ExceptT.tryCatch, ExceptT.mk,
    ExceptT.run, StateT.run_bind]
  cases StateT.run action run with
  | mk result after => cases result <;> rfl

/-! ### Quiet actions -/

def Quiet (action : RunM Program σ α) : Prop :=
  ∀ run, (perform action run).2.SameWork run

namespace Quiet

theorem pure (value : α) : Quiet (pure value : RunM Program σ α) :=
  fun _ => ⟨rfl, rfl⟩

theorem throw (error : Error) : Quiet (throw error : RunM Program σ α) :=
  fun _ => ⟨rfl, rfl⟩

theorem get : Quiet (getThe (Run Program σ) : RunM Program σ (Run Program σ)) :=
  fun _ => ⟨rfl, rfl⟩

theorem ofExcept (result : Except Error α) :
    Quiet (MonadExcept.ofExcept result : RunM Program σ α) := by
  intro run
  rw [perform_ofExcept]
  exact ⟨rfl, rfl⟩

theorem log (records : List LogRecord) : Quiet (RunM.log records : RunM Program σ Unit) :=
  fun run => ⟨rfl, run.calls_log records⟩

theorem note {occurrence : Occurrence Program} (h : occurrence.isCall = false) :
    Quiet (RunM.note occurrence : RunM Program σ Unit) := by
  intro run
  refine ⟨rfl, ?_⟩
  rw [perform_note, Run.calls_note]
  simp [Journal.calls, h]

theorem hear (notice : Notice) : Quiet (RunM.hear notice : RunM Program σ Unit) :=
  fun run => ⟨rfl, run.calls_hear notice⟩

theorem modify {change : Run Program σ → Run Program σ} (h : ∀ run, (change run).SameWork run) :
    Quiet (modify change : RunM Program σ Unit) :=
  h

theorem bind {action : RunM Program σ α} {next : α → RunM Program σ β} (h : Quiet action)
    (hnext : ∀ value, Quiet (next value)) : Quiet (action >>= next) := by
  intro run
  have hfirst := h run
  rw [perform_bind]
  split
  · next value between heq =>
    rw [heq] at hfirst
    exact (hnext value between).trans hfirst
  · next error after heq =>
    rw [heq] at hfirst
    exact hfirst

theorem tryCatch {action : RunM Program σ α} {handle : Error → RunM Program σ α} (h : Quiet action)
    (hhandle : ∀ error, Quiet (handle error)) : Quiet (tryCatch action handle) := by
  intro run
  have hfirst := h run
  rw [perform_tryCatch]
  split
  · next value after heq =>
    rw [heq] at hfirst
    exact hfirst
  · next error after heq =>
    rw [heq] at hfirst
    exact (hhandle error after).trans hfirst

theorem forM_hear (notices : List Notice) :
    Quiet (notices.forM RunM.hear : RunM Program σ PUnit) := by
  induction notices with
  | nil => exact pure _
  | cons notice notices ih => exact bind (hear notice) fun _ => ih

end Quiet

/-! ### Buffered actions -/

theorem perform_buffered [ByteWriter σ] (action : RunM Program ByteSink α) (run : Run Program σ) :
    perform (buffered action) run
      = match perform action (run.redirect {}) with
        | (.error error, filled) => (.error error, filled.redirect run.out)
        | (.ok value, filled) =>
          match ByteWriter.deliver filled.out.received.toList run.out with
          | (.ok (), out) => (.ok value, filled.redirect out)
          | (.error error, out) =>
            (.error (.io error.message (some "flush response")), filled.redirect out) := by
  unfold buffered
  rw [get_bind]
  have hinner : (action.run).run (run.redirect {}) = perform action (run.redirect {}) := rfl
  rw [hinner]
  cases perform action (run.redirect {}) with
  | mk inner filled =>
    simp only
    rw [set_bind, ofExcept_bind]
    cases inner with
    | error error => rfl
    | ok value =>
      simp only
      cases ByteWriter.deliver filled.out.received.toList run.out with
      | mk delivered out =>
        simp only
        rw [modify_bind, ofExcept_mapError_bind]
        cases delivered <;> rfl

theorem buffered_cases [ByteWriter σ] {action : RunM Program ByteSink α} {result : Except Error α}
    {inner : Except Error α} {filled : Run Program ByteSink}
    (h : perform (buffered action) run = (result, after))
    (hinner : perform action (run.redirect {}) = (inner, filled)) :
    after.journal = filled.journal
      ∧ ∀ value, result = .ok value → inner = .ok value
        ∧ ByteWriter.deliver filled.out.received.toList run.out = (.ok (), after.out) := by
  rw [perform_buffered, hinner] at h
  cases inner with
  | error error =>
    obtain ⟨rfl, rfl⟩ := Prod.mk.inj h
    exact ⟨rfl, by simp⟩
  | ok value =>
    simp only at h
    cases hdeliver : ByteWriter.deliver filled.out.received.toList run.out with
    | mk delivered out =>
      rw [hdeliver] at h
      cases delivered with
      | error error =>
        obtain ⟨rfl, rfl⟩ := Prod.mk.inj h
        exact ⟨rfl, by simp⟩
      | ok =>
        obtain ⟨rfl, rfl⟩ := Prod.mk.inj h
        exact ⟨rfl, fun value h => ⟨h, rfl⟩⟩

end RunM

namespace Engine

variable {Program σ : Type}

open RunM

theorem quiet_compile (engine : Engine Program) (inDevelopment : Bool) (path : Path) :
    Quiet (engine.compile inDevelopment path : RunM Program σ Program) := by
  unfold compile
  apply Quiet.bind .get
  intro run
  simp only
  split
  · apply Quiet.pure
  · apply Quiet.bind (.log _)
    intro _
    apply Quiet.bind (.note rfl)
    intro _
    apply Quiet.bind (.forM_hear _)
    intro _
    apply Quiet.bind (.ofExcept _)
    intro program
    split
    · apply Quiet.bind
      · apply Quiet.modify
        intro run
        exact ⟨rfl, rfl⟩
      · intro _
        apply Quiet.pure
    · apply Quiet.pure

theorem quiet_compileStep (engine : Engine Program) (inDevelopment : Bool) (step : TransformStep) :
    Quiet (engine.compileStep inDevelopment step : RunM Program σ Program) := by
  unfold compileStep
  apply Quiet.tryCatch (engine.quiet_compile inDevelopment _)
  intro error
  apply Quiet.throw

theorem quiet_outputProperties (engine : Engine Program) (inDevelopment : Bool)
    (pipeline : Pipeline) :
    Quiet (engine.outputProperties inDevelopment pipeline : RunM Program σ OutputProperties) := by
  unfold outputProperties
  split
  · apply Quiet.pure
  · apply Quiet.bind (engine.quiet_compileStep inDevelopment _)
    intro program
    apply Quiet.pure

end Engine
end XmlPipeline
