import XmlPipeline.Proofs.Engine.Turns

/-!
This module contains the way in which an execution ends: all the steps before the first serializer have had
their turns, or one of them has failed. What an execution has asked for is what its turns have asked for.
-/

namespace XmlPipeline

open RunM

variable {Program σ : Type} [ByteWriter σ]

def stop? (steps : List Step) : Option (SerializerKind × SerializerStep) :=
  steps.findSome? Step.serializer?

theorem stop?_cons {step : Step} (h : step.isTerminal = false) (steps : List Step) :
    stop? (step :: steps) = stop? steps := by
  have hnone : step.serializer? = none := by simpa [Step.isTerminal] using h
  unfold stop?
  rw [List.findSome?_cons, hnone]

/--
How the turns of some steps have ended. The result tells the number of the steps that were run and the kind
of the serializer that they stop at, or the error of the step that has failed, which is the last one.
-/
inductive Concluded (steps : List Step) :
    List (Turn Program) → Except Error (Nat × Option SerializerKind) → Prop where
  | completed {turns : List (Turn Program)} (all : turns.map Turn.step = executed steps)
    (succeeded : ∀ turn ∈ turns, turn.failure = none) :
    Concluded steps turns (.ok (turns.length, (stop? steps).map Prod.fst))
  | broken {turns : List (Turn Program)} {turn : Turn Program} {error : Error}
    (part : (turns ++ [turn]).map Turn.step <+: executed steps)
    (succeeded : ∀ turn ∈ turns, turn.failure = none) (failure : turn.failure = some error) :
    Concluded steps (turns ++ [turn]) (.error error)

theorem Concluded.of_ok {steps : List Step} {turns : List (Turn Program)}
    {counted : Nat × Option SerializerKind} (h : Concluded steps turns (.ok counted)) :
    turns.map Turn.step = executed steps ∧ (∀ turn ∈ turns, turn.failure = none)
      ∧ counted = (turns.length, (stop? steps).map Prod.fst) := by
  cases h with
  | completed all succeeded => exact ⟨all, succeeded, rfl⟩

theorem Concluded.cons {step : Step} (hstep : step.isTerminal = false) {steps : List Step}
    {turns : List (Turn Program)} {result : Except Error (Nat × Option SerializerKind)}
    (h : Concluded steps turns result) {turn : Turn Program} (hturn : turn.step = step)
    (hsuccess : turn.failure = none) :
    Concluded (step :: steps) (turn :: turns) (result.map (.map (· + 1) id)) := by
  have hall : ∀ {turns : List (Turn Program)}, (∀ turn ∈ turns, turn.failure = none) →
      ∀ other ∈ turn :: turns, other.failure = none := by
    intro turns hturns
    exact List.forall_mem_cons.mpr ⟨hsuccess, hturns⟩
  cases h with
  | completed all succeeded =>
    have hsteps : (turn :: turns).map Turn.step = executed (step :: steps) := by
      rw [executed_cons hstep, List.map_cons, hturn, all]
    have hcompleted := Concluded.completed hsteps (hall succeeded)
    rw [stop?_cons hstep] at hcompleted
    exact hcompleted
  | @broken turns last error part succeeded failure =>
    have hpart : ((turn :: turns) ++ [last]).map Turn.step <+: executed (step :: steps) := by
      rw [executed_cons hstep, List.cons_append, List.map_cons, hturn]
      exact List.cons_prefix_cons.mpr ⟨rfl, part⟩
    exact .broken hpart (hall succeeded) failure

namespace Setting

variable (setting : Setting Program)

theorem runSteps_concluded (steps : List Step) (progress : Progress) (run : Run Program σ) :
    let turns := setting.turns steps (run.stage progress)
    let outcome := perform (setting.runSteps steps progress) run
    outcome.2.journal.requests = run.journal.requests ++ turns.flatMap Turn.requests
      ∧ ∃ result, Concluded steps turns result
        ∧ outcome.1.map (fun reached => (reached.1.stepsRun, reached.2))
          = result.map (.map (progress.stepsRun + ·) id) := by
  induction steps generalizing progress run with
  | nil => exact ⟨(List.append_nil _).symm, _, .completed rfl (by simp [turns]), rfl⟩
  | cons step steps ih =>
    cases hstep : step.isTerminal with
    | true =>
      obtain ⟨kind, serializer, rfl⟩ := Step.exists_of_isTerminal hstep
      have hlogged := run.requests_log [(Step.serialize kind serializer).record]
      rw [setting.turns_of_terminal rfl]
      refine ⟨?_, _, .completed rfl (by simp), rfl⟩
      rw [List.flatMap_nil, List.append_nil]
      exact hlogged
    | false =>
      cases hturn : setting.turn (run.stage progress) steps.head? step with
      | mk turn stage =>
        obtain ⟨between, hrun, hrequests, _, hnext⟩ := perform_runSteps_cons hstep hturn
        have hturns := turns_cons hstep hturn
        have hturnStep := step_of_turn hturn
        simp only
        rw [hrun, hturns]
        cases hfailure : turn.failure with
        | some error =>
          have hpart : ([] ++ [turn]).map Turn.step <+: executed (step :: steps) := by
            rw [executed_cons hstep]
            simpa using hturnStep
          have hbroken := Concluded.broken hpart (by simp) hfailure
          exact ⟨by simpa using hrequests, _, hbroken, rfl⟩
        | none =>
          obtain ⟨hmore, result, hconcluded, hresult⟩ := ih stage.progress between
          have hcount : stage.progress.stepsRun = progress.stepsRun + 1 :=
            stepsRun_of_turn hstep hturn hfailure
          rw [hnext hfailure] at hmore hconcluded
          refine ⟨?_, _, hconcluded.cons hstep hturnStep hfailure, ?_⟩
          · simp only [Option.isSome_none, Bool.false_eq_true, ↓reduceIte]
            rw [hmore, hrequests, List.flatMap_cons, List.append_assoc]
          · simp only
            rw [hresult]
            cases result with
            | error error => rfl
            | ok counted =>
              rw [hcount]
              obtain ⟨count, serializer⟩ := counted
              simp [Except.map, Nat.add_assoc, Nat.add_comm 1]

theorem run_concluded (steps : List Step) (input : String) (run : Run Program σ) :
    let turns := setting.turns steps (run.stage { source := .text input })
    let outcome := perform (setting.run steps input) run
    outcome.2.journal.requests = run.journal.requests ++ turns.flatMap Turn.requests
      ∧ Concluded steps turns
        (outcome.1.map fun summary => (summary.stepsRun, summary.serializer)) := by
  obtain ⟨hrequests, result, hconcluded, hresult⟩ :=
    setting.runSteps_concluded steps { source := .text input } run
  unfold Setting.run
  simp only
  rw [perform_bind]
  cases hsteps : perform (setting.runSteps steps { source := .text input }) run with
  | mk reached between =>
    rw [hsteps] at hrequests hresult
    cases reached with
    | error error =>
      cases result with
      | error other =>
        cases hresult
        exact ⟨hrequests, hconcluded⟩
      | ok counted => cases hresult
    | ok reached =>
      cases result with
      | error other => cases hresult
      | ok counted =>
        have hcounted : (reached.1.stepsRun, reached.2) = counted := by
          simpa [Except.map, Prod.ext_iff] using hresult
        rw [← hcounted] at hconcluded
        simp only
        rw [log_bind, perform_pure, Run.requests_log]
        exact ⟨hrequests, hconcluded⟩

end Setting

theorem RunM.journal_buffered {α : Type} (action : RunM Program ByteSink α) (run : Run Program σ) :
    (perform (buffered action) run).2.journal = (perform action (run.redirect {})).2.journal := by
  cases hinner : perform action (run.redirect {}) with
  | mk inner filled => exact (buffered_cases rfl hinner).1

/--
How an execution has ended: before the first step, as its steps have ended, or in development mode when what
they had written was passed on to the response.
-/
inductive Ended (plan : List Step) (inDevelopment : Bool) (turns : List (Turn Program)) :
    Except Error Summary → Prop where
  | unprepared {error : Error} (none : turns = []) : Ended plan inDevelopment turns (.error error)
  | broken {error : Error} (concluded : Concluded plan turns (.error error)) :
    Ended plan inDevelopment turns (.error error)
  | undelivered {message : String} {counted : Nat × Option SerializerKind}
    (development : inDevelopment = true) (concluded : Concluded plan turns (.ok counted)) :
    Ended plan inDevelopment turns (.error (.io message (some "flush response")))
  | completed {summary : Summary}
    (concluded : Concluded plan turns (.ok (summary.stepsRun, summary.serializer))) :
    Ended plan inDevelopment turns (.ok summary)

theorem Ended.of_ok {plan : List Step} {inDevelopment : Bool} {turns : List (Turn Program)}
    {summary : Summary} (h : Ended plan inDevelopment turns (.ok summary)) :
    Concluded plan turns (.ok (summary.stepsRun, summary.serializer)) := by
  cases h with
  | completed concluded => exact concluded

theorem Concluded.ended {plan : List Step} {turns : List (Turn Program)}
    {result : Except Error Summary}
    (h : Concluded plan turns (result.map fun summary => (summary.stepsRun, summary.serializer)))
    (inDevelopment : Bool) : Ended plan inDevelopment turns result := by
  cases result with
  | error error => exact .broken h
  | ok summary => exact .completed h

theorem Concluded.ended_buffered {plan : List Step} {turns : List (Turn Program)}
    {action : RunM Program ByteSink Summary} {run : Run Program σ}
    (h : Concluded plan turns ((perform action (run.redirect {})).1.map fun summary =>
      (summary.stepsRun, summary.serializer))) :
    Ended plan true turns (perform (buffered action) run).1 := by
  rw [perform_buffered]
  cases hinner : perform action (run.redirect {}) with
  | mk inner filled =>
    rw [hinner] at h
    cases inner with
    | error error => exact .broken h
    | ok summary =>
      simp only
      cases ByteWriter.deliver filled.out.received.toList run.out with
      | mk delivered out =>
        cases delivered with
        | error error => exact .undelivered rfl h
        | ok => exact .completed h

namespace Engine

variable (engine : Engine Program)

def opening (templates : TemplateCache Program) (input : String) (out : σ) : Stage Program σ where
  progress := { source := .text input }
  templates
  out

def turns (files : FileReader) (pipeline : Pipeline) (input : String) (parameters : ParameterSet)
    (inDevelopment : Bool) (out : σ) : List (Turn Program) :=
  if pipeline.steps.isEmpty then
    []
  else
    match engine.declared inDevelopment engine.templates pipeline with
    | (.error _, _) => []
    | (.ok properties, templates) =>
      let setting := engine.setting files inDevelopment properties parameters
      let plan := pipeline.plan engine.config
      if inDevelopment then
        setting.turns plan (opening templates input ({} : ByteSink))
      else
        setting.turns plan (opening templates input out)

theorem forall_turns (invariant : TemplateCache Program → Prop) {good : Turn Program → Prop}
    (engine : Engine Program) (files : FileReader) {pipeline : Pipeline} (input : String)
    (parameters : ParameterSet) {inDevelopment : Bool} (out : σ)
    (h : invariant (engine.declared inDevelopment engine.templates pipeline).2)
    (hkept : ∀ (properties : OutputProperties) {τ : Type} [ByteWriter τ] {step next turn}
      {before stage : Stage Program τ}, invariant before.templates →
      (engine.setting files inDevelopment properties parameters).turn before next step = (turn, stage) →
      turn.failure = none → invariant stage.templates)
    (hgood : ∀ (properties : OutputProperties) {τ : Type} [ByteWriter τ] {step next turn}
      {before stage : Stage Program τ}, step.isTerminal = false → invariant before.templates →
      (engine.setting files inDevelopment properties parameters).turn before next step = (turn, stage) →
      good turn) :
    ∀ turn ∈ engine.turns files pipeline input parameters inDevelopment out, good turn := by
  unfold turns
  split
  · nofun
  · split
    · nofun
    · next properties templates heq =>
      rw [heq] at h
      simp only
      split <;> exact Setting.forall_turns (hkept properties) (hgood properties) _ h

theorem forall_turns_of_any {good : Turn Program → Prop} (engine : Engine Program) (files : FileReader)
    (pipeline : Pipeline) (input : String) (parameters : ParameterSet) (inDevelopment : Bool) (out : σ)
    (hgood : ∀ (properties : OutputProperties) {τ : Type} [ByteWriter τ] {step next turn}
      {before stage : Stage Program τ}, step.isTerminal = false →
      (engine.setting files inDevelopment properties parameters).turn before next step = (turn, stage) →
      good turn) :
    ∀ turn ∈ engine.turns files pipeline input parameters inDevelopment out, good turn := by
  refine forall_turns (fun _ => True) engine files input parameters out trivial ?_ ?_
  · intros
    trivial
  · intro properties τ _ step next turn before stage hstep _
    exact hgood properties hstep

theorem forall_turns_of_coherent {good : Turn Program → Prop} {engine : Engine Program}
    (h : engine.templates.Coherent engine.processor) (files : FileReader) (pipeline : Pipeline)
    (input : String) (parameters : ParameterSet) (inDevelopment : Bool) (out : σ)
    (hgood : ∀ (properties : OutputProperties) {τ : Type} [ByteWriter τ] {step next turn}
      {before stage : Stage Program τ},
      step.isTerminal = false → before.templates.Coherent engine.processor →
      (engine.setting files inDevelopment properties parameters).turn before next step = (turn, stage) →
      good turn) :
    ∀ turn ∈ engine.turns files pipeline input parameters inDevelopment out, good turn := by
  have hdeclared := coherent_declared h inDevelopment pipeline
  refine forall_turns (·.Coherent engine.processor) engine files input parameters out hdeclared ?_ hgood
  intro properties τ _ step next turn before stage hcoherent
  exact Setting.coherent_of_turn hcoherent

theorem execute_cases (files : FileReader) (pipeline : Pipeline) (input : String)
    (parameters : ParameterSet) (inDevelopment : Bool) (out : σ) :
    let outcome := engine.execute files pipeline input parameters inDevelopment out
    let preparation := engine.preparation pipeline inDevelopment
    (outcome.2.journal.requests = preparation ∧ (∃ error, outcome.1 = .error error)
      ∧ engine.turns files pipeline input parameters inDevelopment out = [])
    ∨ ∃ properties templates, ∃ between : Run Program σ,
      engine.declared inDevelopment engine.templates pipeline = (.ok properties, templates)
        ∧ pipeline.steps.isEmpty = false ∧ between.out = out ∧ between.templates = templates
        ∧ between.journal.requests = preparation
        ∧ outcome = perform
          (if inDevelopment then
            buffered <| (engine.setting files inDevelopment properties parameters).run
              (pipeline.plan engine.config) input
          else
            (engine.setting files inDevelopment properties parameters).run
              (pipeline.plan engine.config) input) between := by
  have hperform : engine.execute files pipeline input parameters inDevelopment out
      = perform (engine.execution files pipeline input parameters inDevelopment)
        (engine.startRun inDevelopment out) :=
    rfl
  have hrequests := engine.requests_outputProperties pipeline inDevelopment out
  obtain ⟨between, hbetween, htemplates, hout, _⟩ := engine.perform_outputProperties inDevelopment
    pipeline (engine.startRun inDevelopment out)
  have hstart : (engine.startRun inDevelopment out).templates = engine.templates := rfl
  rw [hbetween] at hrequests
  rw [hstart] at hbetween htemplates
  unfold turns
  simp only
  rw [hperform, execution_eq]
  cases hsteps : pipeline.steps.isEmpty with
  | true =>
    have hnone : engine.preparation pipeline inDevelopment = [] := by
      have hlast : pipeline.lastTransform? = none := by
        simp [Pipeline.lastTransform?, List.isEmpty_iff.mp hsteps]
      unfold preparation
      rw [hlast]
    rw [hnone]
    exact .inl ⟨rfl, ⟨_, rfl⟩, rfl⟩
  | false =>
    simp only [Bool.false_eq_true, ↓reduceIte]
    rw [perform_bind, hbetween]
    cases hdeclared : engine.declared inDevelopment engine.templates pipeline with
    | mk declared templates =>
      rw [hdeclared] at htemplates
      cases declared with
      | error error => exact .inl ⟨hrequests, ⟨_, rfl⟩, rfl⟩
      | ok properties =>
        exact .inr ⟨properties, templates, between, rfl, trivial, hout, htemplates, hrequests, rfl⟩

theorem execute_turns (files : FileReader) (pipeline : Pipeline) (input : String)
    (parameters : ParameterSet) (inDevelopment : Bool) (out : σ) :
    let turns := engine.turns files pipeline input parameters inDevelopment out
    let outcome := engine.execute files pipeline input parameters inDevelopment out
    outcome.2.journal.requests
        = engine.preparation pipeline inDevelopment ++ turns.flatMap Turn.requests
      ∧ Ended (pipeline.plan engine.config) inDevelopment turns outcome.1 := by
  simp only
  obtain ⟨hrequests, ⟨error, herror⟩, hturns⟩
    | ⟨properties, templates, between, hdeclared, hsteps, hout, htemplates, hrequests, houtcome⟩ :=
    engine.execute_cases files pipeline input parameters inDevelopment out
  · rw [hturns, herror]
    exact ⟨hrequests.trans (List.append_nil _).symm, .unprepared rfl⟩
  · let setting := engine.setting files inDevelopment properties parameters
    rw [houtcome, ← hrequests]
    unfold turns
    rw [hsteps, hdeclared]
    cases inDevelopment with
    | true =>
      have hopening : (between.redirect ({} : ByteSink)).stage { source := .text input }
          = opening templates input {} := by
        unfold Run.stage opening
        rw [← htemplates]
        rfl
      obtain ⟨hmore, hconcluded⟩ :=
        setting.run_concluded (pipeline.plan engine.config) input (between.redirect ({} : ByteSink))
      rw [hopening] at hmore hconcluded
      refine ⟨?_, hconcluded.ended_buffered⟩
      simp only [↓reduceIte]
      rw [journal_buffered]
      exact hmore
    | false =>
      have hopening : between.stage { source := .text input } = opening templates input out := by
        unfold Run.stage opening
        rw [htemplates, hout]
      obtain ⟨hmore, hconcluded⟩ :=
        setting.run_concluded (pipeline.plan engine.config) input between
      rw [hopening] at hmore hconcluded
      exact ⟨hmore, hconcluded.ended false⟩

end Engine
end XmlPipeline
