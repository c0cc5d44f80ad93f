import XmlPipeline.Proofs.Engine.Steps

/-!
This module contains the way of the data through a pipeline: each step reads what the step before it has
made, and the response is what the last one makes. The main statement holds for all byte writers that
never fail, in both modes.
-/

namespace XmlPipeline

open RunM

variable {Program σ : Type}

/--
The steps that are run, which end before the first serializer.
-/
def executed (steps : List Step) : List Step :=
  steps.takeWhile (!·.isTerminal)

theorem Step.exists_of_isTerminal {step : Step} (h : step.isTerminal = true) :
    ∃ kind serializer, step = .serialize kind serializer := by
  cases step with
  | serialize kind serializer => exact ⟨kind, serializer, rfl⟩
  | transform step => cases h
  | validate step => cases h
  | respond step => cases h

theorem executed_cons {step : Step} (h : step.isTerminal = false) (steps : List Step) :
    executed (step :: steps) = step :: executed steps := by
  unfold executed
  rw [List.takeWhile_cons_of_pos]
  simp [h]

theorem exists_of_executed_nil {plan : List Step} (h : executed plan = []) :
    plan = [] ∨ ∃ kind serializer rest, plan = .serialize kind serializer :: rest := by
  cases plan with
  | nil => exact .inl rfl
  | cons step rest =>
    cases hstep : step.isTerminal with
    | false =>
      rw [executed_cons hstep] at h
      cases h
    | true =>
      obtain ⟨kind, serializer, rfl⟩ := Step.exists_of_isTerminal hstep
      exact .inr ⟨kind, serializer, rest, rfl⟩

/--
The calls of the processor fit the steps if the first one reads this source, and each other one what the
step before it has made.
-/
inductive Threaded (processor : Processor Program) : Source → List Step → Journal Program → Prop where
  | nil : Threaded processor source [] []
  | respond {step : ResponseStep} (rest : Threaded processor (.text step.body) steps calls) :
    Threaded processor source (.respond step :: steps) calls
  | transform {step : TransformStep}
    (rest : Threaded processor
      (.document { events := (processor.transform program source parameters).events }) steps calls) :
    Threaded processor source (.transform step :: steps)
      (.transformed program source parameters :: calls)
  | validate {step : ValidatorStep} {validation : Validation}
    (valid : processor.validate step.schemaPaths (.text source.toText)
      (ValidationReport.stepLabel step.name) = .ok validation)
    (rest : Threaded processor (.text validation.output) steps calls) :
    Threaded processor source (.validate step :: steps)
      (.validated step.schemaPaths (.text source.toText) (ValidationReport.stepLabel step.name)
        :: calls)

namespace Engine

/--
The bytes that are written for a plan, as its calls of the processor tell. They come from the last step
that is run if that is a stylesheet, through the serializer that it stops at or else the final one.
-/
def body (engine : Engine Program) (files : FileReader) (properties : OutputProperties)
    (plan : List Step) (calls : Journal Program) : Except Error (List UInt8) :=
  match (executed plan).getLast?, calls.getLast? with
  | some (.transform _), some (.transformed program source parameters) =>
    let transformation := engine.processor.transform program source parameters
    match plan.findSome? Step.serializer? with
    | none => .ok (transformation.finalBody properties.forSerializer)
    | some (kind, step) => do
      let format ← engine.serializers kind step properties
      format.render files { events := transformation.events }
  | _, _ => .ok []

variable {engine : Engine Program} {files : FileReader} {properties : OutputProperties}

theorem body_of_executed_nil {plan : List Step} (h : executed plan = [])
    (calls : Journal Program) : engine.body files properties plan calls = .ok [] := by
  unfold body
  rw [h]
  rfl

theorem body_respond (step : ResponseStep) (plan : List Step) (calls : Journal Program) :
    engine.body files properties (.respond step :: plan) calls
      = engine.body files properties plan calls := by
  have hexecuted : executed (.respond step :: plan) = .respond step :: executed plan := rfl
  unfold body
  rw [hexecuted]
  cases hplan : executed plan with
  | nil => rfl
  | cons next rest =>
    rw [List.getLast?_cons_cons]
    rfl

theorem body_validate (step : ValidatorStep) (plan : List Step) (schemas : List String)
    (source : Source) (label : String) (calls : Journal Program) :
    engine.body files properties (.validate step :: plan) (.validated schemas source label :: calls)
      = engine.body files properties plan calls := by
  have hexecuted : executed (.validate step :: plan) = .validate step :: executed plan := rfl
  unfold body
  rw [hexecuted]
  cases hplan : executed plan with
  | nil => rfl
  | cons next rest =>
    rw [List.getLast?_cons_cons]
    cases calls with
    | nil =>
      cases (next :: rest).getLast? with
      | none => rfl
      | some last => cases last <;> rfl
    | cons call calls =>
      rw [List.getLast?_cons_cons]
      rfl

theorem body_transform (step : TransformStep) {plan : List Step} (program : Program)
    (source : Source) (parameters : ParameterSet) {calls : Journal Program}
    (hplan : executed plan ≠ []) (hcalls : calls ≠ []) :
    engine.body files properties (.transform step :: plan)
        (.transformed program source parameters :: calls)
      = engine.body files properties plan calls := by
  have hexecuted : executed (.transform step :: plan) = .transform step :: executed plan := rfl
  unfold body
  rw [hexecuted]
  obtain ⟨next, rest, hnext⟩ := List.exists_cons_of_ne_nil hplan
  obtain ⟨call, calls, rfl⟩ := List.exists_cons_of_ne_nil hcalls
  rw [hnext, List.getLast?_cons_cons, List.getLast?_cons_cons]
  rfl

theorem body_before_serializer {kind : SerializerKind} {next : SerializerStep} {format : BodyFormat}
    (h : engine.serializers kind next properties = .ok format) {step : TransformStep}
    {rest : List Step} {program : Program} {source : Source} {parameters : ParameterSet} :
    engine.body files properties (.transform step :: .serialize kind next :: rest)
        [.transformed program source parameters]
      = format.render files
        { events := (engine.processor.transform program source parameters).events } := by
  let plan := Step.transform step :: .serialize kind next :: rest
  have hexecuted : executed plan = [.transform step] := rfl
  have hstop : plan.findSome? Step.serializer? = some (kind, next) := rfl
  unfold body
  rw [hexecuted, hstop]
  simp only [List.getLast?_singleton, h]
  rfl

end Engine

namespace Setting

variable [ByteWriter σ] {setting : Setting Program} {run after : Run Program σ}

theorem received_final (setting : Setting Program) (reliable : Reliable σ) (program : Program)
    (source : Source) (parameters : ParameterSet) (properties : OutputProperties) {out : σ}
    (hout : reliable.healthy out) :
    let target := (setting.filled program source parameters
      ((Outlet.final properties).connect out)).finish setting.files
    reliable.received target.2.out = reliable.received out
        ++ (setting.engine.processor.transform program source parameters).finalBody properties
      ∧ reliable.healthy target.2.out := by
  let memory : FinalSerializer ByteSink := .create properties {}
  let transformation := setting.engine.processor.transform program source parameters
  have halike : FinalSerializer.Alike reliable ByteSink.reliable (reliable.received out)
      (.create properties out) memory :=
    .create properties hout ⟨rfl, by simp, rfl⟩ (List.append_nil _).symm
  have hfinish := (halike.given (transformation.emitted memory.answer [])).finish.2
  unfold filled Outlet.connect
  simp only
  -- The answers are the same as in memory, so the stylesheet emits the same events.
  rw [Target.answer_final, Target.given_final, halike.answer]
  exact ⟨hfinish.encoder.received, hfinish.encoder.healthy⟩

theorem received_last (reliable : Reliable σ) {step : TransformStep} {plan : List Step}
    (hplan : executed plan = []) {program : Program} {source : Source} {parameters : ParameterSet}
    {outlet : Outlet} {out : σ} {target : Target σ} (hout : reliable.healthy out)
    (hresolve : Outlet.resolve setting.engine.serializers setting.properties (.transform step)
      plan.head? = .ok outlet)
    (hfinish : (setting.filled program source parameters (outlet.connect out)).finish setting.files
      = (.ok (), target)) :
    ∃ bytes, setting.engine.body setting.files setting.properties (.transform step :: plan)
        [.transformed program source parameters] = .ok bytes
      ∧ reliable.received target.out = reliable.received out ++ bytes
      ∧ reliable.healthy target.out := by
  cases plan with
  | nil =>
    simp only [List.head?_nil, Outlet.resolve, Except.ok.injEq] at hresolve
    subst hresolve
    have hfinal := setting.received_final reliable program source parameters
      setting.properties.forSerializer hout
    simp only [hfinish] at hfinal
    exact ⟨_, rfl, hfinal⟩
  | cons next rest =>
    cases next with
    | transform next => simp [executed, Step.isTerminal, Step.serializer?] at hplan
    | validate next => simp [executed, Step.isTerminal, Step.serializer?] at hplan
    | respond next => simp [executed, Step.isTerminal, Step.serializer?] at hplan
    | serialize kind next =>
      simp only [List.head?_cons, Outlet.resolve] at hresolve
      cases hformat : setting.engine.serializers kind next setting.properties with
      | error error => simp [hformat, Except.map] at hresolve
      | ok format =>
        simp only [hformat, Except.map, Except.ok.injEq] at hresolve
        subst hresolve
        rw [filled_body] at hfinish
        simp only [Target.finish, Prod.mk.injEq] at hfinish
        obtain ⟨hwritten, rfl⟩ := hfinish
        obtain ⟨bytes, hrender, hreceived⟩ := reliable.writeBody hout (Prod.ext hwritten rfl)
        refine ⟨bytes, ?_, hreceived⟩
        rw [Engine.body_before_serializer hformat]
        exact hrender

theorem resolve_document {step : TransformStep} {next : Step} {plan : List Step} {outlet : Outlet}
    (hplan : executed (next :: plan) ≠ [])
    (hresolve : Outlet.resolve setting.engine.serializers setting.properties (.transform step)
      (some next) = .ok outlet) :
    outlet = .document ∧ ∀ source calls,
      Threaded setting.engine.processor source (executed (next :: plan)) calls → calls ≠ [] := by
  cases next with
  | transform next =>
    obtain rfl := Except.ok.inj hresolve
    refine ⟨rfl, ?_⟩
    intro source calls h
    cases h
    simp
  | validate next =>
    obtain rfl := Except.ok.inj hresolve
    refine ⟨rfl, ?_⟩
    intro source calls h
    cases h
    simp
  | respond next => cases hresolve
  | serialize kind next => simp [executed, Step.isTerminal, Step.serializer?] at hplan

theorem runSteps_threaded (reliable : Reliable σ) (setting : Setting Program) (plan : List Step)
    {progress : Progress} {outcome : Progress × Option SerializerKind} {run after : Run Program σ}
    (hout : reliable.healthy run.out)
    (h : perform (setting.runSteps plan progress) run = (.ok outcome, after)) :
    ∃ calls bytes, after.journal.calls = run.journal.calls ++ calls
      ∧ Threaded setting.engine.processor progress.source (executed plan) calls
      ∧ setting.engine.body setting.files setting.properties plan calls = .ok bytes
      ∧ reliable.received after.out = reliable.received run.out ++ bytes
      ∧ reliable.healthy after.out := by
  -- Only the last step that is run writes to the response. After any other one the byte writer is still
  -- the one from before the step.
  induction plan generalizing progress run with
  | nil =>
    unfold runSteps at h
    obtain ⟨_, rfl⟩ := pure_cases h
    exact ⟨[], [], by simp, .nil, Engine.body_of_executed_nil rfl [], by simp, hout⟩
  | cons step plan ih =>
    unfold runSteps at h
    rw [log_bind] at h
    have hcalls := run.calls_log [step.record]
    have hlogged : reliable.healthy (run.log [step.record]).out := hout
    cases step with
    | serialize kind step =>
      obtain ⟨_, rfl⟩ := pure_cases h
      exact ⟨[], [], by simp [hcalls], .nil, Engine.body_of_executed_nil rfl [], by simp [Run.log], hout⟩
    | respond step =>
      obtain ⟨calls, bytes, hafter, hthreaded, hbody, hreceived⟩ := ih hlogged h
      rw [hcalls] at hafter
      rw [← Engine.body_respond step] at hbody
      exact ⟨calls, bytes, hafter, .respond hthreaded, hbody, hreceived⟩
    | validate step =>
      obtain ⟨reached, between, hstep, hrest⟩ | ⟨error, _, herror⟩ := bind_cases h
      case inr => cases herror
      obtain ⟨hsame, hcall, hreached⟩ := runValidator_cases rfl hstep
      obtain ⟨valid, hvalid, hsource, _⟩ := hreached reached rfl
      obtain ⟨calls, bytes, hafter, hthreaded, hbody, hreceived⟩ := ih (hsame ▸ hout) hrest
      rw [hcall, hcalls, List.append_assoc] at hafter
      rw [hsource] at hthreaded
      rw [hsame] at hreceived
      rw [← Engine.body_validate step] at hbody
      exact ⟨_, bytes, hafter, .validate hvalid hthreaded, hbody, hreceived⟩
    | transform step =>
      obtain ⟨reached, between, hstep, hrest⟩ | ⟨error, _, herror⟩ := bind_cases h
      case inr => cases herror
      obtain ⟨_, _, herror⟩ | ⟨program, outlet, hresolve, hcall, hreached⟩ := runTransform_cases hstep
      case inl => cases herror
      obtain ⟨target, hfinish, htarget, _, hsource⟩ := hreached reached rfl
      rw [hcalls] at hcall
      by_cases hplan : executed plan = []
      · -- Nothing comes after this step that writes to the response.
        obtain ⟨bytes, hbody, hwritten, hhealthy⟩ :=
          received_last reliable hplan hlogged hresolve hfinish
        rw [← htarget] at hwritten hhealthy
        obtain ⟨calls, more, hafter, hthreaded, hmore, hreceived, hdone⟩ := ih hhealthy hrest
        rw [Engine.body_of_executed_nil hplan] at hmore
        obtain rfl := Except.ok.inj hmore
        rw [hplan] at hthreaded
        cases hthreaded
        rw [hcall, List.append_nil] at hafter
        rw [hwritten, List.append_nil] at hreceived
        refine ⟨_, bytes, hafter, ?_, hbody, hreceived, hdone⟩
        have hexecuted : executed (.transform step :: plan) = [.transform step] := by
          rw [← hplan]
          rfl
        rw [hexecuted]
        exact .transform .nil
      · cases plan with
        | nil => exact absurd rfl hplan
        | cons next plan =>
          obtain ⟨rfl, hnonempty⟩ := resolve_document hplan hresolve
          rw [filled_document] at hfinish
          simp only [Target.finish, Prod.mk.injEq, true_and] at hfinish
          subst hfinish
          have hsame : between.out = run.out := htarget
          have hdocument : reached.source = .document { events :=
              (setting.engine.processor.transform program progress.source
                (setting.given step progress)).events } :=
            hsource
          obtain ⟨calls, bytes, hafter, hthreaded, hbody, hreceived⟩ := ih (hsame ▸ hout) hrest
          have hcallsNonempty := hnonempty _ _ hthreaded
          rw [hcall, List.append_assoc] at hafter
          rw [hdocument] at hthreaded
          rw [hsame] at hreceived
          rw [← Engine.body_transform step _ _ _ hplan hcallsNonempty] at hbody
          exact ⟨_, bytes, hafter, .transform hthreaded, hbody, hreceived⟩

theorem run_threaded (reliable : Reliable σ) (setting : Setting Program) (plan : List Step)
    (input : String) {summary : Summary} {run after : Run Program σ}
    (hout : reliable.healthy run.out)
    (h : perform (setting.run plan input) run = (.ok summary, after)) :
    ∃ calls bytes, after.journal.calls = run.journal.calls ++ calls
      ∧ Threaded setting.engine.processor (.text input) (executed plan) calls
      ∧ setting.engine.body setting.files summary.properties plan calls = .ok bytes
      ∧ reliable.received after.out = reliable.received run.out ++ bytes := by
  unfold Setting.run at h
  obtain ⟨⟨progress, serializer⟩, between, hsteps, hrest⟩ | ⟨error, _, herror⟩ := bind_cases h
  case inr => cases herror
  obtain ⟨calls, bytes, hcalls, hthreaded, hbody, hreceived, _⟩ :=
    setting.runSteps_threaded reliable plan hout hsteps
  rw [log_bind] at hrest
  obtain ⟨hsummary, rfl⟩ := pure_cases hrest
  obtain rfl := Except.ok.inj hsummary
  exact ⟨calls, bytes, (between.calls_log _).trans hcalls, hthreaded, hbody, hreceived⟩

end Setting

namespace Engine

variable [ByteWriter σ]

theorem execute_threaded (reliable : Reliable σ) (engine : Engine Program) (files : FileReader)
    (pipeline : Pipeline) (input : String) (parameters : ParameterSet) (inDevelopment : Bool)
    {out : σ} {summary : Summary} {after : Run Program σ} (hout : reliable.healthy out)
    (h : engine.execute files pipeline input parameters inDevelopment out = (.ok summary, after)) :
    Threaded engine.processor (.text input) (executed (pipeline.plan engine.config))
        after.journal.calls
      ∧ ∃ bytes, engine.body files summary.properties (pipeline.plan engine.config)
          after.journal.calls = .ok bytes
        ∧ reliable.received after.out = reliable.received out ++ bytes := by
  obtain ⟨_, _, herror⟩ | ⟨properties, between, hwork, hrun⟩ := execution_cases h
  case inl => cases herror
  let setting := engine.setting files inDevelopment properties parameters
  have hsame : between.out = out := hwork.1
  have hbefore : between.journal.calls = [] := hwork.2
  split at hrun
  -- In development mode all bytes of the body are in memory before the first one is written.
  · cases hinner : perform (setting.run (pipeline.plan engine.config) input)
        (between.redirect ({} : ByteSink)) with
    | mk inner filled =>
      obtain ⟨hjournal, hdelivered⟩ := buffered_cases hrun hinner
      obtain ⟨rfl, hdeliver⟩ := hdelivered summary rfl
      obtain ⟨calls, bytes, hcalls, hthreaded, hbody, hreceived⟩ := setting.run_threaded
        ByteSink.reliable (pipeline.plan engine.config) input ⟨rfl, by simp [Run.redirect], rfl⟩ hinner
      obtain ⟨written, hwrite, hwritten, _⟩ :=
        reliable.deliver filled.out.received.toList (hsame ▸ hout)
      have hnone : (between.redirect ({} : ByteSink)).journal.calls = [] := hbefore
      have hfilled : filled.out.received.toList = bytes := hreceived
      rw [hwrite] at hdeliver
      rw [hjournal, hcalls, hnone, List.nil_append]
      refine ⟨hthreaded, bytes, hbody, ?_⟩
      rw [← (Prod.mk.inj hdeliver).2, hwritten, hfilled, hsame]
  · obtain ⟨calls, bytes, hcalls, hthreaded, hbody, hreceived⟩ := setting.run_threaded
      reliable (pipeline.plan engine.config) input (hsame ▸ hout) hrun
    rw [hbefore, List.nil_append] at hcalls
    rw [hsame] at hreceived
    rw [hcalls]
    exact ⟨hthreaded, bytes, hbody, hreceived⟩

def sampleProcessor : Processor Unit where
  compile _ := { result := .ok () }
  outputProperties _ := .empty
  transform _ source _ :=
    match source with
    | .text content =>
      .emitAll [.opening { name := { localName := "p" } }, .text content,
        .closing { localName := "p" }] .finish
    | .document tree => .emitAll tree.events .finish
  validate _ source _ := .ok { output := source.toText }

def sampleEngine : Engine Unit where
  config := {}
  processor := sampleProcessor

def samplePipeline : Pipeline where
  steps := [.transform { name := "first", templatePath := "first.xsl" },
    .validate { name := "second", schemaPaths := ["second.xsd"] }]

def sampleFiles : FileReader where
  readBytes _ := .error .notFound

def sampleSink : ByteSink where
  chunk := some 2

def sampleExecution : Except Error Summary × Run Unit ByteSink :=
  sampleEngine.execute sampleFiles samplePipeline "x" .empty false sampleSink

def sampleSummary : Summary where
  stepsRun := 3
  properties := .empty
  serializer := none

theorem execute_threaded_sampleExecution :
    sampleExecution = (.ok sampleSummary, sampleExecution.2)
      ∧ ByteSink.reliable.healthy sampleSink
      ∧ Threaded sampleEngine.processor (.text "x")
        (executed (samplePipeline.plan sampleEngine.config)) sampleExecution.2.journal.calls
      ∧ ∃ bytes, sampleEngine.body sampleFiles sampleSummary.properties
          (samplePipeline.plan sampleEngine.config) sampleExecution.2.journal.calls = .ok bytes
        ∧ ByteSink.reliable.received sampleExecution.2.out
          = ByteSink.reliable.received sampleSink ++ bytes := by
  have hsome : sampleExecution.1.toOption = some sampleSummary := by
    decide +kernel
  have hexecution : sampleExecution = (.ok sampleSummary, sampleExecution.2) := by
    cases hresult : sampleExecution with
    | mk result after =>
      rw [hresult] at hsome
      cases result with
      | error error => cases hsome
      | ok summary => rw [Option.some.inj hsome]
  have hhealthy : ByteSink.reliable.healthy sampleSink := ⟨rfl, by simp [sampleSink], rfl⟩
  exact ⟨hexecution, hhealthy, execute_threaded ByteSink.reliable sampleEngine sampleFiles
    samplePipeline "x" .empty false hhealthy hexecution⟩

end Engine
end XmlPipeline
