import XmlPipeline.Proofs.Engine.Calls
import XmlPipeline.Proofs.Engine.Delivery

/-!
This module contains what becomes of the serializer that an execution stops at. It gets the result of the step
before it if that is a stylesheet. After any other step, or before all the steps, it is never made, although
the summary of the execution tells its kind.
-/

namespace XmlPipeline

open RunM

variable {Program σ : Type}

def Occurrence.isOrder : Occurrence Program → Bool
  | serializing .. => true
  | _ => false

namespace Journal

def orders (journal : Journal Program) : Journal Program :=
  journal.filter Occurrence.isOrder

theorem orders_append (journal more : Journal Program) :
    Journal.orders (journal ++ more) = journal.orders ++ Journal.orders more :=
  List.filter_append journal more

theorem orders_compilation (inDevelopment : Bool) (templates : TemplateCache Program) (path : Path) :
    Journal.orders (Engine.compilation inDevelopment templates path) = [] := by
  obtain h | h := Engine.compilation_cases inDevelopment templates path <;> rw [h] <;> rfl

theorem orders_preparation (engine : Engine Program) (pipeline : Pipeline) (inDevelopment : Bool) :
    Journal.orders (engine.preparation pipeline inDevelopment) = [] := by
  obtain h | ⟨path, h⟩ := engine.preparation_cases pipeline inDevelopment <;> rw [h] <;> rfl

theorem orders_closing (setting : Setting Program) (step : TransformStep) (turn : Turn Program) :
    Journal.orders (setting.closing step turn) = [] := by
  obtain h | ⟨name, content, h⟩ := setting.closing_cases step turn <;> rw [h] <;> rfl

end Journal

theorem getLast?_executed {step : Step} (hstep : step.isTerminal = false) {plan : List Step}
    (h : executed plan ≠ []) : (executed (step :: plan)).getLast? = (executed plan).getLast? := by
  cases hlast : (executed plan).getLast? with
  | none => exact absurd (List.getLast?_eq_none_iff.mp hlast) h
  | some last => exact getLast?_executed_cons hstep hlast

namespace Setting

variable [ByteWriter σ]

/--
What has become of the serializer that a plan stops at. If the last step that is run is a stylesheet, the
factory was asked once for the format of the body, and the body was made of what the stylesheet has emitted.
Otherwise nothing was asked for, and the writer of the response is the one from before.
-/
inductive Stopped (setting : Setting Program) (plan : List Step) (kind : SerializerKind)
    (requests : Journal Program) (out : σ) : σ → Prop where
  | served {step : TransformStep} {next : SerializerStep} {format : BodyFormat} {program : Program}
    {source : Source} {parameters : ParameterSet} {written : σ}
    (last : (executed plan).getLast? = some (.transform step)) (stop : stop? plan = some (kind, next))
    (order : Journal.orders requests = [.serializing kind next setting.properties])
    (made : setting.engine.serializers kind next setting.properties = .ok format)
    (call : (Journal.calls requests).getLast? = some (.transformed program source parameters))
    (body : format.writeBody setting.files {
        events := (setting.engine.processor.transform program source parameters).events } out
      = (.ok (), written)) :
    Stopped setting plan kind requests out written
  | idle {next : SerializerStep} (last : ∀ step, (executed plan).getLast? ≠ some (.transform step))
    (stop : stop? plan = some (kind, next)) (order : Journal.orders requests = []) :
    Stopped setting plan kind requests out out

variable {setting : Setting Program} {turn : Turn Program} {before stage : Stage Program σ}
  {kind : SerializerKind}

theorem Stopped.append {plan : List Step} {requests : Journal Program} {out after : σ}
    (h : setting.Stopped plan kind requests out after) {more : Journal Program}
    (hmore : Journal.orders more = []) : setting.Stopped plan kind (more ++ requests) out after := by
  have horders : Journal.orders (more ++ requests) = Journal.orders requests := by
    rw [Journal.orders_append, hmore, List.nil_append]
  cases h with
  | served last stop order made call body =>
    refine .served last stop (horders.trans order) made ?_ body
    rw [Journal.calls_append, List.getLast?_append, call]
    rfl
  | idle last stop order => exact .idle last stop (horders.trans order)

theorem Stopped.cons {plan : List Step} {requests : Journal Program} {out after : σ}
    (h : setting.Stopped plan kind requests out after) {step : Step} (hstep : step.isTerminal = false)
    (hplan : executed plan ≠ []) : setting.Stopped (step :: plan) kind requests out after := by
  have hlast := getLast?_executed hstep hplan
  have hstop := stop?_cons hstep plan
  cases h with
  | served last stop order made call body =>
    exact .served (hlast.trans last) (hstop.trans stop) order made call body
  | idle last stop order =>
    rw [← hlast] at last
    exact .idle last (hstop.trans stop) order

theorem writeBody_of_passage {step : TransformStep} {program : Program} {source : Source}
    {parameters : ParameterSet} {format : BodyFormat} {document? : Option Xml.Document}
    {out written : σ}
    (h : setting.passage step program source parameters (.body format) out
      = (.ok document?, written)) :
    format.writeBody setting.files {
        events := (setting.engine.processor.transform program source parameters).events } out
      = (.ok (), written) := by
  rw [passage_body] at h
  split at h
  · cases h
  · cases hwrite : format.writeBody setting.files {
        events := (setting.engine.processor.transform program source parameters).events } out with
    | mk result after =>
      rw [hwrite] at h
      obtain ⟨hresult, rfl⟩ := Prod.mk.inj h
      cases result with
      | error error => cases hresult
      | ok => rfl

theorem out_of_passage {step : TransformStep} {program : Program} {source : Source}
    {parameters : ParameterSet} {document? : Option Xml.Document} {out written : σ}
    (h : setting.passage step program source parameters .document out = (.ok document?, written)) :
    written = out := by
  rw [passage_document] at h
  split at h
  · cases h
  · exact (Prod.mk.inj h).2.symm

theorem stopped_of_turn {step : Step} (hstep : step.isTerminal = false) {next : SerializerStep}
    (h : setting.turn before (some (.serialize kind next)) step = (turn, stage))
    (hsuccess : turn.failure = none) (rest : List Step) :
    setting.Stopped (step :: .serialize kind next :: rest) kind turn.requests before.out stage.out := by
  have hexecuted : executed (step :: .serialize kind next :: rest) = [step] := executed_cons hstep _
  have hstop : stop? (step :: .serialize kind next :: rest) = some (kind, next) := stop?_cons hstep _
  cases step with
  | serialize kind step => cases hstep
  | respond step =>
    obtain ⟨rfl, rfl⟩ := Prod.mk.inj h
    exact .idle (by simp [hexecuted]) hstop rfl
  | validate step =>
    obtain ⟨_, hrequests, hfailure | ⟨validation, _, _, rfl⟩⟩ := validatorTurn_cases h
    · exact absurd hsuccess hfailure
    · rw [hrequests]
      exact .idle (by simp [hexecuted]) hstop rfl
  | transform step =>
    obtain ⟨_, ⟨hfailure, _⟩ | ⟨program, kept, outlet, _, hresolved, hrequests, _, hend⟩⟩ :=
      transformTurn_cases h
    · exact absurd hsuccess hfailure
    · obtain hfailure | ⟨document?, out, hpassage, _, rfl⟩ := hend
      · exact absurd hsuccess hfailure
      · cases hformat : setting.engine.serializers kind next setting.properties with
        | error error => simp [resolved, Outlet.resolve, hformat, Except.map] at hresolved
        | ok format =>
          simp only [resolved, Outlet.resolve, hformat, Except.map, Except.ok.injEq] at hresolved
          subst hresolved
          have horder : Journal.orders turn.requests = [.serializing kind next setting.properties] := by
            rw [hrequests, Journal.orders_append, Journal.orders_append, Journal.orders_append,
              Journal.orders_compilation, Journal.orders_closing]
            rfl
          have hcall : (Journal.calls turn.requests).getLast? = some (.transformed program
              before.progress.source (setting.given step before.progress)) := by
            rw [hrequests, Journal.calls_append, Journal.calls_closing, List.append_nil,
              Journal.calls_append, List.getLast?_append]
            rfl
          have hlast : (executed (.transform step :: .serialize kind next :: rest)).getLast?
              = some (.transform step) := by
            rw [hexecuted]
            rfl
          exact .served hlast hstop horder hformat hcall (writeBody_of_passage hpassage)

theorem quiet_of_turn {step : Step} (hstep : step.isTerminal = false) {steps : List Step}
    (hsteps : executed steps ≠ []) (h : setting.turn before steps.head? step = (turn, stage))
    (hsuccess : turn.failure = none) :
    Journal.orders turn.requests = [] ∧ stage.out = before.out := by
  cases step with
  | serialize kind step => cases hstep
  | respond step =>
    obtain ⟨rfl, rfl⟩ := Prod.mk.inj h
    exact ⟨rfl, rfl⟩
  | validate step =>
    obtain ⟨_, hrequests, hfailure | ⟨validation, _, _, rfl⟩⟩ := validatorTurn_cases h
    · exact absurd hsuccess hfailure
    · rw [hrequests]
      exact ⟨rfl, rfl⟩
  | transform step =>
    obtain ⟨_, ⟨hfailure, _⟩ | ⟨program, kept, outlet, _, hresolved, hrequests, _, hend⟩⟩ :=
      transformTurn_cases h
    · exact absurd hsuccess hfailure
    · obtain hfailure | ⟨document?, out, hpassage, _, rfl⟩ := hend
      · exact absurd hsuccess hfailure
      · cases steps with
        | nil => exact absurd rfl hsteps
        | cons next rest =>
          obtain ⟨rfl, _⟩ := resolve_document hsteps hresolved
          have horder : setting.order (some next) = [] := by
            cases next with
            | serialize kind next => exact absurd rfl hsteps
            | _ => rfl
          refine ⟨?_, out_of_passage hpassage⟩
          rw [hrequests, List.head?_cons, horder, List.append_nil, Journal.orders_append,
            Journal.orders_append, Journal.orders_compilation, Journal.orders_closing]
          rfl

theorem runSteps_stopped (setting : Setting Program) (steps : List Step) {progress reached : Progress}
    {run after : Run Program σ}
    (h : perform (setting.runSteps steps progress) run = (.ok (reached, some kind), after)) :
    ∃ requests, after.journal.requests = run.journal.requests ++ requests
      ∧ setting.Stopped steps kind requests run.out after.out := by
  induction steps generalizing progress run with
  | nil =>
    unfold runSteps at h
    obtain ⟨hreached, _⟩ := pure_cases h
    cases hreached
  | cons step steps ih =>
    cases hstep : step.isTerminal with
    | true =>
      obtain ⟨kind, serializer, rfl⟩ := Step.exists_of_isTerminal hstep
      obtain ⟨hreached, rfl⟩ := pure_cases h
      cases hreached
      have hlast : ∀ next, (executed (.serialize kind serializer :: steps)).getLast?
          ≠ some (.transform next) := by
        intro next
        simp [executed, Step.isTerminal, Step.serializer?]
      refine ⟨[], ?_, .idle hlast rfl rfl⟩
      rw [List.append_nil]
      exact run.requests_log _
    | false =>
      cases hturn : setting.turn (run.stage progress) steps.head? step with
      | mk turn stage =>
        obtain ⟨between, hrun, hrequests, hout, hnext⟩ := perform_runSteps_cons hstep hturn
        rw [h] at hrun
        cases hfailure : turn.failure with
        | some error =>
          rw [hfailure] at hrun
          cases hrun
        | none =>
          rw [hfailure] at hrun
          by_cases hsteps : executed steps = []
          · -- The step is the last one that is run, and a serializer comes next.
            obtain rfl | ⟨other, next, rest, rfl⟩ := exists_of_executed_nil hsteps
            · obtain ⟨hreached, _⟩ := pure_cases hrun.symm
              cases hreached
            · have hstopped := stopped_of_turn hstep hturn hfailure rest
              obtain ⟨hreached, rfl⟩ := pure_cases hrun.symm
              cases hreached
              refine ⟨turn.requests, (between.requests_log _).trans hrequests, ?_⟩
              have hlogged : (between.log [(Step.serialize kind next).record]).out = stage.out := hout
              rw [← hlogged] at hstopped
              exact hstopped
          · obtain ⟨horders, hsame⟩ := quiet_of_turn hstep hsteps hturn hfailure
            obtain ⟨requests, hafter, hstopped⟩ := ih hrun.symm
            rw [hrequests, List.append_assoc] at hafter
            rw [hout, hsame] at hstopped
            exact ⟨_, hafter, (hstopped.append horders).cons hstep hsteps⟩

theorem run_stopped (setting : Setting Program) (steps : List Step) (input : String)
    {summary : Summary} {run after : Run Program σ}
    (h : perform (setting.run steps input) run = (.ok summary, after))
    (hkind : summary.serializer = some kind) :
    summary.properties = setting.properties
      ∧ ∃ requests, after.journal.requests = run.journal.requests ++ requests
        ∧ setting.Stopped steps kind requests run.out after.out := by
  unfold Setting.run at h
  obtain ⟨⟨reached, serializer⟩, between, hsteps, hrest⟩ | ⟨error, _, herror⟩ := bind_cases h
  case inr => cases herror
  rw [log_bind] at hrest
  obtain ⟨hsummary, rfl⟩ := pure_cases hrest
  obtain rfl := Except.ok.inj hsummary
  simp only at hkind
  rw [hkind] at hsteps
  obtain ⟨requests, hrequests, hstopped⟩ := setting.runSteps_stopped steps hsteps
  exact ⟨rfl, requests, (between.requests_log _).trans hrequests, hstopped⟩

end Setting

namespace Engine

variable [ByteWriter σ]

/--
What has become of the serializer that a pipeline stops at. In development mode the body was made in memory, and
was passed on to the response afterwards.
-/
def Stopped (engine : Engine Program) (files : FileReader) (pipeline : Pipeline)
    (parameters : ParameterSet) (inDevelopment : Bool) (summary : Summary) (kind : SerializerKind)
    (requests : Journal Program) (out after : σ) : Prop :=
  let setting := engine.setting files inDevelopment summary.properties parameters
  let plan := pipeline.plan engine.config
  if inDevelopment then
    ∃ filled : ByteSink, setting.Stopped plan kind requests {} filled
      ∧ ByteWriter.deliver filled.received.toList out = (.ok (), after)
  else
    setting.Stopped plan kind requests out after

theorem execute_stopped (engine : Engine Program) (files : FileReader) (pipeline : Pipeline)
    (input : String) (parameters : ParameterSet) (inDevelopment : Bool) {out : σ} {summary : Summary}
    {after : Run Program σ} {kind : SerializerKind}
    (h : engine.execute files pipeline input parameters inDevelopment out = (.ok summary, after))
    (hkind : summary.serializer = some kind) :
    engine.Stopped files pipeline parameters inDevelopment summary kind after.journal.requests out
      after.out := by
  obtain ⟨_, ⟨error, herror⟩, _⟩
    | ⟨properties, templates, between, _, _, hout, _, hrequests, houtcome⟩ :=
    engine.execute_cases files pipeline input parameters inDevelopment out
  · rw [h] at herror
    cases herror
  · let setting := engine.setting files inDevelopment properties parameters
    have hprepared := Journal.orders_preparation engine pipeline inDevelopment
    rw [h] at houtcome
    unfold Stopped
    cases inDevelopment with
    | true =>
      simp only [↓reduceIte] at houtcome ⊢
      cases hinner : perform (setting.run (pipeline.plan engine.config) input)
          (between.redirect ({} : ByteSink)) with
      | mk inner filled =>
        obtain ⟨hjournal, hdelivered⟩ := buffered_cases houtcome.symm hinner
        obtain ⟨rfl, hdeliver⟩ := hdelivered summary rfl
        obtain ⟨hproperties, requests, hmore, hstopped⟩ := setting.run_stopped _ input hinner hkind
        have hbefore : (between.redirect ({} : ByteSink)).journal.requests
            = engine.preparation pipeline true :=
          hrequests
        rw [hjournal, hmore, hbefore, hproperties]
        rw [hout] at hdeliver
        exact ⟨filled.out, hstopped.append hprepared, hdeliver⟩
    | false =>
      simp only [Bool.false_eq_true, ↓reduceIte] at houtcome ⊢
      obtain ⟨hproperties, requests, hmore, hstopped⟩ :=
        setting.run_stopped _ input houtcome.symm hkind
      rw [hmore, hrequests, hproperties]
      rw [hout] at hstopped
      exact hstopped.append hprepared

theorem execute_stopped_serializedPipeline :
    let outcome := sampleEngine.execute sampleFiles serializedPipeline "x" .empty false sampleSink
    outcome = (.ok serializedSummary, outcome.2) ∧ serializedSummary.serializer = some .json
      ∧ sampleEngine.Stopped sampleFiles serializedPipeline .empty false serializedSummary .json
        outcome.2.journal.requests sampleSink outcome.2.out := by
  intro outcome
  have hresult : outcome.1 = .ok serializedSummary := eq_ok_of_toOption (by decide +kernel)
  have houtcome : outcome = (.ok serializedSummary, outcome.2) := Prod.ext hresult rfl
  exact ⟨houtcome, rfl, execute_stopped sampleEngine sampleFiles serializedPipeline "x" .empty false
    houtcome rfl⟩

def idlePipeline : Pipeline where
  steps := [.respond { body := "<page/>" }, .serialize .json { name := "json" },
    .transform { name := "last", templatePath := "last.xsl" }]

/--
The summary tells of a serializer, and the response has the content type of its bodies. But no body was made.
-/
theorem execute_idlePipeline :
    let outcome := sampleEngine.execute sampleFiles idlePipeline "x" .empty false ({} : ByteSink)
    outcome.1.toOption.bind Summary.serializer = some .json ∧ outcome.2.journal.orders = []
      ∧ outcome.2.out.received = #[]
      ∧ (sampleEngine.handle {} { pipeline := idlePipeline, input := "x" } ({} : ByteSink)).head
        = ⟨200, "application/json"⟩ := by
  decide +kernel

end Engine
end XmlPipeline
