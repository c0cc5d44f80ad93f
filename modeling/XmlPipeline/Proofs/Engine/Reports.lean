import XmlPipeline.Proofs.Engine.Frame
import XmlPipeline.Proofs.Engine.Parameters
import XmlPipeline.Proofs.Engine.Threading

/-!
This module contains what becomes of the reports that the validators of a pipeline make. The main statement is
that a report is bound for the next stylesheet or logged, unless the report of a later validator takes its
place before that.
-/

namespace XmlPipeline

open RunM

theorem SortedMap.mem_keys {κ : Type u} {α : Type v} [DecidableEq κ] [Ord κ] [Std.LawfulEqOrd κ]
    {map : SortedMap κ α} {key : κ} {value : α} (h : map.get? key = some value) : key ∈ map.keys := by
  apply Decidable.byContradiction
  intro hkey
  have hnone : latest? key map.toList = none := by
    apply latest?_eq_none
    intro entry hentry heq
    exact hkey (List.mem_map.mpr ⟨entry, hentry, heq⟩)
  rw [latest?_toList, h] at hnone
  cases hnone

theorem Run.records_log {Program σ : Type} (run : Run Program σ) (records : List LogRecord) :
    (run.log records).journal.records = run.journal.records ++ records := by
  unfold log Journal.records
  rw [List.filterMap_append, List.filterMap_map]
  exact congrArg _ List.filterMap_some

/--
The record warns of reports that no stylesheet was given, one of which was kept under this name.
-/
def LogRecord.TellsOf (record : LogRecord) (name : ParameterName) : Prop :=
  record.level = .warn ∧ ("code", "engine.validation_reported") ∈ record.fields
    ∧ ∃ names : List ParameterName, name ∈ names
      ∧ ("parameters", Text.quotedList (names.map ParameterName.display)) ∈ record.fields

def LogRecord.Reports (record : LogRecord) (report : ValidationReport) : Prop :=
  record.level = .warn ∧ ("code", "engine.validation_reported") ∈ record.fields
    ∧ ("label", report.label) ∈ record.fields
    ∧ ("problems", toString report.findings.length) ∈ record.fields

theorem ValidationReport.reports_record (report : ValidationReport) : report.record.Reports report := by
  unfold record LogRecord.Reports
  refine ⟨rfl, List.mem_cons_self, ?_, ?_⟩
  · simp
  · simp

theorem Progress.tellsOf_unreadRecords {progress : Progress} {name : ParameterName}
    {value : ParameterValue} (h : progress.reports.get? name = some value) :
    ∃ record ∈ progress.unreadRecords, record.TellsOf name := by
  have hmem := SortedMap.mem_keys h
  have hempty : progress.reports.isEmpty = false := by
    unfold SortedMap.keys at hmem
    unfold SortedMap.isEmpty
    cases hentries : progress.reports.toList with
    | nil => simp [hentries] at hmem
    | cons entry entries => rfl
  unfold unreadRecords
  rw [hempty]
  exact ⟨_, List.mem_singleton_self _, rfl, List.mem_cons_self, _, hmem, by simp⟩

namespace ValidatorStep

theorem latest?_reported (step : ValidatorStep) (validation : Validation) (name : ParameterName) :
    latest? name (step.reported (.ok validation))
      = if step.reportKey? = some name then
          validation.report.map fun report => .document report.toDocument
        else
          none := by
  unfold reported
  cases hreport : validation.report with
  | none => simp [Except.toOption, hreport, latest?]
  | some report =>
    cases step.reportKey? with
    | none => simp [Except.toOption, hreport, latest?]
    | some key => simp [Except.toOption, hreport, latest?_singleton]

end ValidatorStep

variable {Program σ : Type}

/--
What becomes of a report that is kept under a name, told by the steps after its validator, the calls of the
processor for them, and what has been logged in the end.
-/
inductive Settled (processor : Processor Program) (records : List LogRecord) (name : ParameterName)
    (report : ValidationReport) : List Step → Journal Program → Prop where
  | bound {step : TransformStep} {parameters : ParameterSet}
    (given : parameters.get? name = some (.document report.toDocument)) :
    Settled processor records name report (.transform step :: steps)
      (.transformed program source parameters :: calls)
  | unread (logged : ∃ record ∈ records, record.TellsOf name) :
    Settled processor records name report [] []
  | replaced {step : ValidatorStep} {validation : Validation} {later : ValidationReport}
    (valid : processor.validate step.schemaPaths source (ValidationReport.stepLabel step.name)
      = .ok validation)
    (made : validation.report = some later) (sameName : step.reportKey? = some name) :
    Settled processor records name report (.validate step :: steps)
      (.validated step.schemaPaths source (ValidationReport.stepLabel step.name) :: calls)
  | afterResponse (rest : Settled processor records name report steps calls) :
    Settled processor records name report (.respond step :: steps) calls
  | afterValidation {step : ValidatorStep} {validation : Validation}
    (valid : processor.validate step.schemaPaths source (ValidationReport.stepLabel step.name)
      = .ok validation)
    (spared : step.reportKey? = some name → validation.report = none)
    (rest : Settled processor records name report steps calls) :
    Settled processor records name report (.validate step :: steps)
      (.validated step.schemaPaths source (ValidationReport.stepLabel step.name) :: calls)

/--
The calls of the processor fit the steps, and each report that a validator has returned is settled. It is
logged at once if the validator has no name for it.
-/
inductive Accounted (processor : Processor Program) (records : List LogRecord) :
    List Step → Journal Program → Prop where
  | nil : Accounted processor records [] []
  | respond (rest : Accounted processor records steps calls) :
    Accounted processor records (.respond step :: steps) calls
  | transform (rest : Accounted processor records steps calls) :
    Accounted processor records (.transform step :: steps)
      (.transformed program source parameters :: calls)
  | validate {step : ValidatorStep} {validation : Validation}
    (valid : processor.validate step.schemaPaths source (ValidationReport.stepLabel step.name)
      = .ok validation)
    (named : ∀ report name, validation.report = some report → step.reportKey? = some name →
      Settled processor records name report steps calls)
    (unnamed : ∀ report, validation.report = some report → step.reportKey? = none →
      ∃ record ∈ records, record.Reports report)
    (rest : Accounted processor records steps calls) :
    Accounted processor records (.validate step :: steps)
      (.validated step.schemaPaths source (ValidationReport.stepLabel step.name) :: calls)

namespace Setting

theorem runValidator_logged {setting : Setting Program} {step : ValidatorStep} {progress : Progress}
    {validation : Validation} {report : ValidationReport}
    (hvalidation : setting.engine.processor.validate step.schemaPaths (.text progress.source.toText)
      (ValidationReport.stepLabel step.name) = .ok validation)
    (hreport : validation.report = some report) (hname : step.reportKey? = none)
    (run : Run Program σ) :
    report.record ∈ (perform (setting.runValidator step progress) run).2.journal.records := by
  have hunnamed : step.reportName = none := Option.map_eq_none_iff.mp hname
  unfold runValidator
  simp only
  rw [note_bind, ofExcept_mapError_bind, hvalidation]
  simp only [hreport, hunnamed]
  rw [log_bind, perform_pure, Run.records_log]
  simp

variable [ByteWriter σ]

theorem runSteps_records (setting : Setting Program) (steps : List Step) (progress : Progress)
    (run : Run Program σ) :
    run.journal.records
      ⊆ (perform (setting.runSteps steps progress) run).2.journal.records := by
  have hgrows : run.journal <+: (perform (setting.runSteps steps progress) run).2.journal :=
    Commutes.grows (fun before => setting.runSteps_commutes rfl (.inr rfl) steps progress) run
  exact (hgrows.filterMap _).subset

theorem runSteps_accounted (setting : Setting Program) {records : List LogRecord}
    {reached : Progress} {serializer : Option SerializerKind} {after : Run Program σ}
    (hrecords : after.journal.records ⊆ records)
    (hunread : ∀ name value, reached.reports.get? name = some value →
      ∃ record ∈ records, record.TellsOf name)
    (steps : List Step) {progress : Progress} {run : Run Program σ}
    (h : perform (setting.runSteps steps progress) run = (.ok (reached, serializer), after)) :
    ∃ calls, after.journal.calls = run.journal.calls ++ calls
      ∧ Accounted setting.engine.processor records (executed steps) calls
      ∧ ∀ name report, progress.reports.get? name = some (.document report.toDocument) →
        Settled setting.engine.processor records name report (executed steps) calls := by
  -- What is kept when the steps end is logged after them, so the induction is over the steps that are left.
  induction steps generalizing progress run with
  | nil =>
    unfold runSteps at h
    obtain ⟨hreached, rfl⟩ := pure_cases h
    obtain ⟨rfl, rfl⟩ := Prod.mk.inj (Except.ok.inj hreached)
    refine ⟨[], by simp, .nil, ?_⟩
    intro name report hkept
    exact .unread (hunread name _ hkept)
  | cons step steps ih =>
    unfold runSteps at h
    rw [log_bind] at h
    have hcalls := run.calls_log [step.record]
    cases step with
    | serialize kind step =>
      obtain ⟨hreached, rfl⟩ := pure_cases h
      obtain ⟨rfl, _⟩ := Prod.mk.inj (Except.ok.inj hreached)
      refine ⟨[], by simp [hcalls], .nil, ?_⟩
      intro name report hkept
      exact .unread (hunread name _ hkept)
    | respond step =>
      obtain ⟨calls, hafter, haccounted, hsettled⟩ := ih h
      rw [hcalls] at hafter
      refine ⟨calls, hafter, .respond haccounted, ?_⟩
      intro name report hkept
      exact .afterResponse (hsettled name report hkept)
    | transform step =>
      obtain ⟨between, started, hstep, hrest⟩ | ⟨error, _, herror⟩ := bind_cases h
      case inr => cases herror
      obtain ⟨_, _, herror⟩ | ⟨program, outlet, _, hcall, _⟩ := runTransform_cases hstep
      case inl => cases herror
      obtain ⟨calls, hafter, haccounted, _⟩ := ih hrest
      rw [hcall, hcalls, List.append_assoc] at hafter
      refine ⟨_, hafter, .transform haccounted, ?_⟩
      intro name report hkept
      apply Settled.bound
      unfold Setting.given
      rw [ParameterSet.get?_merge, hkept]
      rfl
    | validate step =>
      obtain ⟨between, started, hstep, hrest⟩ | ⟨error, _, herror⟩ := bind_cases h
      case inr => cases herror
      obtain ⟨_, hcall, hreached⟩ := runValidator_cases rfl hstep
      obtain ⟨validation, hvalid, _, hreports⟩ := hreached between rfl
      obtain ⟨calls, hafter, haccounted, hsettled⟩ := ih hrest
      rw [hcall, hcalls, List.append_assoc] at hafter
      have hget : ∀ name, between.reports.get? name
          = (if step.reportKey? = some name then
              validation.report.map fun report => .document report.toDocument
            else
              none).or (progress.reports.get? name) := by
        intro name
        rw [hreports, SortedMap.get?_insertMany, hvalid, step.latest?_reported]
      refine ⟨_, hafter, .validate hvalid ?_ ?_ haccounted, ?_⟩
      · intro report name hreport hname
        apply hsettled
        rw [hget, if_pos hname, hreport]
        rfl
      · intro report hreport hname
        have hlogged := runValidator_logged hvalid hreport hname (run.log [(Step.validate step).record])
        have hgrown := setting.runSteps_records steps between started
        rw [hstep] at hlogged
        rw [hrest] at hgrown
        exact ⟨report.record, hrecords (hgrown hlogged), report.reports_record⟩
      · intro name report hkept
        -- A report of this validator under the same name takes the place of the one that is kept.
        by_cases hname : step.reportKey? = some name
        · cases hreport : validation.report with
          | some later => exact .replaced hvalid hreport hname
          | none =>
            apply Settled.afterValidation hvalid fun _ => hreport
            apply hsettled
            rw [hget, if_pos hname, hreport]
            exact hkept
        · apply Settled.afterValidation hvalid fun h => absurd h hname
          apply hsettled
          rw [hget, if_neg hname]
          exact hkept

theorem run_accounted (setting : Setting Program) (steps : List Step) (input : String)
    {summary : Summary} {run after : Run Program σ}
    (h : perform (setting.run steps input) run = (.ok summary, after)) :
    ∃ calls, after.journal.calls = run.journal.calls ++ calls
      ∧ Accounted setting.engine.processor after.journal.records (executed steps) calls := by
  unfold Setting.run at h
  obtain ⟨⟨reached, serializer⟩, between, hsteps, hrest⟩ | ⟨error, _, herror⟩ := bind_cases h
  case inr => cases herror
  rw [log_bind] at hrest
  obtain ⟨_, rfl⟩ := pure_cases hrest
  have hsubset : between.journal.records ⊆ between.journal.records ++ reached.unreadRecords :=
    List.subset_append_left _ _
  have hunread : ∀ name value, reached.reports.get? name = some value →
      ∃ record ∈ between.journal.records ++ reached.unreadRecords, record.TellsOf name := by
    intro name value hkept
    obtain ⟨record, hrecord, htells⟩ := reached.tellsOf_unreadRecords hkept
    exact ⟨record, List.mem_append_right _ hrecord, htells⟩
  obtain ⟨calls, hcalls, haccounted, _⟩ := setting.runSteps_accounted hsubset hunread steps hsteps
  rw [between.records_log, between.calls_log]
  exact ⟨calls, hcalls, haccounted⟩

end Setting

namespace Engine

variable [ByteWriter σ]

theorem execute_accounted (engine : Engine Program) (files : FileReader) (pipeline : Pipeline)
    (input : String) (parameters : ParameterSet) (inDevelopment : Bool) {out : σ} {summary : Summary}
    {after : Run Program σ}
    (h : engine.execute files pipeline input parameters inDevelopment out = (.ok summary, after)) :
    Accounted engine.processor after.journal.records (executed (pipeline.plan engine.config))
      after.journal.calls := by
  obtain ⟨_, _, herror⟩ | ⟨properties, between, hwork, hrun⟩ := execution_cases h
  case inl => cases herror
  let setting := engine.setting files inDevelopment properties parameters
  split at hrun
  · cases hinner : perform (setting.run (pipeline.plan engine.config) input)
        (between.redirect ({} : ByteSink)) with
    | mk inner filled =>
      obtain ⟨hjournal, hdelivered⟩ := buffered_cases hrun hinner
      obtain ⟨rfl, _⟩ := hdelivered summary rfl
      obtain ⟨calls, hcalls, haccounted⟩ := setting.run_accounted _ input hinner
      have hbefore : (between.redirect ({} : ByteSink)).journal.calls = [] := hwork.2
      rw [hjournal, hcalls, hbefore]
      exact haccounted
  · obtain ⟨calls, hcalls, haccounted⟩ := setting.run_accounted _ input hrun
    have hbefore : between.journal.calls = [] := hwork.2
    rw [hcalls, hbefore]
    exact haccounted

def reportingProcessor : Processor Unit :=
  { sampleProcessor with
    validate := fun schemas source label => .ok {
      output := source.toText
      report := some {
        label
        findings := schemas.map fun schema => { severity := .error, message := schema } } } }

def reportingEngine : Engine Unit :=
  { sampleEngine with processor := reportingProcessor }

def reportingPipeline (second : Option String) : Pipeline where
  steps := [.validate { name := "first", schemaPaths := ["first.xsd"], reportName := some "errors" },
    .validate { name := "second", schemaPaths := ["second.xsd"], reportName := second },
    .transform { name := "page", templatePath := "page.xsl" }]

def reportingExecution (second : Option String) : Except Error Summary × Run Unit ByteSink :=
  reportingEngine.execute sampleFiles (reportingPipeline second) "x" .empty false {}

def reportingSummary : Summary where
  stepsRun := 4
  properties := .empty
  serializer := none

theorem execute_accounted_reportingExecution :
    reportingExecution none = (.ok reportingSummary, (reportingExecution none).2)
      ∧ Accounted reportingEngine.processor (reportingExecution none).2.journal.records
        (executed ((reportingPipeline none).plan reportingEngine.config))
        (reportingExecution none).2.journal.calls := by
  have hsome : (reportingExecution none).1.toOption = some reportingSummary := by
    decide +kernel
  have hexecution : reportingExecution none = (.ok reportingSummary, (reportingExecution none).2) := by
    cases hresult : reportingExecution none with
    | mk result after =>
      rw [hresult] at hsome
      cases result with
      | error error => cases hsome
      | ok summary => rw [Option.some.inj hsome]
  exact ⟨hexecution, execute_accounted reportingEngine sampleFiles (reportingPipeline none) "x" .empty
    false hexecution⟩

def givenValues {Program : Type} (journal : Journal Program) : List ParameterValue :=
  journal.flatMap fun
    | .transformed _ _ parameters => parameters.toList.map (·.2)
    | _ => []

def firstReport : ValidationReport where
  label := "Step: first"
  findings := [{ severity := .error, message := "first.xsd" }]

deriving instance DecidableEq for Occurrence

/--
If both validators have the same name for their reports, the one of the first is neither bound nor logged.
-/
theorem execute_reportingEngine :
    let journal := (reportingExecution (some "errors")).2.journal
    (reportingExecution (some "errors")).1.toOption.isSome
      ∧ .validated ["first.xsd"] (.text "x") "Step: first" ∈ journal.calls
      ∧ reportingEngine.processor.validate ["first.xsd"] (.text "x") "Step: first"
        = .ok { output := "x", report := some firstReport }
      ∧ .document firstReport.toDocument ∉ givenValues journal
      ∧ ∀ record ∈ journal.records, record.level ≠ .warn := by
  refine ⟨by decide +kernel, by decide +kernel, rfl, by decide +kernel, by decide +kernel⟩

end Engine
end XmlPipeline
