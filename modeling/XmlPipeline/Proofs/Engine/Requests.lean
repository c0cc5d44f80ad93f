import XmlPipeline.Proofs.Engine.Abort

/-!
This module contains what the actions of a run ask for: stylesheets, transformations and validations from the
processor, formats from the serializer factory, and that the diagnostics show the result of a step. Each action
adds its own requests to the journal.
-/

namespace XmlPipeline

open RunM

namespace Occurrence

variable {Program : Type}

def isRequest : Occurrence Program → Bool
  | logged _ => false
  | compiled _ => true
  | transformed .. => true
  | validated .. => true
  | serializing .. => true
  | shown .. => true

end Occurrence

namespace Journal

variable {Program : Type}

def requests (journal : Journal Program) : Journal Program :=
  journal.filter Occurrence.isRequest

theorem requests_append (journal more : Journal Program) :
    Journal.requests (journal ++ more) = journal.requests ++ Journal.requests more :=
  List.filter_append journal more

theorem requests_logged (records : List LogRecord) :
    Journal.requests (records.map .logged : Journal Program) = [] := by
  unfold requests
  rw [List.filter_eq_nil_iff]
  intro occurrence h
  obtain ⟨record, _, rfl⟩ := List.mem_map.mp h
  simp [Occurrence.isRequest]

theorem calls_requests (journal : Journal Program) : journal.requests.calls = journal.calls := by
  unfold requests calls
  rw [List.filter_filter]
  congr 1
  funext occurrence
  cases occurrence <;> rfl

end Journal

def Diagnostics.request {Program : Type} (diagnostics : Diagnostics) (output : String × String) :
    Journal Program :=
  match diagnostics with
  | logged => []
  | kept => [.shown output.1 output.2]

namespace Run

variable {Program σ : Type}

theorem requests_log (run : Run Program σ) (records : List LogRecord) :
    (run.log records).journal.requests = run.journal.requests := by
  unfold log
  rw [Journal.requests_append, Journal.requests_logged, List.append_nil]

theorem requests_note (run : Run Program σ) {occurrence : Occurrence Program}
    (h : occurrence.isRequest) :
    (run.note occurrence).journal.requests = run.journal.requests ++ [occurrence] := by
  unfold note
  rw [Journal.requests_append]
  simp [Journal.requests, h]

theorem requests_hear (run : Run Program σ) (notice : Notice) :
    (run.hear notice).journal.requests = run.journal.requests :=
  run.requests_log _

theorem requests_present (run : Run Program σ) (diagnostics : Diagnostics)
    (output : String × String) :
    (run.present diagnostics output).journal.requests
      = run.journal.requests ++ diagnostics.request output := by
  unfold present
  cases diagnostics with
  | logged =>
    rw [requests_log]
    exact (List.append_nil _).symm
  | kept => exact run.requests_note rfl

end Run

theorem RunM.requests_forM_hear {Program σ : Type} (notices : List Notice) (run : Run Program σ) :
    (perform (notices.forM RunM.hear) run).2.journal.requests = run.journal.requests := by
  induction notices generalizing run with
  | nil => rfl
  | cons notice notices ih => exact (ih (run.hear notice)).trans (run.requests_hear notice)

theorem Transformation.requests_conduct {Program σ : Type} [ByteWriter σ]
    (transformation : Transformation) (destination : Destination σ) (run : Run Program σ) :
    (transformation.conduct destination run).2.2.journal.requests = run.journal.requests := by
  induction transformation generalizing destination run with
  | finish => rfl
  | fail error => rfl
  | report notice next ih => exact (ih destination (run.hear notice)).trans (run.requests_hear notice)
  | emit event next ih => exact ih _ (destination.write event).2 run

namespace Tee

def holding (tee : Tee) (events : List Xml.Event) : Tee :=
  { tee with events := events.toArray }

theorem holding_ofStep? (inDevelopment : Bool) (step : Step) :
    (ofStep? inDevelopment step).map (holding · []) = ofStep? inDevelopment step := by
  unfold ofStep?
  split <;> rfl

end Tee

theorem Transformation.conduct_tee {Program σ : Type} [ByteWriter σ] (transformation : Transformation)
    (target : Target σ) (tee : Option Tee) (before : List Xml.Event) (destination : Destination σ)
    (run : Run Program σ) (htarget : destination.target = target.given before)
    (htee : destination.tee = tee.map (·.holding before)) :
    (transformation.conduct destination run).2.1.tee
      = tee.map (·.holding (transformation.emitted target.answer before)) := by
  induction transformation generalizing before destination run with
  | finish => exact htee
  | fail error => exact htee
  | report notice next ih => exact ih before destination (run.hear notice) htarget htee
  | emit event next ih =>
    obtain ⟨hresult, hnext⟩ := Destination.write_given htarget event
    have hwritten : (destination.write event).2.tee = tee.map (·.holding (before ++ [event])) := by
      unfold Destination.write
      rw [htee, Option.map_map]
      simp [Function.comp_def, Tee.holding]
    unfold emitted conduct
    simp only
    rw [hresult]
    exact ih (target.answer before event) (before ++ [event]) (destination.write event).2 run hnext
      hwritten

namespace Engine

variable {Program σ : Type}

def compilation (inDevelopment : Bool) (templates : TemplateCache Program) (path : Path) :
    Journal Program :=
  match if inDevelopment then none else templates.find? path with
  | some _ => []
  | none => [.compiled path.normalize]

theorem compilation_cases (inDevelopment : Bool) (templates : TemplateCache Program) (path : Path) :
    compilation inDevelopment templates path = []
      ∨ compilation inDevelopment templates path = [.compiled path.normalize] := by
  unfold compilation
  split
  · exact .inl rfl
  · exact .inr rfl

theorem requests_compile (engine : Engine Program) (inDevelopment : Bool) (path : Path)
    (run : Run Program σ) :
    (perform (engine.compile inDevelopment path) run).2.journal.requests
      = run.journal.requests ++ compilation inDevelopment run.templates path := by
  unfold compile compilation
  rw [get_bind]
  simp only
  cases (if inDevelopment then none else run.templates.find? path) with
  | some program => exact (List.append_nil _).symm
  | none =>
    let noted := (run.log [compileRecord path.normalize]).note (.compiled path.normalize)
    have hnoted : noted.journal.requests = run.journal.requests ++ [.compiled path.normalize] := by
      rw [Run.requests_note _ rfl, Run.requests_log]
    have hheard := requests_forM_hear (engine.processor.compile path.normalize).notices noted
    simp only
    rw [log_bind, note_bind, perform_bind]
    cases hhear : perform ((engine.processor.compile path.normalize).notices.forM RunM.hear) noted with
    | mk result heard =>
      rw [hhear, hnoted] at hheard
      cases result with
      | error error => exact hheard
      | ok =>
        simp only
        rw [ofExcept_bind]
        cases (engine.processor.compile path.normalize).result with
        | error error => exact hheard
        | ok program => cases inDevelopment <;> exact hheard

theorem requests_compileStep (engine : Engine Program) (inDevelopment : Bool) (step : TransformStep)
    (run : Run Program σ) :
    (perform (engine.compileStep inDevelopment step) run).2.journal.requests
      = run.journal.requests
        ++ compilation inDevelopment run.templates (engine.config.templatePath step) := by
  rw [← engine.requests_compile]
  unfold compileStep
  rw [perform_tryCatch]
  cases perform (engine.compile inDevelopment (engine.config.templatePath step)) run with
  | mk result after => cases result <;> rfl

def preparation (engine : Engine Program) (pipeline : Pipeline) (inDevelopment : Bool) : Journal Program :=
  match pipeline.lastTransform? with
  | none => []
  | some step => compilation inDevelopment engine.templates (engine.config.templatePath step)

theorem preparation_cases (engine : Engine Program) (pipeline : Pipeline) (inDevelopment : Bool) :
    engine.preparation pipeline inDevelopment = []
      ∨ ∃ path, engine.preparation pipeline inDevelopment = [.compiled path] := by
  unfold preparation
  split
  · exact .inl rfl
  · next step _ =>
    exact (compilation_cases inDevelopment engine.templates (engine.config.templatePath step)).imp_right
      fun h => ⟨_, h⟩

theorem requests_outputProperties (engine : Engine Program) (pipeline : Pipeline)
    (inDevelopment : Bool) (out : σ) :
    (perform (engine.outputProperties inDevelopment pipeline)
        (engine.startRun inDevelopment out)).2.journal.requests
      = engine.preparation pipeline inDevelopment := by
  unfold outputProperties preparation
  cases pipeline.lastTransform? with
  | none => rfl
  | some step =>
    have hcompile := engine.requests_compileStep inDevelopment step
      (engine.startRun inDevelopment out)
    simp only
    rw [perform_bind]
    cases hperform : perform (engine.compileStep inDevelopment step)
        (engine.startRun inDevelopment out) with
    | mk result after =>
      rw [hperform] at hcompile
      cases result <;> exact hcompile

end Engine

namespace Setting

section

variable {Program σ : Type}

def order (setting : Setting Program) (next : Option Step) : Journal Program :=
  match next with
  | some (.serialize kind step) => [.serializing kind step setting.properties]
  | _ => []

theorem requests_outlet (setting : Setting Program) (current : Step) (next : Option Step)
    (run : Run Program σ) :
    (perform (setting.outlet current next) run).2.journal.requests
      = run.journal.requests ++ setting.order next := by
  unfold outlet
  split
  · rw [note_bind, log_bind, perform_ofExcept, Run.requests_log, Run.requests_note _ rfl]
    rfl
  · next hother =>
    have hnone : setting.order next = [] := by
      unfold order
      split
      · exact absurd rfl (hother _ _)
      · rfl
    rw [log_bind, perform_ofExcept, Run.requests_log, hnone, List.append_nil]

def validationRequest (step : ValidatorStep) (progress : Progress) : Occurrence Program :=
  .validated step.schemaPaths (.text progress.source.toText) (ValidationReport.stepLabel step.name)

theorem requests_runValidator (setting : Setting Program) (step : ValidatorStep)
    (progress : Progress) (run : Run Program σ) :
    (perform (setting.runValidator step progress) run).2.journal.requests
      = run.journal.requests ++ [validationRequest step progress] := by
  have hnoted : (run.note (validationRequest step progress)).journal.requests
      = run.journal.requests ++ [validationRequest step progress] :=
    run.requests_note rfl
  unfold runValidator
  simp only
  rw [note_bind, ofExcept_mapError_bind]
  split
  · split
    · exact hnoted
    · exact hnoted
    · rw [log_bind, perform_pure, Run.requests_log]
      exact hnoted
  · exact hnoted

end

def showing (setting : Setting Program) (step : TransformStep) (events : List Xml.Event) :
    Journal Program :=
  match Tee.ofStep? setting.inDevelopment (.transform step) with
  | some tee => setting.engine.diagnostics.request (tee.holding events).output
  | none => []

variable {Program σ : Type} [ByteWriter σ]

theorem requests_transform {setting : Setting Program} {step : TransformStep} {program : Program}
    {source : Source} {parameters : ParameterSet} {outlet : Outlet} {run after : Run Program σ}
    {result : Except Error (Option Xml.Document)}
    (h : perform (setting.transform step program source parameters outlet) run = (result, after)) :
    after.journal.requests
      = run.journal.requests ++ [.transformed program source parameters]
        ++ match result with
          | .ok _ =>
            setting.showing step <|
              (setting.engine.processor.transform program source parameters).emitted
                (outlet.connect run.out).answer []
          | .error _ => [] := by
  let transformation := setting.engine.processor.transform program source parameters
  let start : Destination σ := {
    target := outlet.connect run.out
    tee := Tee.ofStep? setting.inDevelopment (.transform step) }
  let noted := run.note (.transformed program source parameters)
  have hnoted : noted.journal.requests
      = run.journal.requests ++ [.transformed program source parameters] :=
    run.requests_note rfl
  have hconducted := transformation.requests_conduct start noted
  have htee := transformation.conduct_tee start.target start.tee [] start noted rfl
    (Tee.holding_ofStep? _ _).symm
  unfold Setting.transform at h
  rw [note_bind, get_bind, Run.out_note] at h
  split at h
  next first reached conducted hconduct =>
  rw [hconduct, hnoted] at hconducted
  rw [hconduct] at htee
  rw [set_bind, ofExcept_mapError_bind] at h
  cases first with
  | error error =>
    obtain ⟨rfl, rfl⟩ := Prod.mk.inj h
    exact hconducted.trans (List.append_nil _).symm
  | ok =>
    simp only [Destination.finish] at h
    rw [modify_bind, ofExcept_bind] at h
    cases hfinish : reached.target.finish setting.files with
    | mk finished target =>
      rw [hfinish] at h
      cases finished with
      | error error =>
        obtain ⟨rfl, rfl⟩ := Prod.mk.inj h
        exact hconducted.trans (List.append_nil _).symm
      | ok =>
        unfold showing
        cases htee? : Tee.ofStep? setting.inDevelopment (.transform step) with
        | none =>
          have hreached : reached.tee = none := htee.trans (congrArg (Option.map _) htee?)
          simp only [hreached] at h
          obtain ⟨rfl, rfl⟩ := pure_cases h
          exact hconducted.trans (List.append_nil _).symm
        | some tee =>
          have hreached : reached.tee = some (tee.holding (transformation.emitted start.target.answer [])) :=
            htee.trans (congrArg (Option.map _) htee?)
          simp only [hreached] at h
          rw [modify_bind] at h
          obtain ⟨rfl, rfl⟩ := pure_cases h
          rw [Run.requests_present]
          exact congrArg (· ++ _) hconducted

end Setting
end XmlPipeline
