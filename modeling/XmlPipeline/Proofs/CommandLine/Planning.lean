import Mathlib.Data.List.Forall2
import XmlPipeline.CommandLine.Run
import XmlPipeline.Proofs.Engine.Calls
import XmlPipeline.Proofs.Path

/-!
This module contains the comparison of the plan that is printed for a pipeline with what an execution of the
pipeline does. The plan begins with the steps that are run and the serializer that they stop at. It goes on with
steps that are never run if there is a serializer before the last step of the pipeline.
-/

namespace XmlPipeline

open RunM

variable {Program σ : Type}

/--
The steps after the first serializer.
-/
def unreached (steps : List Step) : List Step :=
  (steps.dropWhile (!·.isTerminal)).drop 1

def stopped (steps : List Step) : List Step :=
  (stop? steps).toList.map fun (kind, step) => .serialize kind step

theorem length_stopped (steps : List Step) :
    (stopped steps).length = if ((stop? steps).map Prod.fst).isSome then 1 else 0 := by
  unfold stopped
  cases stop? steps <;> rfl

theorem unreached_cons (step : Step) (steps : List Step) :
    unreached (step :: steps) = if step.isTerminal then steps else unreached steps := by
  unfold unreached
  cases hstep : step.isTerminal with
  | true => simp [hstep]
  | false => simp [hstep]

theorem executed_append_stopped (steps : List Step) :
    executed steps ++ stopped steps ++ unreached steps = steps := by
  induction steps with
  | nil => rfl
  | cons step steps ih =>
    cases hstep : step.isTerminal with
    | true =>
      obtain ⟨kind, serializer, rfl⟩ := Step.exists_of_isTerminal hstep
      rfl
    | false =>
      have hunreached : unreached (step :: steps) = unreached steps := by
        rw [unreached_cons, hstep]
        rfl
      have hstopped : stopped (step :: steps) = stopped steps := by
        unfold stopped
        rw [stop?_cons hstep]
      rw [executed_cons hstep, hunreached, hstopped]
      exact congrArg (step :: ·) ih

theorem unreached_append (before steps : List Step) :
    unreached (before ++ steps)
      = if before.any Step.isTerminal then unreached before ++ steps else unreached steps := by
  induction before with
  | nil => rfl
  | cons step before ih =>
    rw [List.cons_append, unreached_cons, unreached_cons, ih, List.any_cons]
    cases step.isTerminal <;> rfl

theorem unreached_withFinishingStep {finishing : Step} (hfinishing : finishing.isTerminal = false)
    (steps : List Step) :
    unreached (withFinishingStep finishing steps) = []
      ↔ ∀ step ∈ steps.dropLast, step.isTerminal = false := by
  by_cases hsteps : steps = []
  · subst hsteps
    simp [withFinishingStep, unreached, hfinishing]
  · have hreached : ∀ {before more : List Step}, more ≠ [] → unreached more = [] →
        (unreached (before ++ more) = [] ↔ ∀ step ∈ before, step.isTerminal = false) := by
      intro before more hmore hnone
      have hany : before.any Step.isTerminal = false ↔ ∀ step ∈ before, step.isTerminal = false := by
        simp
      rw [unreached_append, ← hany]
      cases before.any Step.isTerminal with
      | true => simp [hmore]
      | false => simp [hnone]
    have hfinished := withFinishingStep_finished finishing hsteps
    generalize withFinishingStep finishing steps = plan at hfinished
    cases hfinished with
    | beforeSerializer terminal =>
      rw [List.dropLast_concat]
      exact hreached (List.cons_ne_nil _ _) (by simp [unreached_cons, hfinishing, terminal])
    | atEnd other =>
      rw [List.dropLast_concat]
      exact hreached (List.cons_ne_nil _ _) (by simp [unreached, hfinishing, other])

namespace Journal

def compiledPaths (journal : Journal Program) : List Path :=
  journal.filterMap fun
    | .compiled path => some path
    | _ => none

theorem compiledPaths_append (journal more : Journal Program) :
    Journal.compiledPaths (journal ++ more) = journal.compiledPaths ++ Journal.compiledPaths more :=
  List.filterMap_append

theorem compiledPaths_compilation (inDevelopment : Bool) (templates : TemplateCache Program)
    (path : Path) :
    Journal.compiledPaths (Engine.compilation inDevelopment templates path) = [path.normalize]
      ∨ inDevelopment = false
        ∧ Journal.compiledPaths (Engine.compilation inDevelopment templates path) = [] := by
  cases inDevelopment with
  | true => exact .inl rfl
  | false =>
    obtain h | h := Engine.compilation_cases false templates path
    · exact .inr ⟨rfl, congrArg compiledPaths h⟩
    · exact .inl (congrArg compiledPaths h)

theorem compiledPaths_order (setting : Setting Program) (next : Option Step) :
    Journal.compiledPaths (setting.order next) = [] := by
  unfold Setting.order
  split <;> rfl

theorem compiledPaths_closing (setting : Setting Program) (step : TransformStep) (turn : Turn Program) :
    Journal.compiledPaths (setting.closing step turn) = [] := by
  obtain h | ⟨name, content, h⟩ := setting.closing_cases step turn <;> rw [h] <;> rfl

end Journal

namespace Config

theorem normalize_templatePath (config : Config) (step : TransformStep) :
    (config.templatePath step).normalize = config.templatePath step := by
  unfold templatePath
  split <;> exact Path.normalize_normalize _

def listedPath? (config : Config) (step : Step) : Option Path :=
  step.transform?.map config.templatePath

end Config

namespace Engine

/--
The stylesheet of a turn comes from the path that the plan lists for the step, be it compiled now or taken from
the cache.
-/
structure Listed (engine : Engine Program) (inDevelopment : Bool) (turn : Turn Program) : Prop where
  compiled : Journal.compiledPaths turn.requests = (engine.config.listedPath? turn.step).toList
    ∨ inDevelopment = false ∧ Journal.compiledPaths turn.requests = []
  run : ∀ program source parameters, .transformed program source parameters ∈ turn.requests →
    ∃ path, engine.config.listedPath? turn.step = some path
      ∧ (engine.processor.compile path).result = .ok program

theorem Calling.run {engine : Engine Program} {turn : Turn Program} (h : engine.Calling turn)
    {program : Program} {source : Source} {parameters : ParameterSet}
    (hcall : .transformed program source parameters ∈ turn.requests) :
    ∃ path, engine.config.listedPath? turn.step = some path
      ∧ (engine.processor.compile path).result = .ok program := by
  have hmem : .transformed program source parameters ∈ Journal.calls turn.requests :=
    List.mem_filter.mpr ⟨hcall, rfl⟩
  obtain hcalled | ⟨_, hnone⟩ := h
  · generalize turn.step = step at hcalled
    generalize Journal.calls turn.requests = calls at hcalled hmem
    cases hcalled with
    | respond rest =>
      cases rest
      cases hmem
    | validate rest =>
      cases rest
      simp at hmem
    | transform compiled rest =>
      cases rest
      obtain ⟨rfl, rfl, rfl⟩ : _ ∧ _ ∧ _ := by simpa using hmem
      rw [engine.config.normalize_templatePath] at compiled
      exact ⟨_, rfl, compiled⟩
  · rw [hnone] at hmem
    cases hmem

/--
What an execution with these turns does of the plan for a pipeline: all that stands before the first serializer.
-/
structure Planned (engine : Engine Program) (inDevelopment : Bool) (pipeline : Pipeline)
    (summary : Summary) (requests : Journal Program) (turns : List (Turn Program)) : Prop where
  requested : requests = engine.preparation pipeline inDevelopment ++ turns.flatMap Turn.requests
  steps : pipeline.plan engine.config
    = turns.map Turn.step ++ stopped (pipeline.plan engine.config)
      ++ unreached (pipeline.plan engine.config)
  stepsRun : summary.stepsRun = turns.length
  serializer : summary.serializer = (stop? (pipeline.plan engine.config)).map Prod.fst
  length : (pipeline.plan engine.config).length
    = summary.stepsRun + (if summary.serializer.isSome then 1 else 0)
      + (unreached (pipeline.plan engine.config)).length
  listed : ∀ turn ∈ turns, engine.Listed inDevelopment turn

end Engine

namespace Setting

variable [ByteWriter σ] {turn : Turn Program} {before stage : Stage Program σ}

theorem listed_of_turn (setting : Setting Program) {step : Step} {next : Option Step}
    (hstep : step.isTerminal = false)
    (hcoherent : before.templates.Coherent setting.engine.processor)
    (h : setting.turn before next step = (turn, stage)) :
    setting.engine.Listed setting.inDevelopment turn := by
  refine ⟨?_, fun _ _ _ => (setting.calling_of_turn hstep hcoherent h).run⟩
  cases step with
  | serialize kind step => cases hstep
  | respond step =>
    obtain ⟨rfl, _⟩ := Prod.mk.inj h
    exact .inl rfl
  | validate step =>
    obtain ⟨hstep, hrequests, _⟩ := validatorTurn_cases h
    left
    rw [hstep, hrequests]
    rfl
  | transform step =>
    have hcompiled := Journal.compiledPaths_compilation setting.inDevelopment before.templates
      (setting.engine.config.templatePath step)
    have horder := Journal.compiledPaths_order setting next
    have hclosing := Journal.compiledPaths_closing setting step turn
    rw [setting.engine.config.normalize_templatePath] at hcompiled
    obtain ⟨hstep, hrequests⟩ := transformTurn_cases h
    have hsame : Journal.compiledPaths turn.requests = Journal.compiledPaths
        (Engine.compilation setting.inDevelopment before.templates
          (setting.engine.config.templatePath step)) := by
      obtain ⟨_, hrequests | hrequests⟩ | ⟨program, kept, outlet, _, _, hrequests, _⟩ := hrequests
      · rw [hrequests]
      · rw [hrequests, Journal.compiledPaths_append, horder, List.append_nil]
      · rw [hrequests, Journal.compiledPaths_append, Journal.compiledPaths_append,
          Journal.compiledPaths_append, horder, hclosing, List.append_nil, List.append_nil]
        exact List.append_nil _
    rw [hsame, hstep]
    exact hcompiled

end Setting

namespace Engine

variable [ByteWriter σ] {engine : Engine Program}

theorem Reached.execute_planned (h : engine.Reached) (files : FileReader) (pipeline : Pipeline)
    (input : String) (parameters : ParameterSet) (inDevelopment : Bool) {out : σ} {summary : Summary}
    {after : Run Program σ}
    (hexecute : engine.execute files pipeline input parameters inDevelopment out = (.ok summary, after)) :
    engine.Planned inDevelopment pipeline summary after.journal.requests
      (engine.turns files pipeline input parameters inDevelopment out) := by
  have hlisted : ∀ turn ∈ engine.turns files pipeline input parameters inDevelopment out,
      engine.Listed inDevelopment turn :=
    forall_turns_of_coherent h.coherent files pipeline input parameters inDevelopment out
      fun properties => (engine.setting files inDevelopment properties parameters).listed_of_turn
  obtain ⟨hrequests, hended⟩ :=
    engine.execute_turns files pipeline input parameters inDevelopment out
  rw [hexecute] at hrequests hended
  obtain ⟨hturns, _, hcounted⟩ := hended.of_ok.of_ok
  obtain ⟨hstepsRun, hserializer⟩ := Prod.mk.inj hcounted
  have hsteps := executed_append_stopped (pipeline.plan engine.config)
  rw [← hturns] at hsteps
  refine ⟨hrequests, hsteps.symm, hstepsRun, hserializer, ?_, hlisted⟩
  have hlength := congrArg List.length hsteps
  rw [List.length_append, List.length_append, List.length_map, length_stopped, ← hserializer,
    ← hstepsRun] at hlength
  exact hlength.symm

end Engine

namespace CommandLine

inductive Printed (config : Config) (position : Nat) : Step → Json → Prop where
  | transform (step : TransformStep) :
    Printed config position (.transform step) (.obj [
      ("kind", .str "transformer"),
      ("name", .str step.name),
      ("position", .int position),
      ("template", .str (config.templatePath step).text)])
  | validate (step : ValidatorStep) :
    Printed config position (.validate step) (.obj [
      ("kind", .str "schema-validator"),
      ("name", .str step.name),
      ("position", .int position)])
  | serialize (kind : SerializerKind) (step : SerializerStep) :
    Printed config position (.serialize kind step) (.obj [
      ("kind", .str (kind.name ++ "-serializer")),
      ("name", .str step.name),
      ("position", .int position)])
  | respond (step : ResponseStep) :
    Printed config position (.respond step) (.obj [
      ("kind", .str "response"),
      ("name", .str "response"),
      ("position", .int position)])

def PrintsPlan (definition : Path) (config : Config) (pipeline : Pipeline) (json : Json) : Prop :=
  ∃ entries : List Json,
    json = .obj [
      ("cache", pipeline.cache.toJson),
      ("definition", .str definition.text),
      ("developmentMode", .bool config.inDevelopment),
      ("steps", .arr entries)]
    ∧ List.Forall₂ (fun numbered entry => Printed config numbered.2 numbered.1 entry)
      ((pipeline.plan config).zipIdx 1) entries

namespace Command

theorem plannedStep_eq (config : Config) (step : Step) (index : Nat) :
    plannedStep config step index = .obj ([
      ("kind", .str step.kind),
      ("name", .str step.name),
      ("position", .nat (index + 1))]
      ++ Json.member? "template" (step.transform?.map fun step => .str (config.templatePath step).text)) := by
  -- The members of an object stand in the order of their names.
  have hname : compare "name" "position" = .lt := by decide +kernel
  have hkind : compare "kind" "name" = .lt := by decide +kernel
  have hposition : compare "template" "position" = .gt := by decide +kernel
  have hafter : compare "template" "name" = .gt := by decide +kernel
  have hlast : compare "template" "kind" = .gt := by decide +kernel
  unfold plannedStep
  cases step.transform? with
  | none => simp [Json.object, Assoc.insert, Json.member?, hname, hkind]
  | some step => simp [Json.object, Assoc.insert, Json.member?, hname, hkind, hposition, hafter, hlast]

theorem printed_plannedStep (config : Config) (step : Step) (index : Nat) :
    Printed config (index + 1) step (plannedStep config step index) := by
  rw [plannedStep_eq]
  cases step with
  | transform step => exact .transform step
  | validate step => exact .validate step
  | serialize kind step => cases kind <;> exact .serialize _ step
  | respond step => exact .respond step

theorem printsPlan_planning (definition : Path) (config : Config) (pipeline : Pipeline) :
    PrintsPlan definition config pipeline (planning definition config pipeline) := by
  have hdefinition : compare "developmentMode" "definition" = .gt := by decide +kernel
  have hfirst : compare "cache" "definition" = .lt := by decide +kernel
  have hsteps : compare "steps" "cache" = .gt := by decide +kernel
  have hmode : compare "steps" "developmentMode" = .gt := by decide +kernel
  have hlast : compare "steps" "definition" = .gt := by decide +kernel
  refine ⟨(pipeline.plan config).mapIdx fun index step => plannedStep config step index, ?_, ?_⟩
  · simp [planning, Json.object, Assoc.insert, hdefinition, hfirst, hsteps, hmode, hlast]
  · rw [List.mapIdx_eq_zipIdx_map, List.zipIdx_succ, List.forall₂_map_left_iff,
      List.forall₂_map_right_iff, List.forall₂_same]
    intro numbered _
    exact printed_plannedStep config numbered.1 numbered.2

theorem answer_plan (home : String) (files : FileReader) (definition : Path) (settings : Option Path) :
    (plan definition settings).answer home files
      = settings.elim (.ok {}) (Config.load home files) >>= fun config =>
        (Pipeline.load files definition).map (planning definition config) := by
  cases settings <;> rfl

/--
A plan that is printed lists the steps that a successful execution runs, the serializer that it stops at, and the
steps after that. There are none of these if no step but the last one of the pipeline is a serializer.
-/
theorem answer_planned {home : String} {files : FileReader} {definition : Path}
    {settings : Option Path} {json : Json}
    (h : (plan definition settings).answer home files = .ok json) :
    ∃ config pipeline, settings.elim (.ok {}) (Config.load home files) = .ok config
      ∧ Pipeline.load files definition = .ok pipeline ∧ json = planning definition config pipeline
      ∧ PrintsPlan definition config pipeline json
      ∧ (unreached (pipeline.plan config) = []
        ↔ ∀ step ∈ pipeline.steps.dropLast, step.isTerminal = false)
      ∧ ∀ {Program σ : Type} [ByteWriter σ] {engine : Engine Program}, engine.Reached →
        engine.config = config →
        ∀ (files : FileReader) (input : String) (parameters : ParameterSet) (inDevelopment : Bool)
          {out : σ} {summary : Summary} {after : Run Program σ},
          engine.execute files pipeline input parameters inDevelopment out = (.ok summary, after) →
          engine.Planned inDevelopment pipeline summary after.journal.requests
            (engine.turns files pipeline input parameters inDevelopment out) := by
  rw [answer_plan] at h
  obtain ⟨config, hconfig, hrest⟩ := exists_of_bind_ok h
  obtain ⟨pipeline, hpipeline, rfl⟩ := exists_of_map_ok hrest
  refine ⟨config, pipeline, hconfig, hpipeline, rfl, ?_, ?_, ?_⟩
  · exact printsPlan_planning definition config pipeline
  · exact unreached_withFinishingStep rfl pipeline.steps
  · intro Program σ _ engine hreached hengine files input parameters inDevelopment out summary after
      hexecute
    exact hreached.execute_planned files pipeline input parameters inDevelopment hexecute

def definitionFiles (definition : String) : FileReader where
  readBytes path := if path = ⟨"def.xml"⟩ then .ok (utf8 definition) else .error .notFound

def sampleDefinition : FileReader :=
  definitionFiles <|
    "<pipeline xmlns=\"http://www.armatiek.com/xslweb/pipeline\">"
      ++ "<transformer xsl-path=\"a.xsl\"/><json-serializer/><transformer xsl-path=\"b.xsl\"/></pipeline>"

def definedPipeline : Pipeline where
  steps := [.transform { name := "transformer-1", templatePath := "a.xsl" },
    .serialize .json { name := "json-serializer-2" },
    .transform { name := "transformer-3", templatePath := "b.xsl" }]

def definedSummary : Summary where
  stepsRun := 1
  properties := .empty
  serializer := some .json

theorem load_sampleDefinition : Pipeline.load sampleDefinition ⟨"def.xml"⟩ = .ok definedPipeline :=
  eq_ok_of_toOption (by decide +kernel)

theorem execute_definedPipeline :
    (Engine.sampleEngine.execute Engine.sampleFiles definedPipeline "x" .empty false
      ({} : ByteSink)).1 = .ok definedSummary :=
  eq_ok_of_toOption (by decide +kernel)

theorem answer_sampleDefinition :
    (plan ⟨"def.xml"⟩ none).answer "" sampleDefinition
      = .ok (planning ⟨"def.xml"⟩ {} definedPipeline) := by
  rw [answer_plan, load_sampleDefinition]
  rfl

theorem answer_planned_sampleDefinition :
    let outcome := Engine.sampleEngine.execute Engine.sampleFiles definedPipeline "x" .empty false
      ({} : ByteSink)
    (plan ⟨"def.xml"⟩ none).answer "" sampleDefinition
        = .ok (planning ⟨"def.xml"⟩ {} definedPipeline)
      ∧ Engine.sampleEngine.Reached ∧ outcome.1 = .ok definedSummary
      ∧ Engine.sampleEngine.Planned false definedPipeline definedSummary outcome.2.journal.requests
        (Engine.sampleEngine.turns Engine.sampleFiles definedPipeline "x" .empty false
          ({} : ByteSink)) := by
  intro outcome
  have hreached : Engine.sampleEngine.Reached := .new rfl
  have houtcome : outcome = (.ok definedSummary, outcome.2) := Prod.ext execute_definedPipeline rfl
  obtain ⟨config, pipeline, hconfig, hpipeline, _, _, _, hplanned⟩ :=
    answer_planned answer_sampleDefinition
  obtain rfl := Except.ok.inj hconfig
  obtain rfl := Except.ok.inj (load_sampleDefinition.symm.trans hpipeline)
  exact ⟨answer_sampleDefinition, hreached, execute_definedPipeline,
    hplanned hreached rfl Engine.sampleFiles "x" .empty false houtcome⟩

/--
The plan lists four steps, but an execution runs one step and stops at the serializer.
-/
theorem answer_definedPipeline :
    (plan ⟨"def.xml"⟩ none).answer "" sampleDefinition
        = .ok (planning ⟨"def.xml"⟩ {} definedPipeline)
      ∧ (Engine.sampleEngine.execute Engine.sampleFiles definedPipeline "x" .empty false
        ({} : ByteSink)).1 = .ok definedSummary
      ∧ (definedPipeline.plan Engine.sampleEngine.config).length
        ≠ definedSummary.stepsRun + (if definedSummary.serializer.isSome then 1 else 0) :=
  ⟨answer_sampleDefinition, execute_definedPipeline, by decide⟩

end Command
end CommandLine
end XmlPipeline
