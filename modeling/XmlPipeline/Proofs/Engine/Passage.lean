import XmlPipeline.Proofs.Engine.Conduct
import XmlPipeline.Proofs.Engine.Templates

/-!
This module contains the passage of a source through a stylesheet: what the next step gets, and what the
response has got afterwards.
-/

namespace XmlPipeline

open RunM

namespace Transformation

variable {Program σ : Type} [ByteWriter σ]

def outcome (answer : List Xml.Event → Xml.Event → Except Error Unit) (before : List Xml.Event) :
    Transformation → Except Error Unit
  | finish => .ok ()
  | fail error => .error error
  | report _ next => next.outcome answer before
  | emit event next => (next (answer before event)).outcome answer (before ++ [event])

def ending (transformation : Transformation) : Except Error Unit :=
  transformation.outcome (fun _ _ => .ok ()) []

theorem conduct_outcome (transformation : Transformation) (target : Target σ)
    (before : List Xml.Event) (destination : Destination σ) (run : Run Program σ)
    (h : destination.target = target.given before) :
    (transformation.conduct destination run).1 = transformation.outcome target.answer before := by
  induction transformation generalizing before destination run with
  | finish => rfl
  | fail error => rfl
  | report notice next ih => exact ih before destination (run.hear notice) h
  | emit event next ih =>
    obtain ⟨hresult, hnext⟩ := Destination.write_given h event
    unfold outcome conduct
    simp only
    rw [hresult]
    exact ih (target.answer before event) (before ++ [event]) (destination.write event).2 run hnext

theorem conduct_templates (transformation : Transformation) (destination : Destination σ)
    (run : Run Program σ) :
    (transformation.conduct destination run).2.2.templates = run.templates := by
  induction transformation generalizing destination run with
  | finish => rfl
  | fail error => rfl
  | report notice next ih => exact ih destination (run.hear notice)
  | emit event next ih => exact ih _ (destination.write event).2 run

end Transformation

namespace Run

variable {Program σ : Type}

theorem templates_present (run : Run Program σ) (diagnostics : Diagnostics)
    (output : String × String) : (run.present diagnostics output).templates = run.templates := by
  cases diagnostics <;> rfl

end Run

namespace Setting

variable {Program σ : Type} [ByteWriter σ] {setting : Setting Program} {run : Run Program σ}

def filled (setting : Setting Program) (program : Program) (source : Source)
    (parameters : ParameterSet) (target : Target σ) : Target σ :=
  target.given <|
    (setting.engine.processor.transform program source parameters).emitted target.answer []

theorem filled_document (program : Program) (source : Source) (parameters : ParameterSet) (out : σ) :
    setting.filled program source parameters (Outlet.document.connect out)
      = .document (setting.engine.processor.transform program source parameters).events.toArray
        out := by
  unfold filled Outlet.connect
  simp only
  rw [Target.answer_document, Target.given_document]
  simp [Transformation.events]

theorem filled_body (program : Program) (source : Source) (parameters : ParameterSet)
    (format : BodyFormat) (out : σ) :
    setting.filled program source parameters ((Outlet.body format).connect out)
      = .body format
        (setting.engine.processor.transform program source parameters).events.toArray out := by
  unfold filled Outlet.connect
  simp only
  rw [Target.answer_body, Target.given_body]
  simp [Transformation.events]

theorem conduct_filled {program : Program} {source : Source} {parameters : ParameterSet}
    {target : Target σ} {tee : Option Tee} {first : Except Error Unit} {reached : Destination σ}
    {conducted : Run Program σ}
    (h : (setting.engine.processor.transform program source parameters).conduct { target, tee }
        (run.note (.transformed program source parameters)) = (first, reached, conducted)) :
    conducted.journal.calls = run.journal.calls ++ [.transformed program source parameters]
      ∧ reached.target = setting.filled program source parameters target := by
  let transformation := setting.engine.processor.transform program source parameters
  let noted := run.note (.transformed program source parameters)
  have hwork := transformation.conduct_sameWork { target, tee } noted
  have htarget := transformation.conduct_target target [] { target, tee } noted rfl
  rw [h] at hwork htarget
  exact ⟨hwork.2.trans (run.calls_note _), htarget⟩

/--
The passage of a source through a stylesheet. It gives the document that the next step reads, if it reads
one, and the writer of the response afterwards.
-/
def passage (setting : Setting Program) (step : TransformStep) (program : Program) (source : Source)
    (parameters : ParameterSet) (outlet : Outlet) (out : σ) :
    Except Error (Option Xml.Document) × σ :=
  let target := outlet.connect out
  let filled := setting.filled program source parameters target
  match (setting.engine.processor.transform program source parameters).outcome target.answer [] with
  | .error error => (.error (.transformationFailed step.name error), filled.out)
  | .ok () =>
    let (result, target) := filled.finish setting.files
    (result.map fun _ => target.document?, target.out)

theorem passage_document (setting : Setting Program) (step : TransformStep) (program : Program)
    (source : Source) (parameters : ParameterSet) (out : σ) :
    setting.passage step program source parameters .document out
      = match (setting.engine.processor.transform program source parameters).ending with
        | .error error => (.error (.transformationFailed step.name error), out)
        | .ok () =>
          (.ok (some {
            events := (setting.engine.processor.transform program source parameters).events }), out) := by
  unfold passage
  simp only
  rw [filled_document]
  unfold Outlet.connect
  simp only
  rw [Target.answer_document]
  rfl

theorem passage_body (setting : Setting Program) (step : TransformStep) (program : Program)
    (source : Source) (parameters : ParameterSet) (format : BodyFormat) (out : σ) :
    setting.passage step program source parameters (.body format) out
      = match (setting.engine.processor.transform program source parameters).ending with
        | .error error => (.error (.transformationFailed step.name error), out)
        | .ok () =>
          let (result, out) := format.writeBody setting.files {
            events := (setting.engine.processor.transform program source parameters).events } out
          (result.map fun _ => none, out) := by
  unfold passage
  simp only
  rw [filled_body]
  unfold Outlet.connect
  simp only
  rw [Target.answer_body]
  rfl

theorem passage_final (setting : Setting Program) (step : TransformStep) (program : Program)
    (source : Source) (parameters : ParameterSet) (properties : OutputProperties) (out : σ) :
    setting.passage step program source parameters (.final properties) out
      = let serializer := FinalSerializer.create properties out
        let transformation := setting.engine.processor.transform program source parameters
        let filled := serializer.given (transformation.emitted serializer.answer [])
        match transformation.outcome serializer.answer [] with
        | .error error => (.error (.transformationFailed step.name error), filled.out)
        | .ok () => (filled.finish.1.map fun _ => none, filled.finish.2.out) := by
  unfold passage filled Outlet.connect
  simp only
  rw [Target.answer_final, Target.given_final]
  rfl

theorem perform_transform (setting : Setting Program) (step : TransformStep) (program : Program)
    (source : Source) (parameters : ParameterSet) (outlet : Outlet) (run : Run Program σ) :
    ∃ after, perform (setting.transform step program source parameters outlet) run
        = ((setting.passage step program source parameters outlet run.out).1, after)
      ∧ after.out = (setting.passage step program source parameters outlet run.out).2
      ∧ after.templates = run.templates
      ∧ after.journal.calls = run.journal.calls ++ [.transformed program source parameters] := by
  let transformation := setting.engine.processor.transform program source parameters
  let start : Destination σ := {
    target := outlet.connect run.out
    tee := Tee.ofStep? setting.inDevelopment (.transform step) }
  let noted := run.note (.transformed program source parameters)
  have houtcome := transformation.conduct_outcome start.target [] start noted rfl
  have htemplates := transformation.conduct_templates start noted
  unfold Setting.transform
  rw [note_bind, get_bind, Run.out_note]
  split
  next first reached conducted hconduct =>
  obtain ⟨hcalls, hfilled⟩ := conduct_filled hconduct
  rw [hconduct] at houtcome htemplates
  unfold passage
  simp only
  rw [set_bind, ofExcept_mapError_bind, ← houtcome, ← hfilled]
  cases first with
  | error error => exact ⟨_, rfl, rfl, htemplates, hcalls⟩
  | ok =>
    simp only [Destination.finish]
    rw [modify_bind, ofExcept_bind]
    cases reached.target.finish setting.files with
    | mk finished target =>
      cases finished with
      | error error => exact ⟨_, rfl, rfl, htemplates, hcalls⟩
      | ok =>
        simp only
        split
        · rw [modify_bind]
          refine ⟨_, rfl, Run.out_present _ _ _, ?_, ?_⟩
          · rw [Run.templates_present]
            exact htemplates
          · rw [Run.calls_present]
            exact hcalls
        · exact ⟨_, rfl, rfl, htemplates, hcalls⟩

end Setting
end XmlPipeline
