import XmlPipeline.Proofs.Engine.Action
import XmlPipeline.Proofs.Output.Reliable

/-!
This module contains the course of a transformation: which events it emits, and what they make of the
destination that they are written to.
-/

namespace XmlPipeline

namespace Transformation

/--
The events that a transformation emits after the events `before`. Whether an event could be written is
answered with the events before it in view.
-/
def emitted (answer : List Xml.Event → Xml.Event → Except Error Unit) (before : List Xml.Event) :
    Transformation → List Xml.Event
  | finish => before
  | fail _ => before
  | report _ next => next.emitted answer before
  | emit event next => (next (answer before event)).emitted answer (before ++ [event])

def events (transformation : Transformation) : List Xml.Event :=
  transformation.emitted (fun _ _ => .ok ()) []

def finalBody (transformation : Transformation) (properties : OutputProperties) : List UInt8 :=
  let serializer := FinalSerializer.create properties ({} : ByteSink)
  let emitted := transformation.emitted serializer.answer []
  (serializer.given emitted).finish.2.out.received.toList

end Transformation

namespace Target

variable {σ : Type} [ByteWriter σ]

def given (target : Target σ) (events : List Xml.Event) : Target σ :=
  events.foldl (fun target event => (target.write event).2) target

def answer (target : Target σ) (before : List Xml.Event) (event : Xml.Event) : Except Error Unit :=
  ((target.given before).write event).1

theorem given_append (target : Target σ) (events more : List Xml.Event) :
    target.given (events ++ more) = (target.given events).given more :=
  List.foldl_append

theorem given_document (events : Array Xml.Event) (out : σ) (more : List Xml.Event) :
    (document events out).given more = .document (events ++ more) out := by
  induction more generalizing events with
  | nil => simp [given]
  | cons event more ih =>
    have hnext : (document events out).given (event :: more)
        = (document (events.push event) out).given more := rfl
    rw [hnext, ih]
    simp

theorem given_body (format : BodyFormat) (events : Array Xml.Event) (out : σ)
    (more : List Xml.Event) :
    (body format events out).given more = .body format (events ++ more) out := by
  induction more generalizing events with
  | nil => simp [given]
  | cons event more ih =>
    have hnext : (body format events out).given (event :: more)
        = (body format (events.push event) out).given more := rfl
    rw [hnext, ih]
    simp

theorem given_final (serializer : FinalSerializer σ) (more : List Xml.Event) :
    (final serializer).given more = .final (serializer.given more) := by
  induction more generalizing serializer with
  | nil => rfl
  | cons event more ih => exact ih (serializer.write event).2

theorem answer_document (events : Array Xml.Event) (out : σ) :
    (document events out).answer = fun _ _ => .ok () := by
  funext before event
  unfold answer
  rw [given_document]
  rfl

theorem answer_body (format : BodyFormat) (events : Array Xml.Event) (out : σ) :
    (body format events out).answer = fun _ _ => .ok () := by
  funext before event
  unfold answer
  rw [given_body]
  rfl

theorem answer_final (serializer : FinalSerializer σ) :
    (final serializer).answer = serializer.answer := by
  funext before event
  unfold answer
  rw [given_final]
  rfl

end Target

namespace Destination

variable {σ : Type} [ByteWriter σ]

theorem write_given {destination : Destination σ} {target : Target σ} {before : List Xml.Event}
    (h : destination.target = target.given before) (event : Xml.Event) :
    (destination.write event).1 = target.answer before event
      ∧ (destination.write event).2.target = target.given (before ++ [event]) := by
  rw [Target.given_append]
  unfold write Target.answer
  rw [h]
  exact ⟨rfl, rfl⟩

end Destination

namespace Transformation

variable {Program σ : Type} [ByteWriter σ]

theorem conduct_sameWork (transformation : Transformation) (destination : Destination σ)
    (run : Run Program σ) :
    (transformation.conduct destination run).2.2.SameWork run := by
  induction transformation generalizing destination run with
  | finish => exact ⟨rfl, rfl⟩
  | fail error => exact ⟨rfl, rfl⟩
  | report notice next ih =>
    have hhear : (run.hear notice).SameWork run := ⟨rfl, run.calls_hear notice⟩
    exact (ih destination (run.hear notice)).trans hhear
  | emit event next ih => exact ih _ (destination.write event).2 run

theorem conduct_target (transformation : Transformation) (target : Target σ)
    (before : List Xml.Event) (destination : Destination σ) (run : Run Program σ)
    (h : destination.target = target.given before) :
    (transformation.conduct destination run).2.1.target
      = target.given (transformation.emitted target.answer before) := by
  induction transformation generalizing before destination run with
  | finish => exact h
  | fail error => exact h
  | report notice next ih => exact ih before destination (run.hear notice) h
  | emit event next ih =>
    obtain ⟨hresult, hnext⟩ := Destination.write_given h event
    have hrest := ih (target.answer before event) (before ++ [event]) (destination.write event).2 run
      hnext
    unfold emitted conduct
    simp only
    rw [hresult]
    exact hrest

end Transformation
end XmlPipeline
