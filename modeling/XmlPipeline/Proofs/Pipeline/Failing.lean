import XmlPipeline.Proofs.Pipeline.Acceptance
import XmlPipeline.Proofs.Pipeline.Refusal
import XmlPipeline.Proofs.Xml.Nesting

/-!
This module contains the failures to read a definition. The main statement is that what is reported wraps a
single error, which is the first one in the order of the document.
-/

namespace XmlPipeline

open Xml

namespace Error

variable {source : Option String} {cause error : Error}

theorem causeMessages_eq_nil (h : error.cause? = none) : error.causeMessages = [] := by
  induction error with
  | withHint hint error ih => exact ih h
  | invalidDefinition => cases h
  | transformationFailed => cases h
  | validationFailed => cases h
  | _ => rfl

def definitionCodes : List ErrorCode :=
  [.missingAttribute, .unexpectedElement, .unsupportedElement, .malformed, .xmlSyntax]

/--
The error says what is wrong with a definition, and no other one is behind it.
-/
structure Plain (error : Error) : Prop where
  code : error.code ∈ definitionCodes
  cause? : error.cause? = none

structure Wraps (source : Option String) (cause error : Error) : Prop where
  plain : cause.Plain
  code : error.code = .invalidDefinition
  cause? : error.cause? = some cause
  chain : error.chain = [error.message, cause.message]
  rootCode : error.rootCode = cause.rootCode
  message : error.message = "Invalid pipeline definition: " ++ cause.message
  details : error.details = .obj [
    ("cause", .obj [
      ("code", .str cause.code.name),
      ("details", cause.details),
      ("message", .str cause.message)]),
    ("source", .ofText? source)]

theorem wraps_invalidDefinition (source : Option String) (h : cause.Plain) :
    Wraps source cause (.invalidDefinition source cause) where
  plain := h
  code := rfl
  cause? := rfl
  chain := by
    unfold chain causeMessages
    rw [causeMessages_eq_nil h.cause?]
  rootCode := rfl
  message := rfl
  details := by
    -- The members of an object stand in the order of their names.
    have hcause : compare "cause" "source" = .lt := by decide +kernel
    have hmessage : compare "message" "code" = .gt := by decide +kernel
    have hdetails : compare "details" "code" = .gt := by decide +kernel
    have hbefore : compare "details" "message" = .lt := by decide +kernel
    simp [details, Json.object, Assoc.insert, hcause, hmessage, hdetails, hbefore]

end Error

namespace Vocabulary

theorem Fault.plain {place : Place} {start : ElementStart} {error : Error} (h : Fault place start error) :
    error.Plain := by
  refine ⟨?_, h.cause?_eq_none⟩
  cases h with
  | timeToLive _ _ herror =>
    obtain ⟨_, _, _, _, rfl⟩ := herror
    exact List.mem_of_elem_eq_true rfl
  | timeToIdle _ _ _ herror =>
    obtain ⟨_, _, _, _, rfl⟩ := herror
    exact List.mem_of_elem_eq_true rfl
  | _ => exact List.mem_of_elem_eq_true rfl

end Vocabulary

namespace Definition

variable {d d' : Definition} {event : Event} {events : List Event} {failure : Option ReadFailure}
  {cause error : Error}

/-! ### The first failure -/

/--
The first thing that is wrong with what is still to come: with one of the events, with the text behind them,
or with the end of it.
-/
inductive Fails : Definition → List Event → Option ReadFailure → Error → Prop where
  | refused {d d' : Definition} {event : Event} {events : List Event} {failure : Option ReadFailure}
    {cause : Error} (hevent : d.apply event = (.error cause, d')) : Fails d (event :: events) failure cause
  | later {d d' : Definition} {event : Event} {events : List Event} {failure : Option ReadFailure}
    {cause : Error} (hevent : d.apply event = (.ok (), d')) (hevents : Fails d' events failure cause) :
    Fails d (event :: events) failure cause
  | unread (d : Definition) (failure : ReadFailure) : Fails d [] (some failure) failure.toError
  | unclosed {d : Definition} (hcapturing : d.isCapturing = true) :
    Fails d [] none (.malformed none none "response element is never closed")

theorem Fails.plain (h : d.Fails events failure cause) : cause.Plain := by
  induction h with
  | @refused d d' event events failure cause hevent =>
    obtain ⟨start, rfl, hcapture⟩ := exists_opening_of_refused hevent
    rcases apply_opening_cases hcapture start with ⟨opened, hopened, -⟩ | ⟨other, hother, hfault⟩
    · rw [hopened] at hevent
      cases (Prod.mk.inj hevent).1
    · rw [hother] at hevent
      obtain rfl := Except.error.inj (Prod.mk.inj hevent).1
      exact hfault.plain
  | later _ _ ih => exact ih
  | unread => exact ⟨List.mem_of_elem_eq_true rfl, rfl⟩
  | unclosed => exact ⟨List.mem_of_elem_eq_true rfl, rfl⟩

theorem source_apply (d : Definition) (event : Event) : (d.apply event).2.source = d.source := by
  cases event with
  | opening start =>
    cases hcapture : d.capture with
    | some capture => simp only [apply, hcapture]
    | none =>
      rcases apply_opening_cases hcapture start with ⟨opened, happly, hopens, -⟩ | ⟨error, happly, -⟩
      · rw [happly]
        cases hopens <;> rfl
      · rw [happly]
        rfl
  | text content => rfl
  | closing name => exact source_closeElement d name

def conclude (d : Definition) (events : List Event) (failure : Option ReadFailure) :
    Except Error Pipeline := do
  let d' ← d.handleAll events
  match failure with
  | some failure => throw (.invalidDefinition d.source failure.toError)
  | none => d'.finish

theorem conclude_cons (d : Definition) (event : Event) (events : List Event)
    (failure : Option ReadFailure) :
    d.conclude (event :: events) failure
      = match d.apply event with
        | (.ok (), d') => d'.conclude events failure
        | (.error cause, _) => .error (.invalidDefinition d.source cause) := by
  have hsource := source_apply d event
  simp only [conclude, handleAll, handle]
  cases happly : d.apply event with
  | mk result d' =>
    rw [happly] at hsource
    cases result with
    | ok => simp only [← hsource]
    | error cause => rfl

theorem conclude_append (d : Definition) (events more : List Event) :
    d.conclude (events ++ more) none = (d.handleAll events).bind (·.conclude more none) := by
  show (d.handleAll (events ++ more)).bind finish = _
  rw [handleAll_append]
  cases d.handleAll events <;> rfl

theorem fails_cons_iff :
    d.Fails (event :: events) failure cause
      ↔ match d.apply event with
        | (.ok (), d') => d'.Fails events failure cause
        | (.error first, _) => cause = first := by
  constructor
  · intro h
    cases h with
    | refused hevent => rw [hevent]
    | later hevent hevents =>
      rw [hevent]
      exact hevents
  · intro h
    split at h
    · next d' hevent => exact .later hevent h
    · next first d' hevent => exact h ▸ .refused hevent

theorem conclude_nil_eq_error_iff :
    d.conclude [] failure = .error error
      ↔ ∃ cause, d.Fails [] failure cause ∧ error = .invalidDefinition d.source cause := by
  cases failure with
  | some failure =>
    constructor
    · intro h
      exact ⟨_, .unread d failure, (Except.error.inj h).symm⟩
    · rintro ⟨cause, hcause, rfl⟩
      cases hcause
      rfl
  | none =>
    unfold conclude handleAll finish
    constructor
    · intro h
      by_cases hcapturing : d.isCapturing = true
      · simp [hcapturing, bind, Except.bind] at h
        exact ⟨_, .unclosed hcapturing, h.symm⟩
      · simp [hcapturing, bind, Except.bind] at h
    · rintro ⟨cause, hcause, rfl⟩
      cases hcause with
      | unclosed hcapturing => simp [hcapturing, bind, Except.bind]

theorem conclude_eq_error_iff :
    d.conclude events failure = .error error
      ↔ ∃ cause, d.Fails events failure cause ∧ error = .invalidDefinition d.source cause := by
  induction events generalizing d with
  | nil => exact conclude_nil_eq_error_iff
  | cons event events ih =>
    have hsource := source_apply d event
    rw [conclude_cons]
    simp only [fails_cons_iff]
    generalize d.apply event = applied at hsource ⊢
    obtain ⟨result, d'⟩ := applied
    have hsame : d'.source = d.source := hsource
    cases result with
    | ok => simp only [ih, hsame]
    | error first => simp [eq_comm]

end Definition

namespace Pipeline

open Definition (Fails)

/-! ### Texts and files -/

def FirstFailure (source : Option String) (text : String) (cause : Error) : Prop :=
  let (events, failure) := (Reader.ofText text).events
  ({ source } : Definition).Fails events failure cause

theorem read_eq_error_iff {source : Option String} {text : String} {error : Error} :
    read source text = .error error
      ↔ ∃ cause, FirstFailure source text cause ∧ error = .invalidDefinition source cause :=
  Definition.conclude_eq_error_iff

theorem read_wraps (text : String) :
    (∀ source error, read source text = .error error →
        ∃ cause, FirstFailure source text cause ∧ Error.Wraps source cause error)
      ∧ ∀ (files : FileReader) (path : Path),
        files.loadText path "read pipeline definition" = .ok text →
        ∀ error, load files path = .error error →
          ∃ cause, FirstFailure (some path.text) text cause
            ∧ Error.Wraps (some path.text) cause error := by
  have hread : ∀ source error, read source text = .error error →
      ∃ cause, FirstFailure source text cause ∧ Error.Wraps source cause error := by
    intro source error h
    obtain ⟨cause, hcause, rfl⟩ := read_eq_error_iff.mp h
    exact ⟨cause, hcause, Error.wraps_invalidDefinition source (Fails.plain hcause)⟩
  refine ⟨hread, ?_⟩
  intro files path htext error h
  unfold load at h
  rw [htext] at h
  exact hread (some path.text) error h

end Pipeline
end XmlPipeline
