import Mathlib.Data.List.Infix
import XmlPipeline.Proofs.Pipeline.Coherence
import XmlPipeline.Proofs.Pipeline.Literal

/-!
This module contains what is left of a definition when an event is refused: all that was there before, under
the declarations of the refused element. Its closing takes these back.
-/

namespace XmlPipeline

open Xml

namespace Xml.Event

/-! ### Balanced events -/

variable {event : Event} {events : List Event}

def level (events : List Event) : Nat :=
  events.countP isOpening - events.countP isClosing

/--
No element is closed that was not opened before. The names do not count.
-/
def Within (events : List Event) : Prop :=
  ∀ read, read <+: events → read.countP isClosing ≤ read.countP isOpening

/--
Each element that is opened is closed later on, and none is closed otherwise. The names do not count.
-/
structure Balanced (events : List Event) : Prop where
  within : Within events
  closed : events.countP isClosing = events.countP isOpening

instance (events : List Event) : Decidable (Within events) :=
  decidable_of_iff (∀ read ∈ events.inits, read.countP isClosing ≤ read.countP isOpening)
    (by simp [Within, List.mem_inits])

theorem balanced_iff :
    Balanced events ↔ Within events ∧ events.countP isClosing = events.countP isOpening :=
  ⟨fun h => ⟨h.within, h.closed⟩, fun h => ⟨h.1, h.2⟩⟩

instance (events : List Event) : Decidable (Balanced events) :=
  decidable_of_iff _ balanced_iff.symm

theorem Balanced.level_eq (h : Balanced events) : level events = 0 := by
  simp [level, h.closed]

theorem Within.of_prefix {read : List Event} (h : Within events) (hread : read <+: events) :
    Within read :=
  fun first hfirst => h first (hfirst.trans hread)

theorem level_opening (h : Within events) (start : ElementStart) :
    level (events ++ [.opening start]) = level events + 1 := by
  have hle := h events (List.prefix_refl events)
  simp [level, isOpening, isClosing]
  omega

theorem level_text (events : List Event) (content : String) :
    level (events ++ [.text content]) = level events := by
  simp [level, isOpening, isClosing]

theorem level_closing {name : QName} (h : Within (events ++ [.closing name])) :
    level events = level (events ++ [.closing name]) + 1 := by
  have hle := h _ (List.prefix_refl _)
  simp [level, isOpening, isClosing] at hle ⊢
  omega

end Xml.Event

open Xml.Event (Within Balanced level)

namespace Definition

variable {d d' : Definition} {start : ElementStart} {event : Event} {events : List Event} {error : Error}

/-! ### The declarations of the open elements -/

theorem Opens.scopes (h : d.Opens start d') : d'.scopes = d.scopes := by
  cases h <;> rfl

theorem scopes_opening (d : Definition) (start : ElementStart) :
    (d.apply (.opening start)).2.scopes = start.namespaces :: d.scopes := by
  cases hcapture : d.capture with
  | some capture => simp only [apply, hcapture]
  | none =>
    rcases apply_opening_cases hcapture start with ⟨opened, happly, hopens, -⟩ | ⟨error, happly, -⟩
    · rw [happly]
      exact hopens.scopes
    · rw [happly]
      rfl

theorem scopes_closeElement (d : Definition) (name : QName) :
    (d.closeElement name).scopes = d.scopes := by
  cases hcapture : d.capture with
  | none => exact (closeElement_gains hcapture name).scopes
  | some capture =>
    unfold closeElement
    rw [hcapture]
    simp only
    split <;> rfl

theorem scopes_closing (d : Definition) (name : QName) :
    (d.apply (.closing name)).2.scopes = d.scopes.tail :=
  congrArg List.tail (scopes_closeElement d name)

theorem scopes_given (d : Definition) (h : Within events) :
    (d.given events).scopes.drop (level events) = d.scopes := by
  induction events using List.reverseRecOn with
  | nil => rfl
  | append_singleton events event ih =>
    have hevents := h.of_prefix (List.prefix_append events [event])
    have hscopes := ih hevents
    rw [given_concat]
    cases event with
    | opening start =>
      rw [scopes_opening, Event.level_opening hevents]
      exact hscopes
    | text content =>
      rw [Event.level_text]
      exact hscopes
    | closing name =>
      rw [Event.level_closing h] at hscopes
      rw [scopes_closing, List.drop_tail]
      exact hscopes

theorem scopes_given_balanced (d : Definition) (h : Balanced events) :
    (d.given events).scopes = d.scopes := by
  have hscopes := d.scopes_given h.within
  rwa [h.level_eq] at hscopes

/-! ### Refused events -/

theorem apply_of_handle_error (h : d.handle event = (.error error, d')) :
    ∃ fault, d.apply event = (.error fault, d') ∧ error = .invalidDefinition d.source fault := by
  unfold handle at h
  split at h
  · cases (Prod.mk.inj h).1
  · next fault after happly =>
    obtain ⟨herror, rfl⟩ := Prod.mk.inj h
    exact ⟨fault, happly, (Except.error.inj herror).symm⟩

theorem exists_opening_of_refused (h : d.apply event = (.error error, d')) :
    ∃ start, event = .opening start ∧ d.capture = none := by
  cases event with
  | opening start =>
    refine ⟨start, rfl, ?_⟩
    cases hcapture : d.capture with
    | none => rfl
    | some capture =>
      simp only [apply, hcapture] at h
      cases (Prod.mk.inj h).1
  | text content => cases (Prod.mk.inj h).1
  | closing name => cases (Prod.mk.inj h).1

theorem handle_refused (h : d.handle event = (.error error, d')) :
    ∃ start, event = .opening start ∧ d.isCapturing = false
      ∧ d' = { d with scopes := start.namespaces :: d.scopes }
      ∧ (∃ fault, Vocabulary.Fault d.place start fault ∧ error = .invalidDefinition d.source fault)
      ∧ ∀ inner name, Balanced inner → (d'.given (inner ++ [.closing name])).scopes = d.scopes := by
  obtain ⟨fault, happly, herror⟩ := apply_of_handle_error h
  obtain ⟨start, rfl, hcapture⟩ := exists_opening_of_refused happly
  rcases apply_opening_cases hcapture start with ⟨opened, hopened, -⟩ | ⟨other, hrefused, hfault⟩
  · rw [hopened] at happly
    cases (Prod.mk.inj happly).1
  · obtain ⟨hother, rfl⟩ := Prod.mk.inj (hrefused.symm.trans happly)
    obtain rfl := Except.error.inj hother
    refine ⟨start, rfl, by simp [isCapturing, hcapture], rfl, ⟨other, hfault, herror⟩, ?_⟩
    intro inner name hinner
    rw [given_concat, scopes_closing, scopes_given_balanced _ hinner]
    rfl

def cachedStart (timeToIdle : String) : ElementStart where
  name := { localName := "pipeline", uri := pipelineNamespace }
  attributes := [("cache", "true"), ("cache-time-to-live", "5"), ("cache-time-to-idle", timeToIdle)].map
    fun (key, value) => { name := { localName := key }, value }
  namespaces := [{ pfx := none, uri := pipelineNamespace }]

def unfinished : Definition :=
  ({} : Definition).given [.opening (cachedStart "7"),
    .opening (Pipeline.sampleStart "transformer" [("xsl-path", "a.xsl")]),
    .opening (Pipeline.sampleStart "parameter" []),
    .opening (Pipeline.sampleStart "parameter" [("name", "p")]), .text "x"]

def untimely : Error :=
  .invalidDefinition none (.malformed (some "cache-time-to-idle") (some "soon")
    "\"cache-time-to-idle\" is not a whole number of seconds: invalid digit found in string")

theorem handle_refused_cachedStart :
    let after := { unfinished with
      scopes := (cachedStart "soon").namespaces :: unfinished.scopes }
    unfinished.handle (.opening (cachedStart "soon")) = (.error untimely, after)
      ∧ unfinished.cache.timeToIdle = 7 ∧ unfinished.parameter = some 0
      ∧ unfinished.text = "x"
      ∧ ∃ start, Event.opening (cachedStart "soon") = .opening start
        ∧ unfinished.isCapturing = false
        ∧ after = { unfinished with scopes := start.namespaces :: unfinished.scopes }
        ∧ (∃ fault, Vocabulary.Fault unfinished.place start fault
          ∧ untimely = .invalidDefinition unfinished.source fault)
        ∧ ∀ inner name, Balanced inner →
          (after.given (inner ++ [.closing name])).scopes = unfinished.scopes := by
  intro after
  have hrefused : unfinished.handle (.opening (cachedStart "soon")) = (.error untimely, after) := rfl
  exact ⟨hrefused, by decide +kernel, by decide +kernel, by decide +kernel, handle_refused hrefused⟩

end Definition
end XmlPipeline
