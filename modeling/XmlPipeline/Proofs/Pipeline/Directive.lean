import XmlPipeline.Proofs.Pipeline.Coherence
import XmlPipeline.Proofs.Text.Blank
import XmlPipeline.Proofs.Text.Unsigned

/-!
This module contains the cache directives that `pipeline` elements set, and the times that they accept. The
main statement holds at any point of a definition, also after events that were refused.
-/

namespace XmlPipeline

open Xml

namespace Vocabulary

/--
The value is a whole number of seconds that fits 32 bits, with blanks around it or without.
-/
def IsSeconds (value : String) (n : Nat) : Prop :=
  ∃ lead digits trail, value.toList = lead ++ digits ++ trail
    ∧ (∀ c ∈ lead ++ trail, Text.isBlank c = true) ∧ Text.IsDecimal digits n ∧ n ≤ 4294967295

/--
The element gives this number of seconds in the attribute. It is a minute where there is no attribute.
-/
def Lasts (start : ElementStart) (attr : String) (n : Nat) : Prop :=
  match start.attribute? attr with
  | some value => IsSeconds value n
  | none => n = 60

def directiveOf (start : ElementStart) (timeToLive timeToIdle : Nat) : CacheDirective where
  enabled := true
  key := start.attribute? "cache-key"
  timeToLive
  timeToIdle
  scope := (start.attribute? "cache-scope").getD "webapp"
  includeHeaders := start.attribute? "cache-headers" == some "true"

/--
The value of the attribute is no number of seconds, and this is the error that names both of them.
-/
def Untimely (start : ElementStart) (attr : String) (error : Error) : Prop :=
  ∃ value problem, start.attribute? attr = some value ∧ (∀ n, ¬ IsSeconds value n)
    ∧ error = .malformed (some attr) (some value)
      ("\"" ++ attr ++ "\" is not a whole number of seconds: " ++ Text.NumberError.message problem)

theorem not_isBlank_of_isDecimal {digits : List Char} {n : Nat} (h : Text.IsDecimal digits n) :
    ∀ c ∈ digits, Text.isBlank c = false := by
  have hdigit : ∀ c : Char, c.isDigit = true → Text.isBlank c = false := by
    intro c hc
    have hrange : 48 ≤ c.toNat ∧ c.toNat ≤ 57 := by
      rw [Char.isDigit, Bool.and_eq_true, decide_eq_true_eq, decide_eq_true_eq] at hc
      exact hc
    simp only [Text.isBlank, Bool.or_eq_false_iff, Bool.and_eq_false_iff, decide_eq_false_iff_not,
      beq_eq_false_iff_ne]
    omega
  obtain ⟨more, hdigits, _, hmore, _⟩ := h
  intro c hc
  rcases hdigits with rfl | rfl
  · exact hdigit c (hmore c hc)
  · cases List.mem_cons.mp hc with
    | inl heq => exact heq ▸ rfl
    | inr hmem => exact hdigit c (hmore c hmem)

theorem isSeconds_iff {value : String} {n : Nat} :
    IsSeconds value n
      ↔ Text.readUnsigned 10 Text.maxUnsigned32 (Text.trimChars value.toList) = .ok n := by
  rw [Text.readUnsigned_eq_ok_iff]
  constructor
  · rintro ⟨lead, digits, trail, hvalue, hblank, hdecimal, hfits⟩
    have htrim : Text.trimChars value.toList = digits := by
      rw [hvalue]
      apply Text.trimChars_between
      · exact fun c hc => hblank c (List.mem_append_left _ hc)
      · exact fun c hc => hblank c (List.mem_append_right _ hc)
      · exact not_isBlank_of_isDecimal hdecimal
    rw [htrim]
    exact ⟨hdecimal, hfits⟩
  · rintro ⟨hdecimal, hfits⟩
    obtain ⟨lead, trail, hvalue, hblank⟩ := Text.exists_trimChars value.toList
    exact ⟨lead, _, trail, hvalue, hblank, hdecimal, hfits⟩

end Vocabulary

namespace Attribute

open Vocabulary

variable {start : ElementStart} {attr : String}

theorem seconds_eq_ok_iff {n : Nat} :
    seconds (start.attribute? attr) attr 60 = .ok n ↔ Lasts start attr n := by
  unfold seconds Lasts
  cases start.attribute? attr with
  | none => simp [eq_comm]
  | some value =>
    simp only [isSeconds_iff]
    split
    · next heq => simp only [heq, Except.ok.injEq]
    · next heq => simp [heq]

theorem seconds_eq_error {error : Error}
    (h : seconds (start.attribute? attr) attr 60 = .error error) : Untimely start attr error := by
  have hnone : ∀ n, ¬ Lasts start attr n := by
    intro n hn
    rw [seconds_eq_ok_iff.mpr hn] at h
    cases h
  unfold seconds at h
  unfold Lasts at hnone
  unfold Untimely
  split at h
  · cases h
  · next value hvalue =>
    rw [hvalue] at hnone ⊢
    split at h
    · cases h
    · next problem hproblem =>
      exact ⟨value, problem, rfl, hnone, (Except.error.inj h).symm⟩

end Attribute

namespace Definition

open Vocabulary

variable {start : ElementStart}

theorem directive_of_lasts {live idle : Nat} (hcache : start.attribute? "cache" = some "true")
    (hlive : Lasts start "cache-time-to-live" live) (hidle : Lasts start "cache-time-to-idle" idle) :
    directive start = .ok (directiveOf start live idle) := by
  unfold directive
  simp only [Attribute.flag, hcache]
  rw [Attribute.seconds_eq_ok_iff.mpr hlive, Attribute.seconds_eq_ok_iff.mpr hidle]
  rfl

theorem directive_disabled (hcache : start.attribute? "cache" ≠ some "true") :
    directive start = .ok {} := by
  unfold directive Attribute.flag
  rw [beq_false_of_ne hcache]
  rfl

theorem timed_or_untimely (hcache : start.attribute? "cache" = some "true") :
    (∃ live idle, Lasts start "cache-time-to-live" live ∧ Lasts start "cache-time-to-idle" idle)
      ∨ ∃ error, directive start = .error error
        ∧ (Untimely start "cache-time-to-live" error
          ∨ (∃ live, Lasts start "cache-time-to-live" live)
            ∧ Untimely start "cache-time-to-idle" error) := by
  unfold directive
  simp only [Attribute.flag, hcache]
  cases hlive : Attribute.seconds (start.attribute? "cache-time-to-live") "cache-time-to-live" 60 with
  | error error => exact .inr ⟨error, rfl, .inl (Attribute.seconds_eq_error hlive)⟩
  | ok live =>
    have hlasts := Attribute.seconds_eq_ok_iff.mp hlive
    cases hidle : Attribute.seconds (start.attribute? "cache-time-to-idle") "cache-time-to-idle" 60 with
    | error error => exact .inr ⟨error, rfl, .inr ⟨⟨live, hlasts⟩, Attribute.seconds_eq_error hidle⟩⟩
    | ok idle => exact .inl ⟨live, idle, hlasts, Attribute.seconds_eq_ok_iff.mp hidle⟩

theorem handle_opening_pipeline (d : Definition) (hcapture : d.isCapturing = false)
    (hnamed : isNamed "pipeline" start = true) :
    d.handle (.opening start)
      = match directive start with
        | .ok cache => (.ok (), { d with scopes := start.namespaces :: d.scopes, cache })
        | .error error =>
          (.error (.invalidDefinition d.source error),
            { d with scopes := start.namespaces :: d.scopes }) := by
  obtain ⟨hin, hlocal⟩ := isNamed_iff.mp hnamed
  have hnone : d.capture = none := by simpa [isCapturing] using hcapture
  unfold handle apply
  simp only [hnone, openElement, hin, ↓reduceIte, hlocal, openPipeline]
  cases directive start <;> rfl

theorem handle_pipeline (source : Option String) (events : List Event) (start : ElementStart)
    (hcapture : (({ source } : Definition).given events).isCapturing = false)
    (hnamed : start.name.is pipelineNamespace "pipeline" = true) :
    let d := ({ source } : Definition).given events
    let within := { d with scopes := start.namespaces :: d.scopes }
    (start.attribute? "cache" ≠ some "true" →
        d.handle (.opening start) = (.ok (), { within with cache := {} }))
      ∧ (start.attribute? "cache" = some "true" →
        ((d.handle (.opening start)).1.isOk = true
            ↔ (∃ live, Lasts start "cache-time-to-live" live)
              ∧ ∃ idle, Lasts start "cache-time-to-idle" idle)
          ∧ (∀ live idle, Lasts start "cache-time-to-live" live →
              Lasts start "cache-time-to-idle" idle →
              d.handle (.opening start) = (.ok (), { within with cache := directiveOf start live idle }))
          ∧ ∀ error after, d.handle (.opening start) = (.error error, after) →
              after = within ∧ ∃ fault, error = .invalidDefinition d.source fault
                ∧ (Untimely start "cache-time-to-live" fault
                  ∨ (∃ live, Lasts start "cache-time-to-live" live)
                    ∧ Untimely start "cache-time-to-idle" fault)) := by
  intro d within
  have hhandle := handle_opening_pipeline d hcapture hnamed
  refine ⟨?_, ?_⟩
  · intro hcache
    rw [hhandle, directive_disabled hcache]
  · intro hcache
    have hset : ∀ live idle, Lasts start "cache-time-to-live" live →
        Lasts start "cache-time-to-idle" idle →
        d.handle (.opening start)
          = (.ok (), { within with cache := directiveOf start live idle }) := by
      intro live idle hlive hidle
      rw [hhandle, directive_of_lasts hcache hlive hidle]
    rcases timed_or_untimely hcache with ⟨live, idle, hlive, hidle⟩ | ⟨fault, hdirective, hfault⟩
    · have hok := hset live idle hlive hidle
      refine ⟨?_, hset, ?_⟩
      · rw [hok]
        exact ⟨fun _ => ⟨⟨live, hlive⟩, idle, hidle⟩, fun _ => rfl⟩
      · intro error after herror
        rw [hok] at herror
        cases (Prod.mk.inj herror).1
    · have herror : d.handle (.opening start) = (.error (.invalidDefinition d.source fault), within) := by
        rw [hhandle, hdirective]
      refine ⟨?_, hset, ?_⟩
      · rw [herror]
        constructor
        · intro hok
          cases hok
        · rintro ⟨⟨live, hlive⟩, idle, hidle⟩
          rw [hset live idle hlive hidle] at herror
          cases (Prod.mk.inj herror).1
      · intro error after hother
        rw [herror] at hother
        obtain ⟨herror, rfl⟩ := Prod.mk.inj hother
        exact ⟨rfl, fault, (Except.error.inj herror).symm, hfault⟩

def timedStart (timeToLive : String) : ElementStart where
  name := { localName := "pipeline", uri := pipelineNamespace }
  attributes := [("cache-time-to-live", timeToLive), ("cache", "true")].map
    fun (key, value) => { name := { localName := key }, value }

theorem handle_pipeline_timedStart :
    let d := ({} : Definition).given [.opening (Pipeline.sampleStart "value" []), .text "x"]
    d.isCapturing = false
      ∧ (∀ time, (timedStart time).name.is pipelineNamespace "pipeline" = true)
      ∧ d.handle (.opening (timedStart " +0004294967295\n"))
        = (.ok (), { d with
            scopes := [] :: d.scopes
            cache := directiveOf (timedStart " +0004294967295\n") 4294967295 60 })
      ∧ ∃ error, d.handle (.opening (timedStart "4294967296"))
          = (.error error, { d with scopes := [] :: d.scopes })
        ∧ ∃ fault, error = .invalidDefinition d.source fault
          ∧ Untimely (timedStart "4294967296") "cache-time-to-live" fault := by
  intro d
  have hcapture : d.isCapturing = false := by decide +kernel
  have hnamed : ∀ time, (timedStart time).name.is pipelineNamespace "pipeline" = true := fun _ => rfl
  refine ⟨hcapture, hnamed, ?_, ?_⟩
  · obtain ⟨-, hset, -⟩ := (handle_pipeline none _ (timedStart " +0004294967295\n") hcapture
      (hnamed _)).2 rfl
    exact hset 4294967295 60 (Attribute.seconds_eq_ok_iff.mp rfl) (Attribute.seconds_eq_ok_iff.mp rfl)
  · obtain ⟨-, -, hrefused⟩ := (handle_pipeline none _ (timedStart "4294967296") hcapture
      (hnamed _)).2 rfl
    have hfails : (d.handle (.opening (timedStart "4294967296"))).1.isOk = false := by decide +kernel
    cases hhandle : d.handle (.opening (timedStart "4294967296")) with
    | mk result after =>
      rw [hhandle] at hfails
      cases result with
      | ok => cases hfails
      | error error =>
        obtain ⟨rfl, fault, herror, hfault⟩ := hrefused error after hhandle
        refine ⟨error, rfl, fault, herror, ?_⟩
        cases hfault with
        | inl hlive => exact hlive
        | inr hidle =>
          obtain ⟨⟨live, hlive⟩, -⟩ := hidle
          cases Attribute.seconds_eq_ok_iff.mpr hlive

end Definition
end XmlPipeline
