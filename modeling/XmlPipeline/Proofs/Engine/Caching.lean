import Mathlib.Data.List.Induction
import XmlPipeline.Proofs.Engine.Requests
import XmlPipeline.Proofs.Engine.Templates

/-!
This module contains what comes of any sequence of calls of the cache of stylesheets. The main statement is
that a stylesheet is compiled for the cache at most once for each normalized path, until the cache is cleared.
-/

namespace XmlPipeline

open RunM

variable {Program : Type}

/--
What can be asked of the cache: the stylesheet at a path, which the cache is to know and keep if `stored` is
set, or to forget everything.
-/
inductive CacheCall where
  | get (path : Path) (stored : Bool)
  | clear

structure Lookup (Program : Type) where
  path : Path
  stored : Bool
  result : Except Error Program
  requests : Journal Program

namespace Lookup

def IsKept (lookup : Lookup Program) : Prop :=
  lookup.stored = true ∧ lookup.result.isOk = true

instance (lookup : Lookup Program) : Decidable lookup.IsKept :=
  inferInstanceAs (Decidable (_ ∧ _))

def compiled? (lookup : Lookup Program) : Option Path :=
  if lookup.IsKept ∧ ¬ lookup.requests.isEmpty then some lookup.path.normalize else none

end Lookup

namespace Engine

def look (engine : Engine Program) (path : Path) (stored : Bool) : Lookup Program × Engine Program :=
  let (result, run) := perform (engine.compile (!stored) path) (engine.startRun (!stored) ())
  ({ path, stored, result, requests := run.journal.requests }, engine.keeping run)

end Engine

structure CacheHistory (Program : Type) where
  engine : Engine Program
  lookups : List (Lookup Program) := []

namespace CacheHistory

def answer (history : CacheHistory Program) : CacheCall → CacheHistory Program
  | .get path stored =>
    let (lookup, engine) := history.engine.look path stored
    { engine, lookups := history.lookups ++ [lookup] }
  | .clear => { engine := history.engine.clearTemplates }

def ofCalls (engine : Engine Program) (calls : List CacheCall) : CacheHistory Program :=
  calls.foldl answer { engine := engine.clearTemplates }

def keys (history : CacheHistory Program) : List Path :=
  history.lookups.filterMap Lookup.compiled?

end CacheHistory

/-! ### One call -/

namespace Engine

variable {engine : Engine Program}

theorem look_eq (engine : Engine Program) (path : Path) (stored : Bool) :
    engine.look path stored
      = ({ path, stored
           result := (engine.compiled (!stored) engine.templates path).1
           requests := compilation (!stored) engine.templates path },
        { engine with templates := (engine.compiled (!stored) engine.templates path).2 }) := by
  obtain ⟨after, hperform, htemplates⟩ :=
    engine.perform_compile (!stored) path (engine.startRun (!stored) ())
  have hrequests := engine.requests_compile (!stored) path (engine.startRun (!stored) ())
  have hstart : (engine.startRun (!stored) ()).templates = engine.templates := rfl
  rw [hstart] at hperform htemplates hrequests
  rw [hperform] at hrequests
  unfold look keeping
  rw [hperform]
  simp only
  rw [hrequests, htemplates]
  rfl

theorem look_unstored (engine : Engine Program) (path : Path) :
    engine.look path false
      = ({ path
           stored := false
           result := (engine.processor.compile path.normalize).result
           requests := [.compiled path.normalize] }, engine) := by
  rw [look_eq]
  unfold compiled
  simp only [Bool.not_false, ↓reduceIte]
  cases (engine.processor.compile path.normalize).result <;> rfl

theorem look_of_contains (h : engine.templates.Coherent engine.processor) {path : Path}
    (hcontains : engine.templates.contains path = true) :
    engine.look path true
      = ({ path
           stored := true
           result := (engine.processor.compile path.normalize).result
           requests := [] }, engine) := by
  obtain ⟨program, hfound⟩ := Option.isSome_iff_exists.mp hcontains
  rw [look_eq, h path program hfound]
  unfold compiled compilation
  simp only [Bool.not_true, Bool.false_eq_true, ↓reduceIte]
  rw [hfound]

theorem look_of_not_contains {path : Path} (hcontains : engine.templates.contains path = false) :
    engine.look path true
      = ({ path
           stored := true
           result := (engine.processor.compile path.normalize).result
           requests := [.compiled path.normalize] },
        match (engine.processor.compile path.normalize).result with
        | .ok program => { engine with templates := engine.templates.store path program }
        | .error _ => engine) := by
  have hnone : engine.templates.find? path = none := Option.isNone_iff_eq_none.mp (by
    simpa [TemplateCache.contains] using hcontains)
  rw [look_eq]
  unfold compiled compilation
  simp only [Bool.not_true, Bool.false_eq_true, ↓reduceIte]
  rw [hnone]
  cases (engine.processor.compile path.normalize).result <;> rfl

end Engine

/-! ### A sequence of calls -/

namespace CacheHistory

structure Tracked (history : CacheHistory Program) : Prop where
  coherent : history.engine.templates.Coherent history.engine.processor
  contains : ∀ path, history.engine.templates.contains path = true ↔ path.normalize ∈ history.keys
  kept : ∀ lookup ∈ history.lookups, lookup.IsKept → lookup.path.normalize ∈ history.keys
  nodup : history.keys.Nodup
  size : history.engine.templates.size = history.keys.length

section

variable {history : CacheHistory Program}

theorem tracked_cleared (engine : Engine Program) :
    Tracked ({ engine := engine.clearTemplates } : CacheHistory Program) where
  coherent := TemplateCache.coherent_empty _
  contains path := by
    constructor
    · intro h
      cases h
    · intro h
      cases h
  kept lookup h := absurd h List.not_mem_nil
  nodup := List.nodup_nil
  size := rfl

theorem keys_append (engine : Engine Program) (lookups : List (Lookup Program))
    (lookup : Lookup Program) :
    keys { engine, lookups := lookups ++ [lookup] }
      = keys { engine, lookups } ++ lookup.compiled?.toList :=
  List.filterMap_append

theorem Tracked.passed (h : history.Tracked) {lookup : Lookup Program}
    (hcompiled : lookup.compiled? = none)
    (hkept : lookup.IsKept → lookup.path.normalize ∈ history.keys) :
    Tracked { history with lookups := history.lookups ++ [lookup] } := by
  have hkeys : keys { history with lookups := history.lookups ++ [lookup] } = history.keys := by
    rw [keys_append, hcompiled]
    exact List.append_nil _
  constructor
  · exact h.coherent
  · rw [hkeys]
    exact h.contains
  · rw [hkeys]
    intro other hother
    obtain hother | hother := List.mem_append.mp hother
    · exact h.kept other hother
    · obtain rfl := List.mem_singleton.mp hother
      exact hkept
  · rw [hkeys]
    exact h.nodup
  · rw [hkeys]
    exact h.size

theorem Tracked.unkept (h : history.Tracked) {lookup : Lookup Program} (hkept : ¬ lookup.IsKept) :
    Tracked { history with lookups := history.lookups ++ [lookup] } :=
  h.passed (if_neg fun hboth => hkept hboth.1) fun hyes => absurd hyes hkept

theorem Tracked.stored (h : history.Tracked) {path : Path} {program : Program}
    (hcontains : history.engine.templates.contains path = false)
    (hresult : (history.engine.processor.compile path.normalize).result = .ok program) :
    Tracked {
      engine := { history.engine with templates := history.engine.templates.store path program }
      lookups := history.lookups ++ [{
        path
        stored := true
        result := .ok program
        requests := [.compiled path.normalize] }] } := by
  have hnew : path.normalize ∉ history.keys := by
    rw [← h.contains, hcontains]
    exact Bool.false_ne_true
  have hkeys : ∀ engine, keys ({
      engine
      lookups := history.lookups ++ [{
        path
        stored := true
        result := .ok program
        requests := [.compiled path.normalize] }] } : CacheHistory Program)
      = history.keys ++ [path.normalize] := fun engine => keys_append engine _ _
  constructor
  · exact h.coherent.store hresult
  · intro other
    rw [hkeys, TemplateCache.contains_store, h.contains, List.mem_append, List.mem_singleton]
    exact or_comm
  · intro lookup hlookup hkept
    rw [hkeys]
    obtain hlookup | hlookup := List.mem_append.mp hlookup
    · exact List.mem_append_left _ (h.kept lookup hlookup hkept)
    · obtain rfl := List.mem_singleton.mp hlookup
      exact List.mem_append_right _ (List.mem_singleton_self _)
  · rw [hkeys]
    exact List.nodup_append.mpr ⟨h.nodup, List.pairwise_singleton _ _, by
      intro key hkey other hother
      obtain rfl := List.mem_singleton.mp hother
      exact fun heq => hnew (heq ▸ hkey)⟩
  · rw [hkeys, TemplateCache.size_store hcontains, h.size]
    simp

theorem Tracked.answer (h : history.Tracked) (call : CacheCall) : (history.answer call).Tracked := by
  cases call with
  | clear => exact tracked_cleared history.engine
  | get path stored =>
    unfold CacheHistory.answer
    cases stored with
    | false =>
      simp only [history.engine.look_unstored path]
      exact h.unkept fun hkept => Bool.false_ne_true hkept.1
    | true =>
      cases hcontains : history.engine.templates.contains path with
      | true =>
        simp only [Engine.look_of_contains h.coherent hcontains]
        exact h.passed (if_neg (by simp)) fun _ => (h.contains path).mp hcontains
      | false =>
        simp only [Engine.look_of_not_contains hcontains]
        cases hresult : (history.engine.processor.compile path.normalize).result with
        | ok program => exact h.stored hcontains hresult
        | error error => exact h.unkept fun hkept => Bool.false_ne_true hkept.2

theorem Tracked.contains_iff_kept (h : history.Tracked) (path : Path) :
    history.engine.templates.contains path = true
      ↔ ∃ earlier ∈ history.lookups, earlier.IsKept ∧ earlier.path.normalize = path.normalize := by
  rw [h.contains]
  constructor
  · intro hkey
    obtain ⟨earlier, hearlier, hcompiled⟩ := List.mem_filterMap.mp hkey
    unfold Lookup.compiled? at hcompiled
    split at hcompiled
    · next hkept => exact ⟨earlier, hearlier, hkept.1, Option.some.inj hcompiled⟩
    · cases hcompiled
  · rintro ⟨earlier, hearlier, hkept, heq⟩
    exact heq ▸ h.kept earlier hearlier hkept

end

theorem tracked_ofCalls (engine : Engine Program) (calls : List CacheCall) :
    (ofCalls engine calls).Tracked := by
  unfold ofCalls
  induction calls using List.reverseRecOn with
  | nil => exact tracked_cleared engine
  | append_singleton calls call ih =>
    rw [List.foldl_append]
    exact ih.answer call

theorem processor_ofCalls (engine : Engine Program) (calls : List CacheCall) :
    (ofCalls engine calls).engine.processor = engine.processor := by
  unfold ofCalls
  induction calls using List.reverseRecOn with
  | nil => rfl
  | append_singleton calls call ih =>
    rw [List.foldl_append, ← ih]
    cases call <;> rfl

/--
After any calls the cache holds the paths that were compiled for it since it was cleared, each of which was
compiled once. The next call is given what the processor makes of the normalized path, and the processor is
asked unless a stored call for such a path has succeeded before.
-/
theorem ofCalls_cached (engine : Engine Program) (calls : List CacheCall) :
    let history := ofCalls engine calls
    let cache := history.engine.templates
    history.keys.Nodup
      ∧ cache.size = history.keys.length
      ∧ (∀ path, cache.contains path = true ↔ path.normalize ∈ history.keys)
      ∧ ∀ path stored,
        let (lookup, after) := history.engine.look path stored
        let isServed := stored = true
          ∧ ∃ earlier ∈ history.lookups, earlier.IsKept ∧ earlier.path.normalize = path.normalize
        lookup.result = (engine.processor.compile path.normalize).result
          ∧ (isServed → lookup.requests = [])
          ∧ (¬ isServed → lookup.requests = [.compiled path.normalize])
          ∧ (stored = false ∨ lookup.result.isOk = false → after.templates = cache)
          ∧ ∀ templates, stored = false →
            ({ history.engine with templates } : Engine Program).look path stored
              = (lookup, { after with templates }) := by
  intro history cache
  have h : history.Tracked := tracked_ofCalls engine calls
  have hprocessor : history.engine.processor = engine.processor := processor_ofCalls engine calls
  refine ⟨h.nodup, h.size, h.contains, ?_⟩
  intro path stored
  rw [← hprocessor]
  cases stored with
  | false =>
    rw [Engine.look_unstored]
    refine ⟨rfl, fun hserved => absurd hserved.1 Bool.false_ne_true, fun _ => rfl, fun _ => rfl, ?_⟩
    intro templates _
    exact Engine.look_unstored _ path
  | true =>
    cases hcontains : history.engine.templates.contains path with
    | true =>
      rw [Engine.look_of_contains h.coherent hcontains]
      have hserved := (h.contains_iff_kept path).mp hcontains
      exact ⟨rfl, fun _ => rfl, fun hnot => absurd ⟨rfl, hserved⟩ hnot, fun _ => rfl, nofun⟩
    | false =>
      rw [Engine.look_of_not_contains hcontains]
      have hserved : ¬ ∃ earlier ∈ history.lookups,
          earlier.IsKept ∧ earlier.path.normalize = path.normalize := by
        rw [← h.contains_iff_kept, hcontains]
        exact Bool.false_ne_true
      refine ⟨rfl, fun hyes => absurd hyes.2 hserved, fun _ => rfl, ?_, nofun⟩
      rintro (hstored | hfailed)
      · cases hstored
      · cases hresult : (history.engine.processor.compile path.normalize).result with
        | ok program =>
          rw [hresult] at hfailed
          cases hfailed
        | error error => rfl

end CacheHistory
end XmlPipeline
