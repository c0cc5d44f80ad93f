import Mathlib.Data.List.DropRight
import XmlPipeline.Engine.Request

/-!
This module contains the release of the resources of a request, one resource after the other. Whatever is
registered and released in whatever order, and whatever of it fails, each resource is released exactly once.
-/

namespace XmlPipeline

namespace Cleanup

def closeable? : Cleanup → Option Closeable
  | close closeable => some closeable
  | remove .. => none

def path? : Cleanup → Option Path
  | close _ => none
  | remove path _ => some path

theorem filterMap_closeable?_close (closeables : List Closeable) :
    (closeables.map close).filterMap closeable? = closeables := by
  rw [List.filterMap_map]
  exact List.filterMap_some

theorem filterMap_path?_close (closeables : List Closeable) :
    (closeables.map close).filterMap path? = [] := by
  rw [List.filterMap_map]
  exact List.filterMap_eq_nil_iff.mpr fun _ _ => rfl

end Cleanup

/--
What can be done with a scope. A release finds the files as they are at that time.
-/
inductive ScopeCall (Files : Type) where
  | addTempPath (path : Path)
  | addCloseable (closeable : Closeable)
  | release (files : Files)

namespace ScopeCall

variable {Files : Type}

def isRelease : ScopeCall Files → Bool
  | release _ => true
  | _ => false

def tempPath? : ScopeCall Files → Option Path
  | addTempPath path => some path
  | _ => none

def closeable? : ScopeCall Files → Option Closeable
  | addCloseable closeable => some closeable
  | _ => none

def recent (calls : List (ScopeCall Files)) : List (ScopeCall Files) :=
  calls.rtakeWhile fun call => !call.isRelease

theorem recent_concat (calls : List (ScopeCall Files)) (call : ScopeCall Files) :
    recent (calls ++ [call]) = if call.isRelease then [] else recent calls ++ [call] := by
  unfold recent
  rw [List.rtakeWhile_concat]
  cases call.isRelease <;> rfl

theorem filterMap_concat {α : Type} (select : ScopeCall Files → Option α) (calls : List (ScopeCall Files))
    (call : ScopeCall Files) :
    (calls ++ [call]).filterMap select = calls.filterMap select ++ (select call).toList :=
  List.filterMap_append

end ScopeCall

namespace RequestScope

variable {Files : Type} (remove : Files → Path → Except FileError Unit × Files)

/--
Release the resource whose turn it is: the one to close that was registered last, or else the first temporary
path.
-/
def next? (scope : RequestScope) (files : Files) : Option (Cleanup × RequestScope × Files) :=
  match scope.closeables.getLast?, scope.tempPaths with
  | some closeable, _ =>
    some (.close closeable, { scope with closeables := scope.closeables.dropLast }, files)
  | none, path :: paths =>
    let (result, files) := remove files path
    some (.remove path result, { scope with tempPaths := paths }, files)
  | none, [] => none

theorem next?_close (tempPaths : List Path) (closeables : List Closeable) (closeable : Closeable)
    (files : Files) :
    next? remove { tempPaths, closeables := closeables ++ [closeable] } files
      = some (.close closeable, { tempPaths, closeables }, files) := by
  simp [next?]

theorem next?_remove (path : Path) (paths : List Path) (files : Files) :
    next? remove { tempPaths := path :: paths } files
      = some (.remove path (remove files path).1, { tempPaths := paths }, (remove files path).2) :=
  rfl

theorem pending_next? {scope after : RequestScope} {files left : Files} {step : Cleanup}
    (h : scope.next? remove files = some (step, after, left)) : after.pending < scope.pending := by
  obtain ⟨tempPaths, closeables⟩ := scope
  cases closeables using List.reverseRecOn with
  | nil =>
    cases tempPaths with
    | nil => cases h
    | cons path paths =>
      rw [next?_remove] at h
      obtain ⟨-, rfl, -⟩ := h
      exact Nat.lt_succ_self _
  | append_singleton closeables closeable =>
    rw [next?_close] at h
    obtain ⟨-, rfl, -⟩ := h
    simp [pending]

def unwind (scope : RequestScope) (files : Files) : List Cleanup × RequestScope × Files :=
  match _ : scope.next? remove files with
  | none => ([], scope, files)
  | some (step, after, left) =>
    let (steps, last) := after.unwind left
    (step :: steps, last)
termination_by scope.pending
decreasing_by exact pending_next? remove ‹_›

theorem unwind_of_next? {scope after : RequestScope} {files left : Files} {step : Cleanup}
    (h : scope.next? remove files = some (step, after, left)) :
    scope.unwind remove files
      = (step :: (after.unwind remove left).1, (after.unwind remove left).2) := by
  rw [unwind]
  split
  · next hnone =>
    rw [hnone] at h
    cases h
  · next hsome =>
    rw [hsome] at h
    cases h
    rfl

theorem unwind_empty (files : Files) : unwind remove {} files = ([], {}, files) := by
  rw [unwind]
  rfl

theorem unwind_tempPaths (paths : List Path) (files : Files) :
    unwind remove { tempPaths := paths } files
      = ((removeAll remove files paths).1, {}, (removeAll remove files paths).2) := by
  induction paths generalizing files with
  | nil => exact unwind_empty remove files
  | cons path paths ih =>
    rw [unwind_of_next? remove (next?_remove remove path paths files), ih]
    rfl

theorem unwind_eq (scope : RequestScope) (files : Files) :
    scope.unwind remove files
      = ((scope.releaseWith remove files).1, {}, (scope.releaseWith remove files).2) := by
  obtain ⟨tempPaths, closeables⟩ := scope
  induction closeables using List.reverseRecOn with
  | nil => exact unwind_tempPaths remove tempPaths files
  | append_singleton closeables closeable ih =>
    rw [unwind_of_next? remove (next?_close remove tempPaths closeables closeable files), ih]
    simp [releaseWith]

theorem map_path?_removeAll (paths : List Path) (files : Files) :
    (removeAll remove files paths).1.map Cleanup.path? = paths.map some := by
  induction paths generalizing files with
  | nil => rfl
  | cons path paths ih => exact congrArg (some path :: ·) (ih (remove files path).2)

theorem filterMap_path?_removeAll (paths : List Path) (files : Files) :
    (removeAll remove files paths).1.filterMap Cleanup.path? = paths := by
  have hmap := congrArg (List.filterMap id) (map_path?_removeAll remove paths files)
  rw [List.filterMap_map, List.filterMap_map] at hmap
  exact hmap.trans List.filterMap_some

theorem filterMap_closeable?_removeAll (paths : List Path) (files : Files) :
    (removeAll remove files paths).1.filterMap Cleanup.closeable? = [] := by
  induction paths generalizing files with
  | nil => rfl
  | cons path paths ih => exact ih (remove files path).2

end RequestScope

/-! ### A sequence of calls -/

structure ScopeHistory where
  scope : RequestScope := {}
  cleanups : List Cleanup := []

namespace ScopeHistory

variable {Files : Type} (remove : Files → Path → Except FileError Unit × Files)

def answer (history : ScopeHistory) : ScopeCall Files → ScopeHistory
  | .addTempPath path => { history with scope := history.scope.addTempPath path }
  | .addCloseable closeable => { history with scope := history.scope.addCloseable closeable }
  | .release files =>
    let (steps, scope, _) := history.scope.unwind remove files
    { scope, cleanups := history.cleanups ++ steps }

def ofCalls (calls : List (ScopeCall Files)) : ScopeHistory :=
  calls.foldl (answer remove) {}

structure Balanced (calls : List (ScopeCall Files)) (history : ScopeHistory) : Prop where
  closeables : history.scope.closeables = (ScopeCall.recent calls).filterMap ScopeCall.closeable?
  tempPaths : history.scope.tempPaths = (ScopeCall.recent calls).filterMap ScopeCall.tempPath?
  closed : (history.cleanups.filterMap Cleanup.closeable? ++ history.scope.closeables).Perm
    (calls.filterMap ScopeCall.closeable?)
  removed : history.cleanups.filterMap Cleanup.path? ++ history.scope.tempPaths
    = calls.filterMap ScopeCall.tempPath?

variable {remove} {calls : List (ScopeCall Files)} {history : ScopeHistory}

theorem answer_release (history : ScopeHistory) (files : Files) :
    history.answer remove (.release files)
      = { cleanups := history.cleanups ++ history.scope.closeables.reverse.map .close
            ++ (RequestScope.removeAll remove files history.scope.tempPaths).1 } := by
  unfold answer
  simp only
  rw [RequestScope.unwind_eq]
  simp [RequestScope.releaseWith]

theorem answer_registration (history : ScopeHistory) {call : ScopeCall Files}
    (hcall : call.isRelease = false) :
    history.answer remove call
      = { history with scope := {
            tempPaths := history.scope.tempPaths ++ call.tempPath?.toList
            closeables := history.scope.closeables ++ call.closeable?.toList } } := by
  cases call with
  | addTempPath path => simp [answer, RequestScope.addTempPath, ScopeCall.tempPath?, ScopeCall.closeable?]
  | addCloseable closeable =>
    simp [answer, RequestScope.addCloseable, ScopeCall.tempPath?, ScopeCall.closeable?]
  | release files => cases hcall

theorem Balanced.registration (h : history.Balanced calls) {call : ScopeCall Files}
    (hcall : call.isRelease = false) : (history.answer remove call).Balanced (calls ++ [call]) := by
  have hrecent : ScopeCall.recent (calls ++ [call]) = ScopeCall.recent calls ++ [call] := by
    rw [ScopeCall.recent_concat, hcall]
    rfl
  rw [answer_registration history hcall]
  constructor
  · rw [hrecent, ScopeCall.filterMap_concat, h.closeables]
  · rw [hrecent, ScopeCall.filterMap_concat, h.tempPaths]
  · rw [ScopeCall.filterMap_concat, ← List.append_assoc]
    exact h.closed.append_right _
  · rw [ScopeCall.filterMap_concat, ← List.append_assoc, h.removed]

theorem Balanced.release (h : history.Balanced calls) (files : Files) :
    (history.answer remove (.release files)).Balanced (calls ++ [.release files]) := by
  have hrecent : ScopeCall.recent (calls ++ [.release files]) = [] := by
    rw [ScopeCall.recent_concat]
    rfl
  rw [answer_release]
  constructor
  · rw [hrecent]
    rfl
  · rw [hrecent]
    rfl
  · rw [ScopeCall.filterMap_concat, List.filterMap_append, List.filterMap_append,
      RequestScope.filterMap_closeable?_removeAll, Cleanup.filterMap_closeable?_close, List.append_nil,
      List.append_nil]
    exact ((List.reverse_perm _).append_left _).trans (h.closed.trans (.of_eq (List.append_nil _).symm))
  · rw [ScopeCall.filterMap_concat, List.filterMap_append, List.filterMap_append,
      RequestScope.filterMap_path?_removeAll, Cleanup.filterMap_path?_close, List.append_nil, List.append_nil,
      h.removed]
    exact (List.append_nil _).symm

theorem Balanced.answer (h : history.Balanced calls) (call : ScopeCall Files) :
    (history.answer remove call).Balanced (calls ++ [call]) := by
  cases call with
  | addTempPath path => exact h.registration rfl
  | addCloseable closeable => exact h.registration rfl
  | release files => exact h.release files

theorem balanced_ofCalls (remove : Files → Path → Except FileError Unit × Files)
    (calls : List (ScopeCall Files)) : (ofCalls remove calls).Balanced calls := by
  unfold ofCalls
  induction calls using List.reverseRecOn with
  | nil => exact ⟨rfl, rfl, .nil, rfl⟩
  | append_singleton calls call ih =>
    rw [List.foldl_append]
    exact ih.answer call

/--
Whatever is registered and released, and whatever of it fails: a release closes what was registered since the
last one, the last one first, and removes the temporary paths after that. Nothing is left for another release,
and in the whole history everything is released exactly once. The service of a request releases its resources
in this way in the end, whatever the answer is.
-/
theorem ofCalls_released (remove : Files → Path → Except FileError Unit × Files)
    (calls : List (ScopeCall Files)) (files : Files) :
    let history := ofCalls remove calls
    let ended := history.answer remove (.release files)
    (∃ removals, ended.cleanups
        = history.cleanups
          ++ ((ScopeCall.recent calls).filterMap ScopeCall.closeable?).reverse.map .close ++ removals
        ∧ removals.map Cleanup.path?
          = ((ScopeCall.recent calls).filterMap ScopeCall.tempPath?).map some)
      ∧ ended.scope.pending = 0
      ∧ (∀ files, ended.scope.unwind remove files = ([], ended.scope, files))
      ∧ (ended.cleanups.filterMap Cleanup.closeable?).Perm (calls.filterMap ScopeCall.closeable?)
      ∧ ended.cleanups.filterMap Cleanup.path? = calls.filterMap ScopeCall.tempPath?
      ∧ ∀ {Program σ : Type} [ByteWriter σ] (engine : Engine Program) (files : FileTree)
        (request : Request) (out : σ),
        let service := engine.handle files request out
        engine.serve files request out = (service.head, service.run)
          ∧ request.scope.unwind FileTree.remove files = (service.cleanups, {}, service.files)
          ∧ service.records
            = service.run.journal.records ++ service.cleanups.filterMap Cleanup.record? := by
  intro history ended
  have hbefore : history.Balanced calls := balanced_ofCalls remove calls
  have hafter : ended.Balanced (calls ++ [.release files]) := hbefore.release files
  have hended : ended = _ := history.answer_release files
  have hscope : ended.scope = {} := congrArg ScopeHistory.scope hended
  refine ⟨?_, ?_, ?_, ?_, ?_, ?_⟩
  · refine ⟨(RequestScope.removeAll remove files history.scope.tempPaths).1, ?_, ?_⟩
    · rw [hended, ← hbefore.closeables]
    · rw [RequestScope.map_path?_removeAll, hbefore.tempPaths]
  · rw [hscope]
    rfl
  · intro files
    rw [hscope]
    exact RequestScope.unwind_empty remove files
  · have hclosed := hafter.closed
    rw [hscope, ScopeCall.filterMap_concat] at hclosed
    simpa [ScopeCall.closeable?] using hclosed
  · have hremoved := hafter.removed
    rw [hscope, ScopeCall.filterMap_concat] at hremoved
    simpa [ScopeCall.tempPath?] using hremoved
  · intro Program σ _ engine files request out service
    exact ⟨rfl, RequestScope.unwind_eq FileTree.remove request.scope files, rfl⟩

end ScopeHistory
end XmlPipeline
