import Mathlib.Logic.Function.Iterate
import XmlPipeline.Proofs.Text.Utf8
import XmlPipeline.Proofs.Xml.Scanning
import XmlPipeline.Xml.Reader

/-!
This module contains how reading comes to an end. The main statement is that the calls for the next event
are answered by the events of the text, of which there are no more than bytes, then by one end or failure,
and by nothing from there on.
-/

namespace XmlPipeline
namespace Xml

namespace Markup

variable {c : Char} {cs rest : List Char} {piece : Markup}

theorem size_of_scan (h : scan c cs = .ok (piece, rest)) :
    Utf8.size rest + 1 ≤ Utf8.size (c :: cs)
      ∧ ((∀ raw, piece ≠ .text raw) → Utf8.size rest + 2 ≤ Utf8.size (c :: cs)) := by
  have hfirst := c.utf8Size_pos
  have hsize : Utf8.size (c :: cs) = c.utf8Size + Utf8.size cs := rfl
  unfold scan at h
  split at h
  · obtain ⟨taken, rfl, -⟩ := exists_makes h
    have htaken := Utf8.length_le_size taken
    have hlength := scanTag_length h
    rw [List.length_append] at hlength
    rw [hsize, Utf8.size_append]
    omega
  · obtain ⟨rfl, rfl⟩ := Prod.mk.inj (Except.ok.inj h)
    have hsplit := Utf8.size_append (cs.takeWhile (· ≠ '<')) (cs.dropWhile (· ≠ '<'))
    rw [List.takeWhile_append_dropWhile] at hsplit
    refine ⟨by omega, ?_⟩
    intro hother
    exact absurd rfl (hother _)

end Markup

namespace Reader

variable {reader next : Reader}

/-! ### What a step takes off the text -/

/--
The number of bytes that are still to be read. An empty element that is still to be closed counts as one.
-/
def left (reader : Reader) : Nat :=
  Utf8.size reader.rest + if reader.pending then 1 else 0

structure Kin (reader next : Reader) : Prop where
  size : next.size = reader.size
  finished : next.finished = reader.finished

def Step.Spends (reader : Reader) : Step → Prop
  | event _ next => next.left + 1 ≤ reader.left ∧ reader.Kin next
  | skip next => next.left ≤ reader.left ∧ reader.Kin next
  | failure _ => True
  | done => True

theorem enter_spends {before : Reader} {content : List Char} {isEmpty : Bool}
    (h : Utf8.size reader.rest + 2 ≤ before.left) (hkin : before.Kin reader) :
    (reader.enter content isEmpty).Spends before := by
  unfold enter
  split
  · trivial
  · refine ⟨?_, hkin.size, hkin.finished⟩
    simp only [left] at h ⊢
    split <;> omega

theorem leave_spends {before : Reader} {name : List Char} (h : reader.left + 1 ≤ before.left)
    (hkin : before.Kin reader) : (reader.leave name).Spends before := by
  unfold leave
  split
  · trivial
  · exact ⟨h, hkin.size, hkin.finished⟩

theorem take_spends {piece : Markup} {rest : List Char} (hpending : reader.pending = false)
    (h : Utf8.size rest + 1 ≤ reader.left)
    (hmarkup : (∀ raw, piece ≠ .text raw) → Utf8.size rest + 2 ≤ reader.left) :
    (reader.take piece rest).Spends reader := by
  have hleft : ({ reader with rest } : Reader).left = Utf8.size rest := by
    simp [left, hpending]
  have hkin : reader.Kin { reader with rest } := ⟨rfl, rfl⟩
  cases piece with
  | ignored => exact ⟨by omega, hkin⟩
  | text raw =>
    simp only [take]
    split
    · trivial
    · exact ⟨by omega, hkin⟩
    · exact ⟨by omega, hkin⟩
  | cdata content =>
    cases content with
    | nil => exact ⟨by omega, hkin⟩
    | cons first content => exact ⟨by omega, hkin⟩
  | startTag content => exact enter_spends (hmarkup (by simp)) hkin
  | emptyTag content => exact enter_spends (hmarkup (by simp)) hkin
  | endTag name =>
    simp only [take]
    split
    · trivial
    · split
      · refine leave_spends ?_ ⟨rfl, rfl⟩
        simpa [left, hpending] using h
      · trivial

theorem step_spends (reader : Reader) : reader.step.Spends reader := by
  unfold step
  split
  · next hpending =>
    split
    · trivial
    · refine leave_spends ?_ ⟨rfl, rfl⟩
      simp [left, hpending]
  · next hpending =>
    split
    · split <;> trivial
    · next hrest =>
      split
      · trivial
      · next hscan =>
        have hpending : reader.pending = false := by simpa using hpending
        obtain ⟨hbyte, hbytes⟩ := Markup.size_of_scan hscan
        rw [← hrest] at hbyte hbytes
        have hleft : reader.left = Utf8.size reader.rest := by simp [left, hpending]
        exact take_spends hpending (hleft ▸ hbyte) fun hmarkup => hleft ▸ hbytes hmarkup

/-! ### All the events -/

theorem length_events (reader : Reader) : reader.events.1.length ≤ reader.left := by
  fun_induction Reader.events reader with
  | case1 reader event next hstep more failure hmore ih =>
    have hspends := reader.step_spends
    rw [hstep] at hspends
    rw [hmore] at ih
    have := hspends.1
    simp only [List.length_cons] at ih ⊢
    omega
  | case2 reader next hstep ih =>
    have hspends := reader.step_spends
    rw [hstep] at hspends
    exact Nat.le_trans ih hspends.1
  | case3 => simp
  | case4 => simp

theorem position_le_size (reader : Reader) {failure : ReadFailure} (h : failure ∈ reader.events.2) :
    failure.position ≤ reader.size := by
  fun_induction Reader.events reader with
  | case1 reader event next hstep more failure' hmore ih =>
    have hspends := reader.step_spends
    rw [hstep] at hspends
    rw [hmore] at ih
    exact hspends.2.size ▸ ih h
  | case2 reader next hstep ih =>
    have hspends := reader.step_spends
    rw [hstep] at hspends
    exact hspends.2.size ▸ ih h
  | case3 reader error hstep =>
    obtain rfl := Option.some.inj h
    exact Nat.sub_le _ _
  | case4 => cases h

/-! ### One call -/

def lastAnswer (reader : Reader) : Except ReadFailure (Option Event) :=
  match reader.events.2 with
  | some failure => .error failure
  | none => .ok none

theorem next_of_finished (h : reader.finished = true) : reader.next = (.ok none, reader) := by
  rw [Reader.next, if_pos h]

theorem next_of_cons {event : Event} {more : List Event} (h : reader.finished = false)
    (hevents : reader.events.1 = event :: more) :
    ∃ next, reader.next = (.ok (some event), next) ∧ next.finished = false
      ∧ next.events = (more, reader.events.2) := by
  have hspends := reader.step_spends
  fun_induction Reader.events reader with
  | case1 reader first next hstep others failure hothers ih =>
    obtain ⟨rfl, rfl⟩ := List.cons.inj hevents
    rw [hstep] at hspends
    refine ⟨next, ?_, hspends.2.finished.trans h, hothers⟩
    rw [Reader.next, if_neg (by simp [h])]
    split <;> simp_all
  | case2 reader after hstep ih =>
    rw [hstep] at hspends
    obtain ⟨next, hnext, hrest⟩ := ih (hspends.2.finished.trans h) hevents after.step_spends
    refine ⟨next, ?_, hrest⟩
    rw [← hnext, Reader.next, if_neg (by simp [h])]
    split <;> simp_all
  | case3 => cases hevents
  | case4 => cases hevents

theorem next_of_nil (h : reader.finished = false) (hevents : reader.events.1 = []) :
    ∃ next, reader.next = (reader.lastAnswer, next) ∧ next.finished = true := by
  have hspends := reader.step_spends
  unfold lastAnswer
  fun_induction Reader.events reader with
  | case1 => cases hevents
  | case2 reader after hstep ih =>
    rw [hstep] at hspends
    obtain ⟨next, hnext, hlast⟩ := ih (hspends.2.finished.trans h) hevents after.step_spends
    refine ⟨next, ?_, hlast⟩
    rw [← hnext, Reader.next, if_neg (by simp [h])]
    split <;> simp_all
  | case3 reader error hstep =>
    refine ⟨{ reader with finished := true }, ?_, rfl⟩
    rw [Reader.next, if_neg (by simp [h])]
    split <;> simp_all
  | case4 reader hstep =>
    refine ⟨{ reader with finished := true }, ?_, rfl⟩
    rw [Reader.next, if_neg (by simp [h])]
    split <;> simp_all

/-! ### One call after the other -/

def answer (reader : Reader) (n : Nat) : Except ReadFailure (Option Event) :=
  ((fun reader => reader.next.2)^[n] reader).next.1

theorem answer_succ (reader : Reader) (n : Nat) : reader.answer (n + 1) = reader.next.2.answer n := rfl

theorem answer_of_finished (h : reader.finished = true) (n : Nat) : reader.answer n = .ok none := by
  induction n with
  | zero => simp [answer, next_of_finished h]
  | succ n ih => rw [answer_succ, next_of_finished h, ih]

theorem answer_eq (h : reader.finished = false) (n : Nat) :
    reader.answer n
      = if h : n < reader.events.1.length then .ok (some reader.events.1[n])
        else if n = reader.events.1.length then reader.lastAnswer
        else .ok none := by
  -- Each call takes the first event off, until none is left.
  generalize hevents : reader.events.1 = events
  induction events generalizing reader n with
  | nil =>
    obtain ⟨next, hnext, hfinished⟩ := next_of_nil h hevents
    cases n with
    | zero => simp [answer, hnext]
    | succ n => simp [answer_succ, hnext, answer_of_finished hfinished]
  | cons event more ih =>
    obtain ⟨next, hnext, hfinished, hmore⟩ := next_of_cons h hevents
    have hlast : next.lastAnswer = reader.lastAnswer := by
      unfold lastAnswer
      rw [hmore]
    cases n with
    | zero => simp [answer, hnext]
    | succ n =>
      rw [answer_succ, hnext, ih hfinished n (by rw [hmore]), hlast]
      simp

theorem size_withoutMark_le (source : String) :
    Utf8.size (withoutMark source.toList) ≤ source.utf8ByteSize := by
  rw [← Utf8.size_toList]
  unfold withoutMark
  split
  · next cs hlist =>
    rw [hlist]
    exact Nat.le_add_left _ _
  · exact Nat.le_refl _

theorem answer_ofText (source : String) :
    let reader := ofText source
    reader.events.1.length ≤ source.utf8ByteSize
      ∧ (∀ n (h : n < reader.events.1.length), reader.answer n = .ok (some reader.events.1[n]))
      ∧ (match reader.events.2 with
        | some failure => reader.answer reader.events.1.length = .error failure
          ∧ failure.position ≤ source.utf8ByteSize
        | none => reader.answer reader.events.1.length = .ok none)
      ∧ ∀ n, reader.events.1.length < n → reader.answer n = .ok none := by
  intro reader
  have hsize := size_withoutMark_le source
  have hfinished : reader.finished = false := rfl
  have hanswer := answer_eq hfinished
  refine ⟨?_, ?_, ?_, ?_⟩
  · exact Nat.le_trans reader.length_events hsize
  · intro n hn
    rw [hanswer, dif_pos hn]
  · have hlast := hanswer reader.events.1.length
    rw [dif_neg (Nat.lt_irrefl _), if_pos rfl] at hlast
    unfold lastAnswer at hlast
    split
    · next failure hfailure =>
      rw [hfailure] at hlast
      refine ⟨hlast, ?_⟩
      exact Nat.le_trans (reader.position_le_size hfailure) hsize
    · next hnone =>
      rw [hnone] at hlast
      exact hlast
  · intro n hn
    rw [hanswer, dif_neg (by omega), if_neg (by omega)]

end Reader
end Xml
end XmlPipeline
