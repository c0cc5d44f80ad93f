import XmlPipeline.Proofs.Output.Serializing
import XmlPipeline.Proofs.Result

/-!
This module contains byte writers that take a limited number of bytes. The main statement is that the final
serializer delivers the same bytes to such a writer as to one without a limit, up to the limit, whatever the
pieces are in which the writer takes them.
-/

namespace XmlPipeline

open Xml

/--
A byte writer takes at least one byte of each offer while it has room and is healthy, and fails once it has
no room left. `received` is what it got so far.
-/
structure Bounded (σ : Type) [ByteWriter σ] where
  received : σ → List UInt8
  room : σ → Nat
  healthy : σ → Prop
  write : ∀ {out bytes}, healthy out → bytes ≠ [] → 0 < room out → ∃ taken after,
    ByteWriter.write bytes out = (.ok taken, after) ∧ 0 < taken ∧ taken ≤ bytes.length
      ∧ received after = received out ++ bytes.take taken ∧ room after + taken = room out
      ∧ healthy after
  write_full : ∀ {out bytes}, healthy out → bytes ≠ [] → room out = 0 → ∃ error after,
    ByteWriter.write bytes out = (.error error, after) ∧ received after = received out
  flush : ∀ out, received (ByteWriter.flush out).2 = received out

namespace Bounded

variable {σ τ : Type} [ByteWriter σ] [ByteWriter τ] (bounded : Bounded σ)

structure Got (bytes : List UInt8) (out : σ) (fits : Bool) (after : σ) : Prop where
  fits_iff : fits = true ↔ bytes.length ≤ bounded.room out
  received : bounded.received after = bounded.received out ++ bytes.take (bounded.room out)
  healthy : fits = true → bounded.healthy after
  room : fits = true → bounded.room after + bytes.length = bounded.room out

variable {bounded} {bytes more : List UInt8} {out between after : σ} {fits : Bool}

theorem got_nil (h : bounded.healthy out) : bounded.Got [] out true out :=
  ⟨by simp, by simp, fun _ => h, fun _ => rfl⟩

theorem Got.append (h : bounded.Got bytes out true between) (hmore : bounded.Got more between fits after) :
    bounded.Got (bytes ++ more) out fits after := by
  have hroom := h.room rfl
  refine ⟨?_, ?_, hmore.healthy, ?_⟩
  · rw [hmore.fits_iff, List.length_append]
    omega
  · have hfirst := List.take_of_length_le (h.fits_iff.mp rfl)
    have hleft : bounded.room between = bounded.room out - bytes.length := by omega
    rw [hmore.received, h.received, hfirst, hleft, List.take_append, hfirst, List.append_assoc]
  · intro hfits
    have hrest := hmore.room hfits
    rw [List.length_append]
    omega

theorem Got.append_of_cut (h : bounded.Got bytes out false after) (more : List UInt8) :
    bounded.Got (bytes ++ more) out false after := by
  have hlong : bounded.room out < bytes.length := by simpa using h.fits_iff
  refine ⟨?_, ?_, by simp, by simp⟩
  · rw [List.length_append]
    simp only [Bool.false_eq_true, false_iff]
    omega
  · rw [h.received, List.take_append_of_le_length (Nat.le_of_lt hlong)]

theorem got_take {taken : Nat} (htaken : taken ≤ bytes.length) (h : bounded.healthy after)
    (hreceived : bounded.received after = bounded.received out ++ bytes.take taken)
    (hroom : bounded.room after + taken = bounded.room out) :
    bounded.Got (bytes.take taken) out true after := by
  have hlength : (bytes.take taken).length = taken := List.length_take_of_le htaken
  have hfits : (bytes.take taken).length ≤ bounded.room out := by omega
  refine ⟨iff_of_true rfl hfits, ?_, fun _ => h, fun _ => by omega⟩
  rw [hreceived, List.take_of_length_le hfits]

theorem writeAll (bounded : Bounded σ) {out : σ} (bytes : List UInt8) (h : bounded.healthy out) :
    ∃ result after fits, ByteWriter.writeAll bytes out = (result, after)
      ∧ bounded.Got bytes out fits after ∧ (result = .ok () ↔ fits = true) := by
  cases bytes with
  | nil =>
    refine ⟨.ok (), out, true, ?_, got_nil h, by simp⟩
    rw [ByteWriter.writeAll]
  | cons first rest =>
    have hne := List.cons_ne_nil first rest
    by_cases hroom : bounded.room out = 0
    · obtain ⟨error, after, hwrite, hreceived⟩ := bounded.write_full h hne hroom
      refine ⟨.error error, after, false, ?_, ⟨by simp [hroom], ?_, by simp, by simp⟩, by simp⟩
      · rw [ByteWriter.writeAll, hwrite]
      · rw [hreceived, hroom, List.take_zero, List.append_nil]
    · obtain ⟨taken, between, hwrite, hpositive, htaken, hreceived, hleft, hbetween⟩ :=
        bounded.write h hne (Nat.pos_of_ne_zero hroom)
      obtain ⟨taken, rfl⟩ := Nat.exists_eq_succ_of_ne_zero (Nat.ne_of_gt hpositive)
      -- What was not taken is offered again, and it is shorter than before.
      obtain ⟨result, after, fits, hrest, hgot, hresult⟩ := bounded.writeAll (rest.drop taken) hbetween
      have hall := (got_take htaken hbetween hreceived hleft).append hgot
      have hsplit : (first :: rest).take (taken + 1) ++ rest.drop taken = first :: rest :=
        List.take_append_drop (taken + 1) (first :: rest)
      rw [hsplit] at hall
      refine ⟨result, after, fits, ?_, hall, hresult⟩
      rw [ByteWriter.writeAll, hwrite]
      exact hrest
termination_by bytes.length

def delivery (bounded : Bounded σ) : ByteWriter.Delivery σ where
  holds bytes out fits after := bounded.healthy out → bounded.Got bytes out fits after
  nil := fun _ h => got_nil h
  append_ok := fun hfirst hsecond h => (hfirst h).append (hsecond ((hfirst h).healthy rfl))
  append_error := fun more hfirst h => (hfirst h).append_of_cut more
  writeAll_ok := by
    intro bytes out after hwrite h
    obtain ⟨result, other, fits, hother, hgot, hresult⟩ := bounded.writeAll bytes h
    obtain ⟨rfl, rfl⟩ := Prod.mk.inj (hwrite.symm.trans hother)
    obtain rfl : fits = true := hresult.mp rfl
    exact hgot
  writeAll_error := by
    intro bytes out error after hwrite h
    obtain ⟨result, other, fits, hother, hgot, hresult⟩ := bounded.writeAll bytes h
    obtain ⟨rfl, rfl⟩ := Prod.mk.inj (hwrite.symm.trans hother)
    obtain rfl : fits = false := by simpa using hresult
    exact hgot

end Bounded

namespace ByteSink

def IsLimited (sink : ByteSink) : Prop :=
  sink.limit.isSome = true ∧ sink.chunk ≠ some 0

def left (sink : ByteSink) : Nat :=
  sink.limit.getD 0 - sink.received.size

variable {sink : ByteSink} {bytes : List UInt8}

theorem exists_offered (hchunk : sink.chunk ≠ some 0) (hbytes : bytes ≠ [])
    (hfull : sink.isFull = false) :
    ∃ offered, 0 < offered ∧ offered ≤ bytes.length
      ∧ ByteWriter.write bytes sink = (.ok (sink.room offered),
        { sink with received := sink.received ++ bytes.take (sink.room offered) }) := by
  have hempty : bytes.isEmpty = false := by simpa using hbytes
  have hlength := List.length_pos_iff.mpr hbytes
  cases hvalue : sink.chunk with
  | none =>
    refine ⟨bytes.length, hlength, Nat.le_refl _, ?_⟩
    simp [ByteWriter.write, ByteSink.write, hempty, hfull, hvalue]
  | some chunk =>
    have hpositive : chunk ≠ 0 := by
      rintro rfl
      exact hchunk hvalue
    refine ⟨min chunk bytes.length, by omega, Nat.min_le_right _ _, ?_⟩
    simp [ByteWriter.write, ByteSink.write, hempty, hfull, hvalue]

theorem write_limited (h : sink.IsLimited) (hbytes : bytes ≠ []) (hroom : 0 < sink.left) :
    ∃ taken after, ByteWriter.write bytes sink = (.ok taken, after) ∧ 0 < taken ∧ taken ≤ bytes.length
      ∧ after.received.toList = sink.received.toList ++ bytes.take taken
      ∧ after.left + taken = sink.left ∧ after.IsLimited := by
  obtain ⟨limit, hlimit⟩ := Option.isSome_iff_exists.mp h.1
  have hleft : sink.left = limit - sink.received.size := by rw [left, hlimit, Option.getD_some]
  have hfull : sink.isFull = false := by
    simp only [isFull, hlimit, decide_eq_false_iff_not]
    omega
  obtain ⟨offered, hpositive, hoffered, hwrite⟩ := exists_offered h.2 hbytes hfull
  have hmin : sink.room offered = min offered sink.left := by simp only [room, hlimit, hleft]
  generalize sink.room offered = taken at hwrite hmin
  have hsize : (sink.received ++ bytes.take taken).size = sink.received.size + taken := by
    have htake : (bytes.take taken).length = taken := List.length_take_of_le (by omega)
    rw [← Array.length_toList, Array.toList_appendList, List.length_append, htake, Array.length_toList]
  have hafter : ({ sink with received := sink.received ++ bytes.take taken } : ByteSink).left
      = limit - (sink.received.size + taken) := by
    rw [left, hsize, hlimit, Option.getD_some]
  exact ⟨taken, _, hwrite, by omega, by omega, by simp, by omega, h⟩

theorem write_full (h : sink.IsLimited) (hbytes : bytes ≠ []) (hroom : sink.left = 0) :
    ByteWriter.write bytes sink = (.error .sinkFull, sink) := by
  obtain ⟨limit, hlimit⟩ := Option.isSome_iff_exists.mp h.1
  rw [left, hlimit, Option.getD_some] at hroom
  have hempty : bytes.isEmpty = false := by simpa using hbytes
  have hfull : sink.isFull = true := by
    simp only [isFull, hlimit, decide_eq_true_eq]
    omega
  simp [ByteWriter.write, ByteSink.write, hempty, hfull]

def bounded : Bounded ByteSink where
  received sink := sink.received.toList
  room := left
  healthy := IsLimited
  write := write_limited
  write_full := fun h hbytes hroom => ⟨.sinkFull, _, write_full h hbytes hroom, rfl⟩
  flush := recording.flush

end ByteSink

namespace FinalSerializer

variable {σ τ : Type} [ByteWriter σ] [ByteWriter τ]

/--
A byte writer with a limit gets the first bytes of the body up to its limit. The run succeeds if the body
fits, the same run without a limit succeeds and the writer can be flushed.
-/
theorem serialize_bounded (bounded : Bounded σ) (reliable : Reliable τ) {out : σ} {sink : τ}
    (hout : bounded.healthy out) (hsink : reliable.healthy sink) (properties : OutputProperties)
    (events : List Event) :
    let whole := (create properties sink).serialize events
    let run := (create properties out).serialize events
    let written := ((create properties out).writeEach events).2.out
    ∃ body, reliable.received whole.2.out = reliable.received sink ++ body
      ∧ bounded.received run.2.out = bounded.received out ++ body.take (bounded.room out)
      ∧ (run.1 = .ok () ↔ whole.1 = .ok () ∧ body.length ≤ bounded.room out
        ∧ (ByteWriter.flush written).1 = .ok ()) := by
  obtain ⟨hwhole, hbody⟩ := reliable.serialize hsink properties events
  obtain ⟨fits, hgot, hrun, hafter⟩ := serialize_delivers bounded.delivery properties out events
  obtain ⟨hfits, hreceived, -, -⟩ := hgot hout
  refine ⟨_, hbody, ?_, ?_⟩
  · rw [← hreceived]
    rcases hafter with hsame | hflushed
    · rw [hsame]
    · rw [hflushed, bounded.flush]
  · rw [hrun, hwhole, hfits, and_assoc]
    exact and_left_comm

def latinProperties : OutputProperties :=
  .ofList [("encoding", "ISO-8859-1"), ("omit-xml-declaration", "yes")]

def accentEvents : List Event :=
  [.opening { name := { localName := "a" } }, .text "é", .closing { localName := "a" }]

def narrowSink (limit : Nat) : ByteSink where
  limit := some limit
  chunk := some 2

theorem serialize_bounded_narrowSink :
    let run (limit : Nat) := (create latinProperties (narrowSink limit)).serialize accentEvents
    (run 5).1 ≠ .ok () ∧ (run 5).2.out.received.toList = [0x3C, 0x61, 0x3E, 0xE9, 0x3C]
      ∧ (run 8).1 = .ok ()
      ∧ (run 8).2.out.received.toList = [0x3C, 0x61, 0x3E, 0xE9, 0x3C, 0x2F, 0x61, 0x3E] := by
  intro run
  let whole := (create latinProperties ({} : ByteSink)).serialize accentEvents
  have hbody : whole.2.out.received.toList = [0x3C, 0x61, 0x3E, 0xE9, 0x3C, 0x2F, 0x61, 0x3E] := by
    decide +kernel
  have hwhole : whole.1 = .ok () := by
    apply eq_ok_of_toOption
    decide +kernel
  have hflush : (ByteWriter.flush
      ((create latinProperties (narrowSink 8)).writeEach accentEvents).2.out).1 = .ok () := by
    apply eq_ok_of_toOption
    decide +kernel
  have hsink : ByteSink.reliable.healthy {} := ⟨rfl, by decide, rfl⟩
  have hnarrow : ByteSink.bounded.healthy (narrowSink 5) := ⟨rfl, by decide⟩
  have hwide : ByteSink.bounded.healthy (narrowSink 8) := ⟨rfl, by decide⟩
  obtain ⟨body, hfirst, hreceived, hresult⟩ := serialize_bounded ByteSink.bounded ByteSink.reliable
    hnarrow hsink latinProperties accentEvents
  obtain rfl := hfirst.symm.trans hbody
  obtain ⟨other, hsecond, hother, hsuccess⟩ := serialize_bounded ByteSink.bounded ByteSink.reliable
    hwide hsink latinProperties accentEvents
  obtain rfl := hsecond.symm.trans hbody
  refine ⟨?_, hreceived, ?_, hother⟩
  · intro hrun
    have hfits := (hresult.mp hrun).2.1
    revert hfits
    decide
  · exact hsuccess.mpr ⟨hwhole, by decide, hflush⟩

end FinalSerializer
end XmlPipeline
