import XmlPipeline.Output.Body
import XmlPipeline.Output.FinalSerializer

/-!
This module contains what stays true of a byte writer whatever is written to it. It stays true when the bytes
come through the final serializer or as a whole body, and in particular the bytes that were taken once are
still there.
-/

namespace XmlPipeline

namespace ByteWriter

/--
What holds of the writer holds of it after each of its operations, whether they fail or not.
-/
structure Keeps {σ : Type} [ByteWriter σ] (holds : σ → Prop) : Prop where
  write : ∀ bytes {out}, holds out → holds (ByteWriter.write bytes out).2
  flush : ∀ {out}, holds out → holds (ByteWriter.flush out).2

variable {σ : Type} [ByteWriter σ] {holds : σ → Prop}

theorem Keeps.writeAll (keeps : Keeps holds) (bytes : List UInt8) {out : σ} (h : holds out) :
    holds (ByteWriter.writeAll bytes out).2 := by
  cases bytes with
  | nil =>
    rw [ByteWriter.writeAll]
    exact h
  | cons first rest =>
    have hnext := keeps.write (first :: rest) h
    rw [ByteWriter.writeAll]
    split
    · next heq =>
      rw [heq] at hnext
      exact hnext
    · next heq =>
      rw [heq] at hnext
      exact hnext
    · next taken between heq =>
      rw [heq] at hnext
      exact keeps.writeAll (rest.drop taken) hnext
termination_by bytes.length

theorem Keeps.deliver (keeps : Keeps holds) (bytes : List UInt8) {out : σ} (h : holds out) :
    holds (ByteWriter.deliver bytes out).2 := by
  have hwritten := keeps.writeAll bytes h
  unfold ByteWriter.deliver
  split
  · next heq =>
    rw [heq] at hwritten
    exact hwritten
  · next heq =>
    rw [heq] at hwritten
    exact keeps.flush hwritten

end ByteWriter

open ByteWriter (Keeps)

variable {σ : Type} [ByteWriter σ] {holds : σ → Prop}

namespace EncodingWriter

theorem keeps_passOn (keeps : Keeps holds) {writer : EncodingWriter σ} (h : holds writer.inner) :
    holds writer.passOn.2.inner := by
  unfold passOn
  simp only
  split
  · exact h
  all_goals
    split
    · exact h
    · next bytes _ =>
      have hwritten := keeps.writeAll bytes h
      split
      · next heq =>
        rw [heq] at hwritten
        exact hwritten
      · next heq =>
        rw [heq] at hwritten
        exact hwritten

theorem keeps (keeps : Keeps holds) : Keeps (fun writer : EncodingWriter σ => holds writer.inner) where
  write := by
    intro bytes writer h
    simp only [ByteWriter.write, EncodingWriter.write]
    split
    · exact keeps.write bytes h
    · exact keeps_passOn keeps h
  flush := by
    intro writer h
    simp only [ByteWriter.flush, EncodingWriter.flush]
    split
    · exact keeps.flush h
    · exact h

end EncodingWriter

namespace FinalSerializer

variable {serializer : FinalSerializer σ}

theorem keeps_put (keeps : Keeps holds) (h : holds serializer.out) (piece : Xml.Piece) :
    holds (serializer.put piece).2.out :=
  (EncodingWriter.keeps keeps).writeAll _ h

theorem keeps_start (keeps : Keeps holds) (h : holds serializer.out) :
    holds serializer.start.2.out := by
  unfold start
  split
  · exact h
  · simp only
    split
    · apply keeps_put keeps
      exact h
    · exact h

theorem keeps_write (keeps : Keeps holds) (h : holds serializer.out) (event : Xml.Event) :
    holds (serializer.write event).2.out := by
  have hstarted := keeps_start keeps h
  unfold write
  split
  · next heq =>
    rw [heq] at hstarted
    exact hstarted
  · next started heq =>
    rw [heq] at hstarted
    split
    · unfold writeText
      split
      · exact keeps_put keeps hstarted _
      · exact hstarted
    · unfold writeHtml
      split
      · split
        · apply keeps_put keeps
          exact hstarted
        · exact keeps_put keeps hstarted _
      · split
        · exact hstarted
        · exact keeps_put keeps hstarted _
      · exact keeps_put keeps hstarted _
    · exact keeps_put keeps hstarted _

theorem keeps_finish (keeps : Keeps holds) (h : holds serializer.out) :
    holds serializer.finish.2.out :=
  (EncodingWriter.keeps keeps).flush h

end FinalSerializer

theorem BodyFormat.keeps_writeBody (keeps : Keeps holds) (format : BodyFormat) (files : FileReader)
    (document : Xml.Document) {out : σ} (h : holds out) :
    holds (format.writeBody files document out).2 := by
  unfold writeBody
  split
  · exact h
  · exact keeps.writeAll _ h

/-! ### Bytes that were taken -/

/--
A byte writer keeps the bytes that it says it has taken, and no others. `received` is what it got so far.
-/
structure Recording (σ : Type) [ByteWriter σ] where
  received : σ → List UInt8
  write_ok : ∀ {bytes out taken after}, ByteWriter.write bytes out = (.ok taken, after) →
    taken ≤ bytes.length ∧ received after = received out ++ bytes.take taken
  write_error : ∀ {bytes out error after}, ByteWriter.write bytes out = (.error error, after) →
    received after = received out
  flush : ∀ out, received (ByteWriter.flush out).2 = received out

namespace Recording

variable (recording : Recording σ)

def Sent (bytes : List UInt8) (out after : σ) : Prop :=
  ∃ sent, sent <+: bytes ∧ recording.received after = recording.received out ++ sent

theorem writeAll (bytes : List UInt8) (out : σ) :
    recording.Sent bytes out (ByteWriter.writeAll bytes out).2 := by
  cases bytes with
  | nil =>
    rw [ByteWriter.writeAll]
    exact ⟨[], List.nil_prefix, by simp⟩
  | cons first rest =>
    rw [ByteWriter.writeAll]
    split
    · next heq => exact ⟨[], List.nil_prefix, by simp [recording.write_error heq]⟩
    · next heq => exact ⟨[], List.nil_prefix, by simp [(recording.write_ok heq).2]⟩
    · next taken between heq =>
      obtain ⟨sent, hsent, hreceived⟩ := writeAll (rest.drop taken) between
      refine ⟨(first :: rest).take (taken + 1) ++ sent, ?_, ?_⟩
      · have hsplit : (first :: rest).take (taken + 1) ++ rest.drop taken = first :: rest :=
          List.take_append_drop (taken + 1) (first :: rest)
        have hmore := (List.prefix_append_right_inj ((first :: rest).take (taken + 1))).mpr hsent
        rw [hsplit] at hmore
        exact hmore
      · rw [hreceived, (recording.write_ok heq).2, List.append_assoc]
termination_by bytes.length

theorem writeAll_ok {bytes : List UInt8} {out after : σ}
    (h : ByteWriter.writeAll bytes out = (.ok (), after)) :
    recording.received after = recording.received out ++ bytes := by
  cases bytes with
  | nil =>
    rw [ByteWriter.writeAll] at h
    obtain ⟨-, rfl⟩ := Prod.mk.inj h
    rw [List.append_nil]
  | cons first rest =>
    rw [ByteWriter.writeAll] at h
    split at h
    · cases (Prod.mk.inj h).1
    · cases (Prod.mk.inj h).1
    · next taken between heq =>
      have hsplit : (first :: rest).take (taken + 1) ++ rest.drop taken = first :: rest :=
        List.take_append_drop (taken + 1) (first :: rest)
      rw [writeAll_ok h, (recording.write_ok heq).2, List.append_assoc, hsplit]
termination_by bytes.length

theorem deliver (bytes : List UInt8) (out : σ) :
    recording.Sent bytes out (ByteWriter.deliver bytes out).2 := by
  have hwritten := recording.writeAll bytes out
  unfold ByteWriter.deliver
  split
  · next heq =>
    rw [heq] at hwritten
    exact hwritten
  · next between heq =>
    rw [heq] at hwritten
    obtain ⟨sent, hsent, hreceived⟩ := hwritten
    exact ⟨sent, hsent, (recording.flush between).trans hreceived⟩

end Recording

namespace ByteSink

theorem room_le (sink : ByteSink) (offered : Nat) : sink.room offered ≤ offered := by
  unfold room
  split
  · exact Nat.le_refl offered
  · exact Nat.min_le_left _ _

def recording : Recording ByteSink where
  received sink := sink.received.toList
  write_ok := by
    intro bytes sink taken after h
    simp only [ByteWriter.write, ByteSink.write] at h
    split at h
    · obtain ⟨htaken, rfl⟩ := Prod.mk.inj h
      obtain rfl := Except.ok.inj htaken
      simp
    · split at h
      · cases (Prod.mk.inj h).1
      · obtain ⟨htaken, rfl⟩ := Prod.mk.inj h
        obtain rfl := Except.ok.inj htaken
        refine ⟨Nat.le_trans (sink.room_le _) ?_, by simp⟩
        split
        · exact Nat.le_refl _
        · exact Nat.min_le_right _ _
  write_error := by
    intro bytes sink error after h
    simp only [ByteWriter.write, ByteSink.write] at h
    split at h
    · cases (Prod.mk.inj h).1
    · split at h
      · rw [← (Prod.mk.inj h).2]
      · cases (Prod.mk.inj h).1
  flush := by
    intro sink
    simp only [ByteWriter.flush, ByteSink.flush]
    split <;> rfl

end ByteSink

namespace CountingWriter

def recording (inner : Recording σ) : Recording (CountingWriter σ) where
  received writer := inner.received writer.inner
  write_ok := by
    intro bytes writer taken after h
    simp only [ByteWriter.write, CountingWriter.write] at h
    split at h
    · next heq =>
      obtain ⟨htaken, rfl⟩ := Prod.mk.inj h
      obtain rfl := Except.ok.inj htaken
      exact inner.write_ok heq
    · cases (Prod.mk.inj h).1
  write_error := by
    intro bytes writer error after h
    simp only [ByteWriter.write, CountingWriter.write] at h
    split at h
    · cases (Prod.mk.inj h).1
    · next heq =>
      rw [← (Prod.mk.inj h).2]
      exact inner.write_error heq
  flush writer := inner.flush writer.inner

variable (recording : Recording σ)

def Counted (before : List UInt8) (writer : CountingWriter σ) : Prop :=
  ∃ bytes, recording.received writer.inner = before ++ bytes ∧ writer.count = bytes.length

theorem keeps_counted (before : List UInt8) : Keeps (Counted recording before) where
  write := by
    intro bytes writer h
    obtain ⟨more, hreceived, hcount⟩ := h
    simp only [ByteWriter.write, CountingWriter.write]
    split
    · next taken inner heq =>
      obtain ⟨hle, htaken⟩ := recording.write_ok heq
      refine ⟨more ++ bytes.take taken, ?_, ?_⟩
      · rw [htaken, hreceived, List.append_assoc]
      · simp [hcount, hle]
    · next error inner heq => exact ⟨more, (recording.write_error heq).trans hreceived, hcount⟩
  flush := by
    intro writer h
    obtain ⟨more, hreceived, hcount⟩ := h
    exact ⟨more, (recording.flush writer.inner).trans hreceived, hcount⟩

end CountingWriter
end XmlPipeline
