import XmlPipeline.Text.Unsigned

/-!
This module contains the reading of decimal numbers. The main statements are that a number is read back from
its digits, and that nothing but such digits is read.
-/

namespace XmlPipeline
namespace Text

variable {limit : Nat} {c : Char} {cs : List Char}

theorem digitValue?_of_isDigit (h : c.isDigit = true) : digitValue? 10 c = some (c.toNat - '0'.toNat) := by
  have hrange : '0' ≤ c ∧ c ≤ '9' := by
    rw [Char.isDigit, Bool.and_eq_true, decide_eq_true_eq, decide_eq_true_eq] at h
    exact h
  have hsmall : c.toNat - '0'.toNat < 10 := by
    have hhigh : c.toNat ≤ '9'.toNat := hrange.2
    have hnine : '9'.toNat = '0'.toNat + 9 := by decide
    omega
  unfold digitValue?
  rw [if_pos hrange]
  exact Option.filter_eq_some_iff.mpr ⟨rfl, by simpa using hsmall⟩

theorem readDigits_of_isDigit (value : Nat) (hdigits : ∀ c ∈ cs, c.isDigit = true)
    (hlimit : Nat.ofDigitChars 10 cs value ≤ limit) :
    readDigits 10 limit value cs = .ok (Nat.ofDigitChars 10 cs value) := by
  induction cs generalizing value with
  | nil => rfl
  | cons c cs ih =>
    rw [Nat.ofDigitChars_cons, Nat.mul_comm] at hlimit ⊢
    -- Later digits only make the number larger.
    have hgrows : value * 10 + (c.toNat - '0'.toNat)
        ≤ Nat.ofDigitChars 10 cs (value * 10 + (c.toNat - '0'.toNat)) := by
      rw [Nat.ofDigitChars_eq_ofDigitChars_zero]
      have hpow : 1 ≤ 10 ^ cs.length := Nat.one_le_pow _ _ (by decide)
      have := Nat.le_mul_of_pos_left (value * 10 + (c.toNat - '0'.toNat)) hpow
      omega
    have hfits : value * 10 + (c.toNat - '0'.toNat) ≤ limit := Nat.le_trans hgrows hlimit
    rw [readDigits, digitValue?_of_isDigit (hdigits c List.mem_cons_self)]
    simp only
    rw [if_pos hfits]
    exact ih _ (fun x hx => hdigits x (List.mem_cons_of_mem _ hx)) hlimit

theorem exists_of_digitValue? {digit : Nat} (h : digitValue? 10 c = some digit) :
    c.isDigit = true ∧ digit = c.toNat - '0'.toNat := by
  unfold digitValue? at h
  obtain ⟨hvalue, hsmall⟩ := Option.filter_eq_some_iff.mp h
  have hsmall : digit < 10 := by simpa using hsmall
  split at hvalue
  · next hrange =>
    refine ⟨?_, (Option.some.inj hvalue).symm⟩
    rw [Char.isDigit, Bool.and_eq_true, decide_eq_true_eq, decide_eq_true_eq]
    exact hrange
  · -- A letter has a value that is no digit of this radix.
    split at hvalue
    · have := Option.some.inj hvalue
      omega
    · split at hvalue
      · have := Option.some.inj hvalue
        omega
      · cases hvalue

theorem digits_of_readDigits {value n : Nat} (h : readDigits 10 limit value cs = .ok n) :
    (∀ c ∈ cs, c.isDigit = true) ∧ Nat.ofDigitChars 10 cs value = n ∧ (value ≤ limit → n ≤ limit) := by
  induction cs generalizing value with
  | nil =>
    obtain rfl := Except.ok.inj h
    exact ⟨by simp, rfl, id⟩
  | cons c cs ih =>
    unfold readDigits at h
    split at h
    · cases h
    · next digit hdigit =>
      split at h
      · next hfits =>
        obtain ⟨hc, rfl⟩ := exists_of_digitValue? hdigit
        obtain ⟨hcs, hn, hlimit⟩ := ih h
        refine ⟨?_, ?_, fun _ => hlimit hfits⟩
        · intro x hx
          cases List.mem_cons.mp hx with
          | inl heq => exact heq ▸ hc
          | inr hmem => exact hcs x hmem
        · rw [Nat.ofDigitChars_cons, Nat.mul_comm]
          exact hn
      · cases h

theorem isDigit_toDigits (n : Nat) : ∀ c ∈ Nat.toDigits 10 n, c.isDigit = true :=
  fun _ hc => Nat.isDigit_of_mem_toDigits (by decide) (by decide) hc

theorem readUnsigned_toDigits {n : Nat} (h : n ≤ limit) :
    readUnsigned 10 limit (Nat.toDigits 10 n) = .ok n := by
  have hread : readDigits 10 limit 0 (Nat.toDigits 10 n) = .ok n := by
    rw [readDigits_of_isDigit 0 (isDigit_toDigits n)] <;> rw [Nat.ofDigitChars_ten_toDigits]
    exact h
  have hdigits := isDigit_toDigits n
  unfold readUnsigned
  split
  · next heq => exact absurd heq Nat.toDigits_ne_nil
  · next heq =>
    rw [heq] at hdigits
    simp at hdigits
  · next heq =>
    rw [heq] at hdigits
    simp at hdigits
  · exact hread

/--
The characters are decimal digits, one or more of them, with a plus sign before them or without, and this is
their value.
-/
def IsDecimal (cs : List Char) (n : Nat) : Prop :=
  ∃ digits, (cs = digits ∨ cs = '+' :: digits) ∧ digits ≠ [] ∧ (∀ c ∈ digits, c.isDigit = true)
    ∧ Nat.ofDigitChars 10 digits 0 = n

theorem readUnsigned_plus {digits : List Char} (h : digits ≠ []) :
    readUnsigned 10 limit ('+' :: digits) = readDigits 10 limit 0 digits := by
  cases digits with
  | nil => exact absurd rfl h
  | cons first digits => rfl

theorem readUnsigned_of_isDigit (h : c.isDigit = true) :
    readUnsigned 10 limit (c :: cs) = readDigits 10 limit 0 (c :: cs) := by
  have hplus : c ≠ '+' := by
    rintro rfl
    cases h
  unfold readUnsigned
  split
  · next heq => cases heq
  · next heq => exact absurd (List.cons.inj heq).1 hplus
  · next heq => exact absurd (List.cons.inj heq).1 hplus
  · rfl

theorem readUnsigned_eq_ok_iff {n : Nat} :
    readUnsigned 10 limit cs = .ok n ↔ IsDecimal cs n ∧ n ≤ limit := by
  constructor
  · intro h
    have decimal : ∀ {digits}, (cs = digits ∨ cs = '+' :: digits) → digits ≠ [] →
        readDigits 10 limit 0 digits = .ok n → IsDecimal cs n ∧ n ≤ limit := by
      intro digits hcs hne hread
      obtain ⟨hdigits, hn, hlimit⟩ := digits_of_readDigits hread
      exact ⟨⟨digits, hcs, hne, hdigits, hn⟩, hlimit (Nat.zero_le _)⟩
    unfold readUnsigned at h
    split at h
    · cases h
    · cases h
    · next digits hdigits =>
      exact decimal (.inr rfl) hdigits h
    · next hne _ _ => exact decimal (.inl rfl) hne h
  · rintro ⟨⟨digits, hcs, hne, hdigits, rfl⟩, hlimit⟩
    have hread := readDigits_of_isDigit 0 hdigits hlimit
    rcases hcs with rfl | rfl
    · obtain ⟨first, digits, rfl⟩ := List.exists_cons_of_ne_nil hne
      rw [readUnsigned_of_isDigit (hdigits first List.mem_cons_self), hread]
    · rw [readUnsigned_plus hne, hread]

end Text
end XmlPipeline
