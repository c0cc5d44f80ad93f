import XmlPipeline.Proofs.Text.Utf8

/-!
This module contains the bytes of decoded texts: encoding what was decoded gives back the bytes that it was
read from, and the bytes that are left over are a part of one character.
-/

namespace XmlPipeline
namespace Utf8

variable {first second b : UInt8} {rest after : List UInt8} {c : Char} {cs : List Char} {n : Nat}

/-! ### One character -/

theorem toNat_of_isContinuation (h : isContinuation b = true) : 0x80 ≤ b.toNat ∧ b.toNat ≤ 0xBF := by
  simpa [isContinuation, UInt8.le_iff_toNat_le] using h

theorem eq_trailing (h : isContinuation b = true) (hn : n % 64 = payload b) : b = trailing n := by
  have hbounds := toNat_of_isContinuation h
  rw [← UInt8.toNat_inj, toNat_trailing, hn, payload]
  omega

/--
The second byte keeps clear of overlong forms, surrogates and numbers above the last code point.
-/
structure Clear (first second : Nat) : Prop where
  low : 0x80 ≤ second
  high : second ≤ 0xBF
  overlongThree : first = 0xE0 → 0xA0 ≤ second
  surrogate : first = 0xED → second ≤ 0x9F
  overlongFour : first = 0xF0 → 0x90 ≤ second
  last : first = 0xF4 → second ≤ 0x8F

theorem clear_of_isSecond (h : isSecond first second = true) : Clear first.toNat second.toNat := by
  simp only [isSecond, beq_iff_eq, ← UInt8.toNat_inj, UInt8.reduceToNat] at h
  repeat' split at h
  all_goals
    simp only [isContinuation, Bool.and_eq_true, decide_eq_true_eq, UInt8.le_iff_toNat_le,
      UInt8.reduceToNat] at h
    constructor <;> omega

theorem isContinuation_of_isSecond (h : isSecond first second = true) : isContinuation second = true := by
  obtain ⟨hlow, hhigh, -⟩ := clear_of_isSecond h
  simp [isContinuation, UInt8.le_iff_toNat_le, hlow, hhigh]

theorem toNat_ofNat (h : n < 0xD800 ∨ 0xDFFF < n ∧ n < 0x110000) : (Char.ofNat n).toNat = n := by
  rw [Char.ofNat, dif_pos h]
  exact UInt32.toNat_ofNatLT

theorem encodeChar_ofNat (h : n < 0xD800 ∨ 0xDFFF < n ∧ n < 0x110000) :
    String.utf8EncodeChar (Char.ofNat n)
      = if n ≤ 0x7F then [UInt8.ofNat n]
        else if n ≤ 0x7FF then [UInt8.ofNat (n / 64 % 32 + 0xC0), trailing n]
        else if n ≤ 0xFFFF then [UInt8.ofNat (n / 4096 % 16 + 0xE0), trailing (n / 64), trailing n]
        else [UInt8.ofNat (n / 262144 % 8 + 0xF0), trailing (n / 4096), trailing (n / 64), trailing n] := by
  have htoNat : (Char.ofNat n).val.toNat = n := toNat_ofNat h
  unfold String.utf8EncodeChar
  simp only [htoNat]
  rfl

theorem eq_ofNat (h : first.toNat = n) : first = UInt8.ofNat n := by
  rw [← h, UInt8.ofNat_toNat]

theorem encodeChar_two (hfirst : 0xC2 ≤ first.toNat ∧ first.toNat < 0xE0)
    (hsecond : isContinuation second = true) :
    String.utf8EncodeChar (Char.ofNat (first.toNat % 32 * 64 + payload second)) = [first, second] := by
  have hpayload : payload second < 64 := Nat.mod_lt _ (by decide)
  generalize hcode : first.toNat % 32 * 64 + payload second = code
  have hbyte : first.toNat = code / 64 % 32 + 0xC0 := by omega
  rw [encodeChar_ofNat (by omega), if_neg (by omega), if_pos (by omega), ← eq_ofNat hbyte,
    ← eq_trailing hsecond (by omega)]

theorem encodeChar_three {third : UInt8} (hfirst : 0xE0 ≤ first.toNat ∧ first.toNat < 0xF0)
    (hsecond : isSecond first second = true) (hthird : isContinuation third = true) :
    String.utf8EncodeChar
        (Char.ofNat ((first.toNat % 16 * 64 + payload second) * 64 + payload third))
      = [first, second, third] := by
  have hsecond' : payload second < 64 := Nat.mod_lt _ (by decide)
  have hthird' : payload third < 64 := Nat.mod_lt _ (by decide)
  obtain ⟨hlow, hhigh, hoverlong, hsurrogate, -⟩ := clear_of_isSecond hsecond
  have hpayload : payload second = second.toNat % 64 := rfl
  generalize hcode : (first.toNat % 16 * 64 + payload second) * 64 + payload third = code
  have hbyte : first.toNat = code / 4096 % 16 + 0xE0 := by omega
  rw [encodeChar_ofNat (by omega), if_neg (by omega), if_neg (by omega), if_pos (by omega), ← eq_ofNat hbyte,
    ← eq_trailing (isContinuation_of_isSecond hsecond) (by omega), ← eq_trailing hthird (by omega)]

theorem encodeChar_four {third fourth : UInt8} (hfirst : 0xF0 ≤ first.toNat ∧ first.toNat ≤ 0xF4)
    (hsecond : isSecond first second = true) (hthird : isContinuation third = true)
    (hfourth : isContinuation fourth = true) :
    String.utf8EncodeChar (Char.ofNat
        (((first.toNat % 8 * 64 + payload second) * 64 + payload third) * 64 + payload fourth))
      = [first, second, third, fourth] := by
  have hsecond' : payload second < 64 := Nat.mod_lt _ (by decide)
  have hthird' : payload third < 64 := Nat.mod_lt _ (by decide)
  have hfourth' : payload fourth < 64 := Nat.mod_lt _ (by decide)
  obtain ⟨hlow, hhigh, -, -, hoverlong, hlast⟩ := clear_of_isSecond hsecond
  have hpayload : payload second = second.toNat % 64 := rfl
  generalize hcode : ((first.toNat % 8 * 64 + payload second) * 64 + payload third) * 64 + payload fourth
    = code
  have hbyte : first.toNat = code / 262144 % 8 + 0xF0 := by omega
  rw [encodeChar_ofNat (by omega), if_neg (by omega), if_neg (by omega), if_neg (by omega), ← eq_ofNat hbyte,
    ← eq_trailing (isContinuation_of_isSecond hsecond) (by omega), ← eq_trailing hthird (by omega),
    ← eq_trailing hfourth (by omega)]

inductive Reads (first : UInt8) : List UInt8 → Head → Prop where
  | one {rest : List UInt8} (hfirst : first.toNat < 0x80) :
    Reads first rest (.char (Char.ofNat first.toNat) rest)
  | two {second : UInt8} {rest : List UInt8} (hfirst : 0xC2 ≤ first.toNat ∧ first.toNat < 0xE0)
    (hsecond : isContinuation second = true) :
    Reads first (second :: rest) (.char (Char.ofNat (first.toNat % 32 * 64 + payload second)) rest)
  | three {second third : UInt8} {rest : List UInt8} (hfirst : 0xE0 ≤ first.toNat ∧ first.toNat < 0xF0)
    (hsecond : isSecond first second = true) (hthird : isContinuation third = true) :
    Reads first (second :: third :: rest)
      (.char (Char.ofNat ((first.toNat % 16 * 64 + payload second) * 64 + payload third)) rest)
  | four {second third fourth : UInt8} {rest : List UInt8}
    (hfirst : 0xF0 ≤ first.toNat ∧ first.toNat ≤ 0xF4) (hsecond : isSecond first second = true)
    (hthird : isContinuation third = true) (hfourth : isContinuation fourth = true) :
    Reads first (second :: third :: fourth :: rest)
      (.char (Char.ofNat
        (((first.toNat % 8 * 64 + payload second) * 64 + payload third) * 64 + payload fourth)) rest)
  | cutTwo (hfirst : 0xC2 ≤ first.toNat ∧ first.toNat < 0xE0) : Reads first [] .incomplete
  | cutThree {rest : List UInt8} (hfirst : 0xE0 ≤ first.toNat ∧ first.toNat < 0xF0)
    (hrest : rest = [] ∨ ∃ second, rest = [second] ∧ isSecond first second = true) :
    Reads first rest .incomplete
  | cutFour {rest : List UInt8} (hfirst : 0xF0 ≤ first.toNat ∧ first.toNat ≤ 0xF4)
    (hrest : rest = [] ∨ ∃ second, isSecond first second = true
      ∧ (rest = [second] ∨ ∃ third, rest = [second, third] ∧ isContinuation third = true)) :
    Reads first rest .incomplete
  | invalid {rest : List UInt8} (length : Nat) : Reads first rest (.invalid length)

theorem reads_head (first : UInt8) (rest : List UInt8) : Reads first rest (head first rest) := by
  simp only [head, Bool.or_eq_true, decide_eq_true_eq, UInt8.lt_iff_toNat_lt, UInt8.reduceToNat,
    Bool.not_eq_true']
  split
  · next hone => exact .one hone
  split
  · exact .invalid 1
  split
  · split
    · exact .cutTwo (by omega)
    · split
      · next hsecond => exact .two (by omega) hsecond
      · exact .invalid 1
  split
  · split
    · exact .cutThree (by omega) (.inl rfl)
    split
    · exact .invalid 1
    · next second _ hsecond =>
      rw [Bool.not_eq_false] at hsecond
      split
      · exact .cutThree (by omega) (.inr ⟨second, rfl, hsecond⟩)
      split
      · next hthird => exact .three (by omega) hsecond hthird
      · exact .invalid 2
  · split
    · exact .cutFour (by omega) (.inl rfl)
    split
    · exact .invalid 1
    · next second _ hsecond =>
      rw [Bool.not_eq_false] at hsecond
      split
      · exact .cutFour (by omega) (.inr ⟨second, hsecond, .inl rfl⟩)
      split
      · exact .invalid 2
      · next third _ hthird =>
        rw [Bool.not_eq_false] at hthird
        split
        · exact .cutFour (by omega) (.inr ⟨second, hsecond, .inr ⟨third, rfl, hthird⟩⟩)
        split
        · next hfourth => exact .four (by omega) hsecond hthird hfourth
        · exact .invalid 3

theorem encodeChar_of_head (h : head first rest = .char c after) :
    first :: rest = String.utf8EncodeChar c ++ after := by
  have hreads := reads_head first rest
  rw [h] at hreads
  cases hreads with
  | one hfirst =>
    rw [encodeChar_ofNat (by omega), if_pos (by omega), UInt8.ofNat_toNat]
    rfl
  | two hfirst hsecond =>
    rw [encodeChar_two hfirst hsecond]
    rfl
  | three hfirst hsecond hthird =>
    rw [encodeChar_three hfirst hsecond hthird]
    rfl
  | four hfirst hsecond hthird hfourth =>
    rw [encodeChar_four hfirst hsecond hthird hfourth]
    rfl

/-! ### A part of a character -/

def IsPart (c : Char) (held : List UInt8) : Prop :=
  ∃ more, more ≠ [] ∧ String.utf8EncodeChar c = held ++ more

theorem isPart_nil (c : Char) : IsPart c [] :=
  ⟨_, String.utf8EncodeChar_ne_nil, rfl⟩

theorem exists_second (first : UInt8) : ∃ second, isSecond first second = true := by
  by_cases hlow : first = 0xED ∨ first = 0xF4
  · refine ⟨0x80, ?_⟩
    rcases hlow with rfl | rfl <;> decide
  · refine ⟨0xA0, ?_⟩
    rw [not_or] at hlow
    simp only [isSecond, beq_iff_eq, hlow.1, hlow.2, ↓reduceIte]
    repeat' split
    all_goals decide

theorem exists_isPart_of_head (h : head first rest = .incomplete) : ∃ c, IsPart c (first :: rest) := by
  have hlast : isContinuation 0x80 = true := by decide
  obtain ⟨other, hother⟩ := exists_second first
  have hreads := reads_head first rest
  rw [h] at hreads
  cases hreads with
  | cutTwo hfirst => exact ⟨_, [0x80], by simp, encodeChar_two hfirst hlast⟩
  | cutThree hfirst hrest =>
    rcases hrest with rfl | ⟨second, rfl, hsecond⟩
    · exact ⟨_, [other, 0x80], by simp, encodeChar_three hfirst hother hlast⟩
    · exact ⟨_, [0x80], by simp, encodeChar_three hfirst hsecond hlast⟩
  | cutFour hfirst hrest =>
    rcases hrest with rfl | ⟨second, hsecond, rfl | ⟨third, rfl, hthird⟩⟩
    · exact ⟨_, [other, 0x80, 0x80], by simp, encodeChar_four hfirst hother hlast hlast⟩
    · exact ⟨_, [0x80, 0x80], by simp, encodeChar_four hfirst hsecond hlast hlast⟩
    · exact ⟨_, [0x80], by simp, encodeChar_four hfirst hsecond hthird hlast⟩

/-! ### Whole texts -/

theorem encode_decode (bytes : List UInt8) (h : (decode bytes).2.isInvalid = false) :
    encode (decode bytes).1 ++ (decode bytes).2.held = bytes := by
  induction bytes using decode.induct with
  | case1 => simp [decode, encode, Tail.held]
  | case2 first rest hhead =>
    rw [decode_cons_of_incomplete hhead]
    rfl
  | case3 first rest length hhead =>
    rw [decode_cons_of_invalid hhead] at h
    cases h
  | case4 first rest c after hhead cs tail hafter ih =>
    rw [decode_cons_of_char hhead] at h ⊢
    rw [encodeChar_of_head hhead, encode, List.flatMap_cons, List.append_assoc]
    exact congrArg _ (ih h)

theorem held_decode_cases (bytes : List UInt8) :
    (decode bytes).2.held = [] ∨ ∃ first rest, (decode bytes).2.held = first :: rest
      ∧ head first rest = .incomplete := by
  induction bytes using decode.induct with
  | case1 => simp [decode, Tail.held]
  | case2 first rest hhead =>
    rw [decode_cons_of_incomplete hhead]
    exact .inr ⟨first, rest, rfl, hhead⟩
  | case3 first rest length hhead =>
    rw [decode_cons_of_invalid hhead]
    exact .inl rfl
  | case4 first rest c after hhead cs tail hafter ih =>
    rw [decode_cons_of_char hhead]
    exact ih

theorem exists_isPart_held (bytes : List UInt8) : ∃ c, IsPart c (decode bytes).2.held := by
  rcases held_decode_cases bytes with hnil | ⟨first, rest, hheld, hhead⟩
  · exact ⟨'a', hnil ▸ isPart_nil 'a'⟩
  · exact hheld ▸ exists_isPart_of_head hhead

theorem isPart_of_append {more : List UInt8} (hhead : head first rest = .incomplete)
    (h : first :: rest ++ more = String.utf8EncodeChar c ++ after) : IsPart c (first :: rest) := by
  -- If the character were complete, it would have been read.
  have hcut : ∀ last, first :: rest ≠ String.utf8EncodeChar c ++ last := by
    intro last hlast
    obtain ⟨byte, others, hchar, hread⟩ := head_encodeChar c last
    rw [hchar, List.cons_append] at hlast
    obtain ⟨rfl, rfl⟩ := List.cons.inj hlast
    rw [hread] at hhead
    cases hhead
  rcases List.append_eq_append_iff.mp h with ⟨last, hchar, -⟩ | ⟨last, hheld, -⟩
  · refine ⟨last, ?_, hchar⟩
    rintro rfl
    exact hcut [] (by simpa using hchar.symm)
  · exact absurd hheld (hcut last)

/--
The bytes of a text, cut anywhere: the complete characters, and a part of the character after them.
-/
theorem decode_of_prefix {taken : List UInt8} (h : taken <+: encode cs) :
    (decode taken).2.isInvalid = false ∧ ∃ rest, cs = (decode taken).1 ++ rest
      ∧ ((decode taken).2.held = [] ∨ ∃ c more, rest = c :: more ∧ IsPart c (decode taken).2.held) := by
  obtain ⟨more, hmore⟩ := h
  have hwhole : decode (taken ++ more) = (cs, .complete) := by rw [hmore, decode_encode]
  have hvalid : (decode taken).2.isInvalid = false := by
    apply isInvalid_decode_of_append taken more
    rw [hwhole]
    rfl
  rw [decode_append taken more hvalid] at hwhole
  obtain ⟨hcs, htail⟩ := Prod.mk.inj hwhole
  refine ⟨hvalid, _, hcs.symm, ?_⟩
  rcases held_decode_cases taken with hnil | ⟨first, rest, hheld, hhead⟩
  · exact .inl hnil
  · rw [hheld, List.cons_append] at htail ⊢
    right
    cases hnext : head first (rest ++ more) with
    | incomplete => simp [decode_cons_of_incomplete hnext] at htail
    | invalid length => simp [decode_cons_of_invalid hnext] at htail
    | char c after =>
      rw [decode_cons_of_char hnext]
      exact ⟨c, _, rfl, isPart_of_append hhead (encodeChar_of_head hnext)⟩

end Utf8
end XmlPipeline
