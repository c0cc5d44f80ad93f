import XmlPipeline.Text.Utf8

/-!
This module contains the decoding of bytes that come in pieces: more bytes change nothing about the
characters that were complete before, and do not mend what was invalid. The main statement is that an
encoded text decodes to itself.
-/

namespace XmlPipeline
namespace Utf8

variable {first : UInt8} {bytes rest after : List UInt8} {c : Char} {length : Nat}

/-! ### More bytes behind a sequence -/

theorem head_append_of_char (h : head first rest = .char c after) (more : List UInt8) :
    head first (rest ++ more) = .char c (after ++ more) := by
  unfold head at h ⊢
  repeat' split at h
  all_goals simp_all [-UInt8.not_lt]

theorem head_append_of_invalid (h : head first rest = .invalid length) (more : List UInt8) :
    head first (rest ++ more) = .invalid length := by
  unfold head at h ⊢
  repeat' split at h
  all_goals simp_all [-UInt8.not_lt]

theorem decode_cons_of_char (h : head first rest = .char c after) :
    decode (first :: rest) = (c :: (decode after).1, (decode after).2) := by
  rw [decode]
  split <;> simp_all

theorem decode_cons_of_invalid (h : head first rest = .invalid length) :
    decode (first :: rest) = ([], .invalid length) := by
  rw [decode]
  split <;> simp_all

theorem decode_cons_of_incomplete (h : head first rest = .incomplete) :
    decode (first :: rest) = ([], .incomplete (first :: rest)) := by
  rw [decode]
  split <;> simp_all

def Tail.held : Tail → List UInt8
  | incomplete held => held
  | _ => []

/--
No further bytes mend the sequence.
-/
def Tail.isInvalid : Tail → Bool
  | invalid _ => true
  | _ => false

theorem decode_append (bytes more : List UInt8) (h : (decode bytes).2.isInvalid = false) :
    decode (bytes ++ more)
      = ((decode bytes).1 ++ (decode ((decode bytes).2.held ++ more)).1,
        (decode ((decode bytes).2.held ++ more)).2) := by
  induction bytes using decode.induct with
  | case1 => simp [decode, Tail.held]
  | case2 first rest hhead =>
    rw [decode_cons_of_incomplete hhead]
    simp [Tail.held]
  | case3 first rest length hhead =>
    rw [decode_cons_of_invalid hhead] at h
    simp [Tail.isInvalid] at h
  | case4 first rest c after hhead cs tail hafter ih =>
    rw [decode_cons_of_char hhead] at h ⊢
    rw [List.cons_append, decode_cons_of_char (head_append_of_char hhead more), ih h]
    rfl

theorem isInvalid_decode_append (bytes more : List UInt8) (h : (decode bytes).2.isInvalid = true) :
    (decode (bytes ++ more)).2.isInvalid = true := by
  induction bytes using decode.induct with
  | case1 => simp [decode, Tail.isInvalid] at h
  | case2 first rest hhead =>
    rw [decode_cons_of_incomplete hhead] at h
    simp [Tail.isInvalid] at h
  | case3 first rest length hhead =>
    rw [List.cons_append, decode_cons_of_invalid (head_append_of_invalid hhead more)]
    rfl
  | case4 first rest c after hhead cs tail hafter ih =>
    rw [decode_cons_of_char hhead] at h
    rw [List.cons_append, decode_cons_of_char (head_append_of_char hhead more)]
    exact ih h

theorem isInvalid_decode_of_append (bytes more : List UInt8)
    (h : (decode (bytes ++ more)).2.isInvalid = false) : (decode bytes).2.isInvalid = false := by
  cases hbytes : (decode bytes).2.isInvalid with
  | false => rfl
  | true =>
    rw [isInvalid_decode_append bytes more hbytes] at h
    cases h

theorem encode_append (first second : List Char) :
    encode (first ++ second) = encode first ++ encode second :=
  List.flatMap_append

/-! ### Sizes -/

theorem size_append (first second : List Char) : size (first ++ second) = size first + size second := by
  induction first with
  | nil => simp [size]
  | cons c first ih =>
    simp only [size, List.cons_append, List.foldr_cons] at ih ⊢
    omega

theorem length_le_size (cs : List Char) : cs.length ≤ size cs := by
  induction cs with
  | nil => exact Nat.le_refl 0
  | cons c cs ih =>
    have hc := c.utf8Size_pos
    simp only [size, List.foldr_cons, List.length_cons] at ih ⊢
    omega

theorem size_toList (s : String) : size s.toList = s.utf8ByteSize := by
  have hbytes : ∀ cs : List Char, size cs = (encode cs).length := by
    intro cs
    induction cs with
    | nil => rfl
    | cons c cs ih =>
      simp only [size, encode, List.foldr_cons, List.flatMap_cons, List.length_append,
        String.length_utf8EncodeChar] at ih ⊢
      omega
  rw [hbytes, ← String.size_toByteArray, ← String.utf8Encode_toList, List.utf8Encode,
    List.size_toByteArray]
  rfl

/-! ### Encoded texts -/

def trailing (n : Nat) : UInt8 :=
  UInt8.ofNat (n % 64 + 0x80)

theorem toNat_trailing (n : Nat) : (trailing n).toNat = n % 64 + 0x80 := by
  rw [trailing, UInt8.toNat_ofNat']
  omega

theorem isContinuation_trailing (n : Nat) : isContinuation (trailing n) = true := by
  simp only [isContinuation, Bool.and_eq_true, decide_eq_true_eq, UInt8.le_iff_toNat_le,
    toNat_trailing, UInt8.reduceToNat]
  omega

theorem payload_trailing (n : Nat) : payload (trailing n) = n % 64 := by
  rw [payload, toNat_trailing]
  omega

theorem isSecond_of_toNat {second : UInt8} (hsecond : isContinuation second = true)
    (hlow : (first.toNat = 0xE0 → 0xA0 ≤ second.toNat) ∧ (first.toNat = 0xF0 → 0x90 ≤ second.toNat))
    (hhigh : (first.toNat = 0xED → second.toNat ≤ 0x9F) ∧ (first.toNat = 0xF4 → second.toNat ≤ 0x8F)) :
    isSecond first second = true := by
  simp only [isSecond, isContinuation, beq_iff_eq, Bool.and_eq_true, decide_eq_true_eq,
    UInt8.le_iff_toNat_le, ← UInt8.toNat_inj, UInt8.reduceToNat] at hsecond ⊢
  repeat' split
  all_goals
    simp only [Bool.and_eq_true, decide_eq_true_eq]
    omega

section

variable {n : Nat} (rest : List UInt8)

theorem head_one (hhigh : n ≤ 0x7F) : head (UInt8.ofNat n) rest = .char (Char.ofNat n) rest := by
  have hfirst : (UInt8.ofNat n).toNat = n := by
    rw [UInt8.toNat_ofNat']
    omega
  have hsmall : UInt8.ofNat n < 0x80 := by
    rw [UInt8.lt_iff_toNat_lt, hfirst]
    exact Nat.lt_succ_of_le hhigh
  simp [head, hsmall, hfirst]

theorem head_two (hlow : 0x7F < n) (hhigh : n ≤ 0x7FF) :
    head (UInt8.ofNat (n / 64 % 32 + 0xC0)) (trailing n :: rest) = .char (Char.ofNat n) rest := by
  generalize hbyte : UInt8.ofNat (n / 64 % 32 + 0xC0) = first
  have hfirst : first.toNat = n / 64 + 0xC0 := by
    rw [← hbyte, UInt8.toNat_ofNat']
    omega
  have hsize : ¬ first < 0x80 ∧ ¬ first < 0xC2 ∧ ¬ 0xF4 < first ∧ first < 0xE0 := by
    simp only [UInt8.lt_iff_toNat_lt, hfirst, UInt8.reduceToNat]
    omega
  have hcode : first.toNat % 32 * 64 + n % 64 = n := by omega
  simp [head, hsize, isContinuation_trailing, payload_trailing, hcode, -UInt8.not_lt]

theorem head_three (hlow : 0x7FF < n) (hhigh : n ≤ 0xFFFF) (hvalid : n < 0xD800 ∨ 0xDFFF < n) :
    head (UInt8.ofNat (n / 4096 % 16 + 0xE0)) (trailing (n / 64) :: trailing n :: rest)
      = .char (Char.ofNat n) rest := by
  generalize hbyte : UInt8.ofNat (n / 4096 % 16 + 0xE0) = first
  have hfirst : first.toNat = n / 4096 + 0xE0 := by
    rw [← hbyte, UInt8.toNat_ofNat']
    omega
  have hsize : ¬ first < 0x80 ∧ ¬ first < 0xC2 ∧ ¬ 0xF4 < first ∧ ¬ first < 0xE0 ∧ first < 0xF0 := by
    simp only [UInt8.lt_iff_toNat_lt, hfirst, UInt8.reduceToNat]
    omega
  -- The numbers that overlong forms and surrogates would have are not in the range.
  have hsecond : isSecond first (trailing (n / 64)) = true := by
    apply isSecond_of_toNat (isContinuation_trailing _) <;> rw [hfirst, toNat_trailing] <;> omega
  have hcode : (first.toNat % 16 * 64 + n / 64 % 64) * 64 + n % 64 = n := by omega
  simp [head, hsize, hsecond, isContinuation_trailing, payload_trailing, hcode, -UInt8.not_lt]

theorem head_four (hlow : 0xFFFF < n) (hhigh : n < 0x110000) :
    head (UInt8.ofNat (n / 262144 % 8 + 0xF0))
        (trailing (n / 4096) :: trailing (n / 64) :: trailing n :: rest)
      = .char (Char.ofNat n) rest := by
  generalize hbyte : UInt8.ofNat (n / 262144 % 8 + 0xF0) = first
  have hfirst : first.toNat = n / 262144 + 0xF0 := by
    rw [← hbyte, UInt8.toNat_ofNat']
    omega
  have hsize : ¬ first < 0x80 ∧ ¬ first < 0xC2 ∧ ¬ 0xF4 < first ∧ ¬ first < 0xE0 ∧ ¬ first < 0xF0 := by
    simp only [UInt8.lt_iff_toNat_lt, hfirst, UInt8.reduceToNat]
    omega
  have hsecond : isSecond first (trailing (n / 4096)) = true := by
    apply isSecond_of_toNat (isContinuation_trailing _) <;> rw [hfirst, toNat_trailing] <;> omega
  have hcode : ((first.toNat % 8 * 64 + n / 4096 % 64) * 64 + n / 64 % 64) * 64 + n % 64 = n := by
    omega
  simp [head, hsize, hsecond, isContinuation_trailing, payload_trailing, hcode, -UInt8.not_lt]

end

theorem head_encodeChar (c : Char) (rest : List UInt8) :
    ∃ first more, String.utf8EncodeChar c = first :: more ∧ head first (more ++ rest) = .char c rest := by
  suffices h : ∃ first more, String.utf8EncodeChar c = first :: more
      ∧ head first (more ++ rest) = .char (Char.ofNat c.toNat) rest by
    rwa [Char.ofNat_toNat] at h
  have hvalid : c.toNat < 0xD800 ∨ 0xDFFF < c.toNat ∧ c.toNat < 0x110000 := c.valid
  have htoNat : c.val.toNat = c.toNat := rfl
  unfold String.utf8EncodeChar
  simp only [htoNat]
  split
  · next hone => exact ⟨_, _, rfl, head_one rest hone⟩
  · next hone =>
    split
    · next htwo => exact ⟨_, _, rfl, head_two rest (Nat.lt_of_not_le hone) htwo⟩
    · next htwo =>
      split
      · next hthree => exact ⟨_, _, rfl, head_three rest (Nat.lt_of_not_le htwo) hthree (by omega)⟩
      · next hthree => exact ⟨_, _, rfl, head_four rest (Nat.lt_of_not_le hthree) (by omega)⟩

theorem encode_of_ascii {cs : List Char} (h : ∀ c ∈ cs, c.toNat ≤ 0x7F) :
    encode cs = cs.map fun c => UInt8.ofNat c.toNat := by
  induction cs with
  | nil => rfl
  | cons c cs ih =>
    have hchar : String.utf8EncodeChar c = [UInt8.ofNat c.toNat] := if_pos (h c List.mem_cons_self)
    have hcs := ih fun x hx => h x (List.mem_cons_of_mem _ hx)
    unfold encode at hcs ⊢
    rw [List.flatMap_cons, hchar, hcs]
    rfl

theorem decode_encode (cs : List Char) : decode (encode cs) = (cs, .complete) := by
  induction cs with
  | nil => simp [encode, decode]
  | cons c cs ih =>
    obtain ⟨first, more, hchar, hhead⟩ := head_encodeChar c (encode cs)
    have hsplit : encode (c :: cs) = first :: (more ++ encode cs) := by
      rw [encode, List.flatMap_cons, hchar]
      rfl
    rw [hsplit, decode_cons_of_char hhead, ih]

end Utf8
end XmlPipeline
