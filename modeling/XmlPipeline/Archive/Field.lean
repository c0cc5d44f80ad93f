/-!
This module contains the fields of which binary records are made: numbers of a fixed width with the
least significant byte first.
-/

namespace XmlPipeline
namespace Archive

/--
A number in `width` bytes. Digits that do not fit are lost.
-/
def field : (width n : Nat) → List UInt8
  | 0, _ => []
  | width + 1, n => UInt8.ofNat (n % 256) :: field width (n / 256)

@[simp]
theorem field_length (width n : Nat) : (field width n).length = width := by
  induction width generalizing n with
  | zero => rfl
  | succ width ih => simp [field, ih]

def readField? : (width : Nat) → List UInt8 → Option (Nat × List UInt8)
  | 0, bytes => some (0, bytes)
  | _ + 1, [] => none
  | width + 1, first :: bytes =>
    (readField? width bytes).map fun (n, rest) => (first.toNat + 256 * n, rest)

theorem readField?_field (width n : Nat) (rest : List UInt8) :
    readField? width (field width n ++ rest) = some (n % Nat.pow 256 width, rest) := by
  induction width generalizing n with
  | zero => simp [readField?, field, Nat.mod_one]
  | succ width ih =>
    simp only [field, List.cons_append, readField?, ih, Option.map_some, Option.some.injEq,
      Prod.mk.injEq, and_true]
    have hpow : Nat.pow 256 (width + 1) = 256 * Nat.pow 256 width := Nat.mul_comm _ _
    rw [UInt8.toNat_ofNat_of_lt' (Nat.mod_lt _ (by decide)), hpow, Nat.mod_mul]

def readFields? : List Nat → List UInt8 → Option (List Nat × List UInt8)
  | [], bytes => some ([], bytes)
  | width :: widths, bytes => do
    let (n, bytes) ← readField? width bytes
    let (ns, bytes) ← readFields? widths bytes
    return (n :: ns, bytes)

def take? (length : Nat) (bytes : List UInt8) : Option (List UInt8 × List UInt8) :=
  if length ≤ bytes.length then some (bytes.take length, bytes.drop length) else none

end Archive
end XmlPipeline
