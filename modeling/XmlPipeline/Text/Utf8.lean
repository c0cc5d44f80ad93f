/-!
This module contains the UTF-8 encoding of texts over plain lists: an encoder, and a decoder that
says where and how a byte sequence stops being UTF-8. A sequence that only lacks its last bytes is
told apart from one that no further byte can mend.
-/

namespace XmlPipeline
namespace Utf8

def encode (cs : List Char) : List UInt8 :=
  cs.flatMap String.utf8EncodeChar

def size (cs : List Char) : Nat :=
  cs.foldr (fun c n => c.utf8Size + n) 0

inductive Head where
  | char (c : Char) (rest : List UInt8)
  | incomplete
  | invalid (length : Nat)

def isContinuation (b : UInt8) : Bool :=
  0x80 ≤ b && b ≤ 0xBF

/--
The bytes that may follow the first byte of a character of three or four bytes: overlong forms,
surrogates and numbers above the last code point are left out.
-/
def isSecond (first second : UInt8) : Bool :=
  if first == 0xE0 then 0xA0 ≤ second && second ≤ 0xBF
  else if first == 0xED then 0x80 ≤ second && second ≤ 0x9F
  else if first == 0xF0 then 0x90 ≤ second && second ≤ 0xBF
  else if first == 0xF4 then 0x80 ≤ second && second ≤ 0x8F
  else isContinuation second

def payload (b : UInt8) : Nat :=
  b.toNat % 64

def head (first : UInt8) (rest : List UInt8) : Head :=
  if first < 0x80 then
    .char (Char.ofNat first.toNat) rest
  else if first < 0xC2 || 0xF4 < first then
    .invalid 1
  else if first < 0xE0 then
    match rest with
    | [] => .incomplete
    | second :: rest =>
      if isContinuation second then
        .char (Char.ofNat (first.toNat % 32 * 64 + payload second)) rest
      else
        .invalid 1
  else if first < 0xF0 then
    match rest with
    | [] => .incomplete
    | second :: rest =>
      if !isSecond first second then .invalid 1
      else match rest with
        | [] => .incomplete
        | third :: rest =>
          if isContinuation third then
            .char (Char.ofNat ((first.toNat % 16 * 64 + payload second) * 64 + payload third)) rest
          else
            .invalid 2
  else
    match rest with
    | [] => .incomplete
    | second :: rest =>
      if !isSecond first second then .invalid 1
      else match rest with
        | [] => .incomplete
        | third :: rest =>
          if !isContinuation third then .invalid 2
          else match rest with
            | [] => .incomplete
            | fourth :: rest =>
              if isContinuation fourth then
                .char (Char.ofNat (((first.toNat % 8 * 64 + payload second) * 64 + payload third) * 64
                  + payload fourth)) rest
              else
                .invalid 3

theorem head_length {first : UInt8} {rest : List UInt8} {c : Char} {after : List UInt8}
    (h : head first rest = .char c after) : after.length ≤ rest.length := by
  unfold head at h
  repeat' split at h
  all_goals simp_all <;> omega

inductive Tail where
  | complete
  | incomplete (held : List UInt8)
  | invalid (length : Nat)

def decode : List UInt8 → List Char × Tail
  | [] => ([], .complete)
  | first :: rest =>
    match _h : head first rest with
    | .incomplete => ([], .incomplete (first :: rest))
    | .invalid length => ([], .invalid length)
    | .char c after =>
      let (cs, tail) := decode after
      (c :: cs, tail)
termination_by bytes => bytes.length
decreasing_by
  have := head_length _h
  simp only [List.length_cons]
  omega

def decode? (bytes : List UInt8) : Option String :=
  match decode bytes with
  | (cs, .complete) => some (String.ofList cs)
  | _ => none

end Utf8

def utf8 (s : String) : List UInt8 :=
  Utf8.encode s.toList

end XmlPipeline
