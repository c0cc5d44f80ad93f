import XmlPipeline.Xml.Markup

/-!
This module contains the division of the content of an opening tag into the name and the attributes,
with keys and values as they are written.
-/

namespace XmlPipeline
namespace Xml

/--
An attribute as it is written. `position` is the byte of the tag's content at which the key starts.
-/
structure RawAttribute where
  key : List Char
  position : Nat
  value : List Char
  deriving DecidableEq, Repr

/--
The name and the attributes in the content of a tag. Reading stops at the first attribute that is not
well-formed.
-/
structure Tag where
  name : List Char
  attributes : List RawAttribute
  failure : Option AttributeError
  deriving DecidableEq, Repr

namespace Tag

def nameOf (content : List Char) : List Char :=
  content.takeWhile (!isSpace ·)

inductive Scan where
  | nothing
  | failure (error : AttributeError)
  | attribute (attr : RawAttribute) (after : List Char)

def endsKey (c : Char) : Bool :=
  c == '=' || isSpace c

def scanValue (size : Nat) (key : List Char) (position : Nat) (cs : List Char) : Scan :=
  match cs.dropWhile isSpace with
  | [] => .failure (.expectedValue size)
  | quote :: rest =>
    if quote = '"' ∨ quote = '\'' then
      match Text.cutAt? (· == quote) rest with
      | none => .failure (.unclosedValue size quote)
      | some (value, _, after) => .attribute { key, position, value } after
    else
      .failure (.unquotedValue (size - Utf8.size (quote :: rest)))

def scanAttribute (size : Nat) (earlier : List RawAttribute) (cs : List Char) : Scan :=
  match cs.dropWhile isSpace with
  | [] => .nothing
  | first :: rest =>
    let position := size - Utf8.size (first :: rest)
    let key := first :: rest.takeWhile (!endsKey ·)
    match (rest.dropWhile (!endsKey ·)).dropWhile isSpace with
    | [] => .failure (.expectedEquals size)
    | '=' :: after =>
      match earlier.find? (·.key == key) with
      | some other => .failure (.duplicate position other.position)
      | none => scanValue size key position after
    | other => .failure (.expectedEquals (size - Utf8.size other))

theorem dropWhile_length (p : Char → Bool) (cs : List Char) : (cs.dropWhile p).length ≤ cs.length :=
  (List.dropWhile_sublist _).length_le

theorem scanValue_length {size : Nat} {key : List Char} {position : Nat} {cs : List Char}
    {attr : RawAttribute} {after : List Char}
    (h : scanValue size key position cs = .attribute attr after) : after.length < cs.length := by
  unfold scanValue at h
  split at h
  · simp at h
  · next quote rest heq =>
    have hle := dropWhile_length isSpace cs
    rw [heq] at hle
    split at h
    · split at h
      · simp at h
      · next hcut =>
        have := congrArg List.length (Text.eq_of_cutAt? hcut)
        simp only [Scan.attribute.injEq] at h
        obtain ⟨-, rfl⟩ := h
        simp only [List.length_append, List.length_cons] at this hle
        omega
    · simp at h

theorem scanAttribute_length {size : Nat} {earlier : List RawAttribute} {cs : List Char}
    {attr : RawAttribute} {after : List Char}
    (h : scanAttribute size earlier cs = .attribute attr after) : after.length < cs.length := by
  unfold scanAttribute at h
  split at h
  · simp at h
  · next first rest heq =>
    have hle := dropWhile_length isSpace cs
    rw [heq] at hle
    simp only at h
    split at h
    · simp at h
    · next behind heq' =>
      have hle' := dropWhile_length isSpace (rest.dropWhile (!endsKey ·))
      have hle'' := dropWhile_length (!endsKey ·) rest
      rw [heq'] at hle'
      split at h
      · simp at h
      · have := scanValue_length h
        simp only [List.length_cons] at hle hle'
        omega
    · simp at h

/--
The attributes in the rest of a content, after the ones in `earlier`. With `unique` set, a key that
was read before is refused.
-/
def scanAttributes (unique : Bool) (size : Nat) (earlier : List RawAttribute) (cs : List Char) :
    List RawAttribute × Option AttributeError :=
  match _h : scanAttribute size (if unique then earlier else []) cs with
  | .nothing => ([], none)
  | .failure error => ([], some error)
  | .attribute attr after =>
    let (more, failure) := scanAttributes unique size (attr :: earlier) after
    (attr :: more, failure)
termination_by cs.length
decreasing_by exact scanAttribute_length _h

def read (unique : Bool) (content : List Char) : Tag :=
  let (attributes, failure) :=
    scanAttributes unique (Utf8.size content) [] (content.dropWhile (!isSpace ·))
  { name := nameOf content, attributes, failure }

end Tag
end Xml
end XmlPipeline
