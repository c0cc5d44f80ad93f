import XmlPipeline.Text.Cut
import XmlPipeline.Xml.SyntaxError

/-!
This module contains the written form of character data and attribute values: `escape` replaces the
characters that mean something in markup by references, `unescape` resolves references. The main
statement is that the second undoes the first.
-/

namespace XmlPipeline
namespace Xml

def escapeChar (c : Char) : List Char :=
  if c = '<' then ['&', 'l', 't', ';']
  else if c = '>' then ['&', 'g', 't', ';']
  else if c = '&' then ['&', 'a', 'm', 'p', ';']
  else if c = '\'' then ['&', 'a', 'p', 'o', 's', ';']
  else if c = '"' then ['&', 'q', 'u', 'o', 't', ';']
  else [c]

def escape (cs : List Char) : List Char :=
  cs.flatMap escapeChar

def entity? (name : List Char) : Option Char :=
  if name = ['l', 't'] then some '<'
  else if name = ['g', 't'] then some '>'
  else if name = ['a', 'm', 'p'] then some '&'
  else if name = ['a', 'p', 'o', 's'] then some '\''
  else if name = ['q', 'u', 'o', 't'] then some '"'
  else none

def readCode (radix : Nat) (digits : List Char) : Except CharRefError Nat :=
  match digits with
  | '+' :: _ => .error .signed
  | '-' :: _ => .error .signed
  | digits => (Text.readUnsigned radix Text.maxUnsigned32 digits).mapError .number

def charOfCode (code : Nat) : Except CharRefError Char :=
  if code = 0 then .error .nul
  else if code.isValidChar then .ok (Char.ofNat code)
  else .error (.notACharacter code)

def readCharRef (digits : List Char) : Except CharRefError Char :=
  match digits with
  | 'x' :: digits => readCode 16 digits >>= charOfCode
  | digits => readCode 10 digits >>= charOfCode

/--
The character that the reference with this name stands for. The text is `size` bytes long, and `rest`
is what is left of it at the start of the name.
-/
def resolveReference (size : Nat) (rest name : List Char) : Except ReferenceError Char :=
  match name with
  | '#' :: digits => (readCharRef digits).mapError .charRef
  | name =>
    match entity? name with
    | some c => .ok c
    | none =>
      let position := size - Utf8.size rest
      .error (.unknownEntity position (position + Utf8.size name) (String.ofList name))

def endsName (c : Char) : Bool :=
  c == '&' || c == ';'

def unescapeRest (size : Nat) : List Char → Except ReferenceError (List Char)
  | [] => .ok []
  | c :: rest =>
    if c = '&' then
      match _h : Text.cutAt? endsName rest with
      | some (name, ';', after) =>
        match resolveReference size rest name with
        | .error error => .error error
        | .ok c => (unescapeRest size after).map (c :: ·)
      | _ => .error (.unterminated (size - Utf8.size (c :: rest)) size)
    else
      (unescapeRest size rest).map (c :: ·)
termination_by cs => cs.length
decreasing_by
  · have := congrArg List.length (Text.eq_of_cutAt? _h)
    simp only [List.length_append, List.length_cons] at this ⊢
    omega
  · simp

def unescape (cs : List Char) : Except ReferenceError (List Char) :=
  unescapeRest (Utf8.size cs) cs

theorem unescapeRest_reference {size : Nat} {name rest : List Char} {c : Char}
    (hname : ∀ x ∈ name, endsName x = false)
    (hc : ∀ text, resolveReference size text name = .ok c) :
    unescapeRest size ('&' :: (name ++ ';' :: rest)) = (unescapeRest size rest).map (c :: ·) := by
  have hcut : Text.cutAt? endsName (name ++ ';' :: rest) = some (name, ';', rest) := by
    clear hc
    induction name with
    | nil => simp [Text.cutAt?, endsName]
    | cons x name ih =>
      have hx := hname x List.mem_cons_self
      have := ih fun y hy => hname y (List.mem_cons_of_mem _ hy)
      simp [Text.cutAt?, hx, this]
  rw [unescapeRest]
  simp only [↓reduceIte]
  split
  · next h =>
    rw [hcut] at h
    simp only [Option.some.injEq, Prod.mk.injEq, true_and] at h
    obtain ⟨rfl, rfl⟩ := h
    rw [hc]
  · next h => exact absurd hcut (h _ _)

theorem unescapeRest_escapeChar (size : Nat) (c : Char) (rest : List Char) :
    unescapeRest size (escapeChar c ++ rest) = (unescapeRest size rest).map (c :: ·) := by
  have reference : ∀ (name : List Char) (x : Char), (∀ y ∈ name, endsName y = false) →
      (∀ text, resolveReference size text name = .ok x) →
      unescapeRest size ('&' :: (name ++ ';' :: rest)) = (unescapeRest size rest).map (x :: ·) :=
    fun _ _ hname hx => unescapeRest_reference hname hx
  unfold escapeChar
  split
  · next h => subst h; exact reference ['l', 't'] '<' (by simp [endsName]) fun _ => rfl
  split
  · next h => subst h; exact reference ['g', 't'] '>' (by simp [endsName]) fun _ => rfl
  split
  · next h => subst h; exact reference ['a', 'm', 'p'] '&' (by simp [endsName]) fun _ => rfl
  split
  · next h => subst h; exact reference ['a', 'p', 'o', 's'] '\'' (by simp [endsName]) fun _ => rfl
  split
  · next h => subst h; exact reference ['q', 'u', 'o', 't'] '"' (by simp [endsName]) fun _ => rfl
  · next hamp _ _ =>
    rw [List.singleton_append, unescapeRest, if_neg (by assumption)]

theorem unescapeRest_flatMap {size : Nat} {write : Char → List Char}
    (h : ∀ c rest, unescapeRest size (write c ++ rest) = (unescapeRest size rest).map (c :: ·))
    (cs : List Char) : unescapeRest size (cs.flatMap write) = .ok cs := by
  induction cs with
  | nil => simp [unescapeRest]
  | cons c cs ih =>
    rw [List.flatMap_cons, h, ih]
    rfl

theorem unescape_escape (cs : List Char) : unescape (escape cs) = .ok cs :=
  unescapeRest_flatMap (unescapeRest_escapeChar _) cs

end Xml
end XmlPipeline
