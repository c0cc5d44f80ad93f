import XmlPipeline.Text.Cut
import XmlPipeline.Xml.SyntaxError

/-!
This module contains the division of a text into pieces of markup: runs of character data, tags,
CDATA sections, and the pieces that hold nothing for the reader of a document (comments, processing
instructions, declarations). Every piece takes at least one character off the text.
-/

namespace XmlPipeline
namespace Xml

def isSpace (c : Char) : Bool :=
  c == ' ' || c == '\t' || c == '\r' || c == '\n'

/--
A piece of markup. The content of a tag is what stands between its delimiters.
-/
inductive Markup where
  | text (raw : List Char)
  | cdata (content : List Char)
  | startTag (content : List Char)
  | emptyTag (content : List Char)
  | endTag (content : List Char)
  | ignored
  deriving DecidableEq, Repr

namespace Markup

/--
Cut a tag from the text after it: at the first `>` outside of quotes. `quote` is the quote that is
open.
-/
def cutTag? (quote : Option Char) : List Char → Option (List Char × List Char)
  | [] => none
  | c :: cs =>
    match quote with
    | some q => more c (cutTag? (if c = q then none else some q) cs)
    | none =>
      if c = '>' then some ([], cs)
      else more c (cutTag? (if c = '\'' ∨ c = '"' then some c else none) cs)
where
  more (c : Char) : Option (List Char × List Char) → Option (List Char × List Char)
    | none => none
    | some (content, after) => some (c :: content, after)

theorem eq_of_cutTag? {quote : Option Char} {cs content after : List Char}
    (h : cutTag? quote cs = some (content, after)) : cs = content ++ '>' :: after := by
  induction cs generalizing quote content with
  | nil => simp [cutTag?] at h
  | cons c cs ih =>
    have step : ∀ {quote}, cutTag?.more c (cutTag? quote cs) = some (content, after) →
        c :: cs = content ++ '>' :: after := by
      intro quote h
      cases hcut : cutTag? quote cs with
      | none => simp [hcut, cutTag?.more] at h
      | some cut =>
        obtain ⟨inner, rest⟩ := cut
        simp only [hcut, cutTag?.more, Option.some.injEq, Prod.mk.injEq] at h
        obtain ⟨rfl, rfl⟩ := h
        simp [ih hcut]
    simp only [cutTag?] at h
    split at h
    · exact step h
    · split at h
      · simp_all
      · exact step h

/--
Cut the inside of a document type declaration from the text after it: at the `>` that closes it.
`depth` counts the angle brackets that are open inside.
-/
def cutDoctype? (depth : Nat) : List Char → Option (List Char × List Char)
  | [] => none
  | c :: cs =>
    if c = '<' then more c (cutDoctype? (depth + 1) cs)
    else if c = '>' then
      match depth with
      | 0 => some ([], cs)
      | depth + 1 => more c (cutDoctype? depth cs)
    else more c (cutDoctype? depth cs)
where
  more (c : Char) : Option (List Char × List Char) → Option (List Char × List Char)
    | none => none
    | some (content, after) => some (c :: content, after)

theorem length_of_cutDoctype? {depth : Nat} {cs content after : List Char}
    (h : cutDoctype? depth cs = some (content, after)) : after.length < cs.length := by
  induction cs generalizing depth content with
  | nil => simp [cutDoctype?] at h
  | cons c cs ih =>
    have step : ∀ {depth}, cutDoctype?.more c (cutDoctype? depth cs) = some (content, after) →
        after.length < (c :: cs).length := by
      intro depth h
      cases hcut : cutDoctype? depth cs with
      | none => simp [hcut, cutDoctype?.more] at h
      | some cut =>
        obtain ⟨inner, rest⟩ := cut
        simp only [hcut, cutDoctype?.more, Option.some.injEq, Prod.mk.injEq] at h
        obtain ⟨rfl, rfl⟩ := h
        have := ih hcut
        simp only [List.length_cons]
        omega
    simp only [cutDoctype?] at h
    split at h
    · exact step h
    · split at h
      · split at h
        · simp_all
        · exact step h
      · exact step h

def afterKeyword? (marker cs : List Char) : Option (List Char) :=
  (Text.afterMarker? marker (cs.map Char.toUpper)).map fun _ => cs.drop marker.length

/--
The content of a closing tag without the space at its end, unless there is nothing else.
-/
def endName (content : List Char) : List Char :=
  match content.reverse.dropWhile isSpace with
  | [] => content
  | name => name.reverse

def scanDeclaration (cs : List Char) : Except SyntaxError (Markup × List Char) :=
  match cs with
  | '[' :: cs =>
    match Text.afterMarker? ['C', 'D', 'A', 'T', 'A', '['] cs with
    | none => .error .unclosedCData
    | some cs =>
      match Text.cutAround? [']', ']', '>'] cs with
      | none => .error .unclosedCData
      | some (content, after) => .ok (.cdata content, after)
  | '-' :: cs =>
    match cs with
    | '-' :: cs =>
      match Text.cutAround? ['-', '-', '>'] cs with
      | none => .error .unclosedComment
      | some (_, after) => .ok (.ignored, after)
    | _ => .error .unclosedComment
  | c :: cs =>
    if c = 'D' ∨ c = 'd' then
      match afterKeyword? ['O', 'C', 'T', 'Y', 'P', 'E'] cs with
      | none => .error .unclosedDoctype
      | some cs =>
        match cutDoctype? 0 cs with
        | none => .error .unclosedDoctype
        | some (content, after) =>
          if content.all isSpace then .error .unnamedDoctype else .ok (.ignored, after)
    else
      .error .unknownMarkup
  | [] => .error .unknownMarkup

def scanInstruction (cs : List Char) : Except SyntaxError (Markup × List Char) :=
  match cs with
  | '>' :: _ => .error .unclosedInstruction
  | cs =>
    match Text.cutAround? ['?', '>'] cs with
    | none => .error .unclosedInstruction
    | some (_, after) => .ok (.ignored, after)

def ofTagContent (content : List Char) : Markup :=
  match content.getLast? with
  | some '/' => .emptyTag content.dropLast
  | _ => .startTag content

def scanTag (cs : List Char) : Except SyntaxError (Markup × List Char) :=
  match cs with
  | '!' :: cs => scanDeclaration cs
  | '?' :: cs => scanInstruction cs
  | '/' :: cs =>
    match cutTag? none cs with
    | none => .error .unclosedTag
    | some (content, after) => .ok (.endTag (endName content), after)
  | cs =>
    match cutTag? none cs with
    | none => .error .unclosedTag
    | some (content, after) => .ok (ofTagContent content, after)

def scan (c : Char) (cs : List Char) : Except SyntaxError (Markup × List Char) :=
  if c = '<' then
    scanTag cs
  else
    .ok (.text (c :: cs.takeWhile (· ≠ '<')), cs.dropWhile (· ≠ '<'))

theorem scanDeclaration_length {cs : List Char} {piece : Markup} {after : List Char}
    (h : scanDeclaration cs = .ok (piece, after)) : after.length < cs.length := by
  unfold scanDeclaration at h
  split at h
  · next cs =>
    split at h
    · simp at h
    · next inner hinner =>
      split at h
      · simp at h
      · next content rest hcut =>
        have hinner := congrArg List.length (Text.eq_of_afterMarker? hinner)
        have hcut := congrArg List.length (Text.eq_of_cutAround? hcut)
        simp only [Except.ok.injEq, Prod.mk.injEq] at h
        obtain ⟨-, rfl⟩ := h
        simp only [List.length_append, List.length_cons, List.length_nil] at hinner hcut ⊢
        omega
  · split at h
    · split at h
      · simp at h
      · next content rest hcut =>
        have hcut := congrArg List.length (Text.eq_of_cutAround? hcut)
        simp only [Except.ok.injEq, Prod.mk.injEq] at h
        obtain ⟨-, rfl⟩ := h
        simp only [List.length_append, List.length_cons, List.length_nil] at hcut ⊢
        omega
    · simp at h
  · split at h
    · split at h
      · simp at h
      · next inner hinner =>
        split at h
        · simp at h
        · next content rest hcut =>
          have hcut := length_of_cutDoctype? hcut
          split at h
          · simp at h
          · simp only [Except.ok.injEq, Prod.mk.injEq] at h
            obtain ⟨-, rfl⟩ := h
            simp only [afterKeyword?, Option.map_eq_some_iff] at hinner
            obtain ⟨_, _, rfl⟩ := hinner
            simp only [List.length_drop, List.length_cons] at hcut ⊢
            omega
    · simp at h
  · simp at h

theorem scanInstruction_length {cs : List Char} {piece : Markup} {after : List Char}
    (h : scanInstruction cs = .ok (piece, after)) : after.length < cs.length := by
  unfold scanInstruction at h
  split at h
  · simp at h
  · split at h
    · simp at h
    · next content rest hcut =>
      have hcut := congrArg List.length (Text.eq_of_cutAround? hcut)
      simp only [Except.ok.injEq, Prod.mk.injEq] at h
      obtain ⟨-, rfl⟩ := h
      simp only [List.length_append, List.length_cons, List.length_nil] at hcut ⊢
      omega

theorem scanTag_length {cs : List Char} {piece : Markup} {after : List Char}
    (h : scanTag cs = .ok (piece, after)) : after.length < cs.length := by
  have cut : ∀ {tag content rest : List Char}, cutTag? none tag = some (content, rest) →
      rest.length < tag.length := by
    intro tag content rest hcut
    have := congrArg List.length (eq_of_cutTag? hcut)
    simp only [List.length_append, List.length_cons] at this
    omega
  unfold scanTag at h
  split at h
  · have := scanDeclaration_length h
    simp only [List.length_cons]
    omega
  · have := scanInstruction_length h
    simp only [List.length_cons]
    omega
  · split at h
    · simp at h
    · next hcut =>
      simp only [Except.ok.injEq, Prod.mk.injEq] at h
      obtain ⟨-, rfl⟩ := h
      have := cut hcut
      simp only [List.length_cons]
      omega
  · split at h
    · simp at h
    · next hcut =>
      simp only [Except.ok.injEq, Prod.mk.injEq] at h
      obtain ⟨-, rfl⟩ := h
      exact cut hcut

theorem scan_length {c : Char} {cs : List Char} {piece : Markup} {after : List Char}
    (h : scan c cs = .ok (piece, after)) : after.length ≤ cs.length := by
  unfold scan at h
  split at h
  · exact Nat.le_of_lt (scanTag_length h)
  · simp only [Except.ok.injEq, Prod.mk.injEq] at h
    obtain ⟨-, rfl⟩ := h
    exact (List.dropWhile_sublist _).length_le

end Markup
end Xml
end XmlPipeline
