import XmlPipeline.Error.Basic
import XmlPipeline.Xml.Namespace

/-!
This module contains the reader of XML texts, which yields one event after the other. An empty element
is read as an opening and a closing, a CDATA section as text; comments, processing instructions and
declarations are passed over. Each event takes up a part of the text, so reading comes to an end.
-/

namespace XmlPipeline
namespace Xml

structure ReadFailure where
  error : SyntaxError
  position : Nat
  deriving DecidableEq, Repr

namespace ReadFailure

def toError (failure : ReadFailure) : Error :=
  .xmlSyntax failure.error.message (some failure.position)

end ReadFailure

/--
A reader in the middle of a text of `size` bytes, of which `rest` is still to be read. The innermost
element comes first among the open ones.
-/
structure Reader where
  size : Nat
  rest : List Char
  /-- The names of the open elements as they are written. -/
  tags : List (List Char) := []
  scopes : List Scope := []
  depth : Nat := 0
  /-- Whether the innermost element is an empty one that is closed next. -/
  pending : Bool := false
  finished : Bool := false
  deriving Repr

namespace Reader

inductive Step where
  | event (event : Event) (reader : Reader)
  | skip (reader : Reader)
  | failure (error : SyntaxError)
  | done

/--
A byte order mark at the start of a text is no part of it.
-/
def withoutMark (cs : List Char) : List Char :=
  match cs with
  | '\uFEFF' :: cs => cs
  | cs => cs

def ofText (source : String) : Reader :=
  let rest := withoutMark source.toList
  { size := Utf8.size rest, rest }

def position (reader : Reader) : Nat :=
  reader.size - Utf8.size reader.rest

def scope (reader : Reader) : Scope :=
  reader.scopes.head?.getD .initial

def enter (reader : Reader) (content : List Char) (isEmpty : Bool) : Step :=
  match reader.scope.openElement content with
  | .error error => .failure error
  | .ok (start, inner) =>
    .event (.opening start) { reader with
      tags := Tag.nameOf content :: reader.tags
      scopes := inner :: reader.scopes
      depth := reader.depth + 1
      pending := isEmpty }

/--
Close the innermost element. The name is the one in its closing tag, where the declarations of the
element are still in force.
-/
def leave (reader : Reader) (name : List Char) : Step :=
  match reader.scope.elementName name with
  | .error error => .failure error
  | .ok name =>
    .event (.closing name) { reader with
      scopes := reader.scopes.tail
      depth := reader.depth - 1 }

def take (reader : Reader) (piece : Markup) (rest : List Char) : Step :=
  let reader := { reader with rest }
  match piece with
  | .ignored => .skip reader
  | .text raw =>
    match unescape raw with
    | .error error => .failure (.reference error)
    | .ok [] => .skip reader
    | .ok content => .event (.text (String.ofList content)) reader
  | .cdata [] => .skip reader
  | .cdata content => .event (.text (String.ofList content)) reader
  | .startTag content => reader.enter content false
  | .emptyTag content => reader.enter content true
  | .endTag name =>
    match reader.tags with
    | [] => .failure (.unmatchedEnd (String.ofList name))
    | tag :: tags =>
      if tag = name then
        leave { reader with tags } name
      else
        .failure (.mismatchedEnd (String.ofList tag) (String.ofList name))

def step (reader : Reader) : Step :=
  if reader.pending then
    match reader.tags with
    | [] => .done
    | tag :: tags => leave { reader with tags, pending := false } tag
  else
    match reader.rest with
    | [] => if reader.depth = 0 then .done else .failure (.unclosedElements reader.depth)
    | c :: cs =>
      match Markup.scan c cs with
      | .error error => .failure error
      | .ok (piece, rest) => reader.take piece rest

/--
How much there is left to do. A character can make for two events, the opening and the closing of an
empty element.
-/
def remaining (reader : Reader) : Nat :=
  2 * reader.rest.length + if reader.pending then 1 else 0

def Step.reader? : Step → Option Reader
  | event _ reader => some reader
  | skip reader => some reader
  | _ => none

theorem enter_reader? {reader next : Reader} {content : List Char} {isEmpty : Bool}
    (h : (reader.enter content isEmpty).reader? = some next) : next.rest = reader.rest := by
  unfold enter at h
  split at h
  · simp [Step.reader?] at h
  · simp only [Step.reader?, Option.some.injEq] at h
    rw [← h]

theorem leave_reader? {reader next : Reader} {name : List Char}
    (h : (reader.leave name).reader? = some next) :
    next.rest = reader.rest ∧ next.pending = reader.pending := by
  unfold leave at h
  split at h
  · simp [Step.reader?] at h
  · simp only [Step.reader?, Option.some.injEq] at h
    rw [← h]
    exact ⟨rfl, rfl⟩

theorem take_reader? {reader next : Reader} {piece : Markup} {rest : List Char}
    (h : (reader.take piece rest).reader? = some next) : next.rest = rest := by
  cases piece with
  | ignored =>
    simp only [take, Step.reader?, Option.some.injEq] at h
    rw [← h]
  | text raw =>
    simp only [take] at h
    split at h
    · simp [Step.reader?] at h
    · simp only [Step.reader?, Option.some.injEq] at h
      rw [← h]
    · simp only [Step.reader?, Option.some.injEq] at h
      rw [← h]
  | cdata content =>
    cases content with
    | nil =>
      simp only [take, Step.reader?, Option.some.injEq] at h
      rw [← h]
    | cons =>
      simp only [take, Step.reader?, Option.some.injEq] at h
      rw [← h]
  | startTag content => exact enter_reader? h
  | emptyTag content => exact enter_reader? h
  | endTag name =>
    simp only [take] at h
    split at h
    · simp [Step.reader?] at h
    · split at h
      · exact (leave_reader? h).1
      · simp [Step.reader?] at h

theorem step_remaining {reader next : Reader} (h : reader.step.reader? = some next) :
    next.remaining < reader.remaining := by
  unfold step at h
  split at h
  · next hpending =>
    split at h
    · simp [Step.reader?] at h
    · obtain ⟨hrest, hnext⟩ := leave_reader? h
      simp [remaining, hpending, hrest, hnext]
  · next hpending =>
    split at h
    · split at h <;> simp [Step.reader?] at h
    · next c cs hrest =>
      split at h
      · simp [Step.reader?] at h
      · next piece rest hscan =>
        have hlength := Markup.scan_length hscan
        have hnext := take_reader? h
        simp only [remaining, hnext, hrest, List.length_cons]
        split <;> omega

/--
The next event, if there is one. After the end of the text and after a failure there is none.
-/
def next (reader : Reader) : Except ReadFailure (Option Event) × Reader :=
  if reader.finished then
    (.ok none, reader)
  else
    match _h : reader.step with
    | .event event reader => (.ok (some event), reader)
    | .skip reader => reader.next
    | .failure error =>
      (.error { error, position := reader.position }, { reader with finished := true })
    | .done => (.ok none, { reader with finished := true })
termination_by reader.remaining
decreasing_by exact step_remaining (by rw [_h]; rfl)

def events (reader : Reader) : List Event × Option ReadFailure :=
  match _h : reader.step with
  | .event event reader =>
    let (more, failure) := reader.events
    (event :: more, failure)
  | .skip reader => reader.events
  | .failure error => ([], some { error, position := reader.position })
  | .done => ([], none)
termination_by reader.remaining
decreasing_by
  · exact step_remaining (by rw [_h]; rfl)
  · exact step_remaining (by rw [_h]; rfl)

end Reader
end Xml
end XmlPipeline
