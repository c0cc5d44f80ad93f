import XmlPipeline.Proofs.Xml.Indentation

/-!
This module contains the line breaks of indented markup. The main statement is that a well-formed document
is read from its indented markup with a text between each two tags that follow each other, and as it was
everywhere else.
-/

namespace XmlPipeline
namespace Xml

def lineBreak (depth : Nat) : List Char :=
  '\n' :: List.replicate (2 * depth) ' '

namespace Event

def around (depth : Nat) : Event → Nat
  | opening _ => depth
  | text _ => depth
  | closing _ => depth - 1

def inside (depth : Nat) : Event → Nat
  | opening _ => depth + 1
  | text _ => depth
  | closing _ => depth - 1

end Event

def withLines (depth : Nat) : List Event → List Event
  | first :: second :: events =>
    let between :=
      if first.isTag && second.isTag then
        [Event.text (String.ofList (lineBreak (second.around (first.inside depth))))]
      else
        []
    first :: between ++ withLines (first.inside depth) (second :: events)
  | events => events

/-! ### Markup with line breaks -/

theorem escape_lineBreak (depth : Nat) : escape (lineBreak depth) = lineBreak depth :=
  Layout.escape_lead { indented := true, level := depth, startsLine := true }

theorem Layout.put_event {layout : Layout} (h : layout.indented = true) (event : Event) :
    layout.put event.toPiece
      = ((if layout.startsLine && event.isTag then lineBreak (event.around layout.level) else [])
          ++ event.markup,
        { indented := true, level := event.inside layout.level, startsLine := event.isTag }) := by
  obtain ⟨indented, level, startsLine⟩ := layout
  obtain rfl : indented = true := h
  cases event with
  | opening start =>
    cases startsLine <;> simp [put, lead, lineBreak, Event.toPiece, Event.around, Event.inside, Event.markup]
  | text content =>
    cases startsLine <;> simp [put, Event.toPiece, Event.inside, Event.markup]
  | closing name =>
    cases startsLine <;> simp [put, lead, lineBreak, Event.toPiece, Event.around, Event.inside, Event.markup]

theorem Layout.render_lines (depth : Nat) (first : Event) (events : List Event) :
    first.markup
        ++ render { indented := true, level := first.inside depth, startsLine := first.isTag } events
      = (withLines depth (first :: events)).flatMap Event.markup := by
  induction events generalizing depth first with
  | nil => simp [render, withLines]
  | cons second events ih =>
    rw [render, Layout.put_event rfl, withLines]
    simp only
    rw [List.append_assoc, ih (first.inside depth) second]
    split
    · simp [Event.markup, escape_lineBreak]
    · simp

theorem Document.toXml_lines (start : ElementStart) (events : List Event) :
    toXml { events := .opening start :: events } true
      = String.ofList ((withLines 0 (.opening start :: events)).flatMap Event.markup) := by
  unfold toXml
  rw [← Layout.render_lines, Layout.render, Layout.put_event rfl]
  rfl

/-! ### Contents with line breaks -/

namespace Content

def behindBreak (broken : Bool) (depth : Nat) (content : Content) : Content :=
  if broken then text (String.ofList (lineBreak depth)) content else content

/--
What is inside of an element that `depth` elements are around, with a line break before each tag that
follows another tag. The closing tag of the element is the last one. `afterTag` says whether a tag stands
right before the content.
-/
def lined (depth : Nat) (afterTag : Bool) : Content → Content
  | empty => behindBreak afterTag depth empty
  | text characters rest => text characters (rest.lined depth false)
  | element start inner rest =>
    behindBreak afterTag (depth + 1)
      (element start (inner.lined (depth + 1) true) (rest.lined depth true))

theorem events_lined (content : Content) (outer depth : Nat) (first : Event)
    (h : first.inside outer = depth + 1) (name : QName) (more : List Event) :
    withLines outer (first :: (content.events ++ .closing name :: more))
      = first :: (content.lined depth first.isTag).events
        ++ withLines (depth + 1) (.closing name :: more) := by
  -- The event before the content changes with the induction, and with it the depth before that event.
  induction content generalizing depth outer first name more with
  | empty =>
    rw [events, List.nil_append, withLines, h]
    cases first.isTag <;> simp [lined, behindBreak, events, Event.around]
  | text characters rest ih =>
    have hrest := ih (depth + 1) depth (.text characters) rfl name more
    rw [events, List.cons_append, withLines, h, hrest]
    simp [lined, events]
  | element start inner rest ihInner ihRest =>
    have hinner := ihInner (depth + 1) (depth + 1) (.opening start) rfl start.name
      (rest.events ++ .closing name :: more)
    have hrest := ihRest (depth + 2) depth (.closing start.name) rfl name more
    have hsplit : (element start inner rest).events ++ .closing name :: more
        = .opening start :: (inner.events ++ .closing start.name
          :: (rest.events ++ .closing name :: more)) := by
      simp [events]
    rw [hsplit, withLines, h, hinner, hrest]
    cases first.isTag <;> simp [lined, behindBreak, events, Event.around]

variable {depth : Nat} {afterTag : Bool} {content : Content}

theorem spaced_lined (content : Content) (depth : Nat) (afterTag : Bool) :
    content.Spaced (content.lined depth afterTag) := by
  have hbreak : ∀ {broken : Bool} {level : Nat} {plain spaced : Content}, plain.Spaced spaced →
      plain.Spaced (behindBreak broken level spaced) := by
    intro broken level plain spaced hspaced
    cases broken with
    | false => exact hspaced
    | true => exact .added (by simp [lineBreak]) hspaced
  induction content generalizing depth afterTag with
  | empty => exact hbreak .empty
  | text characters rest ih => exact .text (ih depth false)
  | element start inner rest ihInner ihRest =>
    exact hbreak (.element (ihInner (depth + 1) true) (ihRest depth true))

theorem startsWithText_lined (h : ¬ content.StartsWithText) :
    ¬ (content.lined depth false).StartsWithText := by
  cases content with
  | empty => exact h
  | text characters rest => exact absurd trivial h
  | element start inner rest => exact id

theorem textsApart_lined (h : content.TextsApart) : (content.lined depth afterTag).TextsApart := by
  induction content generalizing depth afterTag with
  | empty => cases afterTag <;> simp [lined, behindBreak, TextsApart, StartsWithText]
  | text characters rest ih => exact ⟨startsWithText_lined h.1, ih h.2⟩
  | element start inner rest ihInner ihRest =>
    have hapart : (element start (inner.lined (depth + 1) true) (rest.lined depth true)).TextsApart :=
      ⟨ihInner h.1, ihRest h.2⟩
    cases afterTag with
    | false => exact hapart
    | true => exact ⟨id, hapart⟩

end Content

namespace Document

theorem read_toXml_lined {start : ElementStart} {inner : Content}
    (h : (Content.element start inner .empty).WellFormed []) :
    Document.read (toXml { events := (Content.element start inner .empty).events } true)
      = .ok { events := (Content.element start (inner.lined 0 true) .empty).events } := by
  let spaced := Content.element start (inner.lined 0 true) .empty
  have hspaced : (Content.element start inner .empty).Spaced spaced :=
    .element (inner.spaced_lined 0 true) .empty
  have hreadable : spaced.Readable .initial := hspaced.readable (h.readable (by simp))
  have hapart : spaced.TextsApart := ⟨Content.textsApart_lined h.textsApart.1, trivial⟩
  have hevents : withLines 0 (Content.element start inner .empty).events = spaced.events :=
    inner.events_lined 0 0 (.opening start) rfl start.name []
  have hmarkup : toXml { events := (Content.element start inner .empty).events } true
      = String.ofList (spaced.events.flatMap Event.markup) := by
    rw [← hevents]
    exact toXml_lines start _
  rw [hmarkup]
  exact read_markup hreadable hapart

/--
Indentation adds a text between each two tags that follow each other, and nothing else.
-/
theorem read_toXml_indented (document : Document) (h : document.WellFormed) :
    Document.read (document.toXml true) = .ok { events := withLines 0 document.events } := by
  obtain ⟨events⟩ := document
  obtain ⟨start, inner, hevents, hcontent⟩ := h
  obtain rfl : events = (Content.element start inner .empty).events := hevents
  have hlines := inner.events_lined 0 0 (.opening start) rfl start.name []
  rw [read_toXml_lined hcontent]
  exact congrArg (Except.ok ∘ Document.mk) hlines.symm

def listContent : Content :=
  -- Text before a tag and after one, and an element without anything inside.
  .element { name := { localName := "list" } }
    (.element { name := { localName := "entry" } }
      (.text " x\n" (.element { name := { localName := "mark" } } (.text "y" .empty) .empty))
      (.element { name := { localName := "none" } } .empty (.text "z" .empty)))
    .empty

theorem read_toXml_indented_listContent :
    let document : Document := { events := listContent.events }
    document.WellFormed
      ∧ Document.read (document.toXml true) = .ok { events := [
        .opening { name := { localName := "list" } }, .text "\n  ",
        .opening { name := { localName := "entry" } }, .text " x\n",
        .opening { name := { localName := "mark" } }, .text "y", .closing { localName := "mark" },
        .text "\n  ", .closing { localName := "entry" }, .text "\n  ",
        .opening { name := { localName := "none" } }, .text "\n  ", .closing { localName := "none" },
        .text "z", .closing { localName := "list" }] } := by
  have hwellFormed : ({ events := listContent.events } : Document).WellFormed :=
    ⟨_, _, rfl, by decide⟩
  exact ⟨hwellFormed, read_toXml_indented _ hwellFormed⟩

end Document
end Xml
end XmlPipeline
