import XmlPipeline.Proofs.Xml.WrittenTag

/-!
This module contains the reading of written documents. The main statement is that a well-formed document
is read back from its markup as it was.
-/

namespace XmlPipeline
namespace Xml

namespace Event

def markup : Event → List Char
  | opening start => '<' :: start.tagChars ++ ['>']
  | text content => escape content.toList
  | closing name => '<' :: '/' :: name.lexical.toList ++ ['>']

def spelled (spelling : Spelling) : Event → List Char
  | opening start => '<' :: start.spelled spelling ++ ['>']
  | text content => spelling.write content.toList
  | closing name => '<' :: '/' :: name.lexical.toList ++ ['>']

theorem markup_eq_spelled (event : Event) : event.markup = event.spelled .escaped := by
  cases event with
  | opening start => simp [markup, spelled, start.tagChars_eq]
  | text content => rfl
  | closing name => rfl

end Event

theorem Layout.render_plain {layout : Layout} (h : layout.indented = false) (events : List Event) :
    layout.render events = events.flatMap Event.markup := by
  induction events generalizing layout with
  | nil => rfl
  | cons event events ih =>
    have hlead : ∀ level startsLine, lead { indented := false, level, startsLine } = [] := by
      intro level startsLine
      rfl
    obtain ⟨indented, level, startsLine⟩ := layout
    subst h
    rw [render, List.flatMap_cons]
    cases event with
    | opening start =>
      rw [ih rfl]
      simp [put, Event.toPiece, Event.markup, hlead]
    | text content =>
      rw [ih rfl]
      simp [put, Event.toPiece, Event.markup]
    | closing name =>
      rw [ih rfl]
      simp [put, Event.toPiece, Event.markup, hlead]

theorem Layout.put_indented (layout : Layout) (piece : Piece) :
    (layout.put piece).2.indented = layout.indented := by
  cases piece <;> rfl

namespace Reader

variable (spelling : Spelling) {reader next : Reader} {event : Event} {tail : List Char}

/-! ### One piece of markup -/

theorem events_of_event (h : reader.step = .event event next) :
    reader.events = (event :: next.events.1, next.events.2) := by
  rw [events]
  split
  · next heq =>
    rw [h] at heq
    obtain ⟨rfl, rfl⟩ := Step.event.inj heq
    rfl
  · next heq => simp [h] at heq
  · next heq => simp [h] at heq
  · next heq => simp [h] at heq

theorem events_of_skip (h : reader.step = .skip next) : reader.events = next.events := by
  rw [events]
  split
  · next heq => simp [h] at heq
  · next heq =>
    rw [h] at heq
    obtain rfl := Step.skip.inj heq
    rfl
  · next heq => simp [h] at heq
  · next heq => simp [h] at heq

theorem events_of_done (h : reader.step = .done) : reader.events = ([], none) := by
  rw [events]
  split
  · next heq => simp [h] at heq
  · next heq => simp [h] at heq
  · next heq => simp [h] at heq
  · rfl

theorem withoutMark_of_head {cs : List Char} (h : cs.head? ≠ some '\uFEFF') : withoutMark cs = cs := by
  unfold withoutMark
  split
  · simp at h
  · rfl

def EndsText (tail : List Char) : Prop :=
  ∀ c ∈ tail.head?, c = '<'

theorem span_text {cs : List Char} (h : ∀ c ∈ cs, decide (c ≠ '<') = true) (htail : EndsText tail) :
    (cs ++ tail).takeWhile (· ≠ '<') = cs ∧ (cs ++ tail).dropWhile (· ≠ '<') = tail := by
  rw [List.takeWhile_append_of_pos h, List.dropWhile_append_of_pos h]
  cases tail with
  | nil => simp
  | cons c tail =>
    obtain rfl : c = '<' := htail c rfl
    simp

theorem step_text {content : String} (hpending : reader.pending = false) (hne : content ≠ "")
    (htail : EndsText tail) (hrest : reader.rest = (Event.text content).spelled spelling ++ tail) :
    reader.step = .event (.text content) { reader with rest := tail } := by
  -- The text goes up to the next tag, for spelled text has no markup in it.
  have hplain : ∀ c ∈ spelling.write content.toList, decide (c ≠ '<') = true := by
    intro c hc
    rw [decide_eq_true_iff]
    rintro rfl
    exact spelling.not_mem_write (by decide) content.toList hc
  have hunescape := spelling.unescape_write content.toList
  rw [Event.spelled] at hrest
  cases hwritten : spelling.write content.toList with
  | nil =>
    rw [hwritten] at hunescape
    simp [unescape, unescapeRest] at hunescape
    exact absurd hunescape hne
  | cons c cs =>
    rw [hwritten] at hplain hrest hunescape
    have hspan := span_text (fun x hx => hplain x (List.mem_cons_of_mem _ hx)) htail
    have hc : c ≠ '<' := by simpa using hplain c List.mem_cons_self
    unfold step
    rw [hpending, hrest]
    simp only [List.cons_append, Markup.scan, hc, Bool.false_eq_true, ↓reduceIte]
    rw [hspan.1, hspan.2]
    simp only [take]
    rw [hunescape, hpending]
    split
    · next heq => cases heq
    · next heq => exact absurd (String.toList_eq_nil_iff.mp (Except.ok.inj heq)) hne
    · next heq => rw [← Except.ok.inj heq, String.ofList_toList]

theorem scanTag_of_ne {first : Char} (h : first ≠ '!' ∧ first ≠ '?' ∧ first ≠ '/') (rest : List Char) :
    Markup.scanTag (first :: rest)
      = match Markup.cutTag? none (first :: rest) with
        | none => .error .unclosedTag
        | some (content, after) => .ok (Markup.ofTagContent content, after) := by
  unfold Markup.scanTag
  split
  · next heq => exact absurd (List.cons.inj heq).1 h.1
  · next heq => exact absurd (List.cons.inj heq).1 h.2.1
  · next heq => exact absurd (List.cons.inj heq).1 h.2.2
  · rfl

theorem getLast?_writtenChars (parts : List (String × String)) (hne : parts ≠ []) :
    (spelling.writtenChars parts).getLast? = some '"' := by
  induction parts with
  | nil => exact absurd rfl hne
  | cons part parts ih =>
    obtain ⟨key, value⟩ := part
    cases parts with
    | nil =>
      have hlast : spelling.writtenChars [(key, value)]
          = (' ' :: key.toList ++ '=' :: '"' :: spelling.write value.toList) ++ ['"'] := by
        simp [Spelling.writtenChars, Spelling.attributeChars]
      rw [hlast, List.getLast?_concat]
    | cons next parts =>
      have hrest := ih (by simp)
      unfold Spelling.writtenChars at hrest ⊢
      rw [List.flatMap_cons, List.getLast?_append, hrest]
      rfl

theorem ofTagContent_spelled {start : ElementStart} (h : IsTagName start.name.lexical) :
    Markup.ofTagContent (start.spelled spelling) = .startTag (start.spelled spelling) := by
  -- A tag that ends with a slash would be one of an empty element.
  have hlast : (start.spelled spelling).getLast? ≠ some '/' := by
    rw [ElementStart.spelled, List.getLast?_append]
    by_cases hparts : start.parts = []
    · intro hslash
      have hmem := List.mem_of_getLast? (by simpa [hparts, Spelling.writtenChars] using hslash)
      exact (h.unmarked _ hmem).2.2 rfl
    · rw [getLast?_writtenChars spelling _ hparts]
      simp
  unfold Markup.ofTagContent
  split
  · next heq => exact absurd heq hlast
  · rfl

theorem scanTag_spelled {start : ElementStart} (h : IsTagName start.name.lexical)
    (hkeys : ∀ part ∈ start.parts, IsKey part.1) (tail : List Char) :
    Markup.scanTag (start.spelled spelling ++ '>' :: tail)
      = .ok (.startTag (start.spelled spelling), tail) := by
  have hcut := (ElementStart.closed_spelled spelling h.isKey hkeys).cutTag? tail
  cases hlist : start.name.lexical.toList with
  | nil => exact absurd (String.toList_eq_nil_iff.mp hlist) h.isKey.1
  | cons first rest =>
    have hfirst := h.unmarked first (by simp [hlist])
    have hcons : start.spelled spelling = first :: (rest ++ spelling.writtenChars start.parts) := by
      rw [ElementStart.spelled, hlist, List.cons_append]
    rw [← ofTagContent_spelled spelling h]
    rw [hcons, List.cons_append] at hcut ⊢
    rw [scanTag_of_ne hfirst, hcut]

theorem step_opening {scope : Scope} {start : ElementStart}
    (h : start.Readable (scope.addAll start.namespaces)) (hkept : start.Kept spelling)
    (hpending : reader.pending = false) (hscope : reader.scope = scope)
    (hrest : reader.rest = (Event.opening start).spelled spelling ++ tail) :
    reader.step = .event (.opening start) { reader with
      rest := tail
      tags := start.name.lexical.toList :: reader.tags
      scopes := scope.addAll start.namespaces :: reader.scopes
      depth := reader.depth + 1 } := by
  have htag := scanTag_spelled spelling h.writable.isTagName h.isKey tail
  have hmarkup : (Event.opening start).spelled spelling ++ tail
      = '<' :: (start.spelled spelling ++ '>' :: tail) := by
    simp [Event.spelled]
  have hname : Tag.nameOf (start.spelled spelling) = start.name.lexical.toList :=
    congrArg Tag.name (h.read_spelled spelling false)
  have hopen : Reader.scope { reader with rest := tail } = scope := hscope
  unfold step
  rw [hpending, hrest, hmarkup]
  simp only [Markup.scan, Bool.false_eq_true, ↓reduceIte]
  rw [htag]
  simp only [take, enter]
  rw [hopen, Scope.openElement_spelled spelling h hkept, hname]

theorem endName_of_isKey {name : String} (h : IsKey name) : Markup.endName name.toList = name.toList := by
  unfold Markup.endName
  cases hlist : name.toList.reverse with
  | nil => exact absurd (by simpa using hlist) h.1
  | cons last rest =>
    have hmem : last ∈ name.toList := by
      rw [← List.mem_reverse, hlist]
      exact List.mem_cons_self
    rw [List.dropWhile_cons_of_neg (by simp [(h.2 last hmem).1])]
    simp only
    rw [← hlist, List.reverse_reverse]

theorem scanTag_closing {name : String} (h : IsKey name) (tail : List Char) :
    Markup.scanTag ('/' :: (name.toList ++ '>' :: tail)) = .ok (.endTag name.toList, tail) := by
  have hclosed : Markup.Closed name.toList := Markup.Closed.plain fun c hc => (h.2 c hc).2.2
  unfold Markup.scanTag
  simp only
  rw [hclosed.cutTag? tail]
  simp only
  rw [endName_of_isKey h]

theorem step_closing {name : QName} {outer : List (List Char)}
    (h : name.IsWritable) (hpending : reader.pending = false)
    (htags : reader.tags = name.lexical.toList :: outer)
    (hname : reader.scope.elementName name.lexical.toList = .ok name)
    (hrest : reader.rest = (Event.closing name).spelled spelling ++ tail) :
    reader.step = .event (.closing name) { reader with
      rest := tail
      tags := outer
      scopes := reader.scopes.tail
      depth := reader.depth - 1 } := by
  have htag := scanTag_closing h.isKey tail
  have hmarkup : (Event.closing name).spelled spelling ++ tail
      = '<' :: '/' :: (name.lexical.toList ++ '>' :: tail) := by
    simp [Event.spelled]
  have hscope : scope { reader with rest := tail, tags := outer } = reader.scope := rfl
  unfold step
  rw [hpending, hrest, hmarkup]
  simp only [Markup.scan, Bool.false_eq_true, ↓reduceIte]
  rw [htag]
  simp only [take, htags, ↓reduceIte, leave]
  rw [hscope, hname, hpending]

/-! ### Whole contents -/

theorem endsText_spelled {content : Content} (h : ¬ content.StartsWithText) (htail : EndsText tail) :
    EndsText (content.events.flatMap (Event.spelled spelling) ++ tail) := by
  cases content with
  | empty => exact htail
  | text characters rest => exact absurd trivial h
  | element start inner rest =>
    intro c hc
    simpa [Content.events, Event.spelled, eq_comm] using hc

theorem events_spelled (content : Content) (reader : Reader) (tail : List Char) {scope : Scope}
    (h : content.Readable scope) (hapart : content.TextsApart)
    (hkept : ∀ start, .opening start ∈ content.events → start.Kept spelling)
    (hpending : reader.pending = false) (hscope : reader.scope = scope) (htail : EndsText tail)
    (hrest : reader.rest = content.events.flatMap (Event.spelled spelling) ++ tail) :
    reader.events = (content.events ++ ({ reader with rest := tail } : Reader).events.1,
      ({ reader with rest := tail } : Reader).events.2) := by
  -- Inside of an element the reader holds one more open element, so it changes with the induction.
  -- After the closing tag it is back to the elements that it had before.
  induction content generalizing scope reader tail with
  | empty =>
    have hsame : ({ reader with rest := tail } : Reader) = reader := by
      cases reader
      simp only [Content.events, List.flatMap_nil, List.nil_append] at hrest
      rw [hrest]
    rw [hsame]
    rfl
  | text characters rest ih =>
    obtain ⟨hne, hrestReadable⟩ := h
    have hends := endsText_spelled spelling hapart.1 htail
    have hfirst : reader.rest = (Event.text characters).spelled spelling
        ++ (rest.events.flatMap (Event.spelled spelling) ++ tail) := by
      rw [hrest]
      simp [Content.events]
    have hmore := ih { reader with rest := rest.events.flatMap (Event.spelled spelling) ++ tail } tail
      hrestReadable hapart.2 (fun start hstart => hkept start (by simp [Content.events, hstart]))
      hpending hscope htail rfl
    rw [events_of_event (step_text spelling hpending hne hends hfirst), hmore]
    rfl
  | element start inner rest ihInner ihRest =>
    obtain ⟨hstart, hinner, hrestReadable⟩ := h
    let after := rest.events.flatMap (Event.spelled spelling) ++ tail
    let atClosing := (Event.closing start.name).spelled spelling ++ after
    let opened : Reader := { reader with
      tags := start.name.lexical.toList :: reader.tags
      scopes := scope.addAll start.namespaces :: reader.scopes
      depth := reader.depth + 1 }
    have hsplit : reader.rest = (Event.opening start).spelled spelling
        ++ (inner.events.flatMap (Event.spelled spelling) ++ atClosing) := by
      rw [hrest]
      simp [Content.events, atClosing, after]
    -- The rest of the text is cut before the closing tag, where the elements inside come to an end.
    have hends : EndsText atClosing := by
      intro c hc
      simpa [atClosing, Event.spelled, eq_comm] using hc
    have hopening := step_opening spelling hstart (hkept start (by simp [Content.events])) hpending
      hscope hsplit
    have hinnerEvents := ihInner
      { opened with rest := inner.events.flatMap (Event.spelled spelling) ++ atClosing }
      atClosing hinner hapart.1 (fun other hother => hkept other (by simp [Content.events, hother]))
      hpending rfl hends rfl
    have hclosing : ({ opened with rest := atClosing } : Reader).step
        = .event (.closing start.name) { reader with rest := after } :=
      step_closing spelling hstart.writable hpending rfl hstart.resolved rfl
    have hrestEvents := ihRest { reader with rest := after } tail hrestReadable hapart.2
      (fun other hother => hkept other (by simp [Content.events, hother])) hpending hscope htail rfl
    rw [events_of_event hopening, hinnerEvents, events_of_event hclosing, hrestEvents]
    simp [Content.events]

theorem events_readable (content : Content) (reader : Reader) (tail : List Char) {scope : Scope}
    (h : content.Readable scope) (hapart : content.TextsApart) (hpending : reader.pending = false)
    (hscope : reader.scope = scope) (htail : EndsText tail)
    (hrest : reader.rest = content.events.flatMap Event.markup ++ tail) :
    reader.events = (content.events ++ ({ reader with rest := tail } : Reader).events.1,
      ({ reader with rest := tail } : Reader).events.2) := by
  have hkept : ∀ start, .opening start ∈ content.events → start.Kept .escaped :=
    fun start hstart binding hbinding => escape_of_plain (h.declarable start hstart binding hbinding).plain
  rw [funext Event.markup_eq_spelled] at hrest
  exact events_spelled .escaped content reader tail h hapart hkept hpending hscope htail hrest

theorem events_markup {content : Content} (h : content.Readable .initial) (hapart : content.TextsApart)
    (size : Nat) :
    Reader.events { size, rest := content.events.flatMap Event.markup } = (content.events, none) := by
  have hread := events_readable content { size, rest := content.events.flatMap Event.markup } []
    h hapart rfl rfl (by simp [EndsText]) (List.append_nil _).symm
  rw [hread, events_of_done rfl]
  simp

theorem events_content (content : Content) (reader : Reader) (tail : List Char)
    {bindings : List NamespaceBinding} (hbindings : ∀ binding ∈ bindings, binding.WellFormed)
    (h : content.WellFormed bindings) (hpending : reader.pending = false)
    (hscope : reader.scope = Scope.ofBindings bindings) (htail : EndsText tail)
    (hrest : reader.rest = content.events.flatMap Event.markup ++ tail) :
    reader.events = (content.events ++ ({ reader with rest := tail } : Reader).events.1,
      ({ reader with rest := tail } : Reader).events.2) :=
  events_readable content reader tail (h.readable hbindings) h.textsApart hpending hscope htail hrest

end Reader

namespace Document

theorem toXml_eq (document : Document) :
    document.toXml false = String.ofList (document.events.flatMap Event.markup) := by
  unfold toXml
  rw [Layout.render_plain rfl]

theorem markup_joinTexts (events : List Event) :
    (joinTexts events).flatMap Event.markup = events.flatMap Event.markup := by
  induction events with
  | nil => rfl
  | cons event events ih =>
    rw [List.flatMap_cons, ← ih]
    cases event with
    | opening start => rfl
    | closing name => rfl
    | text characters =>
      rw [joinTexts]
      cases joinTexts events with
      | nil => rfl
      | cons first rest => cases first <;> simp [Event.markup, escape]

theorem read_markup {start : ElementStart} {inner : Content}
    (hreadable : (Content.element start inner .empty).Readable .initial)
    (hapart : (Content.element start inner .empty).TextsApart) :
    Document.read (String.ofList ((Content.element start inner .empty).events.flatMap Event.markup))
      = .ok { events := (Content.element start inner .empty).events } := by
  let content := Content.element start inner .empty
  have hmark : Reader.withoutMark (content.events.flatMap Event.markup)
      = content.events.flatMap Event.markup := by
    simp [content, Content.events, Event.markup, Reader.withoutMark]
  unfold Document.read Reader.ofText
  simp only [String.toList_ofList]
  rw [hmark, Reader.events_markup hreadable hapart]

theorem read_toXml_joined {start : ElementStart} {inner : Content}
    (h : (Content.element start inner .empty).Readable .initial) :
    Document.read (toXml { events := (Content.element start inner .empty).events } false)
      = .ok { events := joinTexts (Content.element start inner .empty).events } := by
  rw [toXml_eq, ← markup_joinTexts, ← Content.events_joined]
  exact read_markup h.joined (Content.textsApart_joined (.element start inner .empty))

theorem read_toXml (document : Document) (h : document.WellFormed) :
    Document.read (document.toXml false) = .ok document := by
  obtain ⟨events⟩ := document
  obtain ⟨start, inner, hevents, hcontent⟩ := h
  simp only at hevents
  subst hevents
  let content := Content.element start inner .empty
  have hmark : Reader.withoutMark (content.events.flatMap Event.markup)
      = content.events.flatMap Event.markup := by
    simp [content, Content.events, Event.markup, Reader.withoutMark]
  have hreader : ∀ size, Reader.events { size, rest := content.events.flatMap Event.markup }
      = (content.events, none) := by
    intro size
    have hread := Reader.events_content content { size, rest := content.events.flatMap Event.markup }
      [] (by simp) hcontent rfl rfl (by simp [Reader.EndsText]) (List.append_nil _).symm
    rw [hread, Reader.events_of_done rfl]
    simp
  rw [toXml_eq]
  unfold Document.read Reader.ofText
  simp only [String.toList_ofList]
  rw [hmark, hreader]

def sampleContent : Content :=
  -- The inner declarations hide the outer ones, and the values look like markup.
  .element
    { name := { localName := "list", uri := some "urn:a" }
      attributes := [
        { name := { localName := "title" }, value := "<\"&'>\n" },
        { name := { localName := "lang", pfx := some "xml", uri := some xmlNamespace }, value := "" }]
      namespaces := [{ pfx := none, uri := "urn:a" }, { pfx := some "p", uri := "urn:b" }] }
    (.text "]]>&amp;\x00"
      (.element
        { name := { localName := "entry", pfx := some "p", uri := some "urn:c" }
          attributes := [
            { name := { localName := "key", pfx := some "p", uri := some "urn:c" }, value := "\t" }]
          namespaces := [{ pfx := none, uri := "" }, { pfx := some "p", uri := "urn:c" }] }
        (.element { name := { localName := "plain" } } .empty .empty)
        .empty))
    .empty

theorem read_toXml_sampleContent :
    ({ events := sampleContent.events } : Document).WellFormed
      ∧ Document.read (({ events := sampleContent.events } : Document).toXml false)
        = .ok { events := sampleContent.events } := by
  have hwellFormed : ({ events := sampleContent.events } : Document).WellFormed :=
    ⟨_, _, rfl, by decide⟩
  exact ⟨hwellFormed, read_toXml _ hwellFormed⟩

end Document

end Xml
end XmlPipeline
