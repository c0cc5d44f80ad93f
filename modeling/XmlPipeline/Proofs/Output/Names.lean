import XmlPipeline.Proofs.Output.HtmlBody
import XmlPipeline.Proofs.Output.XmlBody
import XmlPipeline.Proofs.Result

/-!
This module contains the names of elements and attributes in the bodies that the final serializer writes. The
main statement is that what a reader finds in the place of a name is the name as it is written in the character
set. That is the name itself only if the character set holds it: no character is refused, and a reference
inside of a name is not one that any reader resolves.
-/

namespace XmlPipeline
namespace Xml

/-! ### Names that are found in a text -/

namespace Markup

def names : Markup → List String
  | startTag content | emptyTag content =>
    let tag := Tag.read false content
    String.ofList tag.name :: tag.attributes.map fun attr => String.ofList attr.key
  | endTag name => [String.ofList name]
  | _ => []

end Markup

/--
The names in a text up to the first piece of markup that a reader cannot take.
-/
def namesIn : List Char → List String
  | [] => []
  | c :: cs =>
    match _h : Markup.scan c cs with
    | .error _ => []
    | .ok (piece, after) => piece.names ++ namesIn after
termination_by cs => cs.length
decreasing_by
  have := Markup.scan_length _h
  simp only [List.length_cons]
  omega

def Event.names : Event → List String
  | opening start => start.name.lexical :: start.parts.map (·.1)
  | text _ => []
  | closing name => [name.lexical]

theorem namesIn_nil : namesIn [] = [] := by
  rw [namesIn]

theorem namesIn_scan {c : Char} {cs after : List Char} {piece : Markup}
    (h : Markup.scan c cs = .ok (piece, after)) : namesIn (c :: cs) = piece.names ++ namesIn after := by
  rw [namesIn]
  split
  · next heq =>
    rw [h] at heq
    cases heq
  · next heq =>
    rw [h] at heq
    obtain ⟨rfl, rfl⟩ := Prod.mk.inj (Except.ok.inj heq)
    rfl

theorem namesIn_tag {cs after : List Char} {piece : Markup} (h : Markup.scanTag cs = .ok (piece, after)) :
    namesIn ('<' :: cs) = piece.names ++ namesIn after :=
  namesIn_scan (by simpa [Markup.scan] using h)

theorem namesIn_dropWhile (cs : List Char) : namesIn (cs.dropWhile (· ≠ '<')) = namesIn cs := by
  cases cs with
  | nil => rfl
  | cons c cs =>
    by_cases hc : c = '<'
    · rw [List.dropWhile_cons_of_neg (by simp [hc])]
    · have hscan : Markup.scan c cs
          = .ok (.text (c :: cs.takeWhile (· ≠ '<')), cs.dropWhile (· ≠ '<')) := by
        simp [Markup.scan, hc]
      rw [List.dropWhile_cons_of_pos (by simp [hc]), namesIn_scan hscan]
      rfl

theorem namesIn_text {cs : List Char} (h : '<' ∉ cs) (tail : List Char) :
    namesIn (cs ++ tail) = namesIn tail := by
  rw [← namesIn_dropWhile, List.dropWhile_append_of_pos, namesIn_dropWhile]
  intro c hc
  rw [decide_eq_true_iff]
  rintro rfl
  exact h hc

theorem map_key_writtenAttributes (spelling : Spelling) (size : Nat) (parts : List (String × String)) :
    (spelling.writtenAttributes size parts).map (fun attr => String.ofList attr.key)
      = parts.map (·.1) := by
  induction parts with
  | nil => rfl
  | cons part parts ih =>
    rw [Spelling.writtenAttributes, List.map_cons, List.map_cons, ih, String.ofList_toList]

theorem namesIn_spelled (spelling : Spelling) {event : Event}
    (h : ∀ name ∈ event.names, IsTagName name) (tail : List Char) :
    namesIn (event.spelled spelling ++ tail) = event.names ++ namesIn tail := by
  cases event with
  | opening start =>
    have hname := h _ List.mem_cons_self
    have hkeys : ∀ part ∈ start.parts, IsKey part.1 := fun part hpart =>
      (h _ (List.mem_cons_of_mem _ (List.mem_map_of_mem hpart))).isKey
    have hmarkup : (Event.opening start).spelled spelling ++ tail
        = '<' :: (start.spelled spelling ++ '>' :: tail) := by
      simp [Event.spelled]
    have hread := ElementStart.read_spelled spelling false hname.isKey hkeys (by simp)
    rw [hmarkup, namesIn_tag (Reader.scanTag_spelled spelling hname hkeys tail), Markup.names, hread]
    simp only
    rw [map_key_writtenAttributes, String.ofList_toList]
    rfl
  | text content => exact namesIn_text (spelling.not_mem_write (by decide) content.toList) tail
  | closing name =>
    have hmarkup : (Event.closing name).spelled spelling ++ tail
        = '<' :: '/' :: (name.lexical.toList ++ '>' :: tail) := by
      simp [Event.spelled]
    rw [hmarkup, namesIn_tag (Reader.scanTag_closing (h _ List.mem_cons_self).isKey tail), Markup.names,
      String.ofList_toList]
    rfl

/-! ### Names in a character set -/

/--
The name is one of XML, where colons may stand anywhere.
-/
def IsName (name : String) : Prop :=
  match name.toList with
  | [] => False
  | first :: rest =>
    (isNameStart first = true ∨ first = ':') ∧ ∀ c ∈ rest, isNameChar c = true ∨ c = ':'

instance (name : String) : Decidable (IsName name) :=
  match h : name.toList with
  | [] => .isFalse (by simp [IsName, h])
  | first :: rest =>
    decidable_of_iff ((isNameStart first || first == ':') = true
      ∧ rest.all (fun c => isNameChar c || c == ':') = true) <| by simp [IsName, h]

variable {charset : Charset} {name : String}

theorem IsName.ne_empty (h : IsName name) : name ≠ "" := by
  rintro rfl
  exact h

theorem IsName.isNameChar_or_colon (h : IsName name) :
    ∀ c ∈ name.toList, isNameChar c = true ∨ c = ':' := by
  unfold IsName at h
  cases hlist : name.toList with
  | nil => simp
  | cons first rest =>
    rw [hlist] at h
    intro c hc
    rcases List.mem_cons.mp hc with rfl | hc
    · exact h.1.imp_left isNameChar_of_isNameStart
    · exact h.2 c hc

theorem mem_spell {c : Char} {cs : List Char} (h : c ∈ charset.spell cs) :
    c ∈ cs ∨ c = '&' ∨ c = '#' ∨ c = ';' ∨ c.isDigit = true := by
  obtain ⟨x, hx, hc⟩ := List.mem_flatMap.mp h
  unfold Charset.spellChar at hc
  split at hc
  · exact .inl (List.mem_singleton.mp hc ▸ hx)
  · exact .inr (Charset.mem_reference hc)

theorem spellName_ne_empty (h : name ≠ "") : charset.spellName name ≠ "" := by
  intro hempty
  have hnil : charset.spell name.toList = [] := by
    rw [← String.toList_ofList (l := charset.spell name.toList)]
    exact congrArg String.toList hempty
  cases hlist : name.toList with
  | nil => exact h (String.toList_eq_nil_iff.mp hlist)
  | cons first rest =>
    rw [hlist, Charset.spell, List.flatMap_cons, List.append_eq_nil_iff] at hnil
    have hfirst := hnil.1
    unfold Charset.spellChar at hfirst
    split at hfirst <;> simp [Charset.reference_eq] at hfirst

theorem IsName.isTagName_spellName (h : IsName name) (charset : Charset) :
    IsTagName (charset.spellName name) := by
  have hne : ∀ c ∈ (charset.spellName name).toList,
      ∀ x ∈ [' ', '\t', '\r', '\n', '=', '>', '\'', '"', '!', '?', '/'], c ≠ x := by
    intro c hc x hx
    have hother : isNameChar x = false ∧ x ≠ ':' ∧ x ≠ '&' ∧ x ≠ '#' ∧ x ≠ ';' ∧ x.isDigit = false := by
      simp only [List.mem_cons, List.not_mem_nil, or_false] at hx
      rcases hx with rfl | rfl | rfl | rfl | rfl | rfl | rfl | rfl | rfl | rfl | rfl <;> decide
    rw [Charset.spellName, String.toList_ofList] at hc
    rintro rfl
    rcases mem_spell hc with hc | hc | hc | hc | hc
    · rcases h.isNameChar_or_colon c hc with hchar | hcolon
      · simp [hother.1] at hchar
      · exact hother.2.1 hcolon
    · exact hother.2.2.1 hc
    · exact hother.2.2.2.1 hc
    · exact hother.2.2.2.2.1 hc
    · simp [hother.2.2.2.2.2] at hc
  refine ⟨⟨spellName_ne_empty h.ne_empty, ?_⟩, ?_⟩
  · intro c hc
    have hc := hne c hc
    simp [isSpace, hc]
  · intro c hc
    have hc := hne c hc
    simp [hc]

theorem IsName.spellName_eq_iff (h : IsName name) :
    charset.spellName name = name ↔ charset.HoldsAll name := by
  refine ⟨?_, Charset.spellName_of_holdsAll⟩
  intro hsame c hc
  cases hholds : charset.holds c with
  | true => rfl
  | false =>
    -- A reference starts with a character that no name has.
    have hspelled : '&' ∈ (charset.spellName name).toList := by
      rw [Charset.spellName, String.toList_ofList]
      refine List.mem_flatMap.mpr ⟨c, hc, ?_⟩
      simp [Charset.spellChar, hholds, Charset.reference_eq]
    rw [hsame] at hspelled
    have hname := h.isNameChar_or_colon '&' hspelled
    revert hname
    decide

theorem map_spellName_eq_iff {names : List String} (h : ∀ name ∈ names, IsName name) :
    names.map charset.spellName = names ↔ ∀ name ∈ names, charset.HoldsAll name := by
  have hnames : names.map charset.spellName = names ↔ ∀ name ∈ names, charset.spellName name = name := by
    conv => lhs; rhs; rw [← List.map_id names]
    exact List.map_inj_left
  rw [hnames]
  exact forall₂_congr fun name hname => (h name hname).spellName_eq_iff

/-! ### Events in a character set -/

def ElementStart.respelled (charset : Charset) (start : ElementStart) : ElementStart where
  name := { localName := charset.spellName start.name.lexical }
  attributes := start.parts.map fun part =>
    { name := { localName := charset.spellName part.1 }, value := part.2 }

theorem ElementStart.parts_respelled (start : ElementStart) :
    (start.respelled charset).parts
      = start.parts.map fun part => (charset.spellName part.1, part.2) := by
  have hparts : (start.respelled charset).parts
      = (start.respelled charset).attributes.map fun attr => (attr.name.lexical, attr.value) := rfl
  rw [hparts, respelled, List.map_map]
  rfl

def Event.respelled (charset : Charset) : Event → Event
  | opening start => opening (start.respelled charset)
  | text content => text content
  | closing name => closing { localName := charset.spellName name.lexical }

theorem Event.names_respelled (event : Event) :
    (event.respelled charset).names = event.names.map charset.spellName := by
  cases event with
  | opening start =>
    simp only [respelled, names, ElementStart.parts_respelled, List.map_cons, List.map_map]
    rfl
  | text content => rfl
  | closing name => rfl

theorem Event.spell_markup_respelled (event : Event) :
    charset.spell event.markup = (event.respelled charset).spelled charset.spelling := by
  have hopen : charset.holds '<' = true := Charset.holds_of_ascii (by decide)
  have hslash : charset.holds '/' = true := Charset.holds_of_ascii (by decide)
  have hclose : charset.spell ['>'] = ['>'] :=
    Charset.spell_cons (Charset.holds_of_ascii (by decide)) []
  have hname : ∀ name, (charset.spellName name).toList = charset.spell name.toList :=
    fun name => String.toList_ofList
  rw [Event.markup_eq_spelled]
  cases event with
  | opening start =>
    have hparts := charset.spell_writtenChars start.parts
    simp only [respelled, spelled, ElementStart.spelled, List.cons_append, ElementStart.parts_respelled]
    rw [Charset.spell_cons hopen, Charset.spell_append, Charset.spell_append, hparts, hclose, ← hname]
    rfl
  | text content => exact charset.spell_escape content.toList
  | closing name =>
    simp only [respelled, spelled, List.cons_append]
    rw [Charset.spell_cons hopen, Charset.spell_cons hslash, Charset.spell_append, hclose, ← hname]
    rfl

theorem namesIn_markup {event : Event} (h : ∀ name ∈ event.names, IsName name) (tail : List Char) :
    namesIn (charset.spell event.markup ++ tail) = event.names.map charset.spellName ++ namesIn tail := by
  rw [Event.spell_markup_respelled, namesIn_spelled, Event.names_respelled]
  intro name hname
  rw [Event.names_respelled] at hname
  obtain ⟨original, horiginal, rfl⟩ := List.mem_map.mp hname
  exact (h original horiginal).isTagName_spellName charset

/-! ### Texts with their layout -/

def Event.ComesTo (event : Event) (piece : Piece) : Prop :=
  piece = event.toPiece ∨ piece = event.htmlPiece

namespace Layout

theorem blank_lead (layout : Layout) : ∀ c ∈ layout.lead, c = '\n' ∨ c = ' ' := by
  unfold lead
  split
  · intro c hc
    rcases List.mem_cons.mp hc with rfl | hc
    · exact .inl rfl
    · exact .inr (List.eq_of_mem_replicate hc)
  · simp

theorem put_markup (layout : Layout) {event : Event} {piece : Piece} (h : event.ComesTo piece) :
    ∃ lead, (∀ c ∈ lead, c = '\n' ∨ c = ' ') ∧ (layout.put piece).1 = lead ++ event.markup := by
  cases event with
  | opening start =>
    have hopening : (layout.put (.opening start)).1 = layout.lead ++ (Event.opening start).markup := by
      simp [put, Event.markup]
    rcases h with rfl | rfl
    · exact ⟨layout.lead, layout.blank_lead, hopening⟩
    · simp only [Event.htmlPiece]
      cases start.name.isVoid with
      | true => exact ⟨[], by simp, rfl⟩
      | false => exact ⟨layout.lead, layout.blank_lead, hopening⟩
  | text content => exact ⟨[], by simp, by rcases h with rfl | rfl <;> rfl⟩
  | closing name =>
    refine ⟨_, { layout with level := layout.level - 1 }.blank_lead, ?_⟩
    rcases h with rfl | rfl <;> simp [put, Event.toPiece, Event.htmlPiece, Event.markup]

theorem namesIn_put (layout : Layout) {event : Event} {piece : Piece} (h : event.ComesTo piece)
    (hnames : ∀ name ∈ event.names, IsName name) (tail : List Char) :
    namesIn (charset.spell (layout.put piece).1 ++ tail)
      = event.names.map charset.spellName ++ namesIn tail := by
  obtain ⟨lead, hlead, hput⟩ := layout.put_markup h
  have hspell : charset.spell lead = lead := by
    apply Charset.spell_of_holds
    intro c hc
    rcases hlead c hc with rfl | rfl <;> exact Charset.holds_of_ascii (by decide)
  have hplain : '<' ∉ lead := by
    intro hmem
    rcases hlead _ hmem with hc | hc <;> cases hc
  rw [hput, Charset.spell_append, hspell, List.append_assoc, namesIn_text hplain, namesIn_markup hnames]

theorem namesIn_texts (layout : Layout) {toPiece : Event → Piece}
    (h : ∀ event : Event, event.ComesTo (toPiece event)) {events : List Event}
    (hnames : ∀ event ∈ events, ∀ name ∈ event.names, IsName name) :
    namesIn (charset.spell (layout.texts (events.map toPiece)).flatten)
      = (events.flatMap Event.names).map charset.spellName := by
  induction events generalizing layout with
  | nil => exact namesIn_nil
  | cons event events ih =>
    rw [List.map_cons, texts, List.flatten_cons, Charset.spell_append,
      namesIn_put layout (h event) (hnames event List.mem_cons_self),
      ih _ fun other hother => hnames other (List.mem_cons_of_mem _ hother), List.flatMap_cons,
      List.map_append]

end Layout

theorem Content.mem_events_of_eventsWith {isClosed : ElementStart → Content → Bool} {content : Content}
    {event : Event} (h : event ∈ content.eventsWith isClosed) : event ∈ content.events := by
  induction content with
  | empty => exact h
  | text characters rest ih =>
    rw [events]
    rcases List.mem_cons.mp h with rfl | h
    · exact List.mem_cons_self
    · exact List.mem_cons_of_mem _ (ih h)
  | element start inner rest ihInner ihRest =>
    simp only [eventsWith, List.cons_append, List.mem_cons, List.mem_append] at h
    simp only [events, List.cons_append, List.mem_cons, List.mem_append]
    rcases h with rfl | (h | h) | h
    · exact .inl rfl
    · exact .inr (.inl (ihInner h))
    · split at h
      · exact .inr (.inr (.inl (List.mem_singleton.mp h)))
      · cases h
    · exact .inr (.inr (.inr (ihRest h)))

end Xml

open Xml

/-! ### Names in a body -/

namespace OutputMethod

def kept (method : OutputMethod) (content : Content) : List Event :=
  match method with
  | html => content.eventsWith Content.isClosedAfter
  | text => []
  | _ => content.events

theorem mem_events_of_kept {method : OutputMethod} {content : Content} {event : Event}
    (h : event ∈ method.kept content) : event ∈ content.events := by
  cases method with
  | html => exact Content.mem_events_of_eventsWith h
  | text => cases h
  | xml => exact h
  | xhtml => exact h

theorem exists_pieces {method : OutputMethod} (h : method ≠ .text) (content : Content) :
    ∃ toPiece : Event → Piece, (∀ event : Event, event.ComesTo (toPiece event))
      ∧ method.pieces none content.events = (method.kept content).map toPiece := by
  have hevents : ∀ method, (∀ slot event, piece method slot event = (some event.toPiece, slot)) →
      ∀ events, method.pieces none events = events.map Event.toPiece := by
    intro method hpiece events
    induction events with
    | nil => rfl
    | cons event events ih => rw [pieces, hpiece, ih, List.map_cons]; rfl
  cases method with
  | html =>
    have hall := pieces_html content none [] (by simp)
    simp only [List.append_nil, pieces] at hall
    exact ⟨Event.htmlPiece, fun _ => .inr rfl, hall⟩
  | text => exact absurd rfl h
  | xml => exact ⟨Event.toPiece, fun _ => .inl rfl, hevents .xml (fun _ _ => rfl) _⟩
  | xhtml => exact ⟨Event.toPiece, fun _ => .inl rfl, hevents .xhtml (fun _ _ => rfl) _⟩

end OutputMethod

namespace OutputProperties

theorem namesIn_prolog (properties : OutputProperties) (tail : List Char) :
    namesIn (properties.prolog ++ tail) = namesIn tail := by
  rcases properties.prolog_cases with hnone | ⟨inside, hprolog, hinside⟩
  · rw [hnone, List.nil_append]
  · have hscan := Markup.scanTag_instruction hinside tail
    have hmarkup : properties.prolog ++ tail = '<' :: '?' :: 'x' :: (inside ++ '?' :: '>' :: tail) := by
      rw [hprolog]
      simp
    rw [hmarkup, namesIn_tag hscan]
    rfl

theorem namesIn_texts {properties : OutputProperties} (hmethod : properties.method ≠ .text)
    {content : Content} (hnames : ∀ event ∈ content.events, ∀ name ∈ event.names, IsName name) :
    namesIn (properties.charset.spell (properties.texts content.events).flatten)
      = ((properties.method.kept content).flatMap Event.names).map properties.charset.spellName := by
  obtain ⟨toPiece, hpiece, hpieces⟩ := OutputMethod.exists_pieces hmethod content
  have hkept : ∀ event ∈ properties.method.kept content, ∀ name ∈ event.names, IsName name :=
    fun event hevent => hnames event (OutputMethod.mem_events_of_kept hevent)
  unfold texts pieces
  rw [hpieces]
  cases hempty : content.events.isEmpty with
  | true =>
    have hnil : properties.method.kept content = [] := by
      rw [List.eq_nil_iff_forall_not_mem]
      intro event hevent
      have hmem := OutputMethod.mem_events_of_kept hevent
      rw [List.isEmpty_iff.mp hempty] at hmem
      cases hmem
    rw [hnil]
    exact namesIn_nil
  | false =>
    cases hdeclared : properties.isDeclared with
    | false => exact Layout.namesIn_texts _ hpiece hkept
    | true =>
      simp only [Bool.false_eq_true, ↓reduceIte, Layout.texts, List.flatten_cons]
      have hprolog : (({ indented := properties.isIndented } : Layout).put
            (.declaration properties.charset.name properties.standalone?)).1 = properties.prolog := by
        simp [Layout.put, Layout.lead, prolog, hdeclared]
      rw [Charset.spell_append, hprolog,
        Charset.spell_of_holds (Charset.holds_of_isAscii properties.isAscii_prolog), namesIn_prolog]
      exact Layout.namesIn_texts _ hpiece hkept

end OutputProperties

namespace FinalSerializer

variable {σ : Type} [ByteWriter σ] {properties : OutputProperties}

/--
The names in a body that was written without an error are the names of the events only as far as the character
set holds them. In the others there are references, which a reader takes for a part of the name.
-/
theorem serialize_names (recording : Recording σ) {out : σ} {content : Content}
    {finished : FinalSerializer σ} (hmethod : properties.method ≠ .text)
    (hnames : ∀ event ∈ content.events, ∀ name ∈ event.names, IsName name)
    (h : (create properties out).serialize content.events = (.ok (), finished)) :
    let names := (properties.method.kept content).flatMap Event.names
    ∃ body text, recording.received finished.out = recording.received out ++ body
      ∧ properties.charset.decode? body = some text
      ∧ namesIn text.toList = names.map properties.charset.spellName
      ∧ (namesIn text.toList = names ↔ ∀ name ∈ names, properties.charset.HoldsAll name) := by
  intro names
  have hreferences : (properties.method != .text) = true := by simpa using hmethod
  obtain ⟨-, hreceived⟩ := recording.serialize h
  simp only [hreferences, Charset.encodeEach_spelled] at hreceived
  have hfound := OutputProperties.namesIn_texts hmethod hnames
  have hall : ∀ name ∈ names, IsName name := by
    intro name hname
    obtain ⟨event, hevent, hname⟩ := List.mem_flatMap.mp hname
    exact hnames event (OutputMethod.mem_events_of_kept hevent) name hname
  refine ⟨_, _, hreceived, Charset.decode?_bytesOf (Charset.holds_spell _ _), ?_, ?_⟩
  · rw [String.toList_ofList]
    exact hfound
  · rw [String.toList_ofList, hfound]
    exact map_spellName_eq_iff hall

def accentContent : Content :=
  -- All names are in ISO-8859-1, and one character of a text and of a value is not.
  .element
    { name := { localName := "é", pfx := some "ü", uri := some "urn:a" }
      attributes := [{ name := { localName := "prix" }, value := "1€" }]
      namespaces := [{ pfx := some "ü", uri := "urn:a" }] }
    (.element { name := { localName := "br" } } (.text "<€>" .empty) .empty)
    .empty

def latinIndented : OutputProperties :=
  .ofList [("encoding", "ISO-8859-1"), ("indent", "yes")]

theorem serialize_names_accentContent :
    let run := (create latinIndented steppedSink).serialize accentContent.events
    run.1 = .ok ()
      ∧ ∃ text, Charset.latin1.decode? run.2.out.received.toList = some text
        ∧ namesIn text.toList = ["ü:é", "xmlns:ü", "prix", "br", "br", "ü:é"] := by
  intro run
  have hmethod : latinIndented.method ≠ .text := by decide +kernel
  have hcharset : latinIndented.charset = .latin1 := by decide +kernel
  have hnames : ∀ event ∈ accentContent.events, ∀ name ∈ event.names, IsName name := by
    decide +kernel
  have hok : run.1 = .ok () := by
    apply eq_ok_of_toOption
    decide +kernel
  obtain ⟨body, text, hreceived, htext, -, hsame⟩ :=
    serialize_names ByteSink.recording hmethod hnames (Prod.ext hok rfl)
  obtain rfl : run.2.out.received.toList = body := hreceived
  rw [hcharset] at htext hsame
  exact ⟨hok, text, htext, hsame.mpr (by decide +kernel)⟩

def accentName : Content :=
  .element { name := { localName := "é" } } .empty .empty

def asciiProperties : OutputProperties :=
  .ofList [("encoding", "US-ASCII")]

theorem serialize_accentName :
    let run := (create asciiProperties ({} : ByteSink)).serialize accentName.events
    let text := "<?xml version=\"1.0\" encoding=\"US-ASCII\"?><&#233;></&#233;>"
    run.1.toOption = some ()
      ∧ Charset.ascii.decode? run.2.out.received.toList = some text
      ∧ (∀ event ∈ accentName.events, ∀ name ∈ event.names, IsName name)
      ∧ namesIn text.toList = ["&#233;", "&#233;"]
      ∧ namesIn text.toList ≠ accentName.events.flatMap Event.names := by
  intro run text
  have hmethod : asciiProperties.method ≠ .text := by decide +kernel
  have hnames : ∀ event ∈ accentName.events, ∀ name ∈ event.names, IsName name := by decide +kernel
  have hfound := OutputProperties.namesIn_texts hmethod hnames
  have htext : asciiProperties.charset.spell (asciiProperties.texts accentName.events).flatten
      = text.toList := by decide +kernel
  have hspelled : ((asciiProperties.method.kept accentName).flatMap Event.names).map
      asciiProperties.charset.spellName = ["&#233;", "&#233;"] := by decide +kernel
  rw [htext, hspelled] at hfound
  refine ⟨by decide +kernel, by decide +kernel, hnames, hfound, ?_⟩
  rw [hfound]
  decide +kernel

end FinalSerializer
end XmlPipeline
