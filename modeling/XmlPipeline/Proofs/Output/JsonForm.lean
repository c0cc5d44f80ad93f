import Mathlib.Data.List.Sort
import XmlPipeline.Output.JsonBody
import XmlPipeline.Proofs.Engine.Bindings
import XmlPipeline.Proofs.Xml.Content
import XmlPipeline.Proofs.Xml.WellFormed

/-!
This module contains the JSON form of contents. The main statement is that the members which are added one
by one, while elements are open inside of each other, come to a form that each element has by itself: it is
made of the attributes, the forms of the child elements and the text.
-/

namespace XmlPipeline

/-! ### Ascending lists of entries -/

namespace Assoc

variable {κ : Type u} {α : Type v} [Ord κ] {entries others : List (κ × α)}

theorem find?_of_lt {key : κ} (h : ∀ entry ∈ entries, compare key entry.1 = .lt) :
    find? key entries = none := by
  induction entries with
  | nil => rfl
  | cons entry entries ih =>
    have hrest := ih fun other hother => h other (List.mem_cons_of_mem _ hother)
    simp [find?, h entry List.mem_cons_self, hrest]

theorem mem_iff_find? [Std.LawfulEqOrd κ] (h : Ascending entries) {entry : κ × α} :
    entry ∈ entries ↔ find? entry.1 entries = some entry.2 := by
  induction entries with
  | nil => simp [find?]
  | cons head rest ih =>
    obtain ⟨hhead, hrest⟩ := List.pairwise_cons.mp h
    simp only [List.mem_cons, ih hrest, find?, beq_iff_eq, Std.LawfulEqOrd.compare_eq_iff_eq]
    by_cases hkey : entry.1 = head.1
    · have hnone : find? head.1 rest = none := find?_of_lt hhead
      simp [hnone, hkey, Prod.ext_iff, eq_comm]
    · simp [hkey, Prod.ext_iff]

theorem eq_of_find? [Std.TransOrd κ] [Std.LawfulEqOrd κ] (h : Ascending entries)
    (hothers : Ascending others) (hfind : ∀ key, find? key entries = find? key others) :
    entries = others := by
  let before (first second : κ × α) : Prop := compare first.1 second.1 = .lt
  have hirrefl : Std.Irrefl before := ⟨fun entry => by simp [before]⟩
  have hantisymm : Std.Antisymm before :=
    ⟨fun first second hfirst hsecond =>
      absurd (Std.TransCmp.lt_trans hfirst hsecond) (by simp)⟩
  apply List.Pairwise.eq_of_mem_iff (r := before) h hothers
  intro entry
  rw [mem_iff_find? h, mem_iff_find? hothers, hfind]

theorem insert_ne_nil (key : κ) (value : α) (entries : List (κ × α)) :
    insert key value entries ≠ [] := by
  cases entries with
  | nil => simp [insert]
  | cons entry entries =>
    unfold insert
    split <;> simp

end Assoc

namespace SortedMap

variable {κ : Type u} {α : Type v} [Ord κ] [Std.TransOrd κ] {map : SortedMap κ α}
  {entries : List (κ × α)}

theorem toList_insertMany (map : SortedMap κ α) (entries : List (κ × α)) :
    (map.insertMany entries).toList
      = entries.foldl (fun members entry => Assoc.insert entry.1 entry.2 members) map.toList := by
  induction entries generalizing map with
  | nil => rfl
  | cons entry entries ih => exact ih (map.insert entry.1 entry.2)

theorem mem_insertMany {entry : κ × α} (h : entry ∈ (map.insertMany entries).toList) :
    entry ∈ map.toList ∨ entry ∈ entries := by
  induction entries generalizing map with
  | nil => exact .inl h
  | cons first entries ih =>
    rcases ih h with hmap | hentries
    · rcases Assoc.mem_insert hmap with rfl | hmap
      · exact .inr List.mem_cons_self
      · exact .inl hmap
    · exact .inr (List.mem_cons_of_mem _ hentries)

theorem toList_ofList_eq_nil (entries : List (κ × α)) :
    (ofList entries).toList = [] ↔ entries = [] := by
  rcases List.eq_nil_or_concat entries with rfl | ⟨first, last, rfl⟩
  · exact iff_of_true rfl rfl
  · unfold ofList
    rw [toList_insertMany, List.concat_eq_append, List.foldl_append]
    exact iff_of_false (Assoc.insert_ne_nil last.1 last.2 _) (by simp)

theorem find?_ofList [Std.LawfulEqOrd κ] [DecidableEq κ] (entries : List (κ × α)) (key : κ) :
    Assoc.find? key (ofList entries).toList = latest? key entries :=
  (get?_insertMany empty entries key).trans (Option.or_none)

end SortedMap

theorem latest?_map {κ : Type u} {α : Type v} {β : Type w} [DecidableEq κ] (f : κ → β)
    (entries : List (κ × α)) (key : κ) :
    latest? key (entries.map fun entry => (entry.1, f entry.1))
      = if key ∈ entries.map (·.1) then some (f key) else none := by
  induction entries with
  | nil => rfl
  | cons entry entries ih =>
    rw [List.map_cons, ← List.singleton_append, latest?_append, latest?_singleton, ih]
    simp only [List.map_cons, List.mem_cons]
    by_cases hkey : key = entry.1
    · subst hkey
      split <;> simp
    · simp only [hkey, Ne.symm hkey, false_or, ↓reduceIte, Option.or_none]

/-! ### Values that come together -/

namespace Json

def beside (member : Option Json) (value : Json) : Json :=
  match member with
  | none => value
  | some (.arr items) => .arr (items ++ [value])
  | some first => .arr [first, value]

def together : List Json → Json
  | [value] => value
  | values => .arr values

def IsList : Json → Prop
  | .arr _ => True
  | _ => False

/--
No list stands directly inside of another one.
-/
inductive Flat : Json → Prop where
  | null : Flat .null
  | bool (value : Bool) : Flat (.bool value)
  | int (value : Int) : Flat (.int value)
  | str (value : String) : Flat (.str value)
  | arr {items : List Json} (flat : ∀ item ∈ items, Flat item) (apart : ∀ item ∈ items, ¬ item.IsList) :
    Flat (.arr items)
  | obj {members : List (String × Json)} (flat : ∀ member ∈ members, Flat member.2) : Flat (.obj members)

theorem foldl_beside_arr (items values : List Json) :
    values.foldl (fun member value => some (beside member value)) (some (.arr items))
      = some (.arr (items ++ values)) := by
  induction values generalizing items with
  | nil => simp
  | cons value values ih =>
    rw [List.foldl_cons, beside, ih]
    simp

theorem foldl_beside {values : List Json} (hne : values ≠ []) (h : ∀ value ∈ values, ¬ value.IsList) :
    values.foldl (fun member value => some (beside member value)) none = some (together values) := by
  cases values with
  | nil => exact absurd rfl hne
  | cons first values =>
    cases values with
    | nil => rfl
    | cons second values =>
      have hfirst : beside (some first) second = .arr [first, second] := by
        have hlist := h first List.mem_cons_self
        cases first <;> first | rfl | exact absurd trivial hlist
      simp only [List.foldl_cons, beside.eq_1]
      rw [hfirst, foldl_beside_arr]
      rfl

theorem flat_together {values : List Json} (h : ∀ value ∈ values, value.Flat ∧ ¬ value.IsList) :
    (together values).Flat := by
  have hlist : (Json.arr values).Flat := .arr (fun value hvalue => (h value hvalue).1)
    fun value hvalue => (h value hvalue).2
  cases values with
  | nil => exact hlist
  | cons first values =>
    cases values with
    | nil => exact (h first List.mem_cons_self).1
    | cons second values => exact hlist

theorem object_eq (members : List (String × Json)) :
    object members = .obj (SortedMap.ofList members).toList := by
  unfold object SortedMap.ofList
  rw [SortedMap.toList_insertMany]
  rfl

theorem flat_object {members : List (String × Json)} (h : ∀ member ∈ members, member.2.Flat) :
    (object members).Flat := by
  rw [object_eq]
  apply Flat.obj
  intro member hmember
  rcases SortedMap.mem_insertMany hmember with hnone | hmember
  · cases hnone
  · exact h member hmember

end Json

/-! ### The form of an element -/

namespace Xml

def Attribute.member (attr : Attribute) : String × Json :=
  ("@" ++ attr.name.localName, .str attr.value)

namespace ElementStart

def valuesOf (name : String) (children : List (String × Json)) : List Json :=
  (children.filter (·.1 = name)).map (·.2)

theorem mem_valuesOf {name : String} {value : Json} {children : List (String × Json)} :
    value ∈ valuesOf name children ↔ (name, value) ∈ children := by
  simp [valuesOf]

/--
The JSON form of an element with these attributes, given the names and forms of its child elements and the
character data that stands between them.
-/
def json (start : ElementStart) (children : List (String × Json)) (characters : String) : Json :=
  let text := Text.trim characters
  if start.attributes.isEmpty && children.isEmpty then
    if text.isEmpty then .null else .str text
  else
    Json.object <|
      start.attributes.map Attribute.member
        ++ children.map (fun child => (child.1, Json.together (valuesOf child.1 children)))
        ++ (if text.isEmpty then [] else [("#text", .str text)])

theorem not_isList_json (start : ElementStart) (children : List (String × Json)) (characters : String) :
    ¬ (start.json children characters).IsList := by
  unfold json
  simp only
  repeat' split
  all_goals exact id

theorem flat_json (start : ElementStart) {children : List (String × Json)} (characters : String)
    (h : ∀ child ∈ children, child.2.Flat ∧ ¬ child.2.IsList) : (start.json children characters).Flat := by
  unfold json
  simp only
  split
  · split
    · exact .null
    · exact .str _
  · apply Json.flat_object
    intro member hmember
    simp only [List.mem_append, List.mem_map] at hmember
    rcases hmember with (⟨attr, -, rfl⟩ | ⟨child, -, rfl⟩) | htext
    · exact .str _
    · apply Json.flat_together
      intro value hvalue
      exact h _ (mem_valuesOf.mp hvalue)
    · split at htext
      · cases htext
      · obtain rfl := List.mem_singleton.mp htext
        exact .str _

end ElementStart

def Content.jsonChildren : Content → List (String × Json)
  | empty => []
  | text _ rest => rest.jsonChildren
  | element start inner rest =>
    (start.name.localName, start.json inner.jsonChildren inner.characters) :: rest.jsonChildren

namespace JsonFrame

variable {frame : JsonFrame} {children : List (String × Json)}

def addChildren (frame : JsonFrame) (children : List (String × Json)) : JsonFrame :=
  children.foldl (fun frame child => frame.addChild child.1 child.2) frame

theorem addChild_eq (frame : JsonFrame) (name : String) (value : Json) :
    frame.addChild name value = { frame with
      members := Assoc.insert name (.beside (Assoc.find? name frame.members) value) frame.members } :=
  rfl

theorem addChildren_text (frame : JsonFrame) (children : List (String × Json)) (text : String) :
    ({ frame with text } : JsonFrame).addChildren children
      = { frame with members := (frame.addChildren children).members, text } := by
  induction children generalizing frame with
  | nil => rfl
  | cons child children ih => exact ih (frame.addChild child.1 child.2)

theorem name_addChildren (frame : JsonFrame) (children : List (String × Json)) :
    (frame.addChildren children).name = frame.name :=
  (congrArg name (frame.addChildren_text children frame.text)).trans rfl

theorem ascending_addChildren (h : Assoc.Ascending frame.members) :
    Assoc.Ascending (frame.addChildren children).members := by
  induction children generalizing frame with
  | nil => exact h
  | cons child children ih => exact ih (Assoc.ascending_insert _ _ h)

theorem find?_addChildren (frame : JsonFrame) (children : List (String × Json)) (name : String) :
    Assoc.find? name (frame.addChildren children).members
      = (ElementStart.valuesOf name children).foldl
        (fun member value => some (.beside member value)) (Assoc.find? name frame.members) := by
  induction children generalizing frame with
  | nil => rfl
  | cons child children ih =>
    have hrest := ih (frame.addChild child.1 child.2)
    rw [addChild_eq, Assoc.find?_insert] at hrest
    refine hrest.trans ?_
    unfold ElementStart.valuesOf
    by_cases hname : child.1 = name
    · simp [hname]
    · simp [hname, Ne.symm hname]

theorem members_ofStart (start : ElementStart) :
    (ofStart start).members = (SortedMap.ofList (start.attributes.map Attribute.member)).toList := by
  unfold SortedMap.ofList
  rw [SortedMap.toList_insertMany, List.foldl_map]
  rfl

/--
The children can be told from attributes by their names, and none of them is a list by itself.
-/
def Distinct (children : List (String × Json)) : Prop :=
  ∀ child ∈ children, child.1.toList.head? ≠ some '@' ∧ ¬ child.2.IsList

theorem members_addChildren (start : ElementStart) (h : Distinct children) :
    ((ofStart start).addChildren children).members
      = (SortedMap.ofList (start.attributes.map Attribute.member ++ children.map fun child =>
        (child.1, Json.together (ElementStart.valuesOf child.1 children)))).toList := by
  apply Assoc.eq_of_find?
  · apply ascending_addChildren
    rw [members_ofStart]
    exact SortedMap.ascending _
  · exact SortedMap.ascending _
  intro name
  rw [find?_addChildren, members_ofStart, SortedMap.find?_ofList, SortedMap.find?_ofList, latest?_append,
    latest?_map fun name => Json.together (ElementStart.valuesOf name children)]
  by_cases hname : name ∈ children.map (·.1)
  · obtain ⟨child, hchild, rfl⟩ := List.mem_map.mp hname
    have hvalue : child.2 ∈ ElementStart.valuesOf child.1 children :=
      ElementStart.mem_valuesOf.mpr hchild
    have hnone : latest? child.1 (start.attributes.map Attribute.member) = none := by
      apply latest?_eq_none
      intro entry hentry hsame
      obtain ⟨attr, -, rfl⟩ := List.mem_map.mp hentry
      apply (h child hchild).1
      rw [← hsame]
      simp [Attribute.member]
    rw [hnone, if_pos hname, Option.or_none]
    apply Json.foldl_beside (List.ne_nil_of_mem hvalue)
    intro value hmem
    exact (h _ (ElementStart.mem_valuesOf.mp hmem)).2
  · have hnil : ElementStart.valuesOf name children = [] := by
      rw [List.eq_nil_iff_forall_not_mem]
      intro value hvalue
      exact hname (List.mem_map_of_mem (ElementStart.mem_valuesOf.mp hvalue))
    rw [hnil, if_neg hname, Option.none_or]
    rfl

theorem isEmpty_addChildren (start : ElementStart) (h : Distinct children) :
    ((ofStart start).addChildren children).members.isEmpty
      = (start.attributes.isEmpty && children.isEmpty) := by
  rw [Bool.eq_iff_iff, List.isEmpty_iff, members_addChildren start h, SortedMap.toList_ofList_eq_nil]
  simp

theorem value_addChildren (start : ElementStart) (h : Distinct children) (text : String) :
    ({ (ofStart start).addChildren children with text } : JsonFrame).value = start.json children text := by
  unfold value ElementStart.json
  simp only [isEmpty_addChildren start h]
  simp only [members_addChildren start h, Json.object_eq]
  split
  · rfl
  · cases (Text.trim text).isEmpty with
    | true => simp
    | false =>
      simp only [Bool.false_eq_true, ↓reduceIte, SortedMap.ofList, SortedMap.toList_insertMany,
        List.foldl_append, List.foldl_cons, List.foldl_nil]

end JsonFrame

/-! ### Whole contents -/

def ElementStart.form (start : ElementStart) (children : List (String × Json)) (characters : String) :
    Json :=
  ({ (JsonFrame.ofStart start).addChildren children with text := characters } : JsonFrame).value

namespace Content

/--
No element is named like the member of an attribute, which no name of XML is.
-/
def NamesPlain (content : Content) : Prop :=
  ∀ start, .opening start ∈ content.events → start.name.localName.toList.head? ≠ some '@'

theorem namesPlain_of_isNCName {content : Content}
    (h : ∀ start, .opening start ∈ content.events → IsNCName start.name.localName) :
    content.NamesPlain := by
  intro start hstart hat
  obtain ⟨first, rest, hlist, hfirst⟩ := (h start hstart).exists_cons
  rw [hlist, List.head?_cons, Option.some_inj] at hat
  subst hat
  revert hfirst
  decide

theorem NamesPlain.text {characters : String} {rest : Content} (h : (text characters rest).NamesPlain) :
    rest.NamesPlain :=
  fun start hstart => h start (by simp [events, hstart])

theorem NamesPlain.element {start : ElementStart} {inner rest : Content}
    (h : (element start inner rest).NamesPlain) :
    start.name.localName.toList.head? ≠ some '@' ∧ inner.NamesPlain ∧ rest.NamesPlain :=
  ⟨h start (by simp [events]), fun other hother => h other (by simp [events, hother]),
    fun other hother => h other (by simp [events, hother])⟩

theorem flat_jsonChildren (content : Content) :
    ∀ child ∈ content.jsonChildren, child.2.Flat ∧ ¬ child.2.IsList := by
  induction content with
  | empty => simp [jsonChildren]
  | text characters rest ih => exact ih
  | element start inner rest ihInner ihRest =>
    intro child hchild
    rcases List.mem_cons.mp hchild with rfl | hchild
    · exact ⟨start.flat_json inner.characters ihInner, start.not_isList_json _ _⟩
    · exact ihRest child hchild

theorem distinct_jsonChildren {content : Content} (h : content.NamesPlain) :
    JsonFrame.Distinct content.jsonChildren := by
  refine fun child hchild => ⟨?_, (content.flat_jsonChildren child hchild).2⟩
  induction content with
  | empty => cases hchild
  | text characters rest ih => exact ih h.text hchild
  | element start inner rest _ ih =>
    obtain ⟨hname, -, hrest⟩ := h.element
    rcases List.mem_cons.mp hchild with rfl | hchild
    · exact hname
    · exact ih hrest hchild

theorem jsonChildren_eq (content : Content) :
    content.jsonChildren
      = (content.children fun _ => true).map fun (start, inner) =>
        (start.name.localName, start.json inner.jsonChildren inner.characters) := by
  induction content with
  | empty => rfl
  | text characters rest ih => exact ih
  | element start inner rest _ ih =>
    rw [jsonChildren, ih]
    rfl

end Content

def Content.forms : Content → List (String × Json)
  | empty => []
  | text _ rest => rest.forms
  | element start inner rest =>
    (start.name.localName, start.form inner.forms inner.characters) :: rest.forms

theorem Content.forms_eq_jsonChildren {content : Content} (h : content.NamesPlain) :
    content.forms = content.jsonChildren := by
  induction content with
  | empty => rfl
  | text characters rest ih => exact ih h.text
  | element start inner rest ihInner ihRest =>
    obtain ⟨-, hinner, hrest⟩ := h.element
    rw [forms, jsonChildren, ihInner hinner, ihRest hrest, ElementStart.form,
      JsonFrame.value_addChildren start (distinct_jsonChildren hinner)]

namespace JsonBuilder

def put (builder : JsonBuilder) (children : List (String × Json)) (characters : String) : JsonBuilder :=
  match builder.frames with
  | [] => { builder with
      roots := children.foldl (fun roots child => Assoc.insert child.1 child.2 roots) builder.roots }
  | frame :: outer => { builder with
      frames := { frame.addChildren children with text := frame.text ++ characters } :: outer }

theorem foldl_add_forms (content : Content) (builder : JsonBuilder) :
    content.events.foldl add builder = builder.put content.forms content.characters := by
  induction content generalizing builder with
  | empty =>
    obtain ⟨frames, roots⟩ := builder
    cases frames <;>
      simp [Content.events, put, Content.forms, Content.characters, JsonFrame.addChildren]
  | text characters rest ih =>
    rw [Content.events, List.foldl_cons, ih]
    obtain ⟨frames, roots⟩ := builder
    cases frames with
    | nil => rfl
    | cons frame outer =>
      simp only [add, put, Content.forms, Content.characters]
      rw [JsonFrame.addChildren_text, String.append_assoc, JsonFrame.name_addChildren]
  | element start inner rest ihInner ihRest =>
    let inside : JsonFrame := {
      (JsonFrame.ofStart start).addChildren inner.forms with text := inner.characters }
    have hname : inside.name = start.name.localName :=
      JsonFrame.name_addChildren (JsonFrame.ofStart start) inner.forms
    have hvalue : inside.value = start.form inner.forms inner.characters := rfl
    have hopened : (builder.add (.opening start)).put inner.forms inner.characters
        = { builder with frames := inside :: builder.frames } := by
      simp [add, put, inside, JsonFrame.ofStart]
    rw [Content.events, List.cons_append, List.foldl_cons, List.foldl_append, List.foldl_cons,
      ihInner, hopened, ihRest]
    obtain ⟨frames, roots⟩ := builder
    cases frames with
    | nil =>
      simp only [add, hname, hvalue]
      rfl
    | cons frame outer =>
      simp only [add, hname, hvalue]
      rfl

def filled (builder : JsonBuilder) (content : Content) : JsonBuilder :=
  match builder.frames with
  | [] => { builder with
      roots := content.jsonChildren.foldl (fun roots child => Assoc.insert child.1 child.2 roots)
        builder.roots }
  | frame :: outer => { builder with
      frames := { frame.addChildren content.jsonChildren with
        text := frame.text ++ content.characters } :: outer }

theorem foldl_add {content : Content} (h : content.NamesPlain) (builder : JsonBuilder) :
    content.events.foldl add builder = builder.filled content := by
  rw [foldl_add_forms, Content.forms_eq_jsonChildren h]
  rfl

end JsonBuilder

namespace Document

theorem toJson_events {content : Content} (h : content.NamesPlain) :
    ({ events := content.events } : Document).toJson = Json.object content.jsonChildren := by
  unfold toJson
  rw [JsonBuilder.foldl_add h]
  rfl

/--
The only member of the form is the root element. In it no list stands directly inside of another one.
-/
theorem toJson_root {content : Content} {root : ElementStart} {inner : Content}
    (hroot : content.children (fun _ => true) = [(root, inner)]) (hnames : content.NamesPlain) :
    let document : Document := { events := content.events }
    document.toJson = .obj [(root.name.localName, root.json inner.jsonChildren inner.characters)]
      ∧ document.toJson.Flat := by
  intro document
  have hchildren : content.jsonChildren
      = [(root.name.localName, root.json inner.jsonChildren inner.characters)] := by
    rw [Content.jsonChildren_eq, hroot]
    rfl
  have hjson : document.toJson = Json.object content.jsonChildren := toJson_events hnames
  constructor
  · rw [hjson, hchildren]
    rfl
  · rw [hjson]
    exact Json.flat_object fun child hchild => (content.flat_jsonChildren child hchild).1

def mixedContent : Content :=
  -- Elements of one name that are empty, that hold text and that hold an element, with text between them.
  .text "\n"
    (.element
      { name := { localName := "a" }
        attributes := [
          { name := { localName := "x" }, value := "1" },
          { name := { localName := "x", pfx := some "p", uri := some "urn:p" }, value := "2" }] }
      (.text " t"
        (.element { name := { localName := "b" } } .empty
          (.element { name := { localName := "x" } } (.text "\u00A0" .empty)
            (.element { name := { localName := "b" } } (.text "2" .empty)
              (.text "u "
                (.element { name := { localName := "b" } }
                  (.element { name := { localName := "c" } } (.text "\n" .empty) .empty)
                  .empty))))))
      .empty)

theorem toJson_root_mixedContent :
    ({ events := mixedContent.events } : Document).toJson
      = .obj [("a", .obj [("#text", .str "tu"), ("@x", .str "2"),
        ("b", .arr [.null, .str "2", .obj [("c", .null)]]), ("x", .null)])] := by
  have hnames : mixedContent.NamesPlain := by
    apply Content.namesPlain_of_isNCName
    intro start hstart
    simp only [mixedContent, Content.events, List.cons_append, List.nil_append, List.mem_cons,
      List.not_mem_nil, or_false, false_or, reduceCtorEq, Event.opening.injEq] at hstart
    rcases hstart with rfl | rfl | rfl | rfl | rfl | rfl <;> decide
  exact (toJson_root rfl hnames).1.trans rfl

end Document
end Xml
end XmlPipeline
