import Mathlib.Data.List.Dedup
import XmlPipeline.Proofs.Output.JsonForm
import XmlPipeline.Proofs.Xml.Resolution

/-!
This module contains the members that attributes have in the JSON form of an element. Their names are made of
local names alone, so there is one for each attribute only if no two attributes share their local name.
-/

namespace XmlPipeline

/-! ### Lookups -/

namespace Assoc

variable {κ : Type u} {α : Type v} [Ord κ] [Std.LawfulEqOrd κ]

theorem find?_filter (test : κ → Bool) (entries : List (κ × α)) (key : κ) :
    find? key (entries.filter (test ·.1)) = if test key then find? key entries else none := by
  induction entries with
  | nil => simp [find?]
  | cons entry entries ih =>
    by_cases hkey : key = entry.1
    · subst hkey
      cases htest : test entry.1 <;> simp [htest, find?, ih]
    · cases htest : test entry.1 <;> simp [htest, find?, ih, hkey]

theorem filter_insert {test : κ → Bool} {key : κ} (h : test key = false) (value : α)
    (entries : List (κ × α)) :
    (insert key value entries).filter (test ·.1) = entries.filter (test ·.1) := by
  induction entries with
  | nil => simp [insert, h]
  | cons entry entries ih =>
    unfold insert
    split
    · simp [h]
    · next heq =>
      have hkey : key = entry.1 := Std.LawfulEqOrd.eq_of_compare heq
      rw [hkey] at h
      simp [hkey, h]
    · simp [List.filter_cons, ih]

theorem Ascending.nodup_keys {entries : List (κ × α)} (h : Ascending entries) :
    (entries.map (·.1)).Nodup := by
  apply List.Pairwise.map (·.1) _ h
  intro first second hlt heq
  simp [heq] at hlt

end Assoc

theorem latest?_isSome_iff {κ : Type u} {α : Type v} [DecidableEq κ] (key : κ) (entries : List (κ × α)) :
    (latest? key entries).isSome ↔ key ∈ entries.map (·.1) := by
  unfold latest?
  rw [Option.isSome_map, List.getLast?_isSome]
  simp [List.filter_eq_nil_iff]

theorem latest?_of_nodup {κ : Type u} {α : Type v} [DecidableEq κ] {entries : List (κ × α)}
    (h : (entries.map (·.1)).Nodup) {entry : κ × α} (hentry : entry ∈ entries) :
    latest? entry.1 entries = some entry.2 := by
  obtain ⟨before, after, rfl⟩ := List.append_of_mem hentry
  rw [List.map_append, List.map_cons] at h
  have hafter : latest? entry.1 after = none := by
    apply latest?_eq_none
    intro other hother heq
    have hnotMem := (List.nodup_cons.mp (List.nodup_append.mp h).2.1).1
    exact hnotMem (heq ▸ List.mem_map_of_mem hother)
  rw [latest?_append, ← List.singleton_append, latest?_append, hafter, latest?_singleton]
  simp

namespace SortedMap

variable {κ : Type u} {α : Type v} [Ord κ] [Std.TransOrd κ] [Std.LawfulEqOrd κ] [DecidableEq κ]
  {entries : List (κ × α)}

theorem mem_ofList_iff {entry : κ × α} :
    entry ∈ (ofList entries).toList ↔ latest? entry.1 entries = some entry.2 := by
  rw [Assoc.mem_iff_find? (SortedMap.ascending _), find?_ofList]

theorem length_ofList_eq_iff (entries : List (κ × α)) :
    (ofList entries).toList.length = entries.length ↔ (entries.map (·.1)).Nodup := by
  have hperm : ((ofList entries).toList.map (·.1)).Perm (entries.map (·.1)).dedup := by
    rw [List.perm_ext_iff_of_nodup (SortedMap.ascending _).nodup_keys (List.nodup_dedup _)]
    intro key
    rw [List.mem_dedup, ← latest?_isSome_iff, ← latest?_isSome_iff, latest?_toList]
    unfold get?
    rw [find?_ofList]
  have hlength : (ofList entries).toList.length = (entries.map (·.1)).dedup.length := by
    simpa using hperm.length_eq
  rw [hlength]
  constructor
  · intro hsame
    rw [← List.dedup_eq_self]
    exact (List.dedup_sublist _).eq_of_length (by simpa using hsame)
  · intro hnodup
    rw [hnodup.dedup, List.length_map]

end SortedMap

/-! ### Members of forms -/

namespace Json

def isMarked (name : String) : Bool :=
  name.toList.head? == some '@'

def get? (name : String) : Json → Option Json
  | .obj members => Assoc.find? name members
  | _ => none

def markedMembers : Json → List (String × Json)
  | .obj members => members.filter (isMarked ·.1)
  | _ => []

def gathered (values : List Json) (member : Option Json) : Option Json :=
  values.foldl (fun member value => some (beside member value)) member

def IsAmong (value member : Json) : Prop :=
  member = value ∨ ∃ items, member = .arr items ∧ value ∈ items

variable {value member : Json} {values : List Json}

theorem isAmong_beside_self (before : Option Json) : value.IsAmong (beside before value) := by
  unfold beside
  split
  · exact .inl rfl
  · exact .inr ⟨_, rfl, by simp⟩
  · exact .inr ⟨_, rfl, by simp⟩

theorem IsAmong.beside (h : value.IsAmong member) (hlist : ¬ value.IsList) (other : Json) :
    value.IsAmong (beside (some member) other) := by
  obtain rfl | ⟨items, rfl, hitem⟩ := h
  · have hpair : Json.beside (some member) other = .arr [member, other] := by
      cases member <;> first | rfl | exact absurd trivial hlist
    exact .inr ⟨_, hpair, by simp⟩
  · exact .inr ⟨_, rfl, List.mem_append_left _ hitem⟩

theorem IsAmong.gathered (h : value.IsAmong member) (hlist : ¬ value.IsList) (values : List Json) :
    ∃ last, gathered values (some member) = some last ∧ value.IsAmong last := by
  induction values generalizing member with
  | nil => exact ⟨member, rfl, h⟩
  | cons other values ih => exact ih (h.beside hlist other)

inductive Within (value : Json) : Json → Prop where
  | self : Within value value
  | member {name : String} {other : Json} {members : List (String × Json)} (h : Within value other)
    (found : Assoc.find? name members = some other) : Within value (.obj members)
  | item {other : Json} {items : List Json} (h : Within value other) (mem : other ∈ items) :
    Within value (.arr items)

theorem Within.trans {inner : Json} (h : inner.Within value) (hvalue : value.Within member) :
    inner.Within member := by
  induction hvalue with
  | self => exact h
  | member _ found ih => exact .member ih found
  | item _ mem ih => exact .item ih mem

theorem IsAmong.within (h : value.IsAmong member) : value.Within member := by
  obtain rfl | ⟨items, rfl, hitem⟩ := h
  · exact .self
  · exact .item .self hitem

theorem within_of_get? {name : String} {json : Json} (h : json.get? name = some member) :
    member.Within json := by
  cases json with
  | obj members => exact .member .self h
  | _ => cases h

theorem isAmong_gathered (hmem : value ∈ values) (hlist : ¬ value.IsList) (before : Option Json) :
    ∃ last, gathered values before = some last ∧ value.IsAmong last := by
  induction values generalizing before with
  | nil => cases hmem
  | cons other values ih =>
    cases List.mem_cons.mp hmem with
    | inl heq =>
      obtain rfl : value = other := heq
      exact (isAmong_beside_self before).gathered hlist values
    | inr hrest => exact ih hrest (some (Json.beside before other))

end Json

namespace Xml

open Json (isMarked gathered)

namespace JsonFrame

theorem not_isList_value (frame : JsonFrame) : ¬ frame.value.IsList := by
  unfold value
  simp only
  repeat' split
  all_goals exact id

theorem get?_value (frame : JsonFrame) {name : String} (hname : name ≠ "#text") :
    frame.value.get? name = Assoc.find? name frame.members := by
  unfold value
  simp only
  split
  · next hempty =>
    rw [List.isEmpty_iff.mp hempty]
    split <;> rfl
  · split
    · rfl
    · rw [Json.get?, Assoc.find?_insert, if_neg hname]

theorem markedMembers_value (frame : JsonFrame) :
    frame.value.markedMembers = frame.members.filter (isMarked ·.1) := by
  unfold value
  simp only
  split
  · next hempty =>
    rw [List.isEmpty_iff.mp hempty]
    split <;> rfl
  · split
    · rfl
    · exact Assoc.filter_insert (by decide) _ _

end JsonFrame

theorem isMarked_member (attr : Attribute) : isMarked attr.member.1 = true := by
  simp [isMarked, Attribute.member]

namespace ElementStart

variable (start : ElementStart) {children : List (String × Json)} (characters : String)

theorem get?_form {name : String} (hname : name ≠ "#text") (children : List (String × Json)) :
    (start.form children characters).get? name
      = gathered (valuesOf name children) (latest? name (start.attributes.map Attribute.member)) := by
  unfold form
  rw [JsonFrame.get?_value _ hname]
  simp only
  rw [JsonFrame.find?_addChildren, JsonFrame.members_ofStart, SortedMap.find?_ofList]
  rfl

theorem latest?_of_unmarked {name : String} (h : isMarked name = false) :
    latest? name (start.attributes.map Attribute.member) = none := by
  apply latest?_eq_none
  intro entry hentry hsame
  obtain ⟨attr, -, rfl⟩ := List.mem_map.mp hentry
  rw [← hsame, isMarked_member] at h
  cases h

theorem markedMembers_form (h : ∀ child ∈ children, isMarked child.1 = false) :
    (start.form children characters).markedMembers
      = (SortedMap.ofList (start.attributes.map Attribute.member)).toList := by
  unfold form
  rw [JsonFrame.markedMembers_value]
  simp only
  apply Assoc.eq_of_find?
  · apply List.Pairwise.filter
    apply JsonFrame.ascending_addChildren
    rw [JsonFrame.members_ofStart]
    exact SortedMap.ascending _
  · exact SortedMap.ascending _
  intro name
  rw [Assoc.find?_filter, SortedMap.find?_ofList]
  cases hname : isMarked name with
  | false => exact (start.latest?_of_unmarked hname).symm
  | true =>
    have hnone : valuesOf name children = [] := by
      rw [List.eq_nil_iff_forall_not_mem]
      intro value hvalue
      rw [h _ (mem_valuesOf.mp hvalue)] at hname
      cases hname
    rw [if_pos rfl, JsonFrame.find?_addChildren, JsonFrame.members_ofStart, SortedMap.find?_ofList, hnone]
    rfl

theorem nodup_member_iff (attributes : List Attribute) :
    ((attributes.map Attribute.member).map (·.1)).Nodup ↔ (attributes.map (·.name.localName)).Nodup := by
  have hkeys : (attributes.map Attribute.member).map (·.1)
      = (attributes.map (·.name.localName)).map ("@" ++ ·) := by
    simp [Attribute.member]
  have hinjective : Function.Injective ("@" ++ · : String → String) := by
    intro first second hsame
    simpa using hsame
  rw [hkeys, List.nodup_map_iff hinjective]

/--
The form has a member for each attribute, and no other member that is named so.
-/
def IsCompleteIn (start : ElementStart) (form : Json) : Prop :=
  form.markedMembers.length = start.attributes.length
    ∧ ∀ attr ∈ start.attributes, attr.member ∈ form.markedMembers

theorem isCompleteIn_form_iff (h : ∀ child ∈ children, isMarked child.1 = false) :
    start.IsCompleteIn (start.form children characters)
      ↔ (start.attributes.map (·.name.localName)).Nodup := by
  have hlength : start.attributes.length = (start.attributes.map Attribute.member).length :=
    (List.length_map _).symm
  unfold IsCompleteIn
  rw [start.markedMembers_form characters h, ← nodup_member_iff, hlength, SortedMap.length_ofList_eq_iff,
    and_iff_left_iff_imp]
  intro hnodup attr hattr
  exact SortedMap.mem_ofList_iff.mpr (latest?_of_nodup hnodup (List.mem_map_of_mem hattr))

end ElementStart

/-! ### Documents -/

namespace Content

theorem forms_eq (content : Content) :
    content.forms
      = (content.children fun _ => true).map fun (start, inner) =>
        (start.name.localName, start.form inner.forms inner.characters) := by
  induction content with
  | empty => rfl
  | text characters rest ih => exact ih
  | element start inner rest _ ih =>
    rw [forms, ih]
    rfl

theorem not_isList_forms {content : Content} {child : String × Json} (h : child ∈ content.forms) :
    ¬ child.2.IsList := by
  rw [forms_eq] at h
  obtain ⟨⟨start, inner⟩, -, rfl⟩ := List.mem_map.mp h
  exact JsonFrame.not_isList_value _

theorem form_within {start : ElementStart} {content : Content} {child : String × Json}
    (h : child ∈ content.forms) (hname : child.1 ≠ "#text") (characters : String) :
    child.2.Within (start.form content.forms characters) := by
  have hvalue : child.2 ∈ ElementStart.valuesOf child.1 content.forms := ElementStart.mem_valuesOf.mpr h
  obtain ⟨member, hmember, hamong⟩ := Json.isAmong_gathered hvalue (not_isList_forms h)
    (latest? child.1 (start.attributes.map Attribute.member))
  have hget := (start.get?_form characters hname content.forms).trans hmember
  exact hamong.within.trans (Json.within_of_get? hget)

theorem exists_form_within {content : Content}
    (hnames : ∀ element ∈ content.elements, element.1.name.localName ≠ "#text")
    {element : ElementStart × Content} (h : element ∈ content.elements) :
    ∃ child ∈ content.forms, child.1 ≠ "#text"
      ∧ (element.1.form element.2.forms element.2.characters).Within child.2 := by
  induction content with
  | empty => cases h
  | text characters rest ih => exact ih hnames h
  | element start inner rest ihInner ihRest =>
    obtain ⟨hstart, hothers⟩ := List.forall_mem_cons.mp hnames
    obtain ⟨hinner, hrest⟩ := List.forall_mem_append.mp hothers
    cases List.mem_cons.mp h with
    | inl heq =>
      subst heq
      exact ⟨_, List.mem_cons_self, hstart, .self⟩
    | inr hother =>
      cases List.mem_append.mp hother with
      | inl hmem =>
        obtain ⟨child, hchild, hname, hwithin⟩ := ihInner hinner hmem
        exact ⟨_, List.mem_cons_self, hstart, hwithin.trans (form_within hchild hname _)⟩
      | inr hmem =>
        obtain ⟨child, hchild, hname, hwithin⟩ := ihRest hrest hmem
        exact ⟨child, List.mem_cons_of_mem _ hchild, hname, hwithin⟩

end Content

namespace Document

theorem toJson_forms (content : Content) :
    ({ events := content.events } : Document).toJson = Json.object content.forms := by
  unfold toJson
  rw [JsonBuilder.foldl_add_forms]
  rfl

theorem toJson_of_children {content : Content} {root : ElementStart} {inner : Content}
    (h : content.children (fun _ => true) = [(root, inner)]) :
    ({ events := content.events } : Document).toJson
      = .obj [(root.name.localName, root.form inner.forms inner.characters)] := by
  rw [toJson_forms, Content.forms_eq, h]
  rfl

/--
The form of a document with one root element has the form of each element in it. There is a member for each
attribute of an element exactly if the attributes have different local names; of the attributes with one local
name the last one has it.
-/
theorem toJson_attributes {source : String} {document : Document} (h : read source = .ok document) :
    (∃ content : Content, document.events = content.events)
      ∧ ∀ content : Content, document.events = content.events →
        ∀ root inner, content.children (fun _ => true) = [(root, inner)] →
          document.toJson = .obj [(root.name.localName, root.form inner.forms inner.characters)]
            ∧ ∀ start inside, (start, inside) ∈ content.elements →
              let form := start.form inside.forms inside.characters
              let attributes := start.attributes.map Attribute.member
              ((∀ element ∈ content.elements, element.1.name.localName ≠ "#text") →
                  form.Within document.toJson)
                ∧ (∀ name, isMarked name = true → form.get? name
                  = gathered (ElementStart.valuesOf name inside.forms) (latest? name attributes))
                ∧ ((∀ child ∈ inside.forms, isMarked child.1 = false) →
                  (∀ field, field ∈ form.markedMembers ↔ latest? field.1 attributes = some field.2)
                    ∧ (start.IsCompleteIn form ↔ (start.attributes.map (·.name.localName)).Nodup)) := by
  refine ⟨exists_content_of_read h, ?_⟩
  intro content hcontent root inner hroot
  obtain ⟨events⟩ := document
  obtain rfl : events = content.events := hcontent
  have hjson := toJson_of_children hroot
  refine ⟨hjson, ?_⟩
  intro start inside helement form attributes
  refine ⟨?_, ?_, ?_⟩
  · intro hnames
    obtain ⟨child, hchild, _, hwithin⟩ := Content.exists_form_within hnames helement
    rw [Content.forms_eq, hroot] at hchild
    obtain rfl := List.mem_singleton.mp hchild
    have hfound : Assoc.find? root.name.localName
        [(root.name.localName, root.form inner.forms inner.characters)]
        = some (root.form inner.forms inner.characters) := by
      simp [Assoc.find?]
    rw [hjson]
    exact .member hwithin hfound
  · intro name hname
    apply start.get?_form
    rintro rfl
    cases hname
  · intro hunmarked
    refine ⟨?_, start.isCompleteIn_form_iff _ hunmarked⟩
    intro field
    rw [start.markedMembers_form _ hunmarked]
    exact SortedMap.mem_ofList_iff

def orderContent : Content :=
  -- A local name is shared by attributes of different elements only.
  .element
    { name := { localName := "order" }
      attributes := [
        { name := { localName := "id" }, value := "1" },
        { name := { localName := "by", pfx := some "p", uri := some "urn:p" }, value := "2" }]
      namespaces := [{ pfx := some "p", uri := "urn:p" }] }
    (.element
      { name := { localName := "item" }, attributes := [{ name := { localName := "id" }, value := "3" }] }
      (.text "x" .empty) .empty)
    .empty

def orderText : String :=
  "<order xmlns:p=\"urn:p\" id=\"1\" p:by=\"2\"><item id=\"3\">x</item></order>"

theorem toJson_attributes_orderText :
    let document : Document := { events := orderContent.events }
    read orderText = .ok document
      ∧ ∀ start inside, (start, inside) ∈ orderContent.elements →
        let form := start.form inside.forms inside.characters
        form.Within document.toJson ∧ start.IsCompleteIn form := by
  intro document
  have hread : read orderText = .ok document := eq_ok_of_toOption (by decide +kernel)
  have hnames : ∀ element ∈ orderContent.elements, element.1.name.localName ≠ "#text" := by decide
  have hunmarked : ∀ element ∈ orderContent.elements,
      ∀ child ∈ element.2.forms, isMarked child.1 = false := by decide +kernel
  have hapart : ∀ element ∈ orderContent.elements,
      (element.1.attributes.map (·.name.localName)).Nodup := by decide
  refine ⟨hread, ?_⟩
  intro start inside helement form
  obtain ⟨_, hforms⟩ := (toJson_attributes hread).2 orderContent rfl _ _ rfl
  obtain ⟨hwithin, _, hcomplete⟩ := hforms start inside helement
  exact ⟨hwithin hnames, (hcomplete (hunmarked _ helement)).2.mpr (hapart _ helement)⟩

def sharedStart : ElementStart where
  name := { localName := "r" }
  attributes := [
    { name := { localName := "a" }, value := "1" },
    { name := { localName := "a", pfx := some "p", uri := some "urn:p" }, value := "2" }]
  namespaces := [{ pfx := some "p", uri := "urn:p" }]

def sharedText : String :=
  "<r xmlns:p=\"urn:p\" a=\"1\" p:a=\"2\"/>"

/--
Of two attributes in different namespaces one is lost if they share their local name.
-/
theorem toJson_sharedText :
    read sharedText = .ok { events := (Content.element sharedStart .empty .empty).events }
      ∧ (sharedStart.attributes.map fun attr => (attr.name.uri, attr.name.localName)).Nodup
      ∧ ({ events := (Content.element sharedStart .empty .empty).events } : Document).toJson
        = .obj [("r", .obj [("@a", .str "2")])]
      ∧ ¬ sharedStart.IsCompleteIn (.obj [("@a", .str "2")]) := by
  refine ⟨eq_ok_of_toOption (by decide +kernel), by decide, rfl, ?_⟩
  rintro ⟨hlength, -⟩
  exact absurd hlength (by decide)

end Document
end Xml
end XmlPipeline
