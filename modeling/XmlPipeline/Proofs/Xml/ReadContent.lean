import XmlPipeline.Proofs.Xml.Openings
import XmlPipeline.Proofs.Xml.Readable
import XmlPipeline.Proofs.Xml.WrittenMarkup

/-!
This module contains the contents that the reader makes of texts whose tags are plain: names are made of a
local part and maybe a prefix, and declarations are written without references. The main statement is that
such a content can be read again from its markup.
-/

namespace XmlPipeline
namespace Xml

def IsQName (raw : List Char) : Prop :=
  IsNCName (splitName raw).2 ∧ ∀ pfx ∈ (splitName raw).1, IsNCName pfx

instance (raw : List Char) : Decidable (IsQName raw) :=
  inferInstanceAs (Decidable (IsNCName (splitName raw).2 ∧ ∀ pfx ∈ (splitName raw).1, IsNCName pfx))

namespace Tag

structure Plain (content : List Char) : Prop where
  name : IsQName (nameOf content)
  keys : ∀ attr ∈ (read true content).attributes, IsQName attr.key
  uris : ∀ attr ∈ (read true content).attributes, attr.isDeclaration = true →
    ∀ c ∈ ['&', '<', '>', '\'', '"'], c ∉ attr.value

instance (content : List Char) : Decidable (Plain content) :=
  decidable_of_iff
    (IsQName (nameOf content)
      ∧ (∀ attr ∈ (read true content).attributes, IsQName attr.key)
      ∧ ∀ attr ∈ (read true content).attributes, attr.isDeclaration = true →
          (['&', '<', '>', '\'', '"'].all fun c => c ∉ attr.value) = true)
    ⟨fun ⟨name, keys, uris⟩ =>
        ⟨name, keys, fun attr hattr hdeclaration c hc =>
          of_decide_eq_true (List.all_eq_true.mp (uris attr hattr hdeclaration) c hc)⟩,
      fun h => ⟨h.name, h.keys, fun attr hattr hdeclaration =>
        List.all_eq_true.mpr fun c hc => decide_eq_true (h.uris attr hattr hdeclaration c hc)⟩⟩

end Tag

/-! ### Declarations of a read tag -/

theorem key_of_declaredPrefix? {key : List Char} {binding : NamespaceBinding}
    (h : declaredPrefix? key = some binding.pfx) : key = binding.key.toList := by
  unfold declaredPrefix? at h
  unfold NamespaceBinding.key
  split at h
  · next hafter =>
    rw [Text.eq_of_afterMarker? hafter, ← Option.some.inj h]
    rfl
  · next pfx hafter =>
    rw [Text.eq_of_afterMarker? hafter, ← Option.some.inj h]
    simp
  · cases h

theorem splitName_key {binding : NamespaceBinding} {pfx : String} (h : binding.pfx = some pfx) :
    splitName binding.key.toList = (some "xmlns", pfx) := by
  have hcut : Text.cutAt? (· == ':') (['x', 'm', 'l', 'n', 's'] ++ ':' :: pfx.toList)
      = some (['x', 'm', 'l', 'n', 's'], ':', pfx.toList) := cutAt?_append _ (by simp) (by decide)
  have hlist : binding.key.toList = ['x', 'm', 'l', 'n', 's'] ++ ':' :: pfx.toList := by
    simp [NamespaceBinding.key, h]
  unfold splitName
  rw [hlist, hcut]
  simp

theorem unescape_of_literal {cs : List Char} (h : '&' ∉ cs) : unescape cs = .ok cs := by
  unfold unescape
  generalize Utf8.size cs = size
  induction cs with
  | nil => simp [unescapeRest]
  | cons c cs ih =>
    obtain ⟨hc, hrest⟩ := List.ne_and_not_mem_of_not_mem_cons h
    rw [unescapeRest, if_neg (Ne.symm hc), ih hrest]
    rfl

namespace Tag

variable {size : Nat} {earlier : List RawAttribute} {cs after : List Char}
  {attr : RawAttribute}

theorem scanAttributes_of_nothing (unique : Bool)
    (h : scanAttribute size (if unique then earlier else []) cs = .nothing) :
    scanAttributes unique size earlier cs = ([], none) := by
  rw [scanAttributes]
  split
  · rfl
  · next heq => cases h.symm.trans heq
  · next heq => cases h.symm.trans heq

theorem scanAttributes_of_failure (unique : Bool) {error : AttributeError}
    (h : scanAttribute size (if unique then earlier else []) cs = .failure error) :
    scanAttributes unique size earlier cs = ([], some error) := by
  rw [scanAttributes]
  split
  · next heq => cases h.symm.trans heq
  · next heq =>
    obtain rfl := Scan.failure.inj (h.symm.trans heq)
    rfl
  · next heq => cases h.symm.trans heq

theorem scanAttributes_of_attribute (unique : Bool)
    (h : scanAttribute size (if unique then earlier else []) cs = .attribute attr after) :
    scanAttributes unique size earlier cs
      = (attr :: (scanAttributes unique size (attr :: earlier) after).1,
        (scanAttributes unique size (attr :: earlier) after).2) := by
  rw [scanAttributes]
  split
  · next heq => cases h.symm.trans heq
  · next heq => cases h.symm.trans heq
  · next heq =>
    obtain ⟨rfl, rfl⟩ := Scan.attribute.inj (h.symm.trans heq)
    rfl

theorem scanAttribute_lax (h : ∀ error, scanAttribute size earlier cs ≠ .failure error) :
    scanAttribute size [] cs = scanAttribute size earlier cs := by
  unfold scanAttribute at h ⊢
  split
  · rfl
  · next first rest heq =>
    rw [heq] at h
    simp only at h ⊢
    split
    · rfl
    · next after heq' =>
      rw [heq'] at h
      simp only at h
      split at h
      · exact absurd rfl (h _)
      · simp
    · rfl

theorem scanAttributes_lax (size : Nat) (earlier later : List RawAttribute) (cs : List Char)
    (h : (scanAttributes true size earlier cs).2 = none) :
    scanAttributes false size later cs = scanAttributes true size earlier cs := by
  have hlax (hne : ∀ error, scanAttribute size earlier cs ≠ .failure error) :
      scanAttribute size (if false then later else []) cs = scanAttribute size earlier cs :=
    scanAttribute_lax hne
  match hscan : scanAttribute size earlier cs with
  | .nothing =>
    rw [hscan] at hlax
    rw [scanAttributes_of_nothing true hscan, scanAttributes_of_nothing false (hlax (by simp))]
  | .failure error =>
    rw [scanAttributes_of_failure true hscan] at h
    cases h
  | .attribute attr after =>
    rw [hscan] at hlax
    rw [scanAttributes_of_attribute true hscan] at h ⊢
    rw [scanAttributes_of_attribute false (hlax (by simp)),
      scanAttributes_lax size (attr :: earlier) (attr :: later) after h]
termination_by cs.length
decreasing_by exact scanAttribute_length hscan

theorem attributes_read_lax {content : List Char} (h : (read true content).failure = none) :
    (read false content).attributes = (read true content).attributes :=
  congrArg Prod.fst (scanAttributes_lax _ [] [] _ h)

end Tag

theorem exists_of_mem_right {α β : Type} {related : α → β → Prop} {as : List α} {bs : List β} {b : β}
    (h : List.Forall₂ related as bs) (hb : b ∈ bs) : ∃ a ∈ as, related a b := by
  induction h with
  | nil => cases hb
  | cons hfirst _ ih =>
    cases List.mem_cons.mp hb with
    | inl heq => exact ⟨_, List.mem_cons_self, heq ▸ hfirst⟩
    | inr hmem =>
      obtain ⟨a, ha, hrelated⟩ := ih hmem
      exact ⟨a, List.mem_cons_of_mem _ ha, hrelated⟩

namespace Scope

variable {scope inner next : Scope} {start : ElementStart}

theorem declare_cases {attr : RawAttribute} (h : scope.declare attr = .ok next) :
    (attr.isDeclaration = false ∧ next = scope)
    ∨ ∃ pfx, declaredPrefix? attr.key = some pfx
      ∧ next = scope.add { pfx, uri := String.ofList attr.value }
      ∧ ∀ name ∈ pfx, if name = "xml" then String.ofList attr.value = xmlNamespace
          else name ≠ "xmlns" ∧ String.ofList attr.value ≠ xmlNamespace
            ∧ String.ofList attr.value ≠ xmlnsNamespace := by
  unfold declare at h
  simp only at h
  split at h
  · next hnone =>
    left
    exact ⟨by simp [RawAttribute.isDeclaration, hnone], (Except.ok.inj h).symm⟩
  · next hdefault =>
    right
    exact ⟨none, hdefault, (Except.ok.inj h).symm, by simp⟩
  · next pfx hpfx =>
    right
    refine ⟨some pfx, hpfx, ?_⟩
    split at h
    · next hxml =>
      split at h
      · next huri =>
        refine ⟨?_, ?_⟩
        · rw [← Except.ok.inj h]
          simp [add, hxml]
        · simp [hxml, huri]
      · cases h
    · next hxml =>
      split at h
      · cases h
      · next hallowed =>
        refine ⟨?_, ?_⟩
        · rw [← Except.ok.inj h]
          simp [add, hxml]
        · simpa [hxml, not_or] using hallowed

theorem declareAll_cases {attrs : List RawAttribute} {namespaces : List NamespaceBinding}
    (h : scope.declareAll attrs = .ok inner)
    (hnamespaces : List.Forall₂ (fun raw binding => declaredPrefix? raw.key = some binding.pfx
        ∧ unescape raw.value = .ok binding.uri.toList)
      (attrs.filter (·.isDeclaration)) namespaces)
    (hkeys : ∀ attr ∈ attrs, IsQName attr.key)
    (huris : ∀ attr ∈ attrs, attr.isDeclaration = true →
      ∀ c ∈ ['&', '<', '>', '\'', '"'], c ∉ attr.value) :
    inner = scope.addAll namespaces ∧ ∀ binding ∈ namespaces, binding.Declarable := by
  induction attrs generalizing scope namespaces with
  | nil =>
    cases hnamespaces
    exact ⟨(Except.ok.inj h).symm, by simp⟩
  | cons attr attrs ih =>
    unfold declareAll at h ih
    rw [List.foldlM_cons] at h
    obtain ⟨next, hnext, hrest⟩ := exists_of_bind_ok h
    have hlaterKeys : ∀ other ∈ attrs, IsQName other.key :=
      fun other hother => hkeys other (List.mem_cons_of_mem _ hother)
    have hlaterUris : ∀ other ∈ attrs, other.isDeclaration = true →
        ∀ c ∈ ['&', '<', '>', '\'', '"'], c ∉ other.value :=
      fun other hother => huris other (List.mem_cons_of_mem _ hother)
    cases declare_cases hnext with
    | inl hother =>
      obtain ⟨hdeclaration, rfl⟩ := hother
      rw [List.filter_cons_of_neg (by simp [hdeclaration])] at hnamespaces
      exact ih hrest hnamespaces hlaterKeys hlaterUris
    | inr hdeclared =>
      obtain ⟨pfx, hpfx, rfl, hallowed⟩ := hdeclared
      have hdeclaration : attr.isDeclaration = true := by simp [RawAttribute.isDeclaration, hpfx]
      rw [List.filter_cons_of_pos hdeclaration] at hnamespaces
      cases hnamespaces with
      | cons hfirst hothers =>
        rename_i binding bindings
        have hplain := huris attr List.mem_cons_self hdeclaration
        -- A value without references is the namespace as it stands.
        have huri : String.ofList attr.value = binding.uri := by
          rw [unescape_of_literal (hplain '&' (by simp))] at hfirst
          rw [Except.ok.inj hfirst.2, String.ofList_toList]
        obtain rfl : pfx = binding.pfx := Option.some.inj (hpfx.symm.trans hfirst.1)
        obtain ⟨hinner, hdeclarable⟩ := ih hrest hothers hlaterKeys hlaterUris
        rw [huri] at hinner hallowed
        refine ⟨hinner, ?_⟩
        intro other hother
        cases List.mem_cons.mp hother with
        | inr hmem => exact hdeclarable other hmem
        | inl heq =>
          rw [heq]
          refine ⟨?_, hallowed, ?_⟩
          · intro name hname
            have hkey := (hkeys attr List.mem_cons_self).1
            rw [key_of_declaredPrefix? hfirst.1, splitName_key hname] at hkey
            exact hkey
          · rw [← huri]
            simpa using hplain

theorem isWritable_of_splitName {raw : List Char} {name : QName} (h : IsQName raw)
    (hsplit : splitName raw = (name.pfx, name.localName)) : name.IsWritable := by
  unfold IsQName at h
  rw [hsplit] at h
  exact h

theorem namespaces_distinct_of_collected {attrs : List RawAttribute}
    {namespaces : List NamespaceBinding} (hkeys : (attrs.map (·.key)).Nodup)
    (h : List.Forall₂ (fun raw binding => declaredPrefix? raw.key = some binding.pfx
        ∧ unescape raw.value = .ok binding.uri.toList)
      (attrs.filter (·.isDeclaration)) namespaces) : (namespaces.map (·.pfx)).Nodup := by
  have hnodup : ((attrs.filter (·.isDeclaration)).map (·.key)).Nodup :=
    hkeys.sublist (List.Sublist.map _ List.filter_sublist)
  have hsame : (attrs.filter (·.isDeclaration)).map (·.key)
      = namespaces.map (·.key.toList) := by
    generalize attrs.filter (·.isDeclaration) = raws at h
    clear hnodup
    induction h with
    | nil => rfl
    | cons hfirst _ ih => rw [List.map_cons, List.map_cons, key_of_declaredPrefix? hfirst.1, ih]
  rw [hsame] at hnodup
  -- Declarations of one prefix have one key.
  have hkey : namespaces.map (·.key.toList)
      = (namespaces.map (·.pfx)).map fun pfx => (NamespaceBinding.key { pfx, uri := "" }).toList := by
    rw [List.map_map]
    rfl
  rw [hkey] at hnodup
  exact hnodup.of_map _

theorem openElement_readable {content : List Char} (hplain : Tag.Plain content)
    (h : scope.openElement content = .ok (start, inner)) :
    inner = scope.addAll start.namespaces ∧ start.Readable inner := by
  obtain ⟨hdeclare, hname, hfailure, hcollected⟩ := openElement_cases h
  rw [Tag.attributes_read_lax hfailure] at hdeclare
  have hdistinct := distinct_of_openElement h
  obtain ⟨attributes, hattributes, hresolved⟩ := hcollected.attributes
  obtain ⟨namespaces, hnamespaces, hdeclared⟩ := hcollected.namespaces
  obtain rfl : start.attributes = attributes := hattributes
  obtain rfl : start.namespaces = namespaces := hnamespaces
  obtain ⟨hinner, hdeclarable⟩ := declareAll_cases hdeclare hdeclared hplain.keys hplain.uris
  have hraw : ∀ attr ∈ start.attributes, ∃ raw ∈ (Tag.read true content).attributes,
      inner.attributeName raw.key = .ok attr.name := by
    intro attr hattr
    obtain ⟨raw, hraw, hok⟩ := exists_of_mem_right hresolved hattr
    exact ⟨raw, List.mem_of_mem_filter hraw, hok⟩
  refine ⟨hinner, ?_⟩
  exact {
    writable := isWritable_of_splitName hplain.name (splitName_of_elementName hname)
    resolved := by rw [lexical_of_elementName hname]; exact hname
    attributes_writable := by
      intro attr hattr
      obtain ⟨raw, hmem, hok⟩ := hraw attr hattr
      exact isWritable_of_splitName (hplain.keys raw hmem) (splitName_of_attributeName hok)
    attributes_resolved := by
      intro attr hattr
      obtain ⟨raw, _, hok⟩ := hraw attr hattr
      rw [lexical_of_attributeName hok]
      exact hok
    attributes_undeclaring := hdistinct.attributes_undeclaring
    attributes_distinct := hdistinct.attributes_distinct
    namespaces_declarable := hdeclarable
    namespaces_distinct := namespaces_distinct_of_collected (Tag.nodup_read content) hdeclared }

end Scope

/-! ### Contents of elements -/

theorem Content.Opened.readable {content : Content} {scope : Scope}
    (h : content.Opened Tag.Plain scope) : content.Readable scope := by
  induction content generalizing scope with
  | empty => trivial
  | text characters rest ih => exact ⟨h.1, ih h.2⟩
  | element start inner rest ihInner ihRest =>
    obtain ⟨⟨tag, within, hplain, hopen, hinner⟩, hrest⟩ := h
    obtain ⟨rfl, hstart⟩ := Scope.openElement_readable hplain hopen
    exact ⟨hstart, ihInner hinner, ihRest hrest⟩

theorem Reader.readable_ofText {source : String} {content : Content}
    (hplain : ∀ tag ∈ Markup.openings (withoutMark source.toList), Tag.Plain tag)
    (h : (ofText source).events.1 = content.events) : content.Readable .initial :=
  (opened_ofText hplain h).readable

end Xml
end XmlPipeline
