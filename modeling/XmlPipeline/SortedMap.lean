/-!
This module contains finite maps that are held as association lists in ascending order of their
keys. The main statements are `get?_insert`, which says what a lookup finds after an insertion, and
that the keys stay in ascending order.
-/

namespace XmlPipeline
namespace Assoc

variable {κ : Type u} {α : Type v} [Ord κ]

def insert (key : κ) (value : α) : List (κ × α) → List (κ × α)
  | [] => [(key, value)]
  | entry :: rest =>
    match compare key entry.1 with
    | .lt => (key, value) :: entry :: rest
    | .eq => (key, value) :: rest
    | .gt => entry :: insert key value rest

def find? (key : κ) : List (κ × α) → Option α
  | [] => none
  | entry :: rest => if compare key entry.1 == .eq then some entry.2 else find? key rest

def Ascending (entries : List (κ × α)) : Prop :=
  entries.Pairwise fun first second => compare first.1 second.1 = .lt

theorem mem_insert {key : κ} {value : α} {entries : List (κ × α)} {entry : κ × α}
    (h : entry ∈ insert key value entries) : entry = (key, value) ∨ entry ∈ entries := by
  induction entries with
  | nil => simpa [insert] using h
  | cons head rest ih =>
    simp only [insert] at h
    split at h
    · simpa using h
    · rcases List.mem_cons.mp h with h | h
      · exact .inl h
      · exact .inr (List.mem_cons_of_mem _ h)
    · rcases List.mem_cons.mp h with h | h
      · exact .inr (h ▸ List.mem_cons_self)
      · exact (ih h).imp_right (List.mem_cons_of_mem _)

theorem find?_insert [Std.TransOrd κ] [Std.LawfulEqOrd κ] [DecidableEq κ] (key : κ) (value : α)
    (entries : List (κ × α)) (other : κ) :
    find? other (insert key value entries) =
      if other = key then some value else find? other entries := by
  induction entries with
  | nil => simp [insert, find?]
  | cons head rest ih =>
    simp only [insert]
    split
    · simp only [find?, beq_iff_eq, Std.LawfulEqOrd.compare_eq_iff_eq]
    · next h =>
      have : key = head.1 := Std.LawfulEqOrd.eq_of_compare h
      subst this
      by_cases ho : other = head.1 <;> simp [find?, ho]
    · next h =>
      have : key ≠ head.1 := by
        intro heq
        rw [heq, Std.ReflOrd.compare_self] at h
        simp at h
      simp only [find?, beq_iff_eq, Std.LawfulEqOrd.compare_eq_iff_eq, ih]
      by_cases ho : other = key
      · subst ho
        simp [this]
      · simp [ho]

theorem ascending_insert [Std.TransOrd κ] (key : κ) (value : α) {entries : List (κ × α)}
    (h : Ascending entries) : Ascending (insert key value entries) := by
  induction entries with
  | nil => simp [insert, Ascending]
  | cons head rest ih =>
    have hrest : Ascending rest := (List.pairwise_cons.mp h).2
    have hhead := (List.pairwise_cons.mp h).1
    simp only [insert]
    split
    · next hlt =>
      refine List.pairwise_cons.mpr ⟨fun entry hentry => ?_, h⟩
      rcases List.mem_cons.mp hentry with rfl | hentry
      · exact hlt
      · exact Std.TransCmp.lt_trans hlt (hhead entry hentry)
    · next heq =>
      refine List.pairwise_cons.mpr ⟨fun entry hentry => ?_, hrest⟩
      exact Std.TransCmp.lt_of_eq_of_lt heq (hhead entry hentry)
    · next hgt =>
      refine List.pairwise_cons.mpr ⟨fun entry hentry => ?_, ih hrest⟩
      rcases mem_insert hentry with rfl | hentry
      · exact Std.OrientedCmp.lt_of_gt hgt
      · exact hhead entry hentry

theorem length_insert {key : κ} {value : α} {entries : List (κ × α)} (h : find? key entries = none) :
    (insert key value entries).length = entries.length + 1 := by
  induction entries with
  | nil => rfl
  | cons head rest ih =>
    simp only [find?, beq_iff_eq] at h
    simp only [insert]
    split
    · rfl
    · next heq =>
      rw [if_pos heq] at h
      cases h
    · next hgt =>
      rw [if_neg (by simp [hgt])] at h
      exact congrArg (· + 1) (ih h)

end Assoc

structure SortedMap (κ : Type u) (α : Type v) [Ord κ] where
  toList : List (κ × α) := []
  ascending : Assoc.Ascending toList := by exact List.Pairwise.nil

namespace SortedMap

variable {κ : Type u} {α : Type v} [Ord κ]

instance [DecidableEq κ] [DecidableEq α] : DecidableEq (SortedMap κ α) := fun a b =>
  decidable_of_iff (a.toList = b.toList) <| by cases a; cases b; simp

def empty : SortedMap κ α := {}

instance : EmptyCollection (SortedMap κ α) := ⟨empty⟩

instance : Inhabited (SortedMap κ α) := ⟨empty⟩

def insert [Std.TransOrd κ] (map : SortedMap κ α) (key : κ) (value : α) : SortedMap κ α where
  toList := Assoc.insert key value map.toList
  ascending := Assoc.ascending_insert key value map.ascending

def get? (map : SortedMap κ α) (key : κ) : Option α :=
  Assoc.find? key map.toList

def contains (map : SortedMap κ α) (key : κ) : Bool :=
  (map.get? key).isSome

def isEmpty (map : SortedMap κ α) : Bool :=
  map.toList.isEmpty

def size (map : SortedMap κ α) : Nat :=
  map.toList.length

def keys (map : SortedMap κ α) : List κ :=
  map.toList.map (·.1)

/--
Insert a list of entries from first to last, so that of two entries with one key the last one stays.
-/
def insertMany [Std.TransOrd κ] (map : SortedMap κ α) (entries : List (κ × α)) : SortedMap κ α :=
  entries.foldl (fun map entry => map.insert entry.1 entry.2) map

def ofList [Std.TransOrd κ] (entries : List (κ × α)) : SortedMap κ α :=
  empty.insertMany entries

def filterMap {β : Type w} [Std.TransOrd κ] (f : κ → α → Option β) (map : SortedMap κ α) :
    SortedMap κ β :=
  ofList <| map.toList.filterMap fun (key, value) => (f key value).map fun value => (key, value)

@[simp]
theorem get?_empty (key : κ) : (empty : SortedMap κ α).get? key = none := rfl

theorem get?_insert [Std.TransOrd κ] [Std.LawfulEqOrd κ] [DecidableEq κ] (map : SortedMap κ α)
    (key : κ) (value : α) (other : κ) :
    (map.insert key value).get? other = if other = key then some value else map.get? other :=
  Assoc.find?_insert key value map.toList other

theorem size_insert [Std.TransOrd κ] {map : SortedMap κ α} {key : κ} (h : map.get? key = none)
    (value : α) : (map.insert key value).size = map.size + 1 :=
  Assoc.length_insert h

end SortedMap
end XmlPipeline
