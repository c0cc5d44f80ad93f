import XmlPipeline.Engine.Config

/-!
This module contains what parameter sets hold as lists of bindings, in which the last binding of a name
counts.
-/

namespace XmlPipeline

section

variable {κ : Type u} {α : Type v} [DecidableEq κ]

/--
The value of the last entry with this key.
-/
def latest? (key : κ) (entries : List (κ × α)) : Option α :=
  (entries.filter (·.1 = key)).getLast?.map (·.2)

theorem latest?_append (key : κ) (entries more : List (κ × α)) :
    latest? key (entries ++ more) = (latest? key more).or (latest? key entries) := by
  unfold latest?
  rw [List.filter_append, List.getLast?_append, Option.map_or]

theorem latest?_singleton (key : κ) (entry : κ × α) :
    latest? key [entry] = if entry.1 = key then some entry.2 else none := by
  unfold latest?
  by_cases h : entry.1 = key
  · simp [h]
  · simp [h]

theorem latest?_eq_none {key : κ} {entries : List (κ × α)} (h : ∀ entry ∈ entries, entry.1 ≠ key) :
    latest? key entries = none := by
  have hfilter : entries.filter (·.1 = key) = [] := by
    rw [List.filter_eq_nil_iff]
    intro entry hentry
    simpa using h entry hentry
  unfold latest?
  rw [hfilter]
  rfl

variable [Ord κ] [Std.LawfulEqOrd κ]

theorem latest?_ascending {entries : List (κ × α)} (h : Assoc.Ascending entries) (key : κ) :
    latest? key entries = Assoc.find? key entries := by
  induction entries with
  | nil => rfl
  | cons entry entries ih =>
    have hlater := (List.pairwise_cons.mp h).1
    have hrest := ih (List.pairwise_cons.mp h).2
    rw [← List.singleton_append, latest?_append, latest?_singleton]
    simp only [List.singleton_append, Assoc.find?, beq_iff_eq, Std.LawfulEqOrd.compare_eq_iff_eq]
    by_cases hkey : entry.1 = key
    · have hnone : latest? key entries = none := by
        apply latest?_eq_none
        intro other hother heq
        have hlt := hlater other hother
        rw [hkey, heq, Std.ReflOrd.compare_self] at hlt
        cases hlt
      simp [hkey, hnone]
    · simp [hkey, Ne.symm hkey, hrest]

namespace SortedMap

theorem latest?_toList (map : SortedMap κ α) (key : κ) : latest? key map.toList = map.get? key :=
  latest?_ascending map.ascending key

theorem get?_insertMany [Std.TransOrd κ] (map : SortedMap κ α) (entries : List (κ × α)) (key : κ) :
    (map.insertMany entries).get? key = (latest? key entries).or (map.get? key) := by
  induction entries generalizing map with
  | nil => rfl
  | cons entry entries ih =>
    have hrest : (map.insertMany (entry :: entries)).get? key
        = ((map.insert entry.1 entry.2).insertMany entries).get? key := rfl
    rw [hrest, ih, get?_insert, ← List.singleton_append, latest?_append, latest?_singleton]
    by_cases h : key = entry.1
    · simp [h]
    · simp [h, Ne.symm h]

end SortedMap

end

namespace Parameter

/--
What a declared parameter binds: its values, of its type, to its name. An empty namespace is none.
-/
def binding (parameter : Parameter) : ParameterName × ParameterValue :=
  ({ uri := parameter.uri.filter (!·.isEmpty), localName := parameter.name },
    .atomic parameter.type parameter.values)

end Parameter

namespace ParameterSet

theorem get?_merge (parameters other : ParameterSet) (name : ParameterName) :
    (parameters.merge other).get? name = (other.get? name).or (parameters.get? name) := by
  unfold merge
  rw [SortedMap.get?_insertMany, SortedMap.latest?_toList]

/--
The set binds the names of a list of bindings, each of them to its last value there.
-/
def Holds (parameters : ParameterSet) (bindings : List (ParameterName × ParameterValue)) : Prop :=
  ∀ name, parameters.get? name = latest? name bindings

theorem Holds.empty : Holds .empty [] :=
  fun _ => rfl

theorem Holds.insertMany {parameters : ParameterSet}
    {bindings : List (ParameterName × ParameterValue)} (h : parameters.Holds bindings)
    (more : List (ParameterName × ParameterValue)) :
    Holds (SortedMap.insertMany parameters more) (bindings ++ more) := by
  intro name
  rw [SortedMap.get?_insertMany, latest?_append, h name]

theorem Holds.declare {parameters : ParameterSet}
    {bindings : List (ParameterName × ParameterValue)} (h : parameters.Holds bindings)
    (declared : List Parameter) :
    (parameters.declare declared).Holds (bindings ++ declared.map Parameter.binding) :=
  h.insertMany _

example :
    let declared : List Parameter := [{ name := "lang", values := ["en"] },
      { name := "lang", uri := some "", type := "xs:int", values := ["1", "2"] }]
    (ofDeclared declared).toList
      = [({ localName := "lang" }, .atomic "xs:int" ["1", "2"])] := by
  decide +kernel

theorem Holds.merge {parameters other : ParameterSet}
    {bindings more : List (ParameterName × ParameterValue)} (h : parameters.Holds bindings)
    (hother : other.Holds more) : (parameters.merge other).Holds (bindings ++ more) := by
  intro name
  rw [get?_merge, latest?_append, h name, hother name]

theorem holds_toList (parameters : ParameterSet) : parameters.Holds parameters.toList :=
  fun name => (SortedMap.latest?_toList parameters name).symm

end ParameterSet
end XmlPipeline
