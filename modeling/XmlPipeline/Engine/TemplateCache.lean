import XmlPipeline.Path
import XmlPipeline.SortedMap

/-!
This module contains the cache of compiled stylesheets. Its keys are normalized paths, so that all the
ways to write a path lead to one entry.
-/

namespace XmlPipeline

structure TemplateCache (Program : Type) where
  programs : SortedMap String Program := .empty

namespace TemplateCache

variable {Program : Type}

instance : Inhabited (TemplateCache Program) := ⟨{}⟩

def find? (cache : TemplateCache Program) (path : Path) : Option Program :=
  cache.programs.get? path.normalize.text

def contains (cache : TemplateCache Program) (path : Path) : Bool :=
  (cache.find? path).isSome

def store (cache : TemplateCache Program) (path : Path) (program : Program) :
    TemplateCache Program :=
  { programs := cache.programs.insert path.normalize.text program }

def size (cache : TemplateCache Program) : Nat :=
  cache.programs.size

def isEmpty (cache : TemplateCache Program) : Bool :=
  cache.programs.isEmpty

theorem find?_store (cache : TemplateCache Program) (path other : Path) (program : Program) :
    (cache.store path program).find? other =
      if other.normalize = path.normalize then some program else cache.find? other := by
  simp only [find?, store, SortedMap.get?_insert]
  cases path.normalize
  cases other.normalize
  simp

theorem contains_store (cache : TemplateCache Program) (path other : Path) (program : Program) :
    (cache.store path program).contains other = true
      ↔ other.normalize = path.normalize ∨ cache.contains other = true := by
  unfold contains
  rw [find?_store]
  split
  · next h => simp [h]
  · next h => simp [h]

theorem size_store {cache : TemplateCache Program} {path : Path} (h : cache.contains path = false)
    (program : Program) : (cache.store path program).size = cache.size + 1 := by
  apply SortedMap.size_insert
  simpa [contains, find?] using h

end TemplateCache
end XmlPipeline
