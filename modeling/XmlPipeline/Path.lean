/-!
This module contains file paths with `/` as the separator. A path is kept as it was written; its
components are read off when they are needed. `Path.normalize` works on the components alone and
never looks at any file.
-/

namespace XmlPipeline

structure Path where
  text : String
  deriving DecidableEq, Repr, Inhabited

namespace Path

inductive Component where
  | root
  | current
  | parent
  | name (text : String)
  deriving DecidableEq, Repr

namespace Component

def text : Component → String
  | root => "/"
  | current => "."
  | parent => ".."
  | name text => text

end Component

def isAbsolute (path : Path) : Bool :=
  path.text.toList.head? == some '/'

def pieces (path : Path) : List String :=
  ((path.text.toList.splitOn '/').filter (!·.isEmpty)).map String.ofList

/--
A `.` counts only at the start of a relative path.
-/
def components (path : Path) : List Component :=
  let read (piece : String) : Component :=
    if piece == "." then .current else if piece == ".." then .parent else .name piece
  let all := path.pieces.map read
  if path.isAbsolute then
    .root :: all.filter (· ≠ .current)
  else
    match all with
    | [] => []
    | first :: rest => first :: rest.filter (· ≠ .current)

/--
Follow one component from the components read so far, the last one first. A `..` takes back the name
before it, stays at the root, and is kept where there is nothing to take back.
-/
def follow (rooted : Bool) (done : List Component) (next : Component) : List Component :=
  match next with
  | .root => done
  | .current => done
  | .name text => .name text :: done
  | .parent =>
    match done with
    | .name _ :: before => before
    | _ => if rooted then done else .parent :: done

def ofComponents (rooted : Bool) (parts : List Component) : Path where
  text := (if rooted then "/" else "") ++ "/".intercalate (parts.map Component.text)

def normalize (path : Path) : Path :=
  .ofComponents path.isAbsolute (path.components.foldl (follow path.isAbsolute) []).reverse

def join (base other : Path) : Path :=
  if other.isAbsolute || base.text.isEmpty then
    other
  else if base.text.toList.getLast? == some '/' then
    ⟨base.text ++ other.text⟩
  else
    ⟨base.text ++ "/" ++ other.text⟩

def fileName? (path : Path) : Option String :=
  match path.components.getLast? with
  | some (.name text) => some text
  | _ => none

def stem (name : String) : String :=
  match name.toList.reverse.span (· ≠ '.') with
  | (_, _ :: before) => if before.isEmpty then name else String.ofList before.reverse
  | _ => name

def fileStem? (path : Path) : Option String :=
  path.fileName?.map stem

def expandHome (home : String) (path : Path) : Path :=
  match path.text.toList with
  | ['~'] => ⟨home⟩
  | '~' :: '/' :: rest => ⟨home ++ "/" ++ String.ofList rest⟩
  | _ => path

end Path
end XmlPipeline
