import XmlPipeline.FileReader
import XmlPipeline.Text.Utf8

/-!
This module contains file trees as values: the files and directories below one working directory,
together with what reading and removing a path of theirs comes to. Outside of the working directory
there are only the directories that lead to it, and their names are not known.
-/

namespace XmlPipeline

inductive FileEntry where
  | file (content : List UInt8)
  | directory
  deriving DecidableEq, Repr

/--
The entries by their location, which is the list of names that leads to them from the working
directory.
-/
structure FileTree where
  entries : List (List String × FileEntry) := []
  deriving Inhabited

namespace FileTree

inductive Place where
  | outside
  | entry (location : List String) (found : FileEntry)

def walkOutside (pieces : List String) : Except FileError Place :=
  if pieces.all (fun piece => piece == "." || piece == "..") then .ok .outside else .error .notFound

def find? (tree : FileTree) (location : List String) : Option FileEntry :=
  if location.isEmpty then some .directory
  else (tree.entries.find? (·.1 == location)).map (·.2)

def put (tree : FileTree) (location : List String) (entry : FileEntry) : FileTree :=
  let parents := (List.range location.length).map location.take
  let missing := parents.filter fun parent => (tree.find? parent).isNone
  let others := tree.entries.filter (·.1 ≠ location)
  { entries := others ++ missing.map (fun parent => (parent, .directory)) ++ [(location, entry)] }

def walk (tree : FileTree) (location : List String) (current : FileEntry) :
    List String → Except FileError Place
  | [] => .ok (.entry location current)
  | piece :: rest =>
    match current with
    | .file _ => .error .notDirectory
    | .directory =>
      if piece == "." then
        tree.walk location .directory rest
      else if piece == ".." then
        if location.isEmpty then walkOutside rest
        else tree.walk location.dropLast .directory rest
      else if 255 < (utf8 piece).length then
        .error .nameTooLong
      else
        match tree.find? (location ++ [piece]) with
        | none => .error .notFound
        | some found => tree.walk (location ++ [piece]) found rest

def maxPathSize : Nat := 4095

def resolve (tree : FileTree) (path : Path) : Except FileError Place :=
  if path.text.isEmpty then
    .error .notFound
  else if path.text.toList.contains '\x00' then
    .error .nulInName
  else if maxPathSize < (utf8 path.text).length then
    .error .nameTooLong
  else if path.isAbsolute then
    walkOutside path.pieces
  else
    let last := if path.text.toList.getLast? == some '/' then ["."] else []
    tree.walk [] .directory (path.pieces ++ last)

def exists? (tree : FileTree) (path : Path) : Bool :=
  match tree.resolve path with
  | .ok _ => true
  | .error _ => false

def readBytes (tree : FileTree) (path : Path) : Except FileError (List UInt8) :=
  match tree.resolve path with
  | .error error => .error error
  | .ok (.entry _ (.file content)) => .ok content
  | .ok _ => .error .isDirectory

def reader (tree : FileTree) : FileReader :=
  ⟨tree.readBytes⟩

def without (tree : FileTree) (test : List String → Bool) : FileTree :=
  { entries := tree.entries.filter fun entry => !test entry.1 }

/--
Remove a file, or a directory with everything below it. A directory is emptied first and is then looked
for again, because its path can go through what was below it, as `a/b/..` does: such a directory is no
longer found, and stays. One that is named by `.` stays too.
-/
def remove (tree : FileTree) (path : Path) : Except FileError Unit × FileTree :=
  match tree.resolve path with
  | .error error => (.error error, tree)
  | .ok .outside => (.error .isDirectory, tree)
  | .ok (.entry location (.file _)) => (.ok (), tree.without (· == location))
  | .ok (.entry location .directory) =>
    let emptied := tree.without fun other => location.isPrefixOf other && other != location
    match emptied.resolve path with
    | .error error => (.error error, emptied)
    | .ok _ =>
      if path.pieces.getLast? == some "." then (.error .invalidArgument, emptied)
      else (.ok (), emptied.without (· == location))

end FileTree
end XmlPipeline
