import XmlPipeline.FileTree
import XmlPipeline.Log
import XmlPipeline.Text.Quoted

/-!
This module contains the resources that are acquired while a request is served, and their release: what
can be closed is closed in reverse order, then the temporary files are removed.
-/

namespace XmlPipeline

structure Closeable where
  name : String
  result : Except Error Unit := .ok ()

structure RequestScope where
  tempPaths : List Path := []
  closeables : List Closeable := []
  deriving Inhabited

inductive Cleanup where
  | close (closeable : Closeable)
  | remove (path : Path) (result : Except FileError Unit)

namespace Cleanup

/--
What is logged about a step that fails. A file that is gone already is no failure.
-/
def record? : Cleanup → Option LogRecord
  | close { name, result := .error error } =>
    some {
      level := .warn
      message := "error closing request resource"
      fields := [("resource", name), ("error", error.message)] }
  | close _ => none
  | remove _ (.ok ()) => none
  | remove _ (.error .notFound) => none
  | remove path (.error error) =>
    some {
      level := .warn
      message := "error deleting temporary file"
      fields := [("path", path.text), ("error", error.message)] }

def closed? : Cleanup → Option String
  | close closeable => some closeable.name
  | remove .. => none

end Cleanup

namespace RequestScope

def addTempPath (scope : RequestScope) (path : Path) : RequestScope :=
  { scope with tempPaths := scope.tempPaths ++ [path] }

def addCloseable (scope : RequestScope) (closeable : Closeable) : RequestScope :=
  { scope with closeables := scope.closeables ++ [closeable] }

def pending (scope : RequestScope) : Nat :=
  scope.tempPaths.length + scope.closeables.length

def removeAll {Files : Type} (remove : Files → Path → Except FileError Unit × Files) (files : Files) :
    List Path → List Cleanup × Files
  | [] => ([], files)
  | path :: paths =>
    let (result, files) := remove files path
    let (steps, files) := removeAll remove files paths
    (.remove path result :: steps, files)

def releaseWith {Files : Type} (remove : Files → Path → Except FileError Unit × Files)
    (scope : RequestScope) (files : Files) : List Cleanup × Files :=
  let (removals, files) := removeAll remove files scope.tempPaths
  (scope.closeables.reverse.map .close ++ removals, files)

def release (scope : RequestScope) (files : FileTree) : List Cleanup × FileTree :=
  scope.releaseWith FileTree.remove files

def display (scope : RequestScope) : String :=
  "RequestScope \x7b temp_files: "
    ++ Text.bracketed Text.quotedPath (scope.tempPaths.map Path.text)
    ++ ", closeables: " ++ toString scope.closeables.length ++ " \x7d"

end RequestScope
end XmlPipeline
