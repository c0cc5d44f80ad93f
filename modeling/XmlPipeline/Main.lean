import XmlPipeline.CommandLine.Run

/-!
This module contains the program itself: it reads the files that a command names, runs the command and
prints its answer.
-/

namespace XmlPipeline
namespace CommandLine

/--
The number of a failure. Some functions of the system give its negative.
-/
def failureNumber (code : UInt32) : Nat :=
  min code.toNat (-code).toNat

def fileError : IO.Error → FileError
  | .noFileOrDirectory _ code details => .ofNumber (failureNumber code) details
  | .inappropriateType _ code details => .ofNumber (failureNumber code) details
  | .permissionDenied _ code details => .ofNumber (failureNumber code) details
  | .invalidArgument _ code details => .ofNumber (failureNumber code) details
  | .resourceExhausted _ code details => .ofNumber (failureNumber code) details
  | .otherError code details => .ofNumber (failureNumber code) details
  | error => .other (toString error)

def readSystemFile (path : Path) : IO (Except FileError (List UInt8)) := do
  try
    return .ok (← IO.FS.readBinFile path.text).toList
  catch error =>
    return .error (fileError error)

def readerFor (paths : List Path) : IO FileReader := do
  let contents ← paths.mapM fun path => return (path, ← readSystemFile path)
  return ⟨fun path =>
    match contents.find? (·.1 == path) with
    | some (_, content) => content
    | none => .error .notFound⟩

end CommandLine
end XmlPipeline

open XmlPipeline CommandLine

def main (words : List String) : IO UInt32 := do
  let home := (← IO.getEnv "HOME").getD "~"
  let files ← match program.read words with
    | .command command => readerFor (command.paths home)
    | _ => readerFor []
  let outcome := run home files words
  IO.print outcome.stdout
  return outcome.exitCode.toUInt32
