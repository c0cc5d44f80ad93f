import XmlPipeline.Error.Basic
import XmlPipeline.Path
import XmlPipeline.Text.Utf8

/-!
This module contains the interface through which files are read, and what can go wrong with files.
-/

namespace XmlPipeline

inductive FileError where
  | notFound
  | accessDenied
  | notDirectory
  | isDirectory
  | invalidArgument
  | nameTooLong
  | notEmpty
  | nulInName
  | notText
  | other (message : String)
  deriving DecidableEq, Repr

namespace FileError

def message : FileError → String
  | notFound => "No such file or directory (os error 2)"
  | accessDenied => "Permission denied (os error 13)"
  | notDirectory => "Not a directory (os error 20)"
  | isDirectory => "Is a directory (os error 21)"
  | invalidArgument => "Invalid argument (os error 22)"
  | nameTooLong => "File name too long (os error 36)"
  | notEmpty => "Directory not empty (os error 39)"
  | nulInName => "file name contained an unexpected NUL byte"
  | notText => "stream did not contain valid UTF-8"
  | other message => message

def ofNumber (number : Nat) (description : String) : FileError :=
  match number with
  | 2 => notFound
  | 13 => accessDenied
  | 20 => notDirectory
  | 21 => isDirectory
  | 22 => invalidArgument
  | 36 => nameTooLong
  | 39 => notEmpty
  | _ => other (description ++ " (os error " ++ toString number ++ ")")

end FileError

structure FileReader where
  readBytes : Path → Except FileError (List UInt8)

namespace FileReader

def readText (files : FileReader) (path : Path) : Except FileError String :=
  match files.readBytes path with
  | .error error => .error error
  | .ok bytes =>
    match Utf8.decode? bytes with
    | some text => .ok text
    | none => .error .notText

def failure (path : Path) (operation : String) (error : FileError) : Error :=
  .io error.message (some (operation ++ " " ++ path.text))

def loadText (files : FileReader) (path : Path) (operation : String) : Except Error String :=
  (files.readText path).mapError (failure path operation)

def loadBytes (files : FileReader) (path : Path) (operation : String) :
    Except Error (List UInt8) :=
  (files.readBytes path).mapError (failure path operation)

end FileReader
end XmlPipeline
