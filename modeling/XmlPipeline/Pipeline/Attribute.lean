import XmlPipeline.Error.Basic
import XmlPipeline.Text.Blank
import XmlPipeline.Text.Unsigned

/-!
This module contains the meaning of attribute values in a definition: values that must be there, flags
and times.
-/

namespace XmlPipeline
namespace Attribute

def require (value : Option String) (element attr : String) : Except Error String :=
  match value with
  | some value =>
    if Text.isBlankText value then .error (.missingAttribute element attr) else .ok value
  | none => .error (.missingAttribute element attr)

def flag (value : Option String) : Bool :=
  value == some "true"

def seconds (value : Option String) (attr : String) (default : Nat) : Except Error Nat :=
  match value with
  | none => .ok default
  | some raw =>
    match Text.readUnsigned 10 Text.maxUnsigned32 (Text.trimChars raw.toList) with
    | .ok n => .ok n
    | .error error =>
      .error <| .malformed (some attr) (some raw)
        ("\"" ++ attr ++ "\" is not a whole number of seconds: " ++ error.message)

end Attribute
end XmlPipeline
