import XmlPipeline.Json.Basic

/-!
This module contains the two printed forms of JSON values: the compact one without any space, and
the pretty one with a line for each item, indented by two spaces for each level.
-/

namespace XmlPipeline
namespace Json

def escapedChar (c : Char) : String :=
  if c = '"' then "\\\""
  else if c = '\\' then "\\\\"
  else if c = '\n' then "\\n"
  else if c = '\r' then "\\r"
  else if c = '\t' then "\\t"
  else if c = '\x08' then "\\b"
  else if c = '\x0c' then "\\f"
  else if c.toNat < 0x20 then
    let digits := Nat.toDigits 16 c.toNat
    "\\u" ++ String.ofList (List.replicate (4 - digits.length) '0' ++ digits)
  else c.toString

def escaped (s : String) : String :=
  "\"" ++ String.join (s.toList.map escapedChar) ++ "\""

def openBrace : String := "\x7b"

def closeBrace : String := "\x7d"

mutual

def compact : Json → String
  | .null => "null"
  | .bool true => "true"
  | .bool false => "false"
  | .int value => toString value
  | .str value => escaped value
  | .arr items => "[" ++ ",".intercalate (compactItems items) ++ "]"
  | .obj members => openBrace ++ ",".intercalate (compactMembers members) ++ closeBrace

def compactItems : List Json → List String
  | [] => []
  | item :: items => item.compact :: compactItems items

def compactMembers : List (String × Json) → List String
  | [] => []
  | (name, value) :: members => (escaped name ++ ":" ++ value.compact) :: compactMembers members

end

def lineBreak (level : Nat) : String :=
  "\n" ++ String.ofList (List.replicate (2 * level) ' ')

def block (level : Nat) (first : String) (lines : List String) (last : String) : String :=
  if lines.isEmpty then
    first ++ last
  else
    first ++ lineBreak (level + 1) ++ ("," ++ lineBreak (level + 1)).intercalate lines
      ++ lineBreak level ++ last

mutual

def prettyAt (level : Nat) : Json → String
  | .null => "null"
  | .bool true => "true"
  | .bool false => "false"
  | .int value => toString value
  | .str value => escaped value
  | .arr items => block level "[" (prettyItems (level + 1) items) "]"
  | .obj members => block level openBrace (prettyMembers (level + 1) members) closeBrace

def prettyItems (level : Nat) : List Json → List String
  | [] => []
  | item :: items => item.prettyAt level :: prettyItems level items

def prettyMembers (level : Nat) : List (String × Json) → List String
  | [] => []
  | (name, value) :: members =>
    (escaped name ++ ": " ++ value.prettyAt level) :: prettyMembers level members

end

def pretty (value : Json) : String :=
  value.prettyAt 0

end Json
end XmlPipeline
