import XmlPipeline.Text.Shapeless

/-!
This module contains the quoted form in which texts stand in messages: between double quotes, with
an escape for each character that has no shape of its own or would be mistaken for the quoting.
-/

namespace XmlPipeline
namespace Text

def hexDigits (n : Nat) : String :=
  String.ofList (Nat.toDigits 16 n)

def quotedChar (c : Char) : String :=
  if c = '\x00' then "\\0"
  else if c = '\t' then "\\t"
  else if c = '\n' then "\\n"
  else if c = '\r' then "\\r"
  else if c = '"' then "\\\""
  else if c = '\\' then "\\\\"
  else if isShapeless c then "\\u\x7b" ++ hexDigits c.toNat ++ "\x7d"
  else c.toString

def quoted (s : String) : String :=
  "\"" ++ String.join (s.toList.map quotedChar) ++ "\""

def quotedPath (s : String) : String :=
  "\"" ++ String.join (s.toList.map fun c => if c = '\'' then "\\'" else quotedChar c) ++ "\""

def bracketed (form : String → String) (items : List String) : String :=
  "[" ++ ", ".intercalate (items.map form) ++ "]"

def quotedList (items : List String) : String :=
  bracketed quoted items

end Text
end XmlPipeline
