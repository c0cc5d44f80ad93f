import XmlPipeline.Text.Unsigned
import XmlPipeline.Text.Utf8

/-!
This module contains the ways in which a text fails to be XML.
-/

namespace XmlPipeline
namespace Xml

inductive CharRefError where
  | signed
  | number (error : Text.NumberError)
  | nul
  | notACharacter (code : Nat)
  deriving DecidableEq, Repr

namespace CharRefError

def message : CharRefError → String
  | signed => "unexpected number sign"
  | number error => error.message
  | nul => "0x0 character is not permitted in XML"
  | notACharacter code => "\x60" ++ toString code ++ "\x60 is not a valid codepoint"

end CharRefError

/--
What is wrong with a reference. Positions count bytes from the start of the text that holds it.
-/
inductive ReferenceError where
  | unterminated (first last : Nat)
  | unknownEntity (first last : Nat) (name : String)
  | charRef (error : CharRefError)
  deriving DecidableEq, Repr

namespace ReferenceError

def message : ReferenceError → String
  | unterminated first last =>
    "Error while escaping character at range " ++ toString first ++ ".." ++ toString last
      ++ ": Cannot find ';' after '&'"
  | unknownEntity first last name =>
    "at " ++ toString first ++ ".." ++ toString last ++ ": unrecognized entity \x60" ++ name ++ "\x60"
  | charRef error => "invalid character reference: " ++ error.message

end ReferenceError

/--
What is wrong with the attributes of a tag. Positions count bytes from the name of the tag.
-/
inductive AttributeError where
  | expectedEquals (position : Nat)
  | expectedValue (position : Nat)
  | unquotedValue (position : Nat)
  | unclosedValue (position : Nat) (quote : Char)
  | duplicate (position earlier : Nat)
  deriving DecidableEq, Repr

namespace AttributeError

def message : AttributeError → String
  | expectedEquals position =>
    "position " ++ toString position
      ++ ": attribute key must be directly followed by \x60=\x60 or space"
  | expectedValue position =>
    "position " ++ toString position ++ ": \x60=\x60 must be followed by an attribute value"
  | unquotedValue position =>
    "position " ++ toString position
      ++ ": attribute value must be enclosed in \x60\"\x60 or \x60'\x60"
  | unclosedValue position quote =>
    "position " ++ toString position ++ ": missing closing quote \x60" ++ quote.toString
      ++ "\x60 in attribute value"
  | duplicate position earlier =>
    "position " ++ toString position
      ++ ": duplicated attribute, previous declaration at position " ++ toString earlier

end AttributeError

inductive SyntaxError where
  | unclosedTag
  | unclosedInstruction
  | unclosedComment
  | unclosedCData
  | unclosedDoctype
  | unknownMarkup
  | unnamedDoctype
  | mismatchedEnd (expected found : String)
  | unmatchedEnd (found : String)
  | unclosedElements (count : Nat)
  | reservedBinding (pfx uri : String)
  | unknownPrefix (pfx : String)
  | reference (error : ReferenceError)
  | attr (error : AttributeError)
  deriving DecidableEq, Repr

namespace SyntaxError

def shownByte (b : UInt8) : String :=
  if b == 0x22 then "\\\""
  else if 0x20 ≤ b && b ≤ 0x7E then (Char.ofNat b.toNat).toString
  else "0x" ++ String.ofList ((Nat.toDigits 16 b.toNat).map Char.toUpper)

def shownBytes (s : String) : String :=
  "\"" ++ String.join ((utf8 s).map shownByte) ++ "\""

def message : SyntaxError → String
  | unclosedTag => "syntax error: tag not closed: \x60>\x60 not found before end of input"
  | unclosedInstruction =>
    "syntax error: processing instruction or xml declaration not closed: \x60?>\x60 not found before end of input"
  | unclosedComment => "syntax error: comment not closed: \x60-->\x60 not found before end of input"
  | unclosedCData => "syntax error: CDATA not closed: \x60]]>\x60 not found before end of input"
  | unclosedDoctype => "syntax error: DOCTYPE not closed: \x60>\x60 not found before end of input"
  | unknownMarkup => "syntax error: unknown or missed symbol in markup"
  | unnamedDoctype =>
    "ill-formed document: \x60<!DOCTYPE>\x60 declaration does not contain a name of a document type"
  | mismatchedEnd expected found =>
    "ill-formed document: expected \x60</" ++ expected ++ ">\x60, but \x60</" ++ found
      ++ ">\x60 was found"
  | unmatchedEnd found =>
    "ill-formed document: close tag \x60</" ++ found ++ ">\x60 does not match any open tag"
  | unclosedElements count =>
    "Unexpected end of document, " ++ toString count ++ " element(s) still open"
  | reservedBinding pfx uri =>
    "The namespace prefix '" ++ shownBytes pfx ++ "' cannot be bound to '" ++ shownBytes uri ++ "'"
  | unknownPrefix pfx => "Unknown namespace prefix \"" ++ pfx ++ "\""
  | reference error => error.message
  | attr error => error.message

end SyntaxError
end Xml
end XmlPipeline
