/-
ObjectAudit/Text/Quoted.lean

Quoted text, the form in which messages show a name.  The quote is an apostrophe,
unless the text holds an apostrophe and no double quote.  A backslash and the quote
in use are escaped, and a character that is not printable is written as an escape:
a short one for the usual three, else hexadecimal in two, four or eight digits.
-/
import ObjectAudit.Text.Printable

namespace ObjectAudit.Text

def apostrophe : Char := '\x27'

def doubleQuote : Char := '\x22'

/-- A number in hexadecimal, with zeros on the left up to a width. -/
def hexText (width n : Nat) : List Char :=
  let cs := Nat.toDigits 16 n
  List.replicate (width - cs.length) '0' ++ cs

/-- The quote in which a text is shown. -/
def quoteFor (cs : List Char) : Char :=
  if cs.contains apostrophe && !cs.contains doubleQuote then doubleQuote else apostrophe

def quotedChar (quote c : Char) : List Char :=
  if c = quote ∨ c = '\\' then ['\\', c]
  else if c = '\n' then ['\\', 'n']
  else if c = '\r' then ['\\', 'r']
  else if c = '\t' then ['\\', 't']
  else if isPrintable c then [c]
  else if c.toNat < 0x100 then '\\' :: 'x' :: hexText 2 c.toNat
  else if c.toNat < 0x10000 then '\\' :: 'u' :: hexText 4 c.toNat
  else '\\' :: 'U' :: hexText 8 c.toNat

/-- A text between quotes. -/
def quoted (s : String) : String :=
  let quote := quoteFor s.toList
  String.ofList (quote :: s.toList.flatMap (quotedChar quote) ++ [quote])

def commaList (ss : List String) : String := ", ".intercalate ss

/-- Texts in round brackets; a single one keeps a comma behind it. -/
def roundList : List String → String
  | [s] => "(" ++ s ++ ",)"
  | ss => "(" ++ commaList ss ++ ")"

def quotedList (ss : List String) : String :=
  "[" ++ commaList (ss.map quoted) ++ "]"

end ObjectAudit.Text
