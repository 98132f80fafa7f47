/-
ObjectAudit/Text/Piece.lean

Texts as code units spell them.  Two halves that follow each other make one character.  A
half that stands alone is no character: a text with such a half is kept piece by piece, and
is equal to no other text.  Between quotes the half is written as an escape.
-/
import ObjectAudit.Text.Quoted

namespace ObjectAudit

namespace Text

/-- Is a code unit the first half of a character? -/
def isHigh (unit : Nat) : Bool := 0xd800 ≤ unit && unit < 0xdc00

/-- Is a code unit the second half of a character? -/
def isLow (unit : Nat) : Bool := 0xdc00 ≤ unit && unit < 0xe000

/-- A character, or half of one that stands alone. -/
inductive Piece where
  | char (c : Char)
  | half (unit : Nat) (valid : (isHigh unit || isLow unit) = true)
deriving DecidableEq, Repr

namespace Piece

/-- The character of two halves. -/
def join (high low : Nat) : Char :=
  Char.ofNat (0x10000 + (high - 0xd800) * 0x400 + (low - 0xdc00))

/-- One code unit on its own. -/
def ofUnit (unit : Nat) : Piece :=
  if h : (isHigh unit || isLow unit) = true then half unit h else char (Char.ofNat unit)

/-- The pieces that code units spell. -/
def ofUnits : List Nat → List Piece
  | [] => []
  | high :: low :: rest =>
    -- if the two are no pair, the second may start one
    if isHigh high && isLow low then char (join high low) :: ofUnits rest
    else ofUnit high :: ofUnits (low :: rest)
  | [unit] => [ofUnit unit]

def char? : Piece → Option Char
  | char c => some c
  | half _ _ => none

/-- The character that stands for a piece: for a half, the replacement character. -/
def standIn (piece : Piece) : Char := piece.char?.getD (Char.ofNat 0xfffd)

def quoted (quote : Char) : Piece → List Char
  | char c => quotedChar quote c
  | half unit _ => '\\' :: 'u' :: hexText 4 unit

end Piece

end Text

/-- A text.  It is whole, or half of a character stands alone in it. -/
inductive Text where
  | whole (value : String)
  | torn (pieces : List Text.Piece) (half : pieces.any (·.char?.isNone) = true)
deriving DecidableEq, Repr

namespace Text

instance : Coe String Text := ⟨whole⟩

def ofPieces (pieces : List Piece) : Text :=
  if h : pieces.any (·.char?.isNone) = true then torn pieces h
  else whole (String.ofList (pieces.map Piece.standIn))

def pieces : Text → List Piece
  | whole value => value.toList.map .char
  | torn pieces _ => pieces

/-- The text as a name of the model, in which the replacement character stands for each half. -/
def shown : Text → String
  | whole value => value
  | torn pieces _ => String.ofList (pieces.map Piece.standIn)

/-- The text behind some characters. -/
def behind (front : String) : Text → Text
  | whole value => whole (front ++ value)
  | torn pieces h => torn (front.toList.map .char ++ pieces) (by simp [h])

def inQuotes : Text → String
  | whole value => quoted value
  | torn pieces _ =>
    -- halves are escaped, so only characters decide on the quote
    let quote := quoteFor (pieces.filterMap Piece.char?)
    String.ofList (quote :: pieces.flatMap (Piece.quoted quote) ++ [quote])

end Text

end ObjectAudit
