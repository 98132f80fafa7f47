/-
ObjectAudit/Json/Writer.lean

Writing JSON.  A value is written on one line, or with every item on a line of its own
behind an indent.  Only ASCII is written: a character outside it becomes an escape, or a
pair of them beyond the first plane.

A value is printed chunk by chunk.  An integer with more digits than may be ends that, and
what came before it is put out by then; an indent that is no size lets nothing out at all.
-/
import ObjectAudit.Json.Basic

namespace ObjectAudit.Json

open Text (Piece hexText doubleQuote)

/-! ### Texts -/

/-- The escape of a code unit. -/
def unitEscape (n : Nat) : List Char := '\\' :: 'u' :: hexText 4 n

def writeChar (c : Char) : List Char :=
  if c = doubleQuote ∨ c = '\\' then ['\\', c]
  else if c = '\n' then ['\\', 'n']
  else if c = '\r' then ['\\', 'r']
  else if c = '\t' then ['\\', 't']
  else if c = '\x0c' then ['\\', 'f']
  else if c = '\x08' then ['\\', 'b']
  else if 0x20 ≤ c.toNat ∧ c.toNat < 0x7f then [c]
  else if c.toNat < 0x10000 then unitEscape c.toNat
  else
    -- outside the first plane, as two halves
    let beyond := c.toNat - 0x10000
    unitEscape (0xd800 + beyond / 0x400) ++ unitEscape (0xdc00 + beyond % 0x400)

def writePiece : Piece → List Char
  | .char c => writeChar c
  | .half unit _ => unitEscape unit

/-- A text between double quotes. -/
def writeText : Text → List Char
  | .whole value => doubleQuote :: value.toList.flatMap writeChar ++ [doubleQuote]
  | .torn pieces _ => doubleQuote :: pieces.flatMap writePiece ++ [doubleQuote]

/-! ### Numbers -/

/-- The digits that an integer is written with. -/
def digitsOf (n : Int) : List Char := Nat.toDigits 10 n.natAbs

def writeDouble : Double → String
  | .nan => "NaN"
  | .infinite false => "Infinity"
  | .infinite true => "-Infinity"
  | x => x.text messageStyle

/-! ### Layouts -/

/-- How the items of a list or an object are set. -/
inductive Layout where
  /-- All on one line. -/
  | oneLine
  /-- Each on its own line, behind so many blanks for each level. -/
  | indented (blanks : Int)
deriving DecidableEq, Repr

namespace Layout

/-- The least integer that is too large for the size of a text. -/
def sizeBound : Int := 0x8000000000000000

/-- Is the indent an integer that can be a size?  One below zero can, and is no blank. -/
def isSized : Layout → Bool
  | oneLine => true
  | indented blanks => -sizeBound ≤ blanks && blanks < sizeBound

/-- The start of a new line at a depth. -/
def lineBreak (depth : Nat) : Layout → List Char
  | oneLine => []
  -- a negative number of blanks gives none
  | indented blanks => '\n' :: List.replicate (blanks * depth).toNat ' '

def separator (depth : Nat) : Layout → List Char
  | oneLine => [',', ' ']
  | layout => ',' :: layout.lineBreak depth

end Layout

/-! ### Values -/

/-- What is put out at once: a text, or an integer behind one. -/
inductive Chunk where
  | text (chars : List Char)
  | integer (front : List Char) (value : Int)
deriving DecidableEq, Repr

def Chunk.chars : Chunk → List Char
  | text chars => chars
  | integer front value => front ++ (toString value).toList

/-- The chunks of an item of a list behind what stands before it, from those of the item.  An
integer is put out together with what stands before it. -/
def itemChunks (front : List Char) (chunks : List Chunk) : Json → List Chunk
  | int value => [.integer front value]
  | _ => .text front :: chunks

mutual

/-- The chunks of a value whose items stand at a depth of one more. -/
def valueChunks (layout : Layout) (depth : Nat) : Json → List Chunk
  | null => [.text ['n', 'u', 'l', 'l']]
  | bool true => [.text ['t', 'r', 'u', 'e']]
  | bool false => [.text ['f', 'a', 'l', 's', 'e']]
  | int value => [.integer [] value]
  | float value => [.text (writeDouble value).toList]
  | str value => [.text (writeText value)]
  | arr [] => [.text ['[', ']']]
  | arr (item :: rest) =>
    itemChunks ('[' :: layout.lineBreak (depth + 1)) (valueChunks layout (depth + 1) item) item
      ++ restChunks layout (depth + 1) rest ++ [.text (layout.lineBreak depth ++ [']'])]
  | obj [] => [.text ['\x7b', '\x7d']]
  | obj ((name, value) :: rest) =>
    .text ('\x7b' :: layout.lineBreak (depth + 1) ++ writeText name ++ [':', ' '])
      :: valueChunks layout (depth + 1) value ++ fieldChunks layout (depth + 1) rest
      ++ [.text (layout.lineBreak depth ++ ['\x7d'])]

def restChunks (layout : Layout) (depth : Nat) : List Json → List Chunk
  | [] => []
  | item :: rest =>
    itemChunks (layout.separator depth) (valueChunks layout depth item) item
      ++ restChunks layout depth rest

def fieldChunks (layout : Layout) (depth : Nat) : List (Text × Json) → List Chunk
  | [] => []
  | (name, value) :: rest =>
    .text (layout.separator depth ++ writeText name ++ [':', ' '])
      :: valueChunks layout depth value ++ fieldChunks layout depth rest

end

/-- The written form of a value whose items stand at a depth of one more. -/
def writeValue (layout : Layout) (depth : Nat) (value : Json) : List Char :=
  (valueChunks layout depth value).flatMap Chunk.chars

/-! ### Printing -/

/-- Why a value is not printed to its end. -/
inductive PrintFault where
  /-- The indent is no size. -/
  | indent
  /-- An integer has more digits than may be. -/
  | tooManyDigits (most : Nat)
deriving DecidableEq, Repr

def PrintFault.message : PrintFault → String
  | indent => "cannot fit 'int' into an index-sized integer"
  | tooManyDigits most =>
    s!"Exceeds the limit ({most} digits) for integer string conversion; " ++
      "use sys.set_int_max_str_digits() to increase the limit"

/-- What was put out, and the fault that ended it if one did. -/
structure Printout where
  text : List Char
  fault? : Option PrintFault
deriving DecidableEq, Repr

/-- Is a chunk put out: has its integer, if it holds one, no more digits than may be? -/
def Chunk.isWithin (most : Nat) : Chunk → Bool
  | text _ => true
  | integer _ value => (digitsOf value).length ≤ most

/-- Put out chunks, up to the first that cannot be. -/
def putOut (most : Nat) : List Chunk → Printout
  | [] => ⟨[], none⟩
  | chunk :: rest =>
    if chunk.isWithin most then
      -- what was put out stays, whatever happens behind it
      let behind := putOut most rest
      { behind with text := chunk.chars ++ behind.text }
    else ⟨[], some (.tooManyDigits most)⟩

/-- Print a value. -/
def print (layout : Layout) (value : Json) : Printout :=
  if layout.isSized then putOut mostDigits (valueChunks layout 0 value)
  else ⟨[], some .indent⟩

end ObjectAudit.Json
