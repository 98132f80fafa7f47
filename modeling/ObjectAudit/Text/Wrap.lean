/-
ObjectAudit/Text/Wrap.lean

Breaking text into lines of a width.  A word takes the blanks behind it (the first one also
those before it), but has to fit only without them.  A word longer than a line is cut into
pieces, or stands on a line of its own that is then shortened.  Blanks at the end of a line
are removed only as far as the line is too long.
-/

namespace ObjectAudit.Text

/-! ### Widths -/

/-- The number of columns that a character takes: two for a picture. -/
def charCells (c : Char) : Nat := if 0x1f000 ≤ c.toNat then 2 else 1

def cells (cs : List Char) : Nat := (cs.map charCells).foldr (· + ·) 0

/-- The front of a text that takes exactly so many columns; a character that would be cut
in two becomes a blank, and blanks fill up what is missing. -/
def fitCells : Nat → List Char → List Char
  | width, [] => List.replicate width ' '
  | width, c :: rest =>
    if charCells c ≤ width then c :: fitCells (width - charCells c) rest
    else List.replicate width ' '

def isSpace (c : Char) : Bool := c == ' '

def trimEnd (cs : List Char) : List Char := (cs.reverse.dropWhile isSpace).reverse

/-! ### Words -/

def consWord (c : Char) : List (List Char) → List (List Char)
  | [] => [[c]]
  | word :: words => (c :: word) :: words

/-- Cut a text into words, each with the blanks behind it.  A word starts at a character
that is no blank and follows a blank. -/
def cutWords : List Char → List (List Char)
  | [] => []
  | c :: rest =>
    match rest with
    | [] => [[c]]
    | d :: _ =>
      if isSpace c && !isSpace d then [c] :: cutWords rest else consWord c (cutWords rest)

/-- The words of a text; blanks before the first word belong to it. -/
def wordsOf (cs : List Char) : List (List Char) :=
  match cutWords cs with
  | first :: second :: rest =>
    if first.all isSpace then (first ++ second) :: rest else first :: second :: rest
  | words => words

/-! ### Lines -/

/-- What is done with a word longer than a line. -/
inductive LongWord where
  /-- It is cut into pieces. -/
  | cut
  /-- It stands on a line of its own, which is shortened. -/
  | shorten
deriving DecidableEq, Repr

/-- Cut a word into pieces of a width; `piece` is the current one, last character first. -/
def chop (width : Nat) (piece : List Char) (taken : Nat) : List Char → List (List Char)
  | [] => [piece.reverse]
  | c :: rest =>
    if width < taken + charCells c then piece.reverse :: chop width [c] (charCells c) rest
    else chop width (c :: piece) (taken + charCells c) rest

/-- Lay words into lines behind a line that takes `offset` columns. -/
def layWords (width : Nat) (long : LongWord) (line : List Char) (offset : Nat) :
    List (List Char) → List (List Char)
  | [] => [line]
  | word :: rest =>
    -- a word behind nothing leaves no empty line
    let finished := if line.isEmpty then [] else [line]
    -- blanks at the end of a word may stand beyond the line
    if offset + cells (trimEnd word) ≤ width then
      layWords width long (line ++ word) (offset + cells word) rest
    else if width < cells (trimEnd word) ∧ long = .cut then
      let pieces := chop width [] 0 word
      let last := pieces.getLastD []
      finished ++ pieces.dropLast ++ layWords width long last (cells last) rest
    else finished ++ layWords width long word (cells word) rest

/-- Remove blanks at the end of a line as far as it is too long. -/
def trimExcess (width : Nat) (line : List Char) : List Char :=
  let blanks := line.length - (trimEnd line).length
  line.take (line.length - min blanks (line.length - width))

/-- Shorten a line that takes too many columns. -/
def clip (width : Nat) (long : LongWord) (line : List Char) : List Char :=
  if cells line ≤ width then line
  else
    match long with
    | .cut => fitCells width line
    | .shorten => fitCells (width - 1) line ++ ['…']

/-- Break a text into lines. -/
def wrap (width : Nat) (long : LongWord) (cs : List Char) : List (List Char) :=
  let lines := if cs.all isSpace then [cs] else layWords width long [] 0 (wordsOf cs)
  lines.map fun line => clip width long (trimExcess width line)

end ObjectAudit.Text
