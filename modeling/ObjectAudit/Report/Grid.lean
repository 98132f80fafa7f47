/-
ObjectAudit/Report/Grid.lean

Tables drawn in text.  Each column is as wide as its longest cell needs; if the columns do
not fit, the widest ones give up width, down to the next widest, until they do.
-/
import ObjectAudit.Number.Rounding
import ObjectAudit.Text.Wrap

namespace ObjectAudit.Grid

open Text

/-! ### Column widths -/

def totalWidth (widths : List Nat) : Nat := widths.foldr (· + ·) 0

/-- Take width from the widest columns, left to right: each gives its share of what is
still to be taken, at most `limit`. -/
def shrinkWidest (widest limit : Nat) : (remaining left : Nat) → List Nat → List Nat
  | _, _, [] => []
  | remaining, left, width :: rest =>
    if width = widest then
      -- rounded anew for each column, so that the shares add up
      let share := min limit (roundQuotient remaining left)
      (width - share) :: shrinkWidest widest limit (remaining - share) (left - 1) rest
    else width :: shrinkWidest widest limit remaining left rest

/-- One round: the widest columns give up what is too much, at most down to the next
widest. -/
def shrinkRound (available : Nat) (widths : List Nat) : List Nat :=
  let excess := totalWidth widths - available
  let widest := widths.foldl max 0
  let second := (widths.filter (· != widest)).foldl max 0
  shrinkWidest widest (min excess (widest - second)) excess (widths.count widest) widths

/-- Shrink columns until they fit, for at most so many rounds. -/
def shrinkRounds : Nat → Nat → List Nat → List Nat
  | 0, _, widths => widths
  | rounds + 1, available, widths =>
    if totalWidth widths ≤ available then widths
    else shrinkRounds rounds available (shrinkRound available widths)

/-- Shrink columns until they fit.  Every round takes something away, so there are at most
as many as there is width. -/
def fitColumns (available : Nat) (widths : List Nat) : List Nat :=
  shrinkRounds (totalWidth widths) available widths

/-- The width of a column that holds some cells, with a blank on both sides. -/
def naturalWidth (column : List (List Char)) : Nat := (column.map cells).foldl max 0 + 2

/-! ### Lines -/

/-- The lines of a cell in a column of a width, each filled up. -/
def cellLines (width : Nat) (cell : List Char) : List (List Char) :=
  (wrap (width - 2) .shorten cell).map fun line => ' ' :: fitCells (width - 2) line ++ [' ']

def rowLines (mark : Char) (widths : List Nat) (row : List (List Char)) : List (List Char) :=
  let columns := List.zipWith cellLines widths row
  let height := (columns.map List.length).foldl max 0
  (List.range height).map fun position =>
    mark :: (List.zip widths columns).flatMap fun (width, lines) =>
      lines.getD position (List.replicate width ' ') ++ [mark]

/-- A border line: its left end, what fills it, the joints between columns, its right end. -/
def border (leftEnd fill joint rightEnd : Char) (widths : List Nat) : List Char :=
  leftEnd :: [joint].intercalate (widths.map fun width => List.replicate width fill)
    ++ [rightEnd]

/-- Draw a table with a heading in at most so many columns of text. -/
def draw (width : Nat) (header : List (List Char)) (rows : List (List (List Char))) :
    List (List Char) :=
  let columns := (List.range header.length).map fun position =>
    (header :: rows).map fun row => row.getD position []
  let widths := fitColumns (width - (header.length + 1)) (columns.map naturalWidth)
  [border '┏' '━' '┳' '┓' widths] ++ rowLines '┃' widths header ++
    [border '┡' '━' '╇' '┩' widths] ++ rows.flatMap (rowLines '│' widths) ++
    [border '└' '─' '┴' '┘' widths]

end ObjectAudit.Grid
