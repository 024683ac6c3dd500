/-
  PropertyArchive.Report.Table — tables without borders.

  Every cell is padded to the widest cell of its column, the header included, and two
  spaces stand between columns. A column whose cells are all counts is aligned to the
  right, any other to the left. A line keeps no blanks at its end.
-/
import PropertyArchive.Text.Width

namespace PropertyArchive

open Text

/-- The greatest number that counts as a count. -/
def maxCount : Nat := UInt64.size - 1

def decimalValue (digits : Text) : Nat := digits.foldl (fun n c => 10 * n + (c.toNat - 48)) 0

/-- A number that can count things: digits, perhaps behind a plus sign, of a machine word. -/
def isCount (cell : Text) : Bool :=
  let digits := match cell with
    | '+' :: digits => digits
    | digits => digits
  digits ≠ [] && digits.all Char.isDigit && decimalValue digits ≤ maxCount

structure Column where
  header : Text
  cells : List Text

namespace Column

def isNumeric (c : Column) : Bool := c.cells.all isCount

def width (c : Column) : Nat := ((c.header :: c.cells).map Text.width).foldl max 0

def lines (c : Column) : List Text :=
  let width := c.width
  let numeric := c.isNumeric
  (c.header :: c.cells).map fun cell =>
    let gap := List.replicate (width - Text.width cell) ' '
    if numeric then gap ++ cell else cell ++ gap

end Column

def besideEachOther : List (List Text) → List Text
  | [] => []
  | [column] => column
  | column :: columns => List.zipWith (fun cell rest => cell ++ "  " ++ rest) column (besideEachOther columns)

def tableLines (indent : Text) (columns : List Column) : List Text :=
  (besideEachOther (columns.map Column.lines)).map fun line => indent ++ trimEnd line

end PropertyArchive
