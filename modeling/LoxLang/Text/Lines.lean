import LoxLang.Span
import LoxLang.Text.Ranges
import LoxLang.Text.Width

namespace LoxLang.Text

/-- A line without the newline that ends it. -/
structure Line where
  start : Nat
  text : List Char
deriving DecidableEq, Inhabited

/-- The lines of a text: one at the start and one after each newline. `start` and `current` are
the offset and the characters, latest first, of the line at hand. -/
def linesFrom (start : Nat) (current : List Char) : List Char → List Line
  | [] => [⟨start, current.reverse⟩]
  | c :: rest =>
    if c = '\n' then ⟨start, current.reverse⟩ :: linesFrom (start + byteSize current + 1) [] rest
    else linesFrom start (c :: current) rest

def lines (text : String) : List Line :=
  linesFrom 0 [] text.toList

/-- The index of the line that an offset belongs to: the last one that starts at or before it. -/
def lineIndex (lines : List Line) (offset : Nat) : Nat :=
  lines.countP (·.start ≤ offset) - 1

/-- The number of characters that end within the first `n` bytes. -/
def columnIndex : Nat → List Char → Nat
  | _, [] => 0
  | n, c :: rest => if c.utf8Size ≤ n then columnIndex (n - c.utf8Size) rest + 1 else 0

/-- What is shown of a line: all but the control characters at its end. -/
def Line.shown (line : Line) : List Char :=
  (line.text.reverse.dropWhile fun c => c = '\r' || c = '\n' || c = '\x00').reverse

def whiteRanges : List (Nat × Nat) :=
  [(0x9, 0xd), (0x20, 0x20), (0x85, 0x85), (0xa0, 0xa0), (0x1680, 0x1680), (0x2000, 0x200a),
    (0x2028, 0x2029), (0x202f, 0x202f), (0x205f, 0x205f), (0x3000, 0x3000)]

theorem ascending_whiteRanges : Ascending whiteRanges := by decide

def isWhite (c : Char) : Bool :=
  covers whiteRanges c.toNat

def indent (text : List Char) : Nat :=
  byteSize (text.takeWhile isWhite)

structure Cell where
  char : Char
  offset : Nat
  width : Nat
deriving DecidableEq

def tabWidth : Nat := 4

def cellsFrom (offset column : Nat) : List Char → List Cell
  | [] => []
  | c :: rest =>
    let width := if c = '\t' then tabWidth - column % tabWidth else width c
    ⟨c, offset, width⟩ :: cellsFrom (offset + c.utf8Size) (column + width) rest

def cells (text : List Char) : List Cell :=
  cellsFrom 0 0 text

/-- The characters of a cell: a tab is shown as spaces. -/
def Cell.draw (cell : Cell) : List Char :=
  if cell.char = '\t' then List.replicate cell.width ' ' else [cell.char]

end LoxLang.Text
