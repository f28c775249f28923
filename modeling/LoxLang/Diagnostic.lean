import LoxLang.Error
import LoxLang.Text.Lines
/-!
# Diagnostics

An error as a picture of the source: a heading, the place, the lines that the
error is about with marks under or beside them, and notes. An error on one line
has carets below it. An error over several lines has a bar at the left from its
first to its last line, with long stretches between them left out.
-/
namespace LoxLang
open Text

structure SourceFile where
  name : String
  text : String

namespace Diagnostic

/-- Lines of a long error that are shown after its first line and before its last one. -/
def contextAfterStart : Nat := 3
def contextBeforeEnd : Nat := 1

def numberGutter (pad number : Nat) : String :=
  let digits := toString number
  String.ofList (List.replicate (pad - digits.length) ' ') ++ digits

def emptyGutter (pad : Nat) : String :=
  String.ofList (List.replicate pad ' ')

def drawn (text : List Char) : String :=
  String.ofList ((cells text).flatMap Cell.draw)

/-- The marks under one cell, for an error that covers bytes `start` to `stop` of the line. -/
def caretsUnder (start stop : Nat) (offset size width : Nat) : List Char :=
  if max start offset < min stop (offset + size) then List.replicate width '^'
  else if offset < stop then List.replicate width ' '
  else []

/-- The marks under a line; one more cell after the last can be marked too. -/
def carets (text : List Char) (start stop : Nat) : String :=
  String.ofList ((cells text).flatMap
    (fun cell => caretsUnder start stop cell.offset cell.char.utf8Size cell.width) ++
    caretsUnder start stop (byteSize text) 1 1)

def rule (text : List Char) (stop : Nat) : String :=
  let width := ((cells text).takeWhile (·.offset < stop)).foldl (· + ·.width) 0
  String.ofList (List.replicate width '─')

def single (pad index : Nat) (line : Line) (span : Span) : List String :=
  let text := line.shown
  let start := span.start - line.start
  let stop := max (span.stop - line.start) (start + 1)
  [s!"{numberGutter pad (index + 1)} │ {drawn text}",
    s!"{emptyGutter pad} │ {carets text start stop}"]

/-- The first line of a long error: the bar begins beside the text, or below it if something
stands before the error. -/
def opening (pad index : Nat) (line : Line) (span : Span) : List String :=
  let text := line.shown
  let start := span.start - line.start
  if start ≤ indent text then [s!"{numberGutter pad (index + 1)} │ ╭ {drawn text}"]
  else
    [s!"{numberGutter pad (index + 1)} │   {drawn text}",
      s!"{emptyGutter pad} │ ╭{rule text (start + 1)}^"]

def inner (pad index : Nat) (line : Line) : String :=
  s!"{numberGutter pad (index + 1)} │ │ {drawn line.shown}"

def closing (pad index : Nat) (line : Line) (span : Span) : List String :=
  [inner pad index line,
    s!"{emptyGutter pad} │ ╰{rule line.shown (span.stop - line.start)}^"]

/-- The lines strictly between the first and the last one. Two or more that are not context are
left out. -/
def middle (pad : Nat) (lines : List Line) (first last : Nat) : List String :=
  let between := (lines.zipIdx.take last).drop (first + 1)
  let drawAll := List.map fun (line, index) => inner pad index line
  if between.length ≤ contextAfterStart + contextBeforeEnd + 1 then drawAll between
  else
    drawAll (between.take contextAfterStart) ++ [s!"{emptyGutter pad} · │"] ++
      drawAll (between.drop (between.length - contextBeforeEnd))

def snippet (pad : Nat) (lines : List Line) (span : Span) : List String :=
  let first := lineIndex lines span.start
  let last := lineIndex lines span.stop
  let line (index : Nat) := lines.getD index default
  if first = last then single pad first (line first) span
  else
    opening pad first (line first) span ++ middle pad lines first last ++
      closing pad last (line last) span

def rows (file : SourceFile) (e : Located Error) : List String :=
  let lines := lines file.text
  let first := lineIndex lines e.span.start
  let last := lineIndex lines e.span.stop
  let pad := (toString (last + 1)).length
  let line := lines.getD first default
  let column := columnIndex (e.span.start - line.start) line.text + 1
  let border := emptyGutter pad ++ if first = last then " │" else " │  "
  let notes := e.value.notes.map fun note => s!"{emptyGutter pad} = {note}"
  [s!"error[{e.value.kind.label}]: {e.value.text}",
    s!"{emptyGutter pad} ┌─ {file.name}:{first + 1}:{column}",
    border] ++
  snippet pad lines e.span ++
  (if notes.isEmpty then [] else [border]) ++ notes ++ [""]

/-- A diagnostic as text, every line of it ended by a newline. -/
def render (file : SourceFile) (e : Located Error) : String :=
  String.join ((rows file e).map (· ++ "\n"))

end Diagnostic

end LoxLang
