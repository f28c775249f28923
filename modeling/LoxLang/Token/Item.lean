import LoxLang.Error
import LoxLang.Token.Lexeme
/-!
# Lexical items

What a reader of the source gets to see: lexemes in order, with invalid input
reported as errors. A run of lexemes that starts with invalid input and has no
gap inside is one error; the lexeme after the gap is handed on as it is.
-/
namespace LoxLang

/-- A lexeme, or a stretch of input that is none. -/
abbrev Item := Except (Located Error) Lexeme

namespace Lexeme

def isOpenString (l : Lexeme) : Bool :=
  l.token = .invalid && l.text.toList.head? = some '"'

end Lexeme

/-- The items of a list of lexemes; `run` is a stretch of invalid input that may still grow. -/
def itemsFrom : Option (Located String) → List Lexeme → List Item
  | none, [] => []
  | some run, [] => [.error ⟨.unexpectedInput run.value, run.span⟩]
  | none, l :: ls =>
    if l.token ≠ .invalid then .ok l :: itemsFrom none ls
    else if l.isOpenString then .error ⟨.unterminatedString, l.span⟩ :: itemsFrom none ls
    else itemsFrom (some ⟨l.text, l.span⟩) ls
  | some run, l :: ls =>
    if run.span.stop = l.span.start then
      itemsFrom (some ⟨run.value ++ l.text, ⟨run.span.start, l.span.stop⟩⟩) ls
    else .error ⟨.unexpectedInput run.value, run.span⟩ :: .ok l :: itemsFrom none ls

def items (source : String) : List Item :=
  itemsFrom none (lexemes source)

def Item.lexemes (items : List Item) : List Lexeme :=
  items.filterMap Except.toOption

def Item.errors (items : List Item) : List (Located Error) :=
  items.filterMap fun
    | .error e => some e
    | .ok _ => none

end LoxLang
