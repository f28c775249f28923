import LoxLang.Proofs.Layout.Reading
import LoxLang.Proofs.Layout.Skipped
import LoxLang.Proofs.Prompt.Continuation

namespace LoxLang

namespace Layout

open Lexeme

structure Digits where
  chars : List Char
  nonempty : chars ≠ []
  digits : ∀ d ∈ chars, d.isDigit = true

/-- A valid token in one of its spellings. -/
inductive Word
  | symbol (s : Symbol)
  | keyword (k : Keyword)
  | name (first : Char) (others : List Char) (hfirst : isNameStart first = true)
      (hothers : ∀ c ∈ others, isNamePart c = true)
      (hfree : ∀ k : Keyword, k.spelling ≠ String.ofList (first :: others))
  | string (content : List Char) (hcontent : '"' ∉ content)
  | number (whole : Digits) (fraction : Option Digits)

namespace Word

def spelling : Word → List Char
  | symbol s => s.spelling.toList
  | keyword k => k.spelling.toList
  | name first others .. => first :: others
  | string content _ => '"' :: content ++ ['"']
  | number whole none => whole.chars
  | number whole (some fraction) => whole.chars ++ '.' :: fraction.chars

def token : Word → Token
  | symbol s => .symbol s
  | keyword k => .keyword k
  | name first others .. => .identifier (String.ofList (first :: others))
  | string content _ => .string (String.ofList content)
  | number whole none => .number (numberValue whole.chars [])
  | number whole (some fraction) => .number (numberValue whole.chars fraction.chars)

def lexeme (start : Nat) (word : Word) : Lexeme :=
  ⟨word.token, String.ofList word.spelling, ⟨start, start + byteSize word.spelling⟩⟩

end Word

/-- What stands between two words: a blank, and then any blanks and comments. -/
structure Separator where
  first : Char
  others : List Char
  blank : isBlank first = true
  skipped : Skipped others

def Separator.text (separator : Separator) : List Char :=
  separator.first :: separator.others

variable {rest : List Char} (hrest : ∀ c ∈ rest.head?, isBlank c = true)
include hrest

omit hrest

/-! ## Whole layouts -/

end Layout

end LoxLang
