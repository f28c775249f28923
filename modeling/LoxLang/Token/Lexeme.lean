import LoxLang.Token.Basic
/-!
# Lexemes

A source text is cut into pieces from left to right, each as long as possible.
A piece is either a lexeme, which is a token with its spelling and its place, or
skipped text, which is blank or a line comment.
-/
namespace LoxLang

structure Lexeme where
  token : Token
  text : String
  span : Span
deriving DecidableEq, Inhabited

/-- A stretch of source text: a lexeme, or text without meaning. -/
inductive Piece
  | lexeme (l : Lexeme)
  | skipped (text : String)
deriving DecidableEq

def Piece.text : Piece → String
  | lexeme l => l.text
  | skipped text => text

namespace Lexeme

def isBlank (c : Char) : Bool :=
  c = ' ' || c = '\r' || c = '\n' || c = '\t' || c = '\x0c'

def isNameStart (c : Char) : Bool :=
  c.isAlpha || c = '_'

def isNamePart (c : Char) : Bool :=
  c.isAlphanum || c = '_'

/-- The symbol at the front of a text, the longer one where two fit, with the text after it. -/
def symbol? : List Char → Option (Symbol × List Char)
  | '!' :: '=' :: rest => some (.bangEqual, rest)
  | '=' :: '=' :: rest => some (.equalEqual, rest)
  | '>' :: '=' :: rest => some (.greaterEqual, rest)
  | '<' :: '=' :: rest => some (.lessEqual, rest)
  | '!' :: rest => some (.bang, rest)
  | '=' :: rest => some (.equal, rest)
  | '>' :: rest => some (.greater, rest)
  | '<' :: rest => some (.less, rest)
  | '(' :: rest => some (.leftParen, rest)
  | ')' :: rest => some (.rightParen, rest)
  | '\x7b' :: rest => some (.leftBrace, rest)
  | '\x7d' :: rest => some (.rightBrace, rest)
  | ',' :: rest => some (.comma, rest)
  | '.' :: rest => some (.dot, rest)
  | '-' :: rest => some (.minus, rest)
  | '+' :: rest => some (.plus, rest)
  | ';' :: rest => some (.semicolon, rest)
  | '/' :: rest => some (.slash, rest)
  | '*' :: rest => some (.star, rest)
  | _ => none

def digitsValue (digits : List Char) : Nat :=
  digits.foldl (fun value d => 10 * value + (d.toNat - '0'.toNat)) 0

/-- The float nearest to the number with the given digits before and after the point. -/
def numberValue (whole fraction : List Char) : Float :=
  Float.ofScientific (digitsValue (whole ++ fraction)) true fraction.length

/-- A name is an identifier unless it is reserved. -/
def nameToken (name : String) : Token :=
  match Keyword.ofSpelling? name with
  | some k => .keyword k
  | none => .identifier name

/-- What stands at the front of a text: the token, or nothing for skipped text, then the characters
that belong to it and the text after them. -/
structure Cut where
  token? : Option Token
  taken : List Char
  rest : List Char

/-- Digits, and a point with more digits if both are there. -/
def cutNumber (text : List Char) : Cut :=
  let whole := text.takeWhile Char.isDigit
  match text.dropWhile Char.isDigit with
  | '.' :: d :: rest =>
    if d.isDigit then
      let fraction := d :: rest.takeWhile Char.isDigit
      ⟨some (.number (numberValue whole fraction)), whole ++ '.' :: fraction,
        rest.dropWhile Char.isDigit⟩
    else ⟨some (.number (numberValue whole [])), whole, '.' :: d :: rest⟩
  | rest => ⟨some (.number (numberValue whole [])), whole, rest⟩

/-- The characters up to the next quote; a string that is never closed is invalid to the end. -/
def cutString (text : List Char) : Cut :=
  let content := text.takeWhile (· ≠ '"')
  match text.dropWhile (· ≠ '"') with
  | quote :: rest => ⟨some (.string (String.ofList content)), '"' :: content ++ [quote], rest⟩
  | [] => ⟨some .invalid, '"' :: text, []⟩

/-- The longest piece at the front of a text with first character `c`. -/
def cut (c : Char) (cs : List Char) : Cut :=
  if isBlank c then
    ⟨none, c :: cs.takeWhile isBlank, cs.dropWhile isBlank⟩
  else if isNameStart c then
    let name := c :: cs.takeWhile isNamePart
    ⟨some (nameToken (String.ofList name)), name, cs.dropWhile isNamePart⟩
  else if c.isDigit then cutNumber (c :: cs)
  else if c = '"' then cutString cs
  else if c = '/' ∧ cs.head? = some '/' then
    ⟨none, c :: cs.takeWhile (· ≠ '\n'), cs.dropWhile (· ≠ '\n')⟩
  else match symbol? (c :: cs) with
    | some (s, rest) => ⟨some (.symbol s), s.spelling.toList, rest⟩
    | none => ⟨some .invalid, [c], cs⟩

def Cut.piece (start : Nat) (k : Cut) : Piece :=
  match k.token? with
  | some token => .lexeme ⟨token, String.ofList k.taken, ⟨start, start + byteSize k.taken⟩⟩
  | none => .skipped (String.ofList k.taken)

/-- The pieces of a text that begins at byte `start`; the bound is the text's length. -/
def piecesFrom : Nat → Nat → List Char → List Piece
  | bound + 1, start, c :: cs =>
    let k := cut c cs
    k.piece start :: piecesFrom bound (start + byteSize k.taken) k.rest
  | _, _, _ => []

end Lexeme

open Lexeme in
def pieces (source : String) : List Piece :=
  piecesFrom source.toList.length 0 source.toList

def lexemes (source : String) : List Lexeme :=
  (pieces source).filterMap fun
    | .lexeme l => some l
    | .skipped _ => none

end LoxLang
