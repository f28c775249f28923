import LoxLang.Token.Lexeme

namespace LoxLang

inductive Color
  | lightGray | darkGray | lightCyan | lightPurple | lightGreen | lightRed
deriving DecidableEq, Inhabited

namespace Color

def name : Color → String
  | lightGray => "LightGray"
  | darkGray => "DarkGray"
  | lightCyan => "LightCyan"
  | lightPurple => "LightPurple"
  | lightGreen => "LightGreen"
  | lightRed => "LightRed"

/-- The colour of blank text, symbols and invalid input. -/
def plain : Color := lightGray

def comment : Color := darkGray

/-- The colour of a lexeme: variables, strings, constants and reserved words have one of their
own. -/
def ofToken : Token → Color
  | .identifier _ => lightRed
  | .string _ => lightGreen
  | .number _ => lightCyan
  | .keyword k => if k.isLiteral then lightCyan else lightPurple
  | .symbol _ | .invalid => plain

end Color

structure Styled where
  color : Color
  text : String
deriving DecidableEq

namespace Highlight

/-- A text before and from its first `//`, if it has one. -/
def splitComment : List Char → List Char × Option (List Char)
  | '/' :: '/' :: rest => ([], some ('/' :: '/' :: rest))
  | c :: rest =>
    let (before, comment) := splitComment rest
    (c :: before, comment)
  | [] => ([], none)

def gap (skipped : List Char) : List Styled :=
  match splitComment skipped with
  | (before, some comment) =>
    [⟨.plain, String.ofList before⟩, ⟨.comment, String.ofList comment⟩]
  | (before, none) => if before.isEmpty then [] else [⟨.plain, String.ofList before⟩]

def paint (skipped : List Char) : List Piece → List Styled
  | [] => gap skipped
  | .skipped text :: rest => paint (skipped ++ text.toList) rest
  | .lexeme l :: rest => gap skipped ++ ⟨.ofToken l.token, l.text⟩ :: paint [] rest

end Highlight

def highlight (source : String) : List Styled :=
  Highlight.paint [] (pieces source)

end LoxLang
