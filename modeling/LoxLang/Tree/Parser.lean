import LoxLang.Token.Item
import LoxLang.Tree.Basic
/-!
# Parsing

A reader of lexemes that builds syntax trees by recursive descent. An error does
not end the work: it is recorded, the reader skips to what is probably the start
of the next statement, and goes on. Every function takes a bound on how deep it
may recurse; `Parser.depth` is a bound that is never reached.
-/
namespace LoxLang

/-- Where a reader stands: the lexemes ahead, the one just read, the errors so far and the offset
of the end of the source. -/
structure Reader where
  rest : List Lexeme
  last : Option Lexeme
  errors : Array (Located Error)
  sourceEnd : Nat
deriving Inhabited

/-- A step of reading gives a result or fails; either way the reader has moved on. -/
abbrev Parser := EStateM (Located Error) Reader

namespace Reader

/-- The place of the next lexeme, or the empty span at the end of the source. -/
def nextSpan (r : Reader) : Span :=
  match r.rest with
  | l :: _ => l.span
  | [] => ⟨r.sourceEnd, r.sourceEnd⟩

def spanFrom (r : Reader) (start : Nat) : Span :=
  match r.last with
  | some l => ⟨start, max l.span.stop start⟩
  | none => ⟨start, start⟩

def expected (r : Reader) (what : String) : Located Error :=
  match r.rest with
  | l :: _ => ⟨.unexpectedToken l.text what, l.span⟩
  | [] => ⟨.unexpectedEnd what, r.nextSpan⟩

def advance (r : Reader) : Reader :=
  match r.rest with
  | l :: rest => { r with rest, last := some l }
  | [] => r

def startsStatement : Token → Bool
  | .keyword k =>
    k = .kwClass || k = .kwFun || k = .kwVar || k = .kwFor || k = .kwIf || k = .kwWhile ||
      k = .kwPrint || k = .kwReturn
  | _ => false

/-- Skips to just after a semicolon or just before a word that begins a statement. -/
def skipFrom (last : Lexeme) : List Lexeme → Lexeme × List Lexeme
  | [] => (last, [])
  | l :: rest =>
    if last.token = .symbol .semicolon || startsStatement l.token then (last, l :: rest)
    else skipFrom l rest

/-- Steps over the next lexeme and then to a probable start of a statement. -/
def synchronize (r : Reader) : Reader :=
  match r.rest with
  | [] => r
  | l :: rest =>
    let (last, rest) := skipFrom l rest
    { r with rest, last := some last }

end Reader

namespace Parser

/-- The most parameters that a function may declare, and arguments that a call may pass. -/
def maxArguments : Nat := 255

def peek : Parser (Option Token) :=
  return (← get).rest.head?.map (·.token)

def nextSpan : Parser Span :=
  return (← get).nextSpan

def nextStart : Parser Nat :=
  return (← nextSpan).start

def spanFrom (start : Nat) : Parser Span :=
  return (← get).spanFrom start

def advance : Parser Unit :=
  modify Reader.advance

def atEnd : Parser Bool :=
  return (← get).rest.isEmpty

/-- Whether a list of declarations or methods is over: a closing brace is next, or nothing. -/
def closes : Parser Bool := do
  return (← get).rest.head?.all (·.token = .symbol .rightBrace)

def report (error : Error) (span : Span) : Parser Unit :=
  modify fun r => { r with errors := r.errors.push ⟨error, span⟩ }

def failExpecting {α : Type} (what : String) : Parser α := do
  throw ((← get).expected what)

def check (token : Token) : Parser Bool :=
  return (← peek) = some token

/-- Reads the given token if it is next, and tells whether it was. -/
def eat (token : Token) : Parser Bool := do
  if ← check token then
    advance
    return true
  return false

def expect (token : Token) (what : String) : Parser Unit := do
  if ← eat token then return else failExpecting what

def expectName (what : String) : Parser String := do
  match ← peek with
  | some (.identifier name) =>
    advance
    return name
  | _ => failExpecting what

/-- What stands after the given token, if that token is next. -/
def after {α : Type} (token : Token) (p : Parser α) : Parser (Option α) := do
  if ← eat token then some <$> p else return none

/-- What stands before the given token, if anything does. -/
def before {α : Type} (token : Token) (p : Parser α) : Parser (Option α) := do
  if ← check token then return none else some <$> p

/-- Reports an argument or parameter that has too many others in front of it. -/
def limit (count : Nat) (error : Error) : Parser Unit := do
  if count < maxArguments then return else report error (← nextSpan)

/-- Reads a statement. If that fails, the error is recorded and the reader skips ahead. -/
def recover (p : Parser Stmt) : Parser (Option Stmt) := fun r =>
  match p r with
  | .ok s r => .ok (some s) r
  | .error e r => .ok none { r with errors := r.errors.push e }.synchronize

inductive Operator
  | binary (op : BinaryOp)
  | logical (op : LogicalOp)
deriving DecidableEq

def Operator.apply (span : Span) (left right : Expr) : Operator → Expr
  | binary op => .binary span op left right
  | logical op => .logical span op left right

abbrev Level := Token → Option Operator

/-- The levels of the operators between operands, from the loosest to the tightest. -/
def levels : List Level :=
  [fun | .keyword .kwOr => some (.logical .or) | _ => none,
    fun | .keyword .kwAnd => some (.logical .and) | _ => none,
    fun
      | .symbol .bangEqual => some (.binary .notEqual)
      | .symbol .equalEqual => some (.binary .equal)
      | _ => none,
    fun
      | .symbol .greater => some (.binary .greater)
      | .symbol .greaterEqual => some (.binary .greaterEqual)
      | .symbol .less => some (.binary .less)
      | .symbol .lessEqual => some (.binary .lessEqual)
      | _ => none,
    fun
      | .symbol .minus => some (.binary .subtract)
      | .symbol .plus => some (.binary .add)
      | _ => none,
    fun
      | .symbol .slash => some (.binary .divide)
      | .symbol .star => some (.binary .multiply)
      | _ => none]

def unaryOp? : Token → Option UnaryOp
  | .symbol .bang => some .not
  | .symbol .minus => some .negate
  | _ => none

def literal? : Token → Option Literal
  | .keyword .kwFalse => some (.bool false)
  | .keyword .kwTrue => some (.bool true)
  | .keyword .kwNil => some .nil
  | .number value => some (.number value)
  | .string value => some (.string value)
  | _ => none

mutual

/-- An assignment, or an expression without one. What stands left of the sign must be a variable
or a property; anything else is reported and kept as it is. -/
def expression : Nat → Parser Expr
  | 0 => failExpecting "expression"
  | n + 1 => do
    let start ← nextStart
    let target ← operation n levels
    if ← check (.symbol .equal) then
      let sign ← nextSpan
      advance
      let value ← expression n
      let span ← spanFrom start
      match target with
      | .var _ ref => return .assign span ⟨ref.name, none⟩ value
      | .get _ object name => return .set span object name value
      | _ =>
        report .invalidAssignTarget sign
        return target
    return target

/-- A chain of the operators of the first level, whose operands have those of the others. -/
def operation : Nat → List Level → Parser Expr
  | 0, _ => failExpecting "expression"
  | n + 1, [] => unary n
  | n + 1, level :: tighter => do
    let start ← nextStart
    let left ← operation n tighter
    operationTail n level tighter start left

/-- The rest of a chain of operators, which groups to the left. -/
def operationTail : Nat → Level → List Level → Nat → Expr → Parser Expr
  | 0, _, _, _, _ => failExpecting "expression"
  | n + 1, level, tighter, start, left => do
    match (← peek).bind level with
    | some op =>
      advance
      let right ← operation n tighter
      let span ← spanFrom start
      operationTail n level tighter start (op.apply span left right)
    | none => return left

def unary : Nat → Parser Expr
  | 0 => failExpecting "expression"
  | n + 1 => do
    let start ← nextStart
    match (← peek).bind unaryOp? with
    | some op =>
      advance
      let operand ← unary n
      return .unary (← spanFrom start) op operand
    | none =>
      let callee ← primary n
      callTail n start callee

def callTail : Nat → Nat → Expr → Parser Expr
  | 0, _, _ => failExpecting "expression"
  | n + 1, start, callee => do
    if ← eat (.symbol .leftParen) then
      let args ← before (.symbol .rightParen) (arguments n 0)
      expect (.symbol .rightParen) "')' after arguments"
      let span ← spanFrom start
      callTail n start (.call span callee (args.getD []))
    else if ← eat (.symbol .dot) then
      let name ← expectName "property name after '.'"
      let span ← spanFrom start
      callTail n start (.get span callee name)
    else return callee

/-- One or more arguments, after `count` earlier ones. -/
def arguments : Nat → Nat → Parser (List Expr)
  | 0, _ => failExpecting "expression"
  | n + 1, count => do
    limit count (.tooManyArguments maxArguments)
    let first ← expression n
    let others ← after (.symbol .comma) (arguments n (count + 1))
    return first :: others.getD []

def primary : Nat → Parser Expr
  | 0 => failExpecting "expression"
  | n + 1 => do
    let start ← nextStart
    match ← peek with
    | some (.keyword .kwThis) =>
      advance
      return .this (← spanFrom start) none
    | some (.identifier name) =>
      advance
      return .var (← spanFrom start) ⟨name, none⟩
    | some (.symbol .leftParen) =>
      advance
      let inner ← expression n
      expect (.symbol .rightParen) "')' after expression"
      return .grouping (← spanFrom start) inner
    | some (.keyword .kwSuper) =>
      advance
      expect (.symbol .dot) "'.' after 'super'"
      let method ← expectName "superclass method name"
      return .super (← spanFrom start) none method
    | token =>
      match token.bind literal? with
      | some value =>
        advance
        return .literal (← spanFrom start) value
      | none => failExpecting "expression"

end

def parameters : Nat → Nat → Parser (List String)
  | 0, _ => failExpecting "parameter name"
  | n + 1, count => do
    limit count (.tooManyParameters maxArguments)
    let first ← expectName "parameter name"
    let others ← after (.symbol .comma) (parameters n (count + 1))
    return first :: others.getD []

def exprStmt (n : Nat) : Parser Stmt := do
  let start ← nextStart
  let value ← expression n
  expect (.symbol .semicolon) "';' after expression"
  return .expr (← spanFrom start) value

def varDecl (n : Nat) (start : Nat) : Parser Stmt := do
  let name ← expectName "variable name"
  let value ← after (.symbol .equal) (expression n)
  expect (.symbol .semicolon) "';' after variable declaration"
  return .varDecl (← spanFrom start) name value

def superclassRef : Parser (Located Ref) := do
  let span ← nextSpan
  let name ← expectName "superclass name"
  return ⟨⟨name, none⟩, span⟩

def forRound (span : Span) (increment : Option Expr) (body : Stmt) : Stmt :=
  match increment with
  | some e => .block span [body, .expr e.span e]
  | none => body

/-- A counting loop in terms of simpler statements: the initializer and a loop in a block of their
own, with the increment at the end of the loop's body. -/
def forLoop (span : Span) (init : Option Stmt) (condition increment : Option Expr) (body : Stmt) :
    Stmt :=
  let condition := condition.getD (.literal span (.bool true))
  let loop := .loop span condition (forRound span increment body)
  match init with
  | some init => .block span [init, loop]
  | none => loop

def forInit (n : Nat) : Parser (Option Stmt) := do
  let start ← nextStart
  if ← eat (.symbol .semicolon) then return none
  else if ← eat (.keyword .kwVar) then some <$> varDecl n start
  else some <$> exprStmt n

mutual

def declaration : Nat → Parser Stmt
  | 0 => failExpecting "expression"
  | n + 1 => do
    let start ← nextStart
    if ← eat (.keyword .kwClass) then classDecl n start
    else if ← eat (.keyword .kwFun) then .funDecl <$> function n "function" start
    else if ← eat (.keyword .kwVar) then varDecl n start
    else statement n

def declarations : Nat → Parser (List Stmt)
  | 0 => return []
  | n + 1 => do
    if ← closes then return []
    else
      let first ← recover (declaration n)
      let others ← declarations n
      return first.toList ++ others

/-- The statements of a block whose opening brace has been read. -/
def block : Nat → Parser (List Stmt)
  | 0 => failExpecting "expression"
  | n + 1 => do
    let body ← declarations n
    expect (.symbol .rightBrace) "'\x7d' after block"
    return body

def function : Nat → String → Nat → Parser FunDecl
  | 0, _, _ => failExpecting "expression"
  | n + 1, kind, start => do
    let name ← expectName s!"{kind} name"
    expect (.symbol .leftParen) s!"'(' after {kind} name"
    let params ← before (.symbol .rightParen) (parameters n 0)
    expect (.symbol .rightParen) "')' after parameters"
    expect (.symbol .leftBrace) s!"'\x7b' before {kind} body"
    let body ← block n
    return ⟨← spanFrom start, name, params.getD [], body⟩

def methods : Nat → Parser (List FunDecl)
  | 0 => failExpecting "expression"
  | n + 1 => do
    if ← closes then return []
    else
      let start ← nextStart
      let first ← function n "method" start
      let others ← methods n
      return first :: others

def classDecl : Nat → Nat → Parser Stmt
  | 0, _ => failExpecting "expression"
  | n + 1, start => do
    let name ← expectName "class name"
    let superclass ← after (.symbol .less) superclassRef
    expect (.symbol .leftBrace) "'\x7b' before class body"
    let methods ← methods n
    expect (.symbol .rightBrace) "'\x7d' after class body"
    return .classDecl (← spanFrom start) name superclass methods

def statement : Nat → Parser Stmt
  | 0 => failExpecting "expression"
  | n + 1 => do
    let start ← nextStart
    if ← eat (.keyword .kwFor) then
      expect (.symbol .leftParen) "'(' after 'for'"
      let init ← forInit n
      let condition ← before (.symbol .semicolon) (expression n)
      expect (.symbol .semicolon) "';' after loop condition"
      let increment ← before (.symbol .rightParen) (expression n)
      expect (.symbol .rightParen) "')' after for clauses"
      let body ← statement n
      return forLoop (← spanFrom start) init condition increment body
    else if ← eat (.keyword .kwIf) then
      expect (.symbol .leftParen) "'(' after 'if'"
      let condition ← expression n
      expect (.symbol .rightParen) "')' after if condition"
      let yes ← statement n
      let no ← after (.keyword .kwElse) (statement n)
      return .branch (← spanFrom start) condition yes no
    else if ← eat (.keyword .kwPrint) then
      let value ← expression n
      expect (.symbol .semicolon) "';' after value"
      return .print (← spanFrom start) value
    else if ← eat (.keyword .kwReturn) then
      let value ← before (.symbol .semicolon) (expression n)
      expect (.symbol .semicolon) "';' after return value"
      return .ret (← spanFrom start) value
    else if ← eat (.keyword .kwWhile) then
      expect (.symbol .leftParen) "'(' after 'while'"
      let condition ← expression n
      expect (.symbol .rightParen) "')' after condition"
      let body ← statement n
      return .loop (← spanFrom start) condition body
    else if ← eat (.symbol .leftBrace) then
      let body ← block n
      return .block (← spanFrom start) body
    else exprStmt n

end

def program : Nat → Parser (List Stmt)
  | 0 => return []
  | n + 1 => do
    if ← atEnd then return []
    else
      let first ← recover (declaration n)
      let others ← program n
      return first.toList ++ others

/-- Between two lexemes fewer than twenty functions call each other. -/
def depth (lexemes : List Lexeme) : Nat :=
  20 * (lexemes.length + 1)

end Parser

/-- The statements that could be read from a source, and all errors: those of the lexemes first. -/
structure Parsed where
  program : List Stmt
  errors : List (Located Error)

def parse (source : String) : Parsed :=
  let found := items source
  let lexemes := Item.lexemes found
  let reader : Reader := ⟨lexemes, none, (Item.errors found).toArray, source.utf8ByteSize⟩
  match Parser.program (Parser.depth lexemes) reader with
  | .ok program r => ⟨program, r.errors.toList⟩
  | .error e r => ⟨[], (r.errors.push e).toList⟩

/-- Whether a source can be run as it is, rather than being cut off in the middle of something. -/
def isComplete (source : String) : Bool :=
  !(parse source).errors.any (·.value.isOpenEnded)

end LoxLang
