import LoxLang.Tree.Parser
/-!
# The grammar

Which rows of tokens are programs, and the tree of each of them. A derivation
says nothing about spans: a tree with any spans is a tree of the derivation. All
distances are still open.

Operators between operands stand on six levels, from `or` at level 0 to the
factors at level 5; what stands on level 6 has no operator outside of
parentheses but prefixes. A statement is open if it ends with an `if` that could
still take an `else`; what stands between a condition and `else` is never open,
so every `else` belongs to the nearest `if`.
-/
namespace LoxLang.Grammar
open Token LoxLang.Parser

/-- The operators between operands, with the level and the spelling of each. -/
inductive Infix : Nat → Token → Operator → Prop
  | or : Infix 0 (keyword .kwOr) (.logical .or)
  | and : Infix 1 (keyword .kwAnd) (.logical .and)
  | notEqual : Infix 2 (symbol .bangEqual) (.binary .notEqual)
  | equal : Infix 2 (symbol .equalEqual) (.binary .equal)
  | greater : Infix 3 (symbol .greater) (.binary .greater)
  | greaterEqual : Infix 3 (symbol .greaterEqual) (.binary .greaterEqual)
  | less : Infix 3 (symbol .less) (.binary .less)
  | lessEqual : Infix 3 (symbol .lessEqual) (.binary .lessEqual)
  | subtract : Infix 4 (symbol .minus) (.binary .subtract)
  | add : Infix 4 (symbol .plus) (.binary .add)
  | divide : Infix 5 (symbol .slash) (.binary .divide)
  | multiply : Infix 5 (symbol .star) (.binary .multiply)

inductive Prefix : Token → UnaryOp → Prop
  | not : Prefix (symbol .bang) .not
  | negate : Prefix (symbol .minus) .negate

inductive Constant : Token → Literal → Prop
  | no : Constant (keyword .kwFalse) (.bool false)
  | yes : Constant (keyword .kwTrue) (.bool true)
  | nil : Constant (keyword .kwNil) .nil
  | number {x : Float} : Constant (number x) (.number x)
  | string {s : String} : Constant (string s) (.string s)

/-- The tests of a counting loop: one that was left out always holds. -/
inductive Test : Option Expr → Expr → Prop
  | always {span : Span} : Test none (.literal span (.bool true))
  | given {e : Expr} : Test (some e) e

/-- A round of a counting loop: the body, and then the increment if there is one. -/
inductive Round : Option Expr → Stmt → Stmt → Prop
  | plain {body : Stmt} : Round none body body
  | increment {span span' : Span} {e : Expr} {body : Stmt} :
      Round (some e) body (.block span [body, .expr span' e])

/-- A whole counting loop: the initializer, if there is one, has a block around it and the loop. -/
inductive Counting : Option Stmt → Stmt → Stmt → Prop
  | plain {loop : Stmt} : Counting none loop loop
  | initialized {span : Span} {init loop : Stmt} :
      Counting (some init) loop (.block span [init, loop])

inductive Phrase
  | expression | operation (level : Nat) | unary | call | primary | arguments | optional
  | binding | initializer | statement (isOpen : Bool) | function | methods | declaration
  | declarations

@[reducible] def Phrase.Tree : Phrase → Type
  | expression | operation _ | unary | call | primary => Expr
  | arguments => List Expr
  | optional => Option Expr
  | binding | statement _ | declaration => Stmt
  | initializer => Option Stmt
  | function => FunDecl
  | methods => List FunDecl
  | declarations => List Stmt

def names (params : List String) : List Token :=
  (params.map identifier).intersperse (symbol .comma)

theorem names_cons_cons (first second : String) (others : List String) :
    names (first :: second :: others) =
      identifier first :: symbol .comma :: names (second :: others) := rfl

theorem mem_names_iff {params : List String} {name : String} :
    identifier name ∈ names params ↔ name ∈ params := by
  induction params with
  | nil => simp [names]
  | cons first others ih =>
    cases others with
    | nil => simp [names]
    | cons second others => simp [names_cons_cons, ih]

theorem invalid_notMem_names (params : List String) : invalid ∉ names params := by
  induction params with
  | nil => simp [names]
  | cons first others ih =>
    cases others with
    | nil => simp [names]
    | cons second others => simp [names_cons_cons, ih]

/-- The rows of tokens that are phrases of a kind, and the tree of each. -/
inductive Derives : (phrase : Phrase) → List Token → phrase.Tree → Prop
  -- Expressions.
  | assignVariable {span name value e} :
      Derives .expression value e →
      Derives .expression (identifier name :: symbol .equal :: value)
        (.assign span ⟨name, none⟩ e)
  | assignProperty {span object o name value e} :
      Derives .call object o → Derives .expression value e →
      Derives .expression (object ++ symbol .dot :: identifier name :: symbol .equal :: value)
        (.set span o name e)
  | operation {ts e} : Derives (.operation 0) ts e → Derives .expression ts e
  | binary {k span left a token op right b} :
      Derives (.operation k) left a → Infix k token (.binary op) →
      Derives (.operation (k + 1)) right b →
      Derives (.operation k) (left ++ token :: right) (.binary span op a b)
  | logical {k span left a token op right b} :
      Derives (.operation k) left a → Infix k token (.logical op) →
      Derives (.operation (k + 1)) right b →
      Derives (.operation k) (left ++ token :: right) (.logical span op a b)
  | tighter {k ts e} : Derives (.operation (k + 1)) ts e → Derives (.operation k) ts e
  | operand {ts e} : Derives .unary ts e → Derives (.operation 6) ts e
  | unary {span token op operand e} :
      Prefix token op → Derives .unary operand e →
      Derives .unary (token :: operand) (.unary span op e)
  | chain {ts e} : Derives .call ts e → Derives .unary ts e
  | callEmpty {span callee c} :
      Derives .call callee c →
      Derives .call (callee ++ [symbol .leftParen, symbol .rightParen]) (.call span c [])
  | call {span callee c args es} :
      Derives .call callee c → Derives .arguments args es → es.length ≤ 255 →
      Derives .call (callee ++ symbol .leftParen :: args ++ [symbol .rightParen])
        (.call span c es)
  | get {span object o name} :
      Derives .call object o →
      Derives .call (object ++ [symbol .dot, identifier name]) (.get span o name)
  | primary {ts e} : Derives .primary ts e → Derives .call ts e
  | lastArgument {ts e} : Derives .expression ts e → Derives .arguments ts [e]
  | moreArguments {first e others es} :
      Derives .expression first e → Derives .arguments others es →
      Derives .arguments (first ++ symbol .comma :: others) (e :: es)
  | constant {span token value} :
      Constant token value → Derives .primary [token] (.literal span value)
  | this {span} : Derives .primary [keyword .kwThis] (.this span none)
  | name {span name} : Derives .primary [identifier name] (.var span ⟨name, none⟩)
  | grouping {span ts e} :
      Derives .expression ts e →
      Derives .primary (symbol .leftParen :: ts ++ [symbol .rightParen]) (.grouping span e)
  | super {span name} :
      Derives .primary [keyword .kwSuper, symbol .dot, identifier name] (.super span none name)
  | absent : Derives .optional [] none
  | present {ts e} : Derives .expression ts e → Derives .optional ts (some e)
  -- Statements.
  | exprStmt {span ts e} :
      Derives .expression ts e →
      Derives (.statement false) (ts ++ [symbol .semicolon]) (.expr span e)
  | print {span ts e} :
      Derives .expression ts e →
      Derives (.statement false) (keyword .kwPrint :: ts ++ [symbol .semicolon]) (.print span e)
  | ret {span ts value} :
      Derives .optional ts value →
      Derives (.statement false) (keyword .kwReturn :: ts ++ [symbol .semicolon])
        (.ret span value)
  | block {span ts body} :
      Derives .declarations ts body →
      Derives (.statement false) (symbol .leftBrace :: ts ++ [symbol .rightBrace])
        (.block span body)
  | branch {span condition c isOpen yes s} :
      Derives .expression condition c → Derives (.statement isOpen) yes s →
      Derives (.statement true)
        (keyword .kwIf :: symbol .leftParen :: condition ++ symbol .rightParen :: yes)
        (.branch span c s none)
  | branchElse {span condition c yes s isOpen no t} :
      Derives .expression condition c → Derives (.statement false) yes s →
      Derives (.statement isOpen) no t →
      Derives (.statement isOpen)
        (keyword .kwIf :: symbol .leftParen :: condition ++ symbol .rightParen :: yes ++
          keyword .kwElse :: no)
        (.branch span c s (some t))
  | loop {span condition c isOpen body s} :
      Derives .expression condition c → Derives (.statement isOpen) body s →
      Derives (.statement isOpen)
        (keyword .kwWhile :: symbol .leftParen :: condition ++ symbol .rightParen :: body)
        (.loop span c s)
  | counting {span initializer init condition c increment i isOpen body s test round loop} :
      Derives .initializer initializer init → Derives .optional condition c →
      Derives .optional increment i → Derives (.statement isOpen) body s →
      Test c test → Round i s round → Counting init (.loop span test round) loop →
      Derives (.statement isOpen)
        (keyword .kwFor :: symbol .leftParen :: initializer ++ condition ++
          symbol .semicolon :: increment ++ symbol .rightParen :: body)
        loop
  | noInitializer : Derives .initializer [symbol .semicolon] none
  | bindingInitializer {ts s} :
      Derives .binding ts s → Derives .initializer (keyword .kwVar :: ts) (some s)
  | exprInitializer {span ts e} :
      Derives .expression ts e →
      Derives .initializer (ts ++ [symbol .semicolon]) (some (.expr span e))
  -- Declarations.
  | bindEmpty {span name} :
      Derives .binding [identifier name, symbol .semicolon] (.varDecl span name none)
  | bind {span name ts e} :
      Derives .expression ts e →
      Derives .binding (identifier name :: symbol .equal :: ts ++ [symbol .semicolon])
        (.varDecl span name (some e))
  | function {span name params ts body} :
      params.length ≤ 255 → Derives .declarations ts body →
      Derives .function
        (identifier name :: symbol .leftParen :: names params ++
          symbol .rightParen :: symbol .leftBrace :: ts ++ [symbol .rightBrace])
        ⟨span, name, params, body⟩
  | noMethods : Derives .methods [] []
  | moreMethods {first f others fs} :
      Derives .function first f → Derives .methods others fs →
      Derives .methods (first ++ others) (f :: fs)
  | varDecl {ts s} : Derives .binding ts s → Derives .declaration (keyword .kwVar :: ts) s
  | funDecl {ts f} :
      Derives .function ts f → Derives .declaration (keyword .kwFun :: ts) (.funDecl f)
  | baseClass {span name ts methods} :
      Derives .methods ts methods →
      Derives .declaration
        (keyword .kwClass :: identifier name :: symbol .leftBrace :: ts ++ [symbol .rightBrace])
        (.classDecl span name none methods)
  | derivedClass {span name superclass superspan ts methods} :
      Derives .methods ts methods →
      Derives .declaration
        (keyword .kwClass :: identifier name :: symbol .less :: identifier superclass ::
          symbol .leftBrace :: ts ++ [symbol .rightBrace])
        (.classDecl span name (some ⟨⟨superclass, none⟩, superspan⟩) methods)
  | statement {isOpen ts s} : Derives (.statement isOpen) ts s → Derives .declaration ts s
  | noDeclarations : Derives .declarations [] []
  | moreDeclarations {first s others ss} :
      Derives .declaration first s → Derives .declarations others ss →
      Derives .declarations (first ++ others) (s :: ss)

namespace Derives

variable {k j : Nat} {ts : List Token} {e : Expr}

theorem looser (h : Derives (.operation j) ts e) (hle : k ≤ j) : Derives (.operation k) ts e := by
  obtain ⟨n, rfl⟩ := Nat.exists_eq_add_of_le hle
  induction n with
  | zero => exact h
  | succ n ih => exact ih (.tighter h) (Nat.le_add_right k n)

theorem alone (h : Derives .unary ts e) (hle : k ≤ 6) : Derives (.operation k) ts e :=
  (operand h).looser hle

theorem of_name {span : Span} {name : String} (hle : k ≤ 6) :
    Derives (.operation k) [identifier name] (.var span ⟨name, none⟩) :=
  .alone (.chain (.primary .name)) hle

theorem of_constant {span : Span} {token : Token} {value : Literal} (h : Constant token value)
    (hle : k ≤ 6) : Derives (.operation k) [token] (.literal span value) :=
  .alone (.chain (.primary (.constant h))) hle

theorem expression_of_name {span : Span} {name : String} :
    Derives .expression [identifier name] (.var span ⟨name, none⟩) :=
  .operation (.of_name (Nat.zero_le 6))

theorem expression_of_constant {span : Span} {token : Token} {value : Literal}
    (h : Constant token value) : Derives .expression [token] (.literal span value) :=
  .operation (.of_constant h (Nat.zero_le 6))

end Derives

end LoxLang.Grammar
