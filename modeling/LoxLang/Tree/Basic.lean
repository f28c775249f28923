import LoxLang.Operator
import LoxLang.Span

namespace LoxLang

/-- A use of a name, with the number of scopes from the use out to its binding. -/
structure Ref where
  name : String
  distance : Option Nat := none
deriving DecidableEq, Inhabited

inductive Literal
  | nil
  | bool (value : Bool)
  | number (value : Float)
  | string (value : String)
deriving DecidableEq, Inhabited

inductive Expr
  | literal (span : Span) (value : Literal)
  | var (span : Span) (ref : Ref)
  | this (span : Span) (distance : Option Nat)
  | super (span : Span) (distance : Option Nat) (method : String)
  | grouping (span : Span) (inner : Expr)
  | unary (span : Span) (op : UnaryOp) (operand : Expr)
  | binary (span : Span) (op : BinaryOp) (left right : Expr)
  | logical (span : Span) (op : LogicalOp) (left right : Expr)
  | assign (span : Span) (target : Ref) (value : Expr)
  | call (span : Span) (callee : Expr) (args : List Expr)
  | get (span : Span) (object : Expr) (name : String)
  | set (span : Span) (object : Expr) (name : String) (value : Expr)
deriving Inhabited

mutual

structure FunDecl where
  span : Span
  name : String
  params : List String
  body : List Stmt

inductive Stmt
  | expr (span : Span) (value : Expr)
  | print (span : Span) (value : Expr)
  | ret (span : Span) (value : Option Expr)
  | varDecl (span : Span) (name : String) (value : Option Expr)
  | funDecl (decl : FunDecl)
  | classDecl (span : Span) (name : String) (superclass : Option (Located Ref))
      (methods : List FunDecl)
  | block (span : Span) (body : List Stmt)
  | branch (span : Span) (condition : Expr) (yes : Stmt) (no : Option Stmt)
  | loop (span : Span) (condition : Expr) (body : Stmt)

end

def Expr.span : Expr → Span
  | literal s .. | var s .. | this s .. | super s .. | grouping s .. | unary s .. | binary s ..
  | logical s .. | assign s .. | call s .. | get s .. | set s .. => s

def Stmt.span : Stmt → Span
  | expr s .. | print s .. | ret s .. | varDecl s .. | classDecl s .. | block s .. | branch s ..
  | loop s .. => s
  | funDecl decl => decl.span

/-- The method that makes a new instance ready for use. -/
def initializerName : String := "init"

def FunDecl.isInitializer (decl : FunDecl) : Bool :=
  decl.name = initializerName

end LoxLang
