import LoxLang.Error
import LoxLang.Tree.Basic
/-!
# Resolution of names

Before a program runs, every use of a local name is given the number of scopes
from the use out to its binding; uses without one are global. Declarations that
clash and uses of `return`, `this` and `super` where they have no meaning are
reported. The pass goes on after an error, so it finds all of them.
-/
namespace LoxLang

inductive BodyKind
  | program | function | initializer | method
deriving DecidableEq, Inhabited

inductive ClassKind
  | outside | base | derived
deriving DecidableEq, Inhabited

/-- The names declared in one scope, latest first, each with whether its initializer is over. -/
abbrev Frame := List (String × Bool)

namespace Frame

def declares (frame : Frame) (name : String) : Bool :=
  frame.any (·.1 = name)

def isPending (frame : Frame) (name : String) : Bool :=
  frame.lookup name = some false

end Frame

/-- The local scopes around the code at hand, innermost first, and what was found so far. The
global scope is not among them; `globalEnded` tells whether it was ended by mistake. -/
structure Resolver where
  frames : List Frame := []
  errors : Array (Located Error) := #[]
  lookups : Array Ref := #[]
  globalEnded : Bool := false
deriving Inhabited

abbrev Resolve := StateM Resolver

namespace Resolve

def report (error : Error) (span : Span) : Resolve Unit :=
  modify fun r => { r with errors := r.errors.push ⟨error, span⟩ }

def put (name : String) (ready : Bool) : Resolve Unit :=
  modify fun r => match r.frames with
    | [] => r
    | frame :: outer => { r with frames := ((name, ready) :: frame) :: outer }

/-- Declares a name in the innermost scope, in which it must be new. -/
def declare (name : String) (span : Span) : Resolve Unit := do
  match (← get).frames with
  | [] => return
  | frame :: _ =>
    put name false
    if frame.declares name then report (.alreadyDefined name) span

def define (name : String) : Resolve Unit :=
  put name true

def declareDefined (name : String) (span : Span) : Resolve Unit := do
  declare name span
  define name

def distance (name : String) : Resolve (Option Nat) := do
  let found := (← get).frames.findIdx? (·.declares name)
  modify fun r => { r with lookups := r.lookups.push ⟨name, found⟩ }
  return found

/-- Resolves the use of a variable's value, which must not be its own initializer. -/
def read (span : Span) (name : String) : Resolve Ref := do
  if (← get).frames.head?.any (·.isPending name) then report (.accessInsideInitializer name) span
  return ⟨name, ← distance name⟩

def beginScope : Resolve Unit :=
  modify fun r => { r with frames := [] :: r.frames }

def endScope : Resolve Unit :=
  modify fun r => match r.frames with
    | [] => { r with globalEnded := true }
    | _ :: outer => { r with frames := outer }

def inScope {α : Type} (action : Resolve α) : Resolve α := do
  beginScope
  let result ← action
  endScope
  return result

end Resolve

open Resolve

mutual

def Expr.resolve (inside : ClassKind) : Expr → Resolve Expr
  | .literal span value => return .literal span value
  | .var span ref => return .var span (← read span ref.name)
  | .this span d => do
    if inside = .outside then
      report .thisOutsideClass span
      return .this span d
    return .this span (← distance "this")
  | .super span _ method => do
    match inside with
    | .outside => report .superOutsideClass span
    | .base => report .superWithoutSuperclass span
    | .derived => pure ()
    return .super span (← distance "super") method
  | .grouping span inner => return .grouping span (← inner.resolve inside)
  | .unary span op operand => return .unary span op (← operand.resolve inside)
  | .binary span op left right => do
    let left ← left.resolve inside
    return .binary span op left (← right.resolve inside)
  | .logical span op left right => do
    let left ← left.resolve inside
    return .logical span op left (← right.resolve inside)
  | .assign span target value => do
    let value ← value.resolve inside
    return .assign span ⟨target.name, ← distance target.name⟩ value
  | .call span callee args => do
    let callee ← callee.resolve inside
    return .call span callee (← resolveArguments inside args)
  | .get span object name => return .get span (← object.resolve inside) name
  | .set span object name value => do
    let value ← value.resolve inside
    return .set span (← object.resolve inside) name value

def resolveArguments (inside : ClassKind) : List Expr → Resolve (List Expr)
  | [] => return []
  | first :: others => do
    let first ← first.resolve inside
    return first :: (← resolveArguments inside others)

end

def resolveOption (inside : ClassKind) : Option Expr → Resolve (Option Expr)
  | some e => some <$> e.resolve inside
  | none => return none

mutual

def FunDecl.resolve (inside : ClassKind) (kind : BodyKind) : FunDecl → Resolve FunDecl
  | ⟨span, name, params, body⟩ => inScope do
    params.forM (declareDefined · span)
    return ⟨span, name, params, ← resolveBody inside kind body⟩

def Stmt.resolve (inside : ClassKind) (kind : BodyKind) : Stmt → Resolve Stmt
  | .expr span value => return .expr span (← value.resolve inside)
  | .print span value => return .print span (← value.resolve inside)
  | .ret span value => do
    if kind = .program then report .returnOutsideFunction span
    if kind = .initializer && value.isSome then report .returnInInitializer span
    return .ret span (← resolveOption inside value)
  | .varDecl span name value => do
    declare name span
    let value ← resolveOption inside value
    define name
    return .varDecl span name value
  | .funDecl decl => do
    declareDefined decl.name decl.span
    return .funDecl (← decl.resolve inside .function)
  | .classDecl span name none methods => do
    declareDefined name span
    let methods ← inScope do
      declareDefined "this" span
      resolveMethods .base methods
    return .classDecl span name none methods
  | .classDecl span name (some superclass) methods => do
    declareDefined name span
    if superclass.value.name = name then report (.inheritFromSelf name) superclass.span
    let ref ← read superclass.span superclass.value.name
    let methods ← inScope do
      declareDefined "super" span
      inScope do
        declareDefined "this" span
        resolveMethods .derived methods
    return .classDecl span name (some ⟨ref, superclass.span⟩) methods
  | .block span body => return .block span (← inScope (resolveBody inside kind body))
  | .branch span condition yes no => do
    let condition ← condition.resolve inside
    let yes ← yes.resolve inside kind
    return .branch span condition yes (← resolveElse inside kind no)
  | .loop span condition body => do
    let condition ← condition.resolve inside
    return .loop span condition (← body.resolve inside kind)

def resolveElse (inside : ClassKind) (kind : BodyKind) : Option Stmt → Resolve (Option Stmt)
  | some s => return some (← s.resolve inside kind)
  | none => return none

def resolveBody (inside : ClassKind) (kind : BodyKind) : List Stmt → Resolve (List Stmt)
  | [] => return []
  | first :: others => do
    let first ← first.resolve inside kind
    return first :: (← resolveBody inside kind others)

/-- A method is an initializer by its name. -/
def resolveMethods (inside : ClassKind) : List FunDecl → Resolve (List FunDecl)
  | [] => return []
  | first :: others => do
    let first ← first.resolve inside (if first.isInitializer then .initializer else .method)
    return first :: (← resolveMethods inside others)

end

/-- A program with its distances, the errors found, the uses of names in the order in which they
were looked up, and whether the global scope was ended. -/
structure Resolution where
  program : List Stmt
  errors : List (Located Error)
  lookups : List Ref
  globalEnded : Bool

def resolve (program : List Stmt) : Resolution :=
  let (program, r) := (resolveBody .outside .program program).run {}
  ⟨program, r.errors.toList, r.lookups.toList, r.globalEnded⟩

end LoxLang
