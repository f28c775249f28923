import LoxLang.Proofs.Scoping.Resolves
/-!
# Static violations

What is wrong with a program before it runs, said of its tree alone. Every node
stands on a path: what encloses it, from the inside out, with the names that were
declared there before it. Whether the node breaks a rule depends on the node and
its path, and the violations of a program are those of its nodes.
-/
namespace LoxLang

/-- What encloses a piece of code, with the names declared directly in it before that piece. The
parameters of a function or method are among the names of its body. -/
inductive Layer
  | block (declared : List String)
  | function (declared : List String)
  | method (name : String) (declared : List String)
  | classBody (superclass : Option (Located Ref))
  | initializer (name : String)

namespace Layer

def isFunction : Layer → Bool
  | function _ | method .. => true
  | _ => false

def isClass : Layer → Bool
  | classBody _ => true
  | _ => false

end Layer

/-- All that encloses a piece of code, innermost first. -/
abbrev Path := List Layer

namespace Path

def function? (path : Path) : Option Layer :=
  path.find? Layer.isFunction

def class? (path : Path) : Option Layer :=
  path.find? Layer.isClass

/-- The names declared so far in the innermost scope, unless that is the global one. -/
def scope? : Path → Option (List String)
  | [] => none
  | .block declared :: _ | .function declared :: _ | .method _ declared :: _ => some declared
  | .classBody _ :: _ => some []
  | .initializer _ :: outer => scope? outer

/-- The name whose initializer the code belongs to, if the name is a local one. -/
def initializing? : Path → Option String
  | .initializer name :: outer => (scope? outer).map fun _ => name
  | _ => none

def redeclaration (path : Path) (name : String) (span : Span) : List (Located Error) :=
  if name ∈ path.scope?.getD [] then [⟨.alreadyDefined name, span⟩] else []

end Path

/-- A part of a program that may break a rule. A parameter has the place of its function. -/
inductive Node
  | expr (e : Expr)
  | stmt (s : Stmt)
  | param (name : String) (span : Span)

structure Site where
  path : Path
  node : Node

/-- The rules that expressions can break: a variable is not read in its own initializer, `this`
stands in a class, and `super` in one that has a superclass. -/
def Expr.violations (path : Path) : Expr → List (Located Error)
  | .var span ref =>
    if path.initializing? = some ref.name then [⟨.accessInsideInitializer ref.name, span⟩] else []
  | .this span _ => if path.class?.isNone then [⟨.thisOutsideClass, span⟩] else []
  | .super span _ _ =>
    match path.class? with
    | none => [⟨.superOutsideClass, span⟩]
    | some (.classBody none) => [⟨.superWithoutSuperclass, span⟩]
    | some _ => []
  | _ => []

/-- A `return` stands in a function, and has no value in a method that prepares an instance. -/
def returnViolations (path : Path) (span : Span) (value : Option Expr) : List (Located Error) :=
  match path.function? with
  | none => [⟨.returnOutsideFunction, span⟩]
  | some (.method name _) =>
    if name = initializerName ∧ value.isSome then [⟨.returnInInitializer, span⟩] else []
  | some _ => []

/-- A class does not inherit from itself. -/
def inheritanceViolations (name : String) : Option (Located Ref) → List (Located Error)
  | some superclass =>
    if superclass.value.name = name then [⟨.inheritFromSelf name, superclass.span⟩] else []
  | none => []

def Stmt.violations (path : Path) : Stmt → List (Located Error)
  | .ret span value => returnViolations path span value
  | .varDecl span name _ => path.redeclaration name span
  | .funDecl decl => path.redeclaration decl.name decl.span
  | .classDecl span name superclass _ =>
    path.redeclaration name span ++ inheritanceViolations name superclass
  | _ => []

def Site.violations (site : Site) : List (Located Error) :=
  match site.node with
  | .expr e => e.violations site.path
  | .stmt s => s.violations site.path
  | .param name span => site.path.redeclaration name span

/-! ## All sites of a program -/

mutual

def Expr.sites (path : Path) (e : Expr) : List Site :=
  ⟨path, .expr e⟩ :: match e with
    | .literal .. | .var .. | .this .. | .super .. => []
    | .grouping _ inner => inner.sites path
    | .unary _ _ operand => operand.sites path
    | .binary _ _ left right => left.sites path ++ right.sites path
    | .logical _ _ left right => left.sites path ++ right.sites path
    | .assign _ _ value => value.sites path
    | .call _ callee args => callee.sites path ++ argumentSites path args
    | .get _ object _ => object.sites path
    | .set _ object _ value => value.sites path ++ object.sites path

def argumentSites (path : Path) : List Expr → List Site
  | [] => []
  | first :: others => first.sites path ++ argumentSites path others

end

def optionSites (path : Path) : Option Expr → List Site
  | some e => e.sites path
  | none => []

def paramSites (path : List String → Path) (span : Span) (declared : List String) :
    List String → List Site
  | [] => []
  | name :: others =>
    ⟨path declared, .param name span⟩ :: paramSites path span (declared ++ [name]) others

mutual

def FunDecl.sites (path : List String → Path) : FunDecl → List Site
  | ⟨span, _, params, body⟩ => paramSites path span [] params ++ bodySites path params body

def Stmt.sites (path : Path) (s : Stmt) : List Site :=
  ⟨path, .stmt s⟩ :: match s with
    | .expr _ value => value.sites path
    | .print _ value => value.sites path
    | .ret _ value => optionSites path value
    | .varDecl _ name value => optionSites (.initializer name :: path) value
    | .funDecl decl => decl.sites (.function · :: path)
    | .classDecl _ _ superclass methods => methodSites (.classBody superclass :: path) methods
    | .block _ body => bodySites (.block · :: path) [] body
    | .branch _ condition yes no => condition.sites path ++ yes.sites path ++ elseSites path no
    | .loop _ condition body => condition.sites path ++ body.sites path

def elseSites (path : Path) : Option Stmt → List Site
  | some s => s.sites path
  | none => []

/-- Statements in a row, each on the path that the names declared before it give. -/
def bodySites (path : List String → Path) (declared : List String) : List Stmt → List Site
  | [] => []
  | first :: others =>
    first.sites (path declared) ++ bodySites path (declared ++ first.declared?.toList) others

def methodSites (path : Path) : List FunDecl → List Site
  | [] => []
  | first :: others => first.sites (.method first.name · :: path) ++ methodSites path others

end

def siteViolations (sites : List Site) : List (Located Error) :=
  sites.flatMap Site.violations

/-- All violations of a program, whose statements stand in the global scope. -/
def violations (program : List Stmt) : List (Located Error) :=
  siteViolations (bodySites (fun _ => []) [] program)

end LoxLang
