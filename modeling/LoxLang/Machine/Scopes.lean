import LoxLang.Machine.Value
/-!
# Scopes

All scopes of a run in one list. A scope has its own bindings and a link to the
scope around it; closures share scopes by number. The scope of a name is found
either by searching outwards or by going a known number of links; reading and
binding then happen in that scope.
-/
namespace LoxLang

abbrev ScopeId := Nat

structure Scope where
  bindings : Bindings (Value ScopeId)
  parent : Option ScopeId
deriving Inhabited

/-- All scopes, each under its number. -/
structure Scopes where
  all : Array Scope
deriving Inhabited

namespace Scopes

def next (s : Scopes) : ScopeId :=
  s.all.size

/-- Adds a scope. Its number is `s.next`. -/
def push (s : Scopes) (scope : Scope) : Scopes :=
  ⟨s.all.push scope⟩

def define (s : Scopes) (id : ScopeId) (name : String) (value : Value ScopeId) : Scopes :=
  ⟨s.all.modify id fun scope => { scope with bindings := scope.bindings.insert name value }⟩

/-- The value that a scope itself binds a name to. -/
def own? (s : Scopes) (id : ScopeId) (name : String) : Option (Value ScopeId) :=
  s.all[id]?.bind (·.bindings.get? name)

def parent? (s : Scopes) (id : ScopeId) : Option ScopeId :=
  s.all[id]?.bind (·.parent)

/-- The scope a number of links further out. -/
def ancestor? (s : Scopes) : Nat → ScopeId → Option ScopeId
  | 0, id => if id < s.all.size then some id else none
  | n + 1, id => (s.parent? id).bind (s.ancestor? n)

def getAt? (s : Scopes) (id : ScopeId) (distance : Nat) (name : String) : Option (Value ScopeId) :=
  (s.ancestor? distance id).bind (s.own? · name)

/-- The nearest scope that binds a name, at most `n` scopes out. -/
def ownerWithin? (s : Scopes) (name : String) : Nat → ScopeId → Option ScopeId
  | 0, _ => none
  | n + 1, id =>
    match s.own? id name with
    | some _ => some id
    | none => (s.parent? id).bind (s.ownerWithin? name n)

/-- The nearest scope that binds a name. A chain is never longer than the list of scopes. -/
def owner? (s : Scopes) (id : ScopeId) (name : String) : Option ScopeId :=
  s.ownerWithin? name s.all.size id

def get? (s : Scopes) (id : ScopeId) (name : String) : Option (Value ScopeId) :=
  (s.owner? id name).bind (s.own? · name)

end Scopes

end LoxLang
