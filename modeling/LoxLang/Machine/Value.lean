import LoxLang.Decimal.Shortest
import LoxLang.Machine.Bindings
import LoxLang.Tree.Basic
/-!
# Values

What a program computes with. Functions and classes never change, so they are
plain data with an identity that equality goes by. An instance is known by the
number of its cell of fields and by its class. Everything here is the same for
all ways `ε` of keeping the names that a closure can see.
-/
namespace LoxLang

/-- A function or method together with the environment that it was declared in. -/
structure Closure (ε : Type) where
  identity : Nat
  decl : FunDecl
  env : ε
  isInitializer : Bool

/-- A class: its methods are its own and those of its superclass. -/
structure Class (ε : Type) where
  identity : Nat
  name : String
  superclass : Option (Class ε)
  methods : Bindings (Closure ε)

variable {ε : Type}

/-- The nearest method of a name, in the class itself or further up. -/
def Class.method? (name : String) : Class ε → Option (Closure ε)
  | ⟨_, _, superclass, methods⟩ =>
    match methods.get? name with
    | some method => some method
    | none =>
      match superclass with
      | some above => above.method? name
      | none => none

inductive Native
  | clock
deriving DecidableEq

inductive Value (ε : Type)
  | nil
  | bool (value : Bool)
  | number (value : Float)
  | string (value : String)
  | function (closure : Closure ε)
  | native (f : Native)
  | cls (c : Class ε)
  | object (cell : Nat) (c : Class ε)

instance : Inhabited (Value ε) := ⟨.nil⟩

/-- How a statement ends: it goes on to the next one, or it leaves the function. -/
inductive Flow (ε : Type)
  | normal
  | returned (value : Value ε)

namespace Value

def ofLiteral : Literal → Value ε
  | .nil => nil
  | .bool b => bool b
  | .number x => number x
  | .string s => string s

def isTruthy : Value ε → Bool
  | nil | bool false => false
  | _ => true

/-- The name of a value's type; for an instance, of its class. -/
def typeName : Value ε → String
  | nil => "nil"
  | bool _ => "bool"
  | number _ => "number"
  | string _ => "string"
  | function _ | native _ => "function"
  | cls _ => "class"
  | object _ c => c.name

/-- Equality never converts; functions, classes and instances are equal only to themselves. -/
def equals : Value ε → Value ε → Bool
  | nil, nil => true
  | bool a, bool b => a == b
  | number a, number b => a == b
  | string a, string b => a == b
  | function a, function b => a.identity == b.identity
  | native a, native b => a == b
  | cls a, cls b => a.identity == b.identity
  | object a _, object b _ => a == b
  | _, _ => false

/-- Printed numbers have an exponent below `1e-4` and from `1e16` on. -/
def numberFormat : Decimal.Format := .within (-4) 16

def display : Value ε → String
  | nil => "nil"
  | bool true => "True"
  | bool false => "False"
  | number x => Decimal.ofFloat numberFormat x
  | string s => s
  | function f => s!"<fn {f.decl.name}>"
  | native _ => "<native fn>"
  | cls c => c.name
  | object _ c => s!"{c.name} instance"

end Value

end LoxLang
