namespace LoxLang

/-- Names with what they are bound to. -/
structure Bindings (α : Type) where
  entries : List (String × α) := []
deriving Inhabited

namespace Bindings

variable {α : Type}

def empty : Bindings α := {}

def find? (name : String) : List (String × α) → Option α
  | [] => none
  | (key, value) :: rest => if key = name then some value else find? name rest

def get? (b : Bindings α) (name : String) : Option α :=
  find? name b.entries

def binds (b : Bindings α) (name : String) : Bool :=
  (b.get? name).isSome

/-- Binds a name in a list of entries, in the place of its old binding if it has one. -/
def put (name : String) (value : α) : List (String × α) → List (String × α)
  | [] => [(name, value)]
  | (key, old) :: rest =>
    if key = name then (name, value) :: rest else (key, old) :: put name value rest

def insert (b : Bindings α) (name : String) (value : α) : Bindings α :=
  ⟨put name value b.entries⟩

def insertMany (b : Bindings α) (pairs : List (String × α)) : Bindings α :=
  pairs.foldl (fun b (name, value) => b.insert name value) b

def names (b : Bindings α) : List String :=
  b.entries.map (·.1)

def size (b : Bindings α) : Nat :=
  b.entries.length

@[simp] theorem get?_empty (name : String) : (empty : Bindings α).get? name = none := rfl

private theorem find?_put (name other : String) (value : α) (entries : List (String × α)) :
    find? other (put name value entries) =
      if other = name then some value else find? other entries := by
  induction entries with
  | nil => grind [find?, put]
  | cons entry rest ih => grind [find?, put]

theorem get?_insert (b : Bindings α) (name other : String) (value : α) :
    (b.insert name value).get? other = if other = name then some value else b.get? other :=
  find?_put name other value b.entries

end Bindings

end LoxLang
