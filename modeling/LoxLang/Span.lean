/-!
# Places in a source text

A span is a half-open range of byte offsets into the UTF-8 form of a source.
-/
namespace LoxLang

/-- The bytes from `start` up to, and not including, `stop`. -/
structure Span where
  start : Nat
  stop : Nat
deriving DecidableEq, Inhabited, Repr

/-- A value together with the place in the source that it is about. -/
structure Located (α : Type) where
  value : α
  span : Span
deriving DecidableEq, Inhabited, Repr

def byteSize : List Char → Nat
  | [] => 0
  | c :: cs => c.utf8Size + byteSize cs

@[simp] theorem byteSize_nil : byteSize [] = 0 := rfl

@[simp] theorem byteSize_cons (c : Char) (cs : List Char) :
    byteSize (c :: cs) = c.utf8Size + byteSize cs := rfl

@[simp] theorem byteSize_append (s t : List Char) :
    byteSize (s ++ t) = byteSize s + byteSize t := by
  induction s with
  | nil => simp
  | cons c s ih =>
    simp only [List.cons_append, byteSize_cons, ih]
    omega

end LoxLang
