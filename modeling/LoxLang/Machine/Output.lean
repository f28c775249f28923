namespace LoxLang

structure Output where
  written : ByteArray := .empty
  room : Option Nat := none

namespace Output

/-- Writes bytes in order. If there is too little room the first of them are kept, and the second
component is `false`. -/
def write (o : Output) (bytes : ByteArray) : Output × Bool :=
  match o.room with
  | none => (⟨o.written ++ bytes, none⟩, true)
  | some room =>
    if bytes.size ≤ room then (⟨o.written ++ bytes, some (room - bytes.size)⟩, true)
    else (⟨o.written ++ bytes.extract 0 room, some 0⟩, false)

end Output

end LoxLang
