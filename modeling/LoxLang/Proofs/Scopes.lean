import LoxLang.Machine.Scopes

namespace LoxLang

namespace Bindings

variable {α : Type}

theorem insertMany_cons (b : Bindings α) (name : String) (value : α) (rest : List (String × α)) :
    b.insertMany ((name, value) :: rest) = (b.insert name value).insertMany rest := rfl

theorem get?_insertMany_of_notMem {b : Bindings α} {pairs : List (String × α)} {name : String}
    (h : name ∉ pairs.map (·.1)) : (b.insertMany pairs).get? name = b.get? name := by
  induction pairs generalizing b with
  | nil => rfl
  | cons pair rest ih =>
    simp only [List.map_cons, List.mem_cons, not_or] at h
    rw [insertMany_cons, ih h.2, get?_insert, if_neg h.1]

theorem get?_insertMany_of_mem {b : Bindings α} {pairs : List (String × α)} {name : String}
    {value : α} (hnodup : (pairs.map (·.1)).Nodup) (h : (name, value) ∈ pairs) :
    (b.insertMany pairs).get? name = some value := by
  induction pairs generalizing b with
  | nil => exact absurd h List.not_mem_nil
  | cons pair rest ih =>
    obtain ⟨hfirst, hrest⟩ := List.nodup_cons.mp hnodup
    rw [insertMany_cons]
    rcases List.mem_cons.mp h with rfl | h
    · rw [get?_insertMany_of_notMem hfirst, get?_insert, if_pos rfl]
    · exact ih hrest h

end Bindings

namespace Scopes

variable (s : Scopes) (scope : Scope) (id other : ScopeId) (name key : String)
  (value : Value ScopeId)

@[simp] theorem next_push : (s.push scope).next = s.next + 1 :=
  Array.size_push scope

@[simp] theorem next_define : (s.define id name value).next = s.next :=
  Array.size_modify

theorem own?_push :
    (s.push scope).own? id name = if id = s.next then scope.bindings.get? name else s.own? id name := by
  rw [own?, own?, push, Array.getElem?_push]
  by_cases h : id = s.next
  · have h' : id = s.all.size := h
    rw [if_pos h, if_pos h']
    rfl
  · have h' : ¬id = s.all.size := h
    rw [if_neg h, if_neg h']

theorem parent?_push :
    (s.push scope).parent? id = if id = s.next then scope.parent else s.parent? id := by
  rw [parent?, parent?, push, Array.getElem?_push]
  by_cases h : id = s.next
  · have h' : id = s.all.size := h
    rw [if_pos h, if_pos h']
    rfl
  · have h' : ¬id = s.all.size := h
    rw [if_neg h, if_neg h']

@[simp] theorem parent?_define : (s.define id name value).parent? other = s.parent? other := by
  rw [parent?, parent?, define, Array.getElem?_modify]
  by_cases h : id = other
  · rw [if_pos h]
    cases s.all[other]? <;> rfl
  · rw [if_neg h]

theorem own?_define_other (h : ¬(other = id ∧ key = name)) :
    (s.define id name value).own? other key = s.own? other key := by
  rw [own?, own?, define, Array.getElem?_modify]
  by_cases hid : id = other
  · rw [if_pos hid]
    cases s.all[other]? with
    | none => rfl
    | some scope =>
      have hkey : ¬key = name := fun hk => h ⟨hid.symm, hk⟩
      simp only [Option.map_some, Option.bind_some, Bindings.get?_insert, if_neg hkey]
  · rw [if_neg hid]

theorem own?_define_self (h : id < s.next) : (s.define id name value).own? id name = some value := by
  rw [own?, define, Array.getElem?_modify, if_pos rfl]
  have hget : s.all[id]? = some s.all[id] := Array.getElem?_eq_getElem h
  rw [hget]
  simp only [Option.map_some, Option.bind_some, Bindings.get?_insert, if_pos]

variable {s id name}

theorem lt_of_own? (h : s.own? id name ≠ none) : id < s.next := by
  apply Nat.lt_of_not_le
  intro hle
  apply h
  have hnone : s.all[id]? = none := Array.getElem?_eq_none hle
  rw [own?, hnone]
  rfl

theorem lt_of_parent? {parent : ScopeId} (h : s.parent? id = some parent) : id < s.next := by
  apply Nat.lt_of_not_le
  intro hle
  have hnone : s.all[id]? = none := Array.getElem?_eq_none hle
  rw [parent?, hnone] at h
  exact absurd h (by simp)

theorem ancestor?_zero (h : id < s.next) : s.ancestor? 0 id = some id :=
  if_pos h

theorem ancestor?_succ {n : Nat} {parent : ScopeId} (h : s.parent? id = some parent) :
    s.ancestor? (n + 1) id = s.ancestor? n parent := by
  rw [ancestor?, h]
  rfl

theorem lt_of_ancestor? {n : Nat} {owner : ScopeId} (h : s.ancestor? n id = some owner) :
    owner < s.next := by
  induction n generalizing id with
  | zero =>
    rw [ancestor?] at h
    split at h
    · rename_i hlt
      obtain rfl := Option.some.inj h
      exact hlt
    · exact absurd h (by simp)
  | succ n ih =>
    obtain ⟨parent, -, hrest⟩ := Option.bind_eq_some_iff.mp h
    exact ih hrest

theorem ancestor?_parent {n : Nat} {owner parent : ScopeId} (h : s.ancestor? n id = some owner)
    (hparent : s.parent? owner = some parent) (hlt : parent < s.next) :
    s.ancestor? (n + 1) id = some parent := by
  induction n generalizing id with
  | zero =>
    rw [ancestor?] at h
    split at h
    · obtain rfl := Option.some.inj h
      rw [ancestor?_succ hparent]
      exact ancestor?_zero hlt
    · exact absurd h (by simp)
  | succ n ih =>
    obtain ⟨next, hnext, hrest⟩ := Option.bind_eq_some_iff.mp h
    rw [ancestor?_succ hnext]
    exact ih hrest

theorem owner?_of_own? (h : s.own? id name ≠ none) : s.owner? id name = some id := by
  have hlt : id < s.all.size := lt_of_own? h
  obtain ⟨n, hn⟩ : ∃ n, s.all.size = n + 1 := ⟨s.all.size - 1, by unfold ScopeId at hlt; omega⟩
  rw [owner?, hn, ownerWithin?]
  cases hown : s.own? id name with
  | none => exact absurd hown h
  | some value => rfl

theorem owner?_eq_none (h : s.own? id name = none) (hparent : s.parent? id = none) :
    s.owner? id name = none := by
  rw [owner?]
  cases s.all.size with
  | zero => rfl
  | succ n =>
    rw [ownerWithin?, h, hparent]
    rfl

theorem get?_of_root (hparent : s.parent? id = none) : s.get? id name = s.own? id name := by
  rw [get?]
  cases hown : s.own? id name with
  | none =>
    rw [owner?_eq_none hown hparent]
    rfl
  | some value =>
    rw [owner?_of_own? (by rw [hown]; exact Option.some_ne_none value), Option.bind_some, hown]

end Scopes

end LoxLang
