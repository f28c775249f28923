import LoxLang.Machine.Basic
import LoxLang.Proofs.Grammar.Reading
import LoxLang.Proofs.Scopes
import Mathlib.Data.Fintype.Card
/-!
# Search by name and access at a distance

A name can be looked for outwards from a scope, or it can be taken from a scope a
known number of links away. Both reach the same binding if the distance is the
least one at which the name is bound. Nothing is assumed about the links between
scopes: the search is cut off at the number of all scopes, and a chain that comes
back to an earlier scope has nothing new behind it.
-/
namespace LoxLang

namespace Scopes

variable {s : Scopes} {id owner : ScopeId} {name : String} {d : Nat}

/-! ## Ancestors -/

private theorem ancestor?_eq_none (h : s.next ≤ id) (n : Nat) : s.ancestor? n id = none := by
  have hlt : ¬id < s.all.size := Nat.not_lt.mpr h
  cases n with
  | zero => exact if_neg hlt
  | succ n =>
    have hparent : s.parent? id = none := by
      by_contra hsome
      obtain ⟨parent, hparent⟩ := Option.ne_none_iff_exists'.mp hsome
      exact hlt (lt_of_parent? hparent)
    simp [ancestor?, hparent]

private theorem ancestor?_add (i k : Nat) (id : ScopeId) :
    s.ancestor? (i + k) id = (s.ancestor? i id).bind (s.ancestor? k) := by
  induction i generalizing id with
  | zero =>
    rw [Nat.zero_add]
    by_cases h : id < s.next
    · rw [ancestor?_zero h, Option.bind_some]
    · rw [ancestor?_eq_none (Nat.not_lt.mp h), ancestor?_eq_none (Nat.not_lt.mp h),
        Option.bind_none]
  | succ i ih =>
    rw [Nat.succ_add, ancestor?, ancestor?, Option.bind_assoc]
    simp only [ih]

private theorem exists_ancestor? (h : s.ancestor? d id = some owner) {i : Nat} (hi : i ≤ d) :
    ∃ between, s.ancestor? i id = some between ∧ s.ancestor? (d - i) between = some owner := by
  rw [← Nat.add_sub_cancel' hi, ancestor?_add] at h
  exact Option.bind_eq_some_iff.mp h

@[simp] theorem ancestor?_define (scope : ScopeId) (key : String) (value : Value ScopeId) (n : Nat)
    (id : ScopeId) : (s.define scope key value).ancestor? n id = s.ancestor? n id := by
  induction n generalizing id with
  | zero =>
    have hnext : (s.define scope key value).all.size = s.all.size := next_define s scope key value
    simp [ancestor?, hnext]
  | succ n ih => simp [ancestor?, ih]

/-! ## Nearest bindings -/

private theorem getAt?_eq_own? (h : s.ancestor? d id = some owner) :
    s.getAt? id d name = s.own? owner name := by
  rw [getAt?, h, Option.bind_some]

private theorem getAt?_zero : s.getAt? id 0 name = s.own? id name := by
  by_cases h : id < s.next
  · exact getAt?_eq_own? (ancestor?_zero h)
  · have hown : s.own? id name = none := by
      by_contra hsome
      exact h (lt_of_own? hsome)
    rw [getAt?, ancestor?_eq_none (Nat.not_lt.mp h), hown, Option.bind_none]

private theorem getAt?_succ {parent : ScopeId} (h : s.parent? id = some parent) :
    s.getAt? id (d + 1) name = s.getAt? parent d name := by
  rw [getAt?, getAt?, ancestor?_succ h]

variable (s id name d) in
/-- The least number of links from a scope at which a name is bound. -/
structure Nearest : Prop where
  bound : s.getAt? id d name ≠ none
  least : ∀ k < d, s.getAt? id k name = none

namespace Nearest

private theorem exists_owner (h : s.Nearest id name d) :
    ∃ owner, s.ancestor? d id = some owner ∧ s.own? owner name ≠ none := by
  obtain ⟨value, hvalue⟩ := Option.ne_none_iff_exists'.mp h.bound
  obtain ⟨owner, howner, hown⟩ := Option.bind_eq_some_iff.mp hvalue
  exact ⟨owner, howner, by rw [hown]; exact Option.some_ne_none value⟩

/-- No scope comes twice on the way to the nearest binding: the way between two visits of a scope
could be left out. -/
theorem ancestor?_injective (h : s.Nearest id name d) {i j : Nat} (hij : i < j) (hj : j ≤ d) :
    s.ancestor? i id ≠ s.ancestor? j id := by
  intro heq
  obtain ⟨owner, howner, hown⟩ := h.exists_owner
  obtain ⟨between, hbetween, hrest⟩ := exists_ancestor? howner hj
  have hshort : s.ancestor? (i + (d - j)) id = some owner := by
    rw [ancestor?_add, heq, hbetween, Option.bind_some, hrest]
  have hnone := h.least (i + (d - j)) (by omega)
  rw [getAt?_eq_own? hshort] at hnone
  exact hown hnone

/-- The nearest binding is within reach of the search. -/
theorem lt_size (h : s.Nearest id name d) : d < s.all.size := by
  obtain ⟨owner, howner, -⟩ := h.exists_owner
  have hbetween (i : Fin (d + 1)) : ∃ between : Fin s.all.size,
      s.ancestor? i id = some between.val := by
    obtain ⟨between, hsome, -⟩ := exists_ancestor? howner (Nat.le_of_lt_succ i.isLt)
    exact ⟨⟨between, lt_of_ancestor? hsome⟩, hsome⟩
  choose between hsome using hbetween
  have hinjective : Function.Injective between := by
    intro i j heq
    have hsame : s.ancestor? i id = s.ancestor? j id := by rw [hsome, hsome, heq]
    have hi := Nat.le_of_lt_succ i.isLt
    have hj := Nat.le_of_lt_succ j.isLt
    rcases Nat.lt_trichotomy i.val j.val with hlt | hval | hlt
    · exact absurd hsame (h.ancestor?_injective hlt hj)
    · exact Fin.ext hval
    · exact absurd hsame.symm (h.ancestor?_injective hlt hi)
  have hcard := Fintype.card_le_of_injective between hinjective
  rw [Fintype.card_fin, Fintype.card_fin] at hcard
  exact hcard

theorem parent (h : s.Nearest id name (d + 1)) :
    s.own? id name = none ∧ ∃ parent, s.parent? id = some parent ∧ s.Nearest parent name d := by
  have hown : s.own? id name = none := by
    rw [← getAt?_zero]
    exact h.least 0 (Nat.succ_pos d)
  obtain ⟨owner, howner, -⟩ := h.exists_owner
  obtain ⟨parent, hparent, -⟩ := Option.bind_eq_some_iff.mp howner
  refine ⟨hown, parent, hparent, ?_, fun k hk => ?_⟩
  · rw [← getAt?_succ hparent]
    exact h.bound
  · rw [← getAt?_succ hparent]
    exact h.least (k + 1) (Nat.succ_lt_succ hk)

theorem ownerWithin? (h : s.Nearest id name d) (howner : s.ancestor? d id = some owner) {n : Nat}
    (hn : d < n) : s.ownerWithin? name n id = some owner := by
  induction d generalizing id n with
  | zero =>
    obtain ⟨n, rfl⟩ := Nat.exists_eq_add_one.mpr hn
    obtain ⟨value, hvalue⟩ := Option.ne_none_iff_exists'.mp h.bound
    rw [getAt?_zero] at hvalue
    have hlt : id < s.next := lt_of_own? (by rw [hvalue]; exact Option.some_ne_none value)
    rw [ancestor?_zero hlt] at howner
    simp [Scopes.ownerWithin?, hvalue, howner]
  | succ d ih =>
    obtain ⟨n, rfl⟩ := Nat.exists_eq_add_one.mpr (Nat.zero_lt_of_lt hn)
    obtain ⟨hown, parent, hparent, hrest⟩ := h.parent
    rw [ancestor?_succ hparent] at howner
    simp [Scopes.ownerWithin?, hown, hparent, ih hrest howner (Nat.succ_lt_succ_iff.mp hn)]

theorem owner? (h : s.Nearest id name d) (howner : s.ancestor? d id = some owner) :
    s.owner? id name = some owner :=
  h.ownerWithin? howner h.lt_size

theorem get? (h : s.Nearest id name d) : s.get? id name = s.getAt? id d name := by
  obtain ⟨owner, howner, -⟩ := h.exists_owner
  rw [Scopes.get?, h.owner? howner, Option.bind_some, getAt?_eq_own? howner]

theorem define (h : s.Nearest id name d) (howner : s.ancestor? d id = some owner)
    (value : Value ScopeId) : (s.define owner name value).Nearest id name d := by
  constructor
  · rw [getAt?_eq_own? (by simpa using howner),
      own?_define_self s owner name value (lt_of_ancestor? howner)]
    exact Option.some_ne_none value
  · intro k hk
    obtain ⟨between, hbetween, -⟩ := exists_ancestor? howner (Nat.le_of_lt hk)
    have hother : between ≠ owner := by
      rintro rfl
      exact h.ancestor?_injective hk (Nat.le_refl d) (hbetween.trans howner.symm)
    have hnone := h.least k hk
    rw [getAt?_eq_own? hbetween] at hnone
    rw [getAt?_eq_own? (by simpa using hbetween),
      own?_define_other s owner between name name value fun hboth => hother hboth.1, hnone]

end Nearest

private theorem ownerWithin?_eq_none (h : ∀ d, s.getAt? id d name = none) (n : Nat) :
    s.ownerWithin? name n id = none := by
  induction n generalizing id with
  | zero => rfl
  | succ n ih =>
    have hown : s.own? id name = none := by rw [← getAt?_zero, h 0]
    cases hparent : s.parent? id with
    | none => simp [ownerWithin?, hown, hparent]
    | some parent =>
      have hrest : ∀ d, s.getAt? parent d name = none := fun d => by
        rw [← getAt?_succ hparent, h (d + 1)]
      simp [ownerWithin?, hown, hparent, ih hrest]

private theorem owner?_eq_none_of_unbound (h : ∀ d, s.getAt? id d name = none) :
    s.owner? id name = none :=
  ownerWithin?_eq_none h s.all.size

end Scopes

namespace Machine

variable {m : Machine} {scope owner : ScopeId} {name : String} {d : Nat}

def getByName (scope : ScopeId) (name : String) (span : Span) : Run (Value ScopeId) := do
  match (← get).scopes.get? scope name with
  | some value => return value
  | none => raise (.notDefined name) span

/-- A variable without a distance is looked for by its name among the globals. -/
theorem lookup_eq_getByName (scope : ScopeId) (name : String) (span : Span) :
    lookup scope ⟨name, none⟩ span = getByName globals name span := rfl

theorem getByName_of_some {value : Value ScopeId} (h : m.scopes.get? scope name = some value)
    (span : Span) : getByName scope name span m = .ok value m := by
  rw [getByName, get_bind, h]
  rfl

theorem getByName_of_none (h : m.scopes.get? scope name = none) (span : Span) :
    getByName scope name span m = .error (.raised ⟨.notDefined name, span⟩) m := by
  rw [getByName, get_bind, h]
  rfl

theorem getAt_of_some {value : Value ScopeId} (h : m.scopes.getAt? scope d name = some value) :
    getAt scope d name m = .ok value m := by
  rw [getAt, get_bind, h]
  rfl

theorem getAt_of_none (h : m.scopes.getAt? scope d name = none) :
    getAt scope d name m = .error (.broken (.unbound name)) m := by
  rw [getAt, get_bind, h]
  rfl

theorem assignByName_of_some (h : m.scopes.owner? scope name = some owner)
    (value : Value ScopeId) (span : Span) :
    assignByName scope name value span m = define owner name value m := by
  rw [assignByName, get_bind, h]

private theorem assignByName_of_none (h : m.scopes.owner? scope name = none) (value : Value ScopeId)
    (span : Span) :
    assignByName scope name value span m = .error (.raised ⟨.notDefined name, span⟩) m := by
  rw [assignByName, get_bind, h]
  rfl

private theorem assignAt_of_some (h : m.scopes.ancestor? d scope = some owner)
    (value : Value ScopeId) :
    assignAt scope d name value m = define owner name value m := by
  rw [assignAt, get_bind, h]

/-- From every scope of every machine, with `d` the least number of links at which a name is bound:
reading it by name and at distance `d` is the same and succeeds; assigning by name and at distance
`d` succeeds and leaves the same machine, in which the name reads as the new value from here, and
in which no other binding and nothing else has changed. If the name is bound at no distance, then
reading and assigning by name both fail with the same error and change nothing. -/
theorem search_agrees_with_distance (m : Machine) (scope : ScopeId) (name : String) (span : Span) :
    (∀ d, m.scopes.Nearest scope name d →
      (∃ value, getByName scope name span m = .ok value m ∧ getAt scope d name m = .ok value m) ∧
      ∃ owner, m.scopes.ancestor? d scope = some owner ∧ ∀ value, ∃ scopes : Scopes,
        assignByName scope name value span m = .ok () { m with scopes } ∧
        assignAt scope d name value m = .ok () { m with scopes } ∧
        getByName scope name span { m with scopes } = .ok value { m with scopes } ∧
        (∀ id key, ¬(id = owner ∧ key = name) → scopes.own? id key = m.scopes.own? id key) ∧
        (∀ id, scopes.parent? id = m.scopes.parent? id) ∧ scopes.next = m.scopes.next) ∧
    ((∀ d, m.scopes.getAt? scope d name = none) →
      getByName scope name span m = .error (.raised ⟨.notDefined name, span⟩) m ∧
      ∀ value,
        assignByName scope name value span m = .error (.raised ⟨.notDefined name, span⟩) m) := by
  constructor
  · intro d hd
    obtain ⟨value, hvalue⟩ := Option.ne_none_iff_exists'.mp hd.bound
    obtain ⟨owner, howner, -⟩ := hd.exists_owner
    refine ⟨⟨value, ?_, getAt_of_some hvalue⟩, owner, howner, fun new => ?_⟩
    · exact getByName_of_some (by rw [hd.get?, hvalue]) span
    have hread : (m.scopes.define owner name new).get? scope name = some new := by
      rw [(hd.define howner new).get?, Scopes.getAt?_eq_own? (by simpa using howner)]
      exact Scopes.own?_define_self _ _ _ _ (Scopes.lt_of_ancestor? howner)
    refine ⟨m.scopes.define owner name new, ?_, ?_, ?_, ?_, ?_, ?_⟩
    · rw [assignByName_of_some (hd.owner? howner)]
      rfl
    · rw [assignAt_of_some howner]
      rfl
    · exact getByName_of_some hread span
    · exact fun id key hother => Scopes.own?_define_other _ _ _ _ _ _ hother
    · exact fun id => Scopes.parent?_define _ _ _ _ _
    · exact Scopes.next_define _ _ _ _
  · intro hnone
    have howner := Scopes.owner?_eq_none_of_unbound hnone
    have hget : m.scopes.get? scope name = none := by
      rw [Scopes.get?, howner, Option.bind_none]
    exact ⟨getByName_of_none hget span, fun value => assignByName_of_none howner value span⟩

def shadowingChain : Machine :=
  { initial none with
    scopes := ⟨#[⟨Bindings.empty.insert "a" (.bool false), none⟩,
      ⟨Bindings.empty.insert "a" (.bool true), some 0⟩, ⟨.empty, some 1⟩]⟩ }

/-- From the innermost scope the name is found one link out, and assigned there. -/
theorem search_agrees_with_distance_shadowed :
    shadowingChain.scopes.Nearest 2 "a" 1 ∧
    (∀ d, shadowingChain.scopes.getAt? 2 d "b" = none) ∧
    (∃ value, getByName 2 "a" ⟨0, 1⟩ shadowingChain = .ok value shadowingChain ∧
      getAt 2 1 "a" shadowingChain = .ok value shadowingChain) ∧
    (∃ scopes : Scopes,
      assignByName 2 "a" .nil ⟨0, 1⟩ shadowingChain = .ok () { shadowingChain with scopes } ∧
      assignAt 2 1 "a" .nil shadowingChain = .ok () { shadowingChain with scopes } ∧
      scopes.own? 0 "a" = shadowingChain.scopes.own? 0 "a") ∧
    getByName 2 "b" ⟨0, 1⟩ shadowingChain =
      .error (.raised ⟨.notDefined "b", ⟨0, 1⟩⟩) shadowingChain := by
  have hnear : shadowingChain.scopes.Nearest 2 "a" 1 := by
    have hbound : shadowingChain.scopes.getAt? 2 1 "a" = some (.bool true) := rfl
    refine ⟨by rw [hbound]; exact Option.some_ne_none _, fun k hk => ?_⟩
    obtain rfl := Nat.lt_one_iff.mp hk
    rfl
  have hunbound : ∀ d, shadowingChain.scopes.getAt? 2 d "b" = none
    | 0 | 1 | 2 | _ + 3 => rfl
  obtain ⟨hread, owner, howner, hassign⟩ :=
    (search_agrees_with_distance shadowingChain 2 "a" ⟨0, 1⟩).1 1 hnear
  obtain ⟨scopes, hname, hdistance, -, hothers, -, -⟩ := hassign .nil
  have hunread := ((search_agrees_with_distance shadowingChain 2 "b" ⟨0, 1⟩).2 hunbound).1
  have hone : owner = 1 := (Option.some.inj howner).symm
  have houter := hothers 0 "a" fun hsame => absurd (hsame.1.trans hone) Nat.zero_ne_one
  exact ⟨hnear, hunbound, hread, ⟨scopes, hname, hdistance, houter⟩, hunread⟩

end Machine

end LoxLang
