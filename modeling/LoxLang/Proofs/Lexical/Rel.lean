import Mathlib.Data.List.Nodup
import LoxLang.Proofs.Lexical.World
/-!
# Related states

A state of the machine and a state of the reference are related in a world if each
location has the value of its variable, and everything else is the same. Every
update of the machine has its counterpart, in the same world or in a later one.
-/
namespace LoxLang.Lexical

namespace World

def define (w : World) (id : ScopeId) (name : String) (value : Value ScopeId) : World :=
  { w with scopes := w.scopes.define id name value }

def reserve (w : World) (id : ScopeId) (name : String) : World :=
  { w with slots := w.slots ++ [(id, name)] }

def enter (w : World) (parent : ScopeId) (pairs : List (String × Value ScopeId)) : World where
  slots := w.slots ++ pairs.map fun p => (w.scopes.next, p.1)
  scopes := w.scopes.push ⟨Bindings.empty.insertMany pairs, some parent⟩

variable {w : World} {floor : Nat}

theorem extends_define {id : ScopeId} {name : String} {value : Value ScopeId}
    (hname : ¬Reserved name) (hid : id < w.scopes.next) :
    Extends floor w (w.define id name value) where
  slots := List.prefix_rfl
  fresh _ _ h := .inl h
  next := Nat.le_of_eq (Scopes.next_define ..).symm
  parent _ _ := Scopes.parent?_define ..
  bound other key h := by
    obtain ⟨old, hold, hkept⟩ := h
    by_cases heq : other = id ∧ key = name
    · obtain ⟨rfl, rfl⟩ := heq
      exact ⟨value, Scopes.own?_define_self _ _ _ _ hid, kept_of_not_reserved hname value⟩
    · exact ⟨old, (Scopes.own?_define_other _ _ _ _ _ _ heq).trans hold, hkept⟩

theorem extends_reserve {id : ScopeId} {name : String} (hfloor : floor ≤ id) :
    Extends floor w (w.reserve id name) where
  slots := List.prefix_append _ _
  fresh other key h := by
    rcases List.mem_append.mp h with h | h
    · exact .inl h
    · have heq := Prod.mk.inj (List.mem_singleton.mp h)
      exact .inr (heq.1 ▸ hfloor)
  next := Nat.le_refl _
  parent _ _ := rfl
  bound _ _ h := h

/-! ### A new scope -/

section
variable {parent id : ScopeId} {pairs : List (String × Value ScopeId)}

@[simp] theorem next_enter : (w.enter parent pairs).scopes.next = w.scopes.next + 1 :=
  Scopes.next_push ..

private theorem parent?_enter_old (hid : id < w.scopes.next) :
    (w.enter parent pairs).scopes.parent? id = w.scopes.parent? id := by
  rw [enter, Scopes.parent?_push, if_neg (Nat.ne_of_lt hid)]

private theorem own?_enter_old (hid : id < w.scopes.next) (name : String) :
    (w.enter parent pairs).scopes.own? id name = w.scopes.own? id name := by
  rw [enter, Scopes.own?_push, if_neg (Nat.ne_of_lt hid)]

theorem own?_enter_new (name : String) :
    (w.enter parent pairs).scopes.own? w.scopes.next name =
      (Bindings.empty.insertMany pairs).get? name := by
  rw [enter, Scopes.own?_push, if_pos rfl]

theorem mem_slots_enter {name : String} :
    (id, name) ∈ (w.enter parent pairs).slots ↔
      (id, name) ∈ w.slots ∨ (id = w.scopes.next ∧ name ∈ pairs.map (·.1)) := by
  simp only [enter, List.mem_append, List.mem_map, Prod.mk.injEq]
  constructor
  · intro h
    rcases h with h | ⟨pair, hpair, rfl, rfl⟩
    · exact .inl h
    · exact .inr ⟨rfl, pair, hpair, rfl⟩
  · intro h
    rcases h with h | ⟨rfl, pair, hpair, rfl⟩
    · exact .inl h
    · exact .inr ⟨pair, hpair, rfl, rfl⟩

private theorem nodup_slots_enter (hslots : w.slots.Nodup)
    (hold : ∀ id name, (id, name) ∈ w.slots → id < w.scopes.next)
    (hnames : (pairs.map (·.1)).Nodup) : (w.enter parent pairs).slots.Nodup := by
  refine List.nodup_append.mpr ⟨hslots, ?_, fun slot hs slot' hs' heq => ?_⟩
  · have hmap : pairs.map (fun p => (w.scopes.next, p.1)) =
        (pairs.map (·.1)).map (w.scopes.next, ·) := by simp
    rw [hmap]
    exact List.Nodup.map (fun a b hab => (Prod.mk.inj hab).2) hnames
  · obtain ⟨pair, -, rfl⟩ := List.mem_map.mp hs'
    subst heq
    exact Nat.lt_irrefl _ (hold _ _ hs)

theorem extends_enter (hfloor : floor ≤ w.scopes.next) :
    Extends floor w (w.enter parent pairs) where
  slots := List.prefix_append _ _
  fresh other key h := by
    rcases mem_slots_enter.mp h with h | ⟨rfl, -⟩
    · exact .inl h
    · exact .inr hfloor
  next := by
    rw [next_enter]
    exact Nat.le_succ _
  parent id hid := parent?_enter_old hid
  bound id name h := by
    obtain ⟨value, hown, hkept⟩ := h
    have hlt := Scopes.lt_of_own? (hown ▸ Option.some_ne_none value)
    exact ⟨value, (own?_enter_old hlt name).trans hown, hkept⟩

end

end World

open World

/-- The two states have the same globals, objects and counters, and the same value in every local
variable. -/
structure Rel (w : World) (m : Machine) (s : State) : Prop where
  scopes : m.scopes = w.scopes
  root : w.scopes.parent? Machine.globals = none
  rootLt : Machine.globals < w.scopes.next
  size : s.cells.size = w.slots.length
  nodup : w.slots.Nodup
  inner : ∀ id name, (id, name) ∈ w.slots → Machine.globals < id ∧ id < w.scopes.next
  slot : ∀ location id name, w.slots[location]? = some (id, name) →
    Option.Rel w.Same (w.scopes.own? id name) (s.cell? location)
  only : ∀ id name, Machine.globals < id → w.scopes.own? id name ≠ none → (id, name) ∈ w.slots
  globals : ∀ name, Option.Rel w.Same (w.scopes.own? Machine.globals name) (s.globals.get? name)
  objects : m.objects.size = s.objects.size
  fields : ∀ cell name, Option.Rel w.Same ((m.objects.getD cell .empty).get? name)
    ((s.objects.getD cell .empty).get? name)
  identity : m.identity = s.identity
  frames : m.frames = s.frames
  output : m.output = s.output
  readings : m.readings = s.readings

private theorem optionRel_same_mono {w w' : World} {floor : Nat} (hw : Extends floor w w')
    {v : Option (Value ScopeId)} {v' : Option (Value Env)} (h : Option.Rel w.Same v v') :
    Option.Rel w'.Same v v' :=
  optionRel_mono h fun _ _ hs => hs.mono hw

namespace Rel

variable {w : World} {m : Machine} {s : State}

theorem withEvents (h : Rel w m s) (events : Array Event) : Rel w { m with events } s :=
  { h with }

theorem assignSlot (h : Rel w m s) {location : Nat} {id : ScopeId} {name : String}
    {v : Value ScopeId} {v' : Value Env} (hslot : w.slots[location]? = some (id, name))
    (hname : ¬Reserved name) (hv : (w.define id name v).Same v v') :
    Rel (w.define id name v) { m with scopes := m.scopes.define id name v }
      { s with cells := s.cells.setIfInBounds location (some v') } := by
  obtain ⟨hpos, hlt⟩ := h.inner id name (List.mem_of_getElem? hslot)
  have hw : Extends 0 w (w.define id name v) := extends_define hname hlt
  have hloc : location < s.cells.size := by
    rw [h.size]
    exact (List.getElem?_eq_some_iff.mp hslot).1
  exact {
    scopes := congrArg (·.define id name v) h.scopes
    root := (Scopes.parent?_define ..).trans h.root
    rootLt := (Scopes.next_define ..).symm ▸ h.rootLt
    size := (Array.size_setIfInBounds ..).trans h.size
    nodup := h.nodup
    inner := fun id' name' hm => (Scopes.next_define ..).symm ▸ h.inner id' name' hm
    slot := fun location' id' name' hslot' => by
      by_cases heq : location' = location
      · subst heq
        obtain ⟨rfl, rfl⟩ := Prod.mk.inj (Option.some.inj (hslot.symm.trans hslot'))
        rw [World.define, Scopes.own?_define_self _ _ _ _ hlt, State.cell?,
          Array.getElem?_setIfInBounds_self_of_lt hloc]
        exact .some hv
      · have hne : ¬(id' = id ∧ name' = name) := by
          intro hid
          obtain ⟨rfl, rfl⟩ := hid
          have hlt' := (List.getElem?_eq_some_iff.mp hslot').1
          exact heq ((List.getElem?_inj hlt' h.nodup).mp (hslot'.trans hslot.symm))
        rw [World.define, Scopes.own?_define_other _ _ _ _ _ _ hne, State.cell?,
          Array.getElem?_setIfInBounds_ne (Ne.symm heq)]
        exact optionRel_same_mono hw (h.slot location' id' name' hslot')
    only := fun id' name' hid hown => by
      by_cases heq : id' = id ∧ name' = name
      · obtain ⟨rfl, rfl⟩ := heq
        exact List.mem_of_getElem? hslot
      · rw [World.define, Scopes.own?_define_other _ _ _ _ _ _ heq] at hown
        exact h.only id' name' hid hown
    globals := fun name' => by
      have hne : ¬(Machine.globals = id ∧ name' = name) := fun heq => Nat.ne_of_lt hpos heq.1
      rw [World.define, Scopes.own?_define_other _ _ _ _ _ _ hne]
      exact optionRel_same_mono hw (h.globals name')
    objects := h.objects
    fields := fun cell name' => optionRel_same_mono hw (h.fields cell name')
    identity := h.identity
    frames := h.frames
    output := h.output
    readings := h.readings }

theorem assignGlobal (h : Rel w m s) {name : String} {v : Value ScopeId} {v' : Value Env}
    (hname : ¬Reserved name) (hv : (w.define Machine.globals name v).Same v v') :
    Rel (w.define Machine.globals name v)
      { m with scopes := m.scopes.define Machine.globals name v }
      { s with globals := s.globals.insert name v' } := by
  have hw : Extends 0 w (w.define Machine.globals name v) := extends_define hname h.rootLt
  have hother : ∀ id key, Machine.globals < id →
      (w.define Machine.globals name v).scopes.own? id key = w.scopes.own? id key :=
    fun id key hid => Scopes.own?_define_other _ _ _ _ _ _ fun heq => Nat.ne_of_gt hid heq.1
  exact {
    scopes := congrArg (·.define Machine.globals name v) h.scopes
    root := (Scopes.parent?_define ..).trans h.root
    rootLt := (Scopes.next_define ..).symm ▸ h.rootLt
    size := h.size
    nodup := h.nodup
    inner := fun id' name' hm => (Scopes.next_define ..).symm ▸ h.inner id' name' hm
    slot := fun location id' name' hslot => by
      rw [hother id' name' (h.inner id' name' (List.mem_of_getElem? hslot)).1]
      exact optionRel_same_mono hw (h.slot location id' name' hslot)
    only := fun id' name' hid hown => by
      rw [hother id' name' hid] at hown
      exact h.only id' name' hid hown
    globals := fun name' => by
      rw [Bindings.get?_insert]
      by_cases heq : name' = name
      · subst heq
        rw [if_pos rfl, World.define, Scopes.own?_define_self _ _ _ _ h.rootLt]
        exact .some hv
      · rw [if_neg heq, World.define, Scopes.own?_define_other _ _ _ _ _ _ fun hg => heq hg.2]
        exact optionRel_same_mono hw (h.globals name')
    objects := h.objects
    fields := fun cell name' => optionRel_same_mono hw (h.fields cell name')
    identity := h.identity
    frames := h.frames
    output := h.output
    readings := h.readings }

theorem reserve (h : Rel w m s) {id : ScopeId} {name : String} (hpos : Machine.globals < id)
    (hlt : id < w.scopes.next) (hnew : (id, name) ∉ w.slots) :
    Rel (w.reserve id name) m { s with cells := s.cells.push none } := by
  have hw : Extends 0 w (w.reserve id name) := extends_reserve (Nat.zero_le id)
  have hcell : ∀ location, State.cell? { s with cells := s.cells.push none } location =
      s.cell? location := by
    intro location
    rw [State.cell?, State.cell?, Array.getElem?_push]
    by_cases heq : location = s.cells.size
    · rw [if_pos heq, heq, Array.getElem?_eq_none (Nat.le_refl _)]
      rfl
    · rw [if_neg heq]
  exact { h with
    size := by
      rw [World.reserve, Array.size_push, List.length_append, h.size]
      rfl
    nodup := by
      refine List.nodup_append.mpr ⟨h.nodup, by simp, fun slot hs slot' hs' => ?_⟩
      rw [List.mem_singleton.mp hs']
      exact fun heq => hnew (heq ▸ hs)
    inner := fun id' name' hm => by
      rcases List.mem_append.mp hm with hm | hm
      · exact h.inner id' name' hm
      · obtain ⟨rfl, -⟩ := Prod.mk.inj (List.mem_singleton.mp hm)
        exact ⟨hpos, hlt⟩
    slot := fun location id' name' hslot => by
      rw [hcell]
      by_cases hloc : location < w.slots.length
      · rw [World.reserve, List.getElem?_append_left hloc] at hslot
        exact optionRel_same_mono hw (h.slot location id' name' hslot)
      · have hmem := List.mem_of_getElem? hslot
        rw [World.reserve, List.getElem?_append_right (Nat.le_of_not_lt hloc)] at hslot
        obtain ⟨rfl, rfl⟩ := Prod.mk.inj (List.mem_singleton.mp (List.mem_of_getElem? hslot))
        have hown : w.scopes.own? id' name' = none := by
          by_cases hown : w.scopes.own? id' name' = none
          · exact hown
          · exact absurd (h.only id' name' hpos hown) hnew
        have hempty : s.cell? location = none := by
          rw [State.cell?, Array.getElem?_eq_none (h.size ▸ Nat.le_of_not_lt hloc)]
          rfl
        rw [World.reserve, hown, hempty]
        exact .none
    only := fun id' name' hid hown => List.mem_append_left _ (h.only id' name' hid hown)
    globals := fun name' => optionRel_same_mono hw (h.globals name')
    fields := fun cell name' => optionRel_same_mono hw (h.fields cell name') }

section
variable {parent : ScopeId} {pairs : List (String × Value ScopeId)}
  {pairs' : List (String × Value Env)}

/-- After a scope was entered, every location still has the value of its variable. -/
theorem slot_enter (h : Rel w m s)
    (hpairs : List.Forall₂ (fun p q => p.1 = q.1 ∧ w.Same p.2 q.2) pairs pairs')
    (hnodup : (pairs.map (·.1)).Nodup) {location : Nat} {id : ScopeId} {name : String}
    (hslot : (w.enter parent pairs).slots[location]? = some (id, name)) :
    Option.Rel (w.enter parent pairs).Same ((w.enter parent pairs).scopes.own? id name)
      (State.cell? { s with cells := s.cells ++ (pairs'.map fun p => some p.2).toArray }
        location) := by
  have hw : Extends 0 w (w.enter parent pairs) := extends_enter (Nat.zero_le _)
  by_cases hloc : location < w.slots.length
  · rw [World.enter, List.getElem?_append_left hloc] at hslot
    have hid := (h.inner id name (List.mem_of_getElem? hslot)).2
    have hcell : State.cell?
        { s with cells := s.cells ++ (pairs'.map fun p => some p.2).toArray } location =
        s.cell? location := by
      rw [State.cell?, Array.getElem?_append_left (h.size ▸ hloc)]
      rfl
    rw [own?_enter_old hid, hcell]
    exact optionRel_same_mono hw (h.slot location id name hslot)
  · rw [World.enter, List.getElem?_append_right (Nat.le_of_not_lt hloc), List.getElem?_map]
      at hslot
    obtain ⟨pair, hpair, heq⟩ := Option.map_eq_some_iff.mp hslot
    obtain ⟨rfl, rfl⟩ := Prod.mk.inj heq
    obtain ⟨hlt, rfl⟩ := List.getElem?_eq_some_iff.mp hpair
    have hlt' : location - w.slots.length < pairs'.length := hpairs.length_eq ▸ hlt
    have hsame := (List.forall₂_iff_get.mp hpairs).2 _ hlt hlt'
    have hcell : State.cell?
        { s with cells := s.cells ++ (pairs'.map fun p => some p.2).toArray } location =
        some (pairs'.get ⟨_, hlt'⟩).2 := by
      rw [State.cell?, Array.getElem?_append_right (h.size ▸ Nat.le_of_not_lt hloc), h.size]
      simp [hlt']
    have hget : (Bindings.empty.insertMany pairs).get? pairs[location - w.slots.length].1 =
        some pairs[location - w.slots.length].2 :=
      Bindings.get?_insertMany_of_mem hnodup (List.getElem_mem hlt)
    rw [own?_enter_new, hcell, hget]
    exact .some (hsame.2.mono hw)

private theorem only_enter (h : Rel w m s) {id : ScopeId} {name : String}
    (hid : Machine.globals < id) (hown : (w.enter parent pairs).scopes.own? id name ≠ none) :
    (id, name) ∈ (w.enter parent pairs).slots := by
  rw [mem_slots_enter]
  by_cases heq : id = w.scopes.next
  · subst heq
    rw [own?_enter_new] at hown
    by_cases hm : name ∈ pairs.map (·.1)
    · exact .inr ⟨rfl, hm⟩
    · rw [Bindings.get?_insertMany_of_notMem hm] at hown
      exact absurd rfl hown
  · have hlt : id < w.scopes.next := by
      have hlt := Scopes.lt_of_own? hown
      rw [next_enter] at hlt
      exact Nat.lt_of_le_of_ne (Nat.le_of_lt_succ hlt) heq
    rw [own?_enter_old hlt] at hown
    exact .inl (h.only id name hid hown)

theorem enter (h : Rel w m s)
    (hpairs : List.Forall₂ (fun p q => p.1 = q.1 ∧ w.Same p.2 q.2) pairs pairs')
    (hnodup : (pairs.map (·.1)).Nodup) :
    Rel (w.enter parent pairs)
      { m with scopes := m.scopes.push ⟨Bindings.empty.insertMany pairs, some parent⟩ }
      { s with cells := s.cells ++ (pairs'.map fun p => some p.2).toArray } := by
  have hw : Extends 0 w (w.enter parent pairs) := extends_enter (Nat.zero_le _)
  exact { h with
    scopes := congrArg (Scopes.push · ⟨Bindings.empty.insertMany pairs, some parent⟩) h.scopes
    root := (parent?_enter_old h.rootLt).trans h.root
    rootLt := Nat.lt_of_lt_of_le h.rootLt hw.next
    size := by
      simp [World.enter, h.size, hpairs.length_eq]
    nodup := nodup_slots_enter h.nodup (fun id name hm => (h.inner id name hm).2) hnodup
    inner := fun id name hm => by
      rw [next_enter]
      rcases mem_slots_enter.mp hm with hm | ⟨rfl, -⟩
      · exact ⟨(h.inner id name hm).1, Nat.lt_succ_of_lt (h.inner id name hm).2⟩
      · exact ⟨h.rootLt, Nat.lt_succ_self _⟩
    slot := fun location id name hslot => h.slot_enter hpairs hnodup hslot
    only := fun id name hid hown => h.only_enter hid hown
    globals := fun name => by
      rw [own?_enter_old h.rootLt]
      exact optionRel_same_mono hw (h.globals name)
    fields := fun cell name => optionRel_same_mono hw (h.fields cell name) }

end

theorem newObject (h : Rel w m s) :
    Rel w { m with objects := m.objects.push .empty } { s with objects := s.objects.push .empty } := by
  have hget : ∀ {ε : Type} (objects : Array (Bindings (Value ε))) (cell : Nat) (name : String),
      ((objects.push .empty).getD cell .empty).get? name = (objects.getD cell .empty).get? name := by
    intro ε objects cell name
    rw [Array.getD_eq_getD_getElem?, Array.getD_eq_getD_getElem?, Array.getElem?_push]
    by_cases heq : cell = objects.size
    · rw [if_pos heq, heq, Array.getElem?_eq_none (Nat.le_refl _)]
      rfl
    · rw [if_neg heq]
  exact { h with
    objects := by rw [Array.size_push, Array.size_push, h.objects]
    fields := fun cell name => by
      rw [hget, hget]
      exact h.fields cell name }

theorem setField (h : Rel w m s) (cell : Nat) (name : String) {v : Value ScopeId} {v' : Value Env}
    (hv : w.Same v v') :
    Rel w { m with objects := m.objects.modify cell (·.insert name v) }
      { s with objects := s.objects.modify cell (·.insert name v') } := by
  have hget : ∀ {ε : Type} (objects : Array (Bindings (Value ε))) (x : Value ε) (cell' : Nat)
      (key : String), ((objects.modify cell (·.insert name x)).getD cell' .empty).get? key =
        if cell = cell' ∧ cell < objects.size ∧ key = name then some x
        else (objects.getD cell' .empty).get? key := by
    intro ε objects x cell' key
    rw [Array.getD_eq_getD_getElem?, Array.getD_eq_getD_getElem?, Array.getElem?_modify]
    by_cases heq : cell = cell'
    · subst heq
      by_cases hlt : cell < objects.size
      · rw [if_pos rfl, Array.getElem?_eq_getElem hlt]
        simp only [Option.map_some, Option.getD_some, Bindings.get?_insert, hlt, true_and]
      · rw [if_pos rfl, Array.getElem?_eq_none (Nat.le_of_not_lt hlt)]
        simp [hlt]
    · simp [heq]
  exact { h with
    objects := by rw [Array.size_modify, Array.size_modify, h.objects]
    fields := fun cell' key => by
      rw [hget, hget, h.objects]
      split
      · exact .some hv
      · exact h.fields cell' key }

end Rel

end LoxLang.Lexical
