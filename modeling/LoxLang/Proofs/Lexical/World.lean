import Mathlib.Data.List.Forall2
import LoxLang.Proofs.Lexical.Basic
import LoxLang.Proofs.Scopes
import LoxLang.Proofs.Scoping.Scoped
/-!
# Worlds

A world says which local variable of the machine each location stands for. Worlds
grow as a run goes on: there are more locations and more scopes, but a location
stands for the same variable forever. In a world, a chain of scopes carries out an
environment if both have the names of the same frames. Values are the same if they
are equal up to that.
-/
namespace LoxLang.Lexical

/-- The scopes of the machine, and for each location the scope and the name of its variable. -/
structure World where
  slots : List (ScopeId × String)
  scopes : Scopes

/-- In the variables of the two reserved names there are instances and classes. -/
def Kept (name : String) (value : Value ScopeId) : Prop :=
  (name = "this" → ∃ cell c, value = .object cell c) ∧ (name = "super" → ∃ c, value = .cls c)

theorem kept_of_not_reserved {name : String} (h : ¬Reserved name) (value : Value ScopeId) :
    Kept name value :=
  ⟨fun hn => absurd (.inl hn) h, fun hn => absurd (.inr hn) h⟩

namespace World

variable {w w' w'' : World} {floor : Nat}

def Bound (w : World) (id : ScopeId) (name : String) : Prop :=
  ∃ value, w.scopes.own? id name = some value ∧ Kept name value

/-- A later world. The variables of its new locations are in scopes from `floor` on. -/
structure Extends (floor : Nat) (w w' : World) : Prop where
  slots : w.slots <+: w'.slots
  fresh : ∀ id name, (id, name) ∈ w'.slots → (id, name) ∈ w.slots ∨ floor ≤ id
  next : w.scopes.next ≤ w'.scopes.next
  parent : ∀ id, id < w.scopes.next → w'.scopes.parent? id = w.scopes.parent? id
  bound : ∀ id name, w.Bound id name → w'.Bound id name

namespace Extends

theorem refl (floor : Nat) (w : World) : Extends floor w w :=
  ⟨List.prefix_rfl, fun _ _ h => .inl h, Nat.le_refl _, fun _ _ => rfl, fun _ _ h => h⟩

theorem trans (h : Extends floor w w') (h' : Extends floor w' w'') : Extends floor w w'' where
  slots := h.slots.trans h'.slots
  fresh id name hslot := (h'.fresh id name hslot).elim (h.fresh id name) .inr
  next := Nat.le_trans h.next h'.next
  parent id hid := (h'.parent id (Nat.lt_of_lt_of_le hid h.next)).trans (h.parent id hid)
  bound id name hb := h'.bound id name (h.bound id name hb)

theorem mono {k : Nat} (h : Extends k w w') (hk : floor ≤ k) : Extends floor w w' :=
  { h with fresh := fun id name hslot => (h.fresh id name hslot).imp_right (Nat.le_trans hk) }

theorem slot (h : Extends floor w w') {location : Nat} {slot : ScopeId × String}
    (hslot : w.slots[location]? = some slot) : w'.slots[location]? = some slot := by
  obtain ⟨more, hmore⟩ := h.slots
  rw [← hmore]
  have hlt := (List.getElem?_eq_some_iff.mp hslot).1
  rw [List.getElem?_append_left hlt]
  exact hslot

theorem parent_some (h : Extends floor w w') {id parent : ScopeId}
    (hp : w.scopes.parent? id = some parent) : w'.scopes.parent? id = some parent :=
  (h.parent id (Scopes.lt_of_parent? hp)).trans hp

private theorem ancestor (h : Extends floor w w') {k : Nat} {id owner : ScopeId}
    (ha : w.scopes.ancestor? k id = some owner) : w'.scopes.ancestor? k id = some owner := by
  induction k generalizing id with
  | zero =>
    rw [Scopes.ancestor?] at ha ⊢
    split at ha
    · rename_i hlt
      have hlt' : id < w'.scopes.all.size := Nat.lt_of_lt_of_le hlt h.next
      rw [if_pos hlt']
      exact ha
    · exact absurd ha (by simp)
  | succ k ih =>
    rw [Scopes.ancestor?] at ha ⊢
    obtain ⟨parent, hparent, hrest⟩ := Option.bind_eq_some_iff.mp ha
    rw [h.parent_some hparent]
    exact ih hrest

end Extends

/-! ## Scopes and environments -/

/-- One scope has the variables of one frame, at the locations that the names have. -/
structure Covers (w : World) (frame : Frame) (id : ScopeId) (names : List (String × Nat)) :
    Prop where
  declares : ∀ name, frame.declares name = true ↔ ∃ location, (name, location) ∈ names
  slots : ∀ name location, (name, location) ∈ names → w.slots[location]? = some (id, name)

/-- A chain of scopes carries out an environment: both have the names of the frames, and all the
variables have values. -/
inductive Chain (w : World) : List Frame → ScopeId → Env → Prop
  | global : Chain w [] Machine.globals .global
  | inner {frame : Frame} {frames : List Frame} {id parent : ScopeId} {env : Env}
      {names : List (String × Nat)} :
      Chain w frames parent env → w.scopes.parent? id = some parent → w.Covers frame id names →
      (∀ name, frame.declares name = true → w.Bound id name) →
      Chain w (frame :: frames) id (.inner (names ++ env.names))

/-- A name can be read: its initializer is over, or it never has one. -/
def Ready (frames : List Frame) (name : String) : Prop :=
  (∀ frame ∈ frames.head?, frame.isPending name = false) ∨ Reserved name

/-- What code with the given frames around it can rely on: a name is where its distance says, and
has a value if it can be read. -/
structure Sees (w : World) (frames : List Frame) (id : ScopeId) (env : Env) : Prop where
  found : ∀ name k, distanceIn frames name = some k → ∃ owner location,
    w.scopes.ancestor? k id = some owner ∧ env.find? name = some location ∧
    w.slots[location]? = some (owner, name) ∧
    (Ready frames name → w.Bound owner name)
  missing : ∀ name, distanceIn frames name = none → env.find? name = none

def Exact (w : World) (frames : List Frame) (id : ScopeId) : Prop :=
  ∀ frame ∈ frames.head?, ∀ name, (id, name) ∈ w.slots → frame.declares name = true

/-- Where a statement runs. -/
structure At (w : World) (frames : List Frame) (id : ScopeId) (env : Env) : Prop where
  chain : w.Chain frames id env
  exact : w.Exact frames id
  lt : id < w.scopes.next

theorem Covers.mono {frame : Frame} {id : ScopeId} {names : List (String × Nat)}
    (h : w.Covers frame id names) (hw : Extends floor w w') : w'.Covers frame id names :=
  ⟨h.declares, fun name location hm => hw.slot (h.slots name location hm)⟩

theorem Chain.mono {frames : List Frame} {id : ScopeId} {env : Env} (h : w.Chain frames id env)
    (hw : Extends floor w w') : w'.Chain frames id env := by
  induction h with
  | global => exact .global
  | inner _ hparent hcovers hbound ih =>
    exact .inner ih (hw.parent_some hparent) (hcovers.mono hw)
      fun name hn => hw.bound _ name (hbound name hn)

theorem Sees.mono {frames : List Frame} {id : ScopeId} {env : Env} (h : w.Sees frames id env)
    (hw : Extends floor w w') : w'.Sees frames id env where
  found name k hk := by
    obtain ⟨owner, location, howner, hlocation, hslot, hbound⟩ := h.found name k hk
    exact ⟨owner, location, hw.ancestor howner, hlocation, hw.slot hslot,
      fun hready => hw.bound owner name (hbound hready)⟩
  missing := h.missing

theorem At.mono {frames : List Frame} {id : ScopeId} {env : Env} (h : w.At frames id env)
    (hw : Extends (id + 1) w w') : w'.At frames id env where
  chain := h.chain.mono hw
  exact frame hframe name hslot := by
    rcases hw.fresh id name hslot with hslot | hle
    · exact h.exact frame hframe name hslot
    · exact absurd hle (Nat.not_succ_le_self id)
  lt := Nat.lt_of_lt_of_le h.lt hw.next

private theorem lookup_eq_none_of_forall {names : List (String × Nat)} {name : String}
    (h : ∀ location, (name, location) ∉ names) : names.lookup name = none := by
  induction names with
  | nil => rfl
  | cons entry rest ih =>
    obtain ⟨key, location⟩ := entry
    have hkey : (name == key) = false := by
      rw [beq_eq_false_iff_ne]
      intro heq
      exact h location (heq ▸ List.mem_cons_self)
    rw [List.lookup_cons, hkey]
    exact ih fun location hm => h location (List.mem_cons_of_mem _ hm)

private theorem mem_of_lookup {names : List (String × Nat)} {name : String} {location : Nat}
    (h : names.lookup name = some location) : (name, location) ∈ names := by
  induction names with
  | nil => exact absurd h (by simp)
  | cons entry rest ih =>
    obtain ⟨key, location'⟩ := entry
    rw [List.lookup_cons] at h
    split at h
    · rename_i hkey
      obtain rfl := Option.some.inj h
      rw [eq_of_beq hkey]
      exact List.mem_cons_self
    · exact List.mem_cons_of_mem _ (ih h)

theorem Covers.lookup {frame : Frame} {id : ScopeId} {names : List (String × Nat)} {name : String}
    (h : w.Covers frame id names) (hd : frame.declares name = true) :
    ∃ location, names.lookup name = some location ∧ w.slots[location]? = some (id, name) := by
  cases hl : names.lookup name with
  | some location => exact ⟨location, rfl, h.slots name location (mem_of_lookup hl)⟩
  | none =>
    obtain ⟨location, hm⟩ := (h.declares name).mp hd
    exact absurd hl (by
      intro hnone
      have := List.lookup_eq_none_iff.mp hnone (name, location) hm
      simp at this)

private theorem Covers.lookup_none {frame : Frame} {id : ScopeId} {names : List (String × Nat)}
    {name : String} (h : w.Covers frame id names) (hd : ¬frame.declares name = true) :
    names.lookup name = none :=
  lookup_eq_none_of_forall fun location hm => hd ((h.declares name).mpr ⟨location, hm⟩)

theorem Chain.found {frames : List Frame} {id : ScopeId} {env : Env} (h : w.Chain frames id env)
    {name : String} {k : Nat} (hk : distanceIn frames name = some k) :
    ∃ owner location, w.scopes.ancestor? k id = some owner ∧ env.find? name = some location ∧
      w.slots[location]? = some (owner, name) ∧ w.Bound owner name := by
  induction h generalizing k with
  | global => exact absurd hk (by simp [distanceIn_nil])
  | @inner frame frames id parent env names _ hparent hcovers hbound ih =>
    rw [distanceIn_cons] at hk
    by_cases hd : frame.declares name = true
    · rw [if_pos hd] at hk
      obtain rfl := Option.some.inj hk
      obtain ⟨location, hlocation, hslot⟩ := hcovers.lookup hd
      refine ⟨id, location, Scopes.ancestor?_zero (Scopes.lt_of_parent? hparent), ?_, hslot,
        hbound name hd⟩
      rw [Env.find?, Env.names, List.lookup_append, hlocation, Option.some_or]
    · rw [if_neg hd] at hk
      obtain ⟨j, hj, rfl⟩ := Option.map_eq_some_iff.mp hk
      obtain ⟨owner, location, howner, hlocation, hslot, hb⟩ := ih hj
      refine ⟨owner, location, (Scopes.ancestor?_succ hparent).trans howner, ?_, hslot, hb⟩
      rw [Env.find?, Env.names, List.lookup_append, hcovers.lookup_none hd, Option.none_or]
      exact hlocation

theorem Chain.missing {frames : List Frame} {id : ScopeId} {env : Env} (h : w.Chain frames id env)
    {name : String} (hnone : distanceIn frames name = none) : env.find? name = none := by
  induction h with
  | global => rfl
  | @inner frame frames id parent env names _ hparent hcovers hbound ih =>
    rw [distanceIn_cons] at hnone
    by_cases hd : frame.declares name = true
    · rw [if_pos hd] at hnone
      exact absurd hnone (Option.some_ne_none 0)
    · rw [if_neg hd] at hnone
      rw [Env.find?, Env.names, List.lookup_append, hcovers.lookup_none hd, Option.none_or]
      exact ih (Option.map_eq_none_iff.mp hnone)

theorem Chain.sees {frames : List Frame} {id : ScopeId} {env : Env} (h : w.Chain frames id env) :
    w.Sees frames id env where
  found name k hk := by
    obtain ⟨owner, location, howner, hlocation, hslot, hbound⟩ := h.found hk
    exact ⟨owner, location, howner, hlocation, hslot, fun _ => hbound⟩
  missing _ := h.missing

@[simp] theorem find?_extend_self (env : Env) (name : String) (location : Nat) :
    (env.extend name location).find? name = some location := by
  rw [Env.find?, Env.extend, Env.names, List.lookup_cons, beq_self_eq_true]

private theorem find?_extend_other {env : Env} {name other : String} {location : Nat}
    (h : other ≠ name) :
    (env.extend name location).find? other = env.find? other := by
  rw [Env.find?, Env.extend, Env.names, List.lookup_cons, beq_eq_false_iff_ne.mpr h]
  rfl

/-- What the initializer of a local variable sees: everything as before, and the variable itself,
which has no value yet. -/
theorem Chain.sees_pending {frames : List Frame} {id : ScopeId} {env : Env} {name : String}
    {location : Nat} (h : w.Chain frames id env) (hne : frames ≠ []) (hname : ¬Reserved name)
    (hslot : w.slots[location]? = some (id, name)) :
    w.Sees (putName name false frames) id (env.extend name location) := by
  cases h with
  | global => exact absurd rfl hne
  | @inner frame frames _ parent env names hchain hparent hcovers hbound =>
    have hwhole : w.Chain (frame :: frames) id (.inner (names ++ env.names)) :=
      .inner hchain hparent hcovers hbound
    constructor
    · intro other k hk
      by_cases hother : other = name
      · subst hother
        rw [putName, distanceIn_cons, Frame.declares_cons, decide_eq_true rfl, Bool.true_or,
          if_pos rfl] at hk
        obtain rfl := Option.some.inj hk
        refine ⟨id, location, Scopes.ancestor?_zero (Scopes.lt_of_parent? hparent),
          find?_extend_self _ _ _, hslot, fun hready => ?_⟩
        rcases hready with hready | hreserved
        · have hpending := hready _ rfl
          simp [Frame.isPending] at hpending
        · exact absurd hreserved hname
      · rw [distanceIn_putName _ _ (Ne.symm hother)] at hk
        obtain ⟨owner, loc, howner, hloc, hs, hb⟩ := hwhole.found hk
        exact ⟨owner, loc, howner, (find?_extend_other hother).trans hloc, hs, fun _ => hb⟩
    · intro other hnone
      by_cases hother : other = name
      · subst hother
        rw [putName, distanceIn_cons, Frame.declares_cons, decide_eq_true rfl, Bool.true_or,
          if_pos rfl] at hnone
        exact absurd hnone (Option.some_ne_none 0)
      · rw [distanceIn_putName _ _ (Ne.symm hother)] at hnone
        exact (find?_extend_other hother).trans (hwhole.missing hnone)

theorem Chain.declare {frames : List Frame} {id : ScopeId} {env : Env} {name : String}
    {location : Nat} (h : w.Chain frames id env) (hne : frames ≠ [])
    (hslot : w.slots[location]? = some (id, name)) (hb : w.Bound id name) :
    w.Chain (declareName name frames) id (env.extend name location) := by
  cases h with
  | global => exact absurd rfl hne
  | @inner frame frames _ parent env names hchain hparent hcovers hbound =>
    have hdeclares : ∀ other, Frame.declares ((name, true) :: (name, false) :: frame) other = true ↔
        other = name ∨ frame.declares other = true := by
      intro other
      simp only [Frame.declares_cons, Bool.or_eq_true, decide_eq_true_eq]
      constructor
      · intro h
        rcases h with rfl | rfl | h
        · exact .inl rfl
        · exact .inl rfl
        · exact .inr h
      · intro h
        rcases h with rfl | h
        · exact .inl rfl
        · exact .inr (.inr h)
    have hcovers' : w.Covers ((name, true) :: (name, false) :: frame) id
        ((name, location) :: names) := by
      refine ⟨fun other => ?_, fun other loc hm => ?_⟩
      · rw [hdeclares, hcovers.declares]
        simp only [List.mem_cons, Prod.mk.injEq]
        constructor
        · intro h
          rcases h with rfl | ⟨loc, h⟩
          · exact ⟨location, .inl ⟨rfl, rfl⟩⟩
          · exact ⟨loc, .inr h⟩
        · intro h
          obtain ⟨loc, ⟨rfl, -⟩ | h⟩ := h
          · exact .inl rfl
          · exact .inr ⟨loc, h⟩
      · rcases List.mem_cons.mp hm with heq | hm
        · obtain ⟨rfl, rfl⟩ := Prod.mk.inj heq
          exact hslot
        · exact hcovers.slots other loc hm
    refine .inner hchain hparent hcovers' fun other hd => ?_
    rcases (hdeclares other).mp hd with rfl | hd
    · exact hb
    · exact hbound other hd

/-! ## Values -/

/-- The same function: the code is the same up to distances, and its scopes carry out its
environment. An initializer stands right inside of the scope of its instance. -/
structure SameFunction (w : World) (f : Closure ScopeId) (g : Closure Env) : Prop where
  identity : f.identity = g.identity
  decl : g.decl = f.decl.relabel .noDistances
  isInitializer : f.isInitializer = g.isInitializer
  code : ∃ frames, w.Chain frames f.env g.env ∧ f.decl.Scoped frames ∧
    (f.isInitializer = true → distanceIn frames "this" = some 0)

structure SameMethod (w : World) (f : Closure ScopeId) (g : Closure Env) : Prop where
  identity : f.identity = g.identity
  decl : g.decl = f.decl.relabel .noDistances
  isInitializer : f.isInitializer = g.isInitializer
  code : ∃ frames, w.Chain frames f.env g.env ∧ f.decl.Scoped (thisFrame :: frames)

/-- The same class: one after the other, its superclasses have the same methods. -/
inductive SameClass (w : World) : Class ScopeId → Class Env → Prop
  | base {identity : Nat} {name : String} {methods : Bindings (Closure ScopeId)}
      {methods' : Bindings (Closure Env)} :
      (∀ key, Option.Rel (SameMethod w) (methods.get? key) (methods'.get? key)) →
      SameClass w ⟨identity, name, none, methods⟩ ⟨identity, name, none, methods'⟩
  | derived {identity : Nat} {name : String} {methods : Bindings (Closure ScopeId)}
      {methods' : Bindings (Closure Env)} {above : Class ScopeId} {above' : Class Env} :
      SameClass w above above' →
      (∀ key, Option.Rel (SameMethod w) (methods.get? key) (methods'.get? key)) →
      SameClass w ⟨identity, name, some above, methods⟩ ⟨identity, name, some above', methods'⟩

inductive Same (w : World) : Value ScopeId → Value Env → Prop
  | nil : Same w .nil .nil
  | bool {b : Bool} : Same w (.bool b) (.bool b)
  | number {x : Float} : Same w (.number x) (.number x)
  | string {s : String} : Same w (.string s) (.string s)
  | function {f : Closure ScopeId} {g : Closure Env} :
      w.SameFunction f g → Same w (.function f) (.function g)
  | native {f : Native} : Same w (.native f) (.native f)
  | cls {c : Class ScopeId} {d : Class Env} : w.SameClass c d → Same w (.cls c) (.cls d)
  | object {cell : Nat} {c : Class ScopeId} {d : Class Env} :
      w.SameClass c d → Same w (.object cell c) (.object cell d)

theorem SameFunction.mono {f : Closure ScopeId} {g : Closure Env} (h : w.SameFunction f g)
    (hw : Extends floor w w') : w'.SameFunction f g := by
  obtain ⟨frames, hchain, hscoped, hthis⟩ := h.code
  exact { h with code := ⟨frames, hchain.mono hw, hscoped, hthis⟩ }

theorem SameMethod.mono {f : Closure ScopeId} {g : Closure Env} (h : w.SameMethod f g)
    (hw : Extends floor w w') : w'.SameMethod f g := by
  obtain ⟨frames, hchain, hscoped⟩ := h.code
  exact { h with code := ⟨frames, hchain.mono hw, hscoped⟩ }

theorem optionRel_mono {α β : Type} {r r' : α → β → Prop} {a : Option α} {b : Option β}
    (h : Option.Rel r a b) (hr : ∀ x y, r x y → r' x y) : Option.Rel r' a b := by
  cases h with
  | some h => exact .some (hr _ _ h)
  | none => exact .none

theorem SameClass.mono {c : Class ScopeId} {d : Class Env} (h : w.SameClass c d)
    (hw : Extends floor w w') : w'.SameClass c d := by
  induction h with
  | base hmethods => exact .base fun key => optionRel_mono (hmethods key) fun _ _ hm => hm.mono hw
  | derived _ hmethods ih =>
    exact .derived ih fun key => optionRel_mono (hmethods key) fun _ _ hm => hm.mono hw

theorem Same.mono {v : Value ScopeId} {v' : Value Env} (h : w.Same v v')
    (hw : Extends floor w w') : w'.Same v v' := by
  cases h with
  | nil => exact .nil
  | bool => exact .bool
  | number => exact .number
  | string => exact .string
  | function hf => exact .function (hf.mono hw)
  | native => exact .native
  | cls hc => exact .cls (hc.mono hw)
  | object hc => exact .object (hc.mono hw)

end World

end LoxLang.Lexical
