import LoxLang.Proofs.Lexical.Rel
/-!
# Agreement of steps

Two steps agree if from related states they end in related states: both with a
result, or both with the same error or out of fuel, and never with a broken
machine. Agreement goes through sequences of steps, so it has to be shown only for
the elementary ones, each of which has its rule here.
-/
namespace LoxLang.Lexical
open World

variable {α β γ δ : Type} {floor : Nat} {w : World}

/-- The ways in which two steps end together. The worlds that they end in are later ones. -/
inductive Ends (floor : Nat) (w : World) (P : World → α → β → Prop) :
    EStateM.Result Halt Machine α → EStateM.Result Halt State β → Prop
  | ok {w' : World} {a : α} {b : β} {m : Machine} {s : State} :
      Extends floor w w' → Rel w' m s → P w' a b → Ends floor w P (.ok a m) (.ok b s)
  | error {w' : World} {halt : Halt} {m : Machine} {s : State} :
      Extends floor w w' → Rel w' m s → (∀ fault, halt ≠ .broken fault) →
      Ends floor w P (.error halt m) (.error halt s)

namespace Ends

variable {P Q : World → α → β → Prop} {left : EStateM.Result Halt Machine α}
  {right : EStateM.Result Halt State β}

theorem mono (h : Ends floor w P left right)
    (hPQ : ∀ w' a b, Extends floor w w' → P w' a b → Q w' a b) : Ends floor w Q left right := by
  cases h with
  | ok hw hrel hP => exact .ok hw hrel (hPQ _ _ _ hw hP)
  | error hw hrel hhalt => exact .error hw hrel hhalt

private theorem lowerFloor {k : Nat} (h : Ends k w P left right) (hk : floor ≤ k) :
    Ends floor w (fun w' a b => Extends k w w' ∧ P w' a b) left right := by
  cases h with
  | ok hw hrel hP => exact .ok (hw.mono hk) hrel ⟨hw, hP⟩
  | error hw hrel hhalt => exact .error (hw.mono hk) hrel hhalt

theorem trans {w' : World} (hw : Extends floor w w') (h : Ends floor w' P left right) :
    Ends floor w P left right := by
  cases h with
  | ok hw' hrel hP => exact .ok (hw.trans hw') hrel hP
  | error hw' hrel hhalt => exact .error (hw.trans hw') hrel hhalt

end Ends

/-- From states that are related in the world `w`, the two steps end together. -/
def Agree (floor : Nat) (w : World) (p : LoxLang.Run α) (q : Run β) (P : World → α → β → Prop) :
    Prop :=
  ∀ m s, Rel w m s → floor ≤ w.scopes.next → Ends floor w P (p m) (q s)

namespace Agree

variable {p : LoxLang.Run α} {q : Run β} {P Q : World → α → β → Prop}

theorem mono (h : Agree floor w p q P) (hPQ : ∀ w' a b, Extends floor w w' → P w' a b → Q w' a b) :
    Agree floor w p q Q :=
  fun m s hrel hfloor => (h m s hrel hfloor).mono hPQ

theorem pure {a : α} {b : β} (h : P w a b) : Agree floor w (Pure.pure a) (Pure.pure b) P :=
  fun _ _ hrel _ => .ok (.refl floor w) hrel h

theorem throw {halt : Halt} (h : ∀ fault, halt ≠ .broken fault) :
    Agree floor w (MonadExcept.throw halt : LoxLang.Run α) (MonadExcept.throw halt : Run β) P :=
  fun _ _ hrel _ => .error (.refl floor w) hrel h

theorem outOfFuel :
    Agree floor w (MonadExcept.throw .outOfFuel : LoxLang.Run α)
      (MonadExcept.throw .outOfFuel : Run β) P :=
  throw fun _ h => Halt.noConfusion h

theorem raise (error : Error) (span : Span) :
    Agree floor w (Machine.raise error span : LoxLang.Run α) (raise error span : Run β) P :=
  throw fun _ h => Halt.noConfusion h

theorem bind {f : α → LoxLang.Run γ} {g : β → Run δ} {Q : World → γ → δ → Prop}
    (hp : Agree floor w p q P)
    (hf : ∀ w' a b, Extends floor w w' → P w' a b → Agree floor w' (f a) (g b) Q) :
    Agree floor w (p >>= f) (q >>= g) Q := by
  intro m s hrel hfloor
  have hends := hp m s hrel hfloor
  rw [bind_apply, bind_apply]
  generalize p m = left at hends
  generalize q s = right at hends
  cases hends with
  | error hw hrel' hhalt => exact .error hw hrel' hhalt
  | ok hw hrel' hP =>
    exact (hf _ _ _ hw hP _ _ hrel' (Nat.le_trans hfloor hw.next)).trans hw

theorem map {f : α → γ} {g : β → δ} {Q : World → γ → δ → Prop}
    (hp : Agree floor w p q P) (hf : ∀ w' a b, Extends floor w w' → P w' a b → Q w' (f a) (g b)) :
    Agree floor w (f <$> p) (g <$> q) Q :=
  hp.bind fun w' a b hw hP => Agree.pure (hf w' a b hw hP)

/-- A higher floor says more about the worlds in which the steps end. -/
theorem raiseFloor {k : Nat} (hp : Agree k w p q P) (hk : floor ≤ k) (hnext : k ≤ w.scopes.next) :
    Agree floor w p q (fun w' a b => Extends k w w' ∧ P w' a b) := by
  intro m s hrel _
  exact (hp m s hrel hnext).lowerFloor hk

theorem bindAt {frames : List Frame} {id : ScopeId} {env : Env} {f : α → LoxLang.Run γ}
    {g : β → Run δ} {Q : World → γ → δ → Prop} (hat : w.At frames id env) (hfloor : floor ≤ id)
    (hp : Agree (id + 1) w p q P)
    (hf : ∀ w' a b, Extends (id + 1) w w' → w'.At frames id env → P w' a b →
      Agree floor w' (f a) (g b) Q) :
    Agree floor w (p >>= f) (q >>= g) Q :=
  (hp.raiseFloor (Nat.le_succ_of_le hfloor) hat.lt).bind fun w' a b _ h =>
    hf w' a b h.1 (hat.mono h.1) h.2

theorem getThen {f : Machine → LoxLang.Run α} {g : State → Run β}
    (h : ∀ m s, Rel w m s → Agree floor w (f m) (g s) P) :
    Agree floor w (get >>= f) (get >>= g) P :=
  fun m s hrel hfloor => h m s hrel m s hrel hfloor

/-- A step that only the machine takes and that changes nothing that the reference has. -/
theorem emitThen {f : Unit → LoxLang.Run α} (event : Event) (h : Agree floor w (f ()) q P) :
    Agree floor w (Machine.emit event >>= f) q P := by
  intro m s hrel hfloor
  exact h { m with events := m.events.push event } s (hrel.withEvents _) hfloor

end Agree

/-! ## Names -/

theorem agree_getAt {id owner : ScopeId} {k location : Nat} {env : Env} {name : String}
    (howner : w.scopes.ancestor? k id = some owner) (hlocation : env.find? name = some location)
    (hslot : w.slots[location]? = some (owner, name)) (hbound : w.Bound owner name) :
    Agree floor w (Machine.getAt id k name) (getLocal env name)
      (fun w' v v' => w'.Same v v' ∧ Kept name v) := by
  refine .getThen fun m s hrel => ?_
  obtain ⟨value, hvalue, hkept⟩ := hbound
  have hget : m.scopes.getAt? id k name = some value := by
    rw [hrel.scopes, Scopes.getAt?, howner]
    exact hvalue
  have hcell := hrel.slot location owner name hslot
  rw [hvalue] at hcell
  rw [hget, hlocation, Option.bind_some]
  generalize s.cell? location = cell at hcell
  cases hcell with
  | some hsame => exact .pure ⟨hsame, hkept⟩

theorem agree_lookup {frames : List Frame} {id : ScopeId} {env : Env} {ref : Ref} {span : Span}
    (hs : w.Sees frames id env) (href : ref.Readable frames) :
    Agree floor w (Machine.lookup id ref span) (lookup env ref.name span)
      (fun w' => w'.Same) := by
  obtain ⟨hdistance, hready⟩ := href
  cases hd : distanceIn frames ref.name with
  | some k =>
    obtain ⟨owner, location, howner, hlocation, hslot, hbound⟩ := hs.found ref.name k hd
    rw [Machine.lookup, lookup, hdistance, hd, hlocation]
    exact (agree_getAt howner hlocation hslot (hbound (.inl hready))).mono fun _ _ _ _ h => h.1
  | none =>
    rw [Machine.lookup, lookup, hdistance, hd, hs.missing ref.name hd]
    refine .getThen fun m s hrel => ?_
    have hglobal := hrel.globals ref.name
    rw [hrel.scopes, Scopes.get?_of_root hrel.root]
    generalize w.scopes.own? Machine.globals ref.name = v at hglobal
    generalize s.globals.get? ref.name = v' at hglobal
    cases hglobal with
    | some hsame => exact .pure hsame
    | none => exact .raise _ span

theorem agree_this {frames : List Frame} {id : ScopeId} {env : Env} {k : Nat} {span : Span}
    (hs : w.Sees frames id env) (hk : distanceIn frames "this" = some k) :
    Agree floor w (Machine.lookup id ⟨"this", some k⟩ span) (lookup env "this" span)
      (fun w' => w'.Same) := by
  obtain ⟨owner, location, howner, hlocation, hslot, hbound⟩ := hs.found "this" k hk
  rw [Machine.lookup, lookup, hlocation]
  exact (agree_getAt howner hlocation hslot (hbound (.inr (.inl rfl)))).mono fun _ _ _ _ h => h.1

private theorem agree_assignAt {id owner : ScopeId} {k location : Nat} {name : String}
    {v : Value ScopeId} {v' : Value Env} (howner : w.scopes.ancestor? k id = some owner)
    (hslot : w.slots[location]? = some (owner, name)) (hname : ¬Reserved name)
    (hv : w.Same v v') :
    Agree floor w (Machine.assignAt id k name v) (store location v') (fun _ _ _ => True) := by
  intro m s hrel _
  have hw : Extends floor w (w.define owner name v) :=
    extends_define hname (hrel.inner owner name (List.mem_of_getElem? hslot)).2
  have howner' : m.scopes.ancestor? k id = some owner := hrel.scopes ▸ howner
  have hleft : Machine.assignAt id k name v m =
      .ok () { m with scopes := m.scopes.define owner name v } := by
    rw [Machine.assignAt, get_bind, howner']
    rfl
  rw [hleft]
  exact .ok hw (hrel.assignSlot hslot hname (hv.mono hw)) trivial

private theorem agree_defineGlobal {name : String} {v : Value ScopeId} {v' : Value Env}
    (hname : ¬Reserved name) (hv : w.Same v v') :
    Agree floor w (Machine.define Machine.globals name v) (defineGlobal name v')
      (fun _ _ _ => True) := by
  intro m s hrel _
  have hw : Extends floor w (w.define Machine.globals name v) := extends_define hname hrel.rootLt
  exact .ok hw (hrel.assignGlobal hname (hv.mono hw)) trivial

theorem agree_assign {frames : List Frame} {id : ScopeId} {env : Env} {ref : Ref} {span : Span}
    {v : Value ScopeId} {v' : Value Env} (hs : w.Sees frames id env)
    (hdistance : ref.distance = distanceIn frames ref.name) (hname : ¬Reserved ref.name)
    (hv : w.Same v v') :
    Agree floor w (Machine.assign id ref v span) (assign env ref.name v' span)
      (fun _ _ _ => True) := by
  cases hd : distanceIn frames ref.name with
  | some k =>
    obtain ⟨owner, location, howner, hlocation, hslot, -⟩ := hs.found ref.name k hd
    rw [Machine.assign, assign, hdistance, hd, hlocation]
    exact agree_assignAt howner hslot hname hv
  | none =>
    rw [Machine.assign, assign, hdistance, hd, hs.missing ref.name hd]
    refine .getThen fun m s hrel => ?_
    have hglobal := hrel.globals ref.name
    rw [hrel.scopes, Bindings.binds]
    cases hown : w.scopes.own? Machine.globals ref.name with
    | some old =>
      rw [hown] at hglobal
      rw [Scopes.owner?_of_own? (by rw [hown]; exact Option.some_ne_none old)]
      generalize s.globals.get? ref.name = old' at hglobal
      cases hglobal with
      | some _ => exact agree_defineGlobal hname hv
    | none =>
      rw [hown] at hglobal
      rw [Scopes.owner?_eq_none hown hrel.root]
      generalize s.globals.get? ref.name = old' at hglobal
      cases hglobal with
      | none => exact .raise _ span

/-! ## Scopes -/

private theorem bindNames_apply (names : List (String × Nat)) (pairs : List (String × Value Env))
    (s : State) :
    bindNames (.inner names) pairs s =
      .ok (.inner (((pairs.map (·.1)).zipIdx s.cells.size).reverse ++ names))
        { s with cells := s.cells ++ (pairs.map fun p => some p.2).toArray } := by
  induction pairs generalizing names s with
  | nil => simp [bindNames, Pure.pure, EStateM.pure]
  | cons pair rest ih =>
    obtain ⟨name, value⟩ := pair
    have hstep : bindNames (.inner names) ((name, value) :: rest) s =
        bindNames (.inner ((name, s.cells.size) :: names)) rest
          { s with cells := s.cells.push (some value) } := rfl
    rw [hstep, ih]
    simp [List.zipIdx_cons]

private theorem names_eq_of_forall₂ {pairs : List (String × Value ScopeId)}
    {pairs' : List (String × Value Env)}
    (h : List.Forall₂ (fun p q => p.1 = q.1 ∧ w.Same p.2 q.2) pairs pairs') :
    pairs.map (·.1) = pairs'.map (·.1) := by
  induction h with
  | nil => rfl
  | cons hpair _ ih => rw [List.map_cons, List.map_cons, hpair.1, ih]

private theorem mem_zipIdx_reverse {names : List String} {start location : Nat} {name : String} :
    (name, location) ∈ (names.zipIdx start).reverse ↔
      start ≤ location ∧ names[location - start]? = some name := by
  rw [List.mem_reverse, List.mem_zipIdx_iff_le_and_getElem?_sub]

section
variable {frame : Frame} {frames : List Frame} {parent : ScopeId} {env : Env}
  {pairs : List (String × Value ScopeId)} {pairs' : List (String × Value Env)}

private theorem covers_enter
    (hdeclares : ∀ name, frame.declares name = true ↔ name ∈ pairs.map (·.1)) :
    (w.enter parent pairs).Covers frame w.scopes.next
      ((pairs.map (·.1)).zipIdx w.slots.length).reverse where
  declares name := by
    rw [hdeclares, List.mem_iff_getElem?]
    constructor
    · intro h
      obtain ⟨i, hi⟩ := h
      refine ⟨w.slots.length + i, mem_zipIdx_reverse.mpr ⟨Nat.le_add_right _ _, ?_⟩⟩
      rw [Nat.add_sub_cancel_left]
      exact hi
    · intro h
      obtain ⟨location, hm⟩ := h
      exact ⟨_, (mem_zipIdx_reverse.mp hm).2⟩
  slots name location hm := by
    obtain ⟨hle, hget⟩ := mem_zipIdx_reverse.mp hm
    rw [List.getElem?_map] at hget
    obtain ⟨pair, hpair, rfl⟩ := Option.map_eq_some_iff.mp hget
    rw [World.enter, List.getElem?_append_right hle, List.getElem?_map, hpair]
    rfl

private theorem bound_enter {name : String} (hnodup : (pairs.map (·.1)).Nodup)
    (hkept : ∀ p ∈ pairs, Kept p.1 p.2) (hname : name ∈ pairs.map (·.1)) :
    (w.enter parent pairs).Bound w.scopes.next name := by
  obtain ⟨pair, hpair, rfl⟩ := List.mem_map.mp hname
  refine ⟨pair.2, ?_, hkept pair hpair⟩
  rw [own?_enter_new]
  exact Bindings.get?_insertMany_of_mem hnodup hpair

theorem agree_enter (hchain : w.Chain frames parent env)
    (hpairs : List.Forall₂ (fun p q => p.1 = q.1 ∧ w.Same p.2 q.2) pairs pairs')
    (hnodup : (pairs.map (·.1)).Nodup)
    (hdeclares : ∀ name, frame.declares name = true ↔ name ∈ pairs.map (·.1))
    (hkept : ∀ p ∈ pairs, Kept p.1 p.2) :
    Agree floor w (Machine.newScope parent (Bindings.empty.insertMany pairs))
      (bindNames env.enter pairs')
      (fun w' id env' => w'.At (frame :: frames) id env' ∧ floor ≤ id) := by
  intro m s hrel hfloor
  have hw : Extends floor w (w.enter parent pairs) := extends_enter hfloor
  have hleft : Machine.newScope parent (Bindings.empty.insertMany pairs) m =
      .ok w.scopes.next
        { m with scopes := m.scopes.push ⟨Bindings.empty.insertMany pairs, some parent⟩ } := by
    rw [← hrel.scopes]
    rfl
  rw [hleft, Env.enter, bindNames_apply, ← names_eq_of_forall₂ hpairs, hrel.size]
  refine .ok hw (hrel.enter hpairs hnodup) ⟨⟨?_, ?_, ?_⟩, hfloor⟩
  · refine .inner (hchain.mono hw) ?_ (covers_enter hdeclares) fun name hd => ?_
    · rw [World.enter, Scopes.parent?_push, if_pos rfl]
    · exact bound_enter hnodup hkept ((hdeclares name).mp hd)
  · intro frame' hframe name hslot
    obtain rfl : frame = frame' := by simpa using hframe
    rcases mem_slots_enter.mp hslot with hslot | ⟨-, hname⟩
    · exact absurd (hrel.inner _ _ hslot).2 (Nat.lt_irrefl _)
    · exact (hdeclares name).mpr hname
  · rw [next_enter]
    exact Nat.lt_succ_self _

end

structure Declared (w : World) (frames : List Frame) (id : ScopeId) (env : Env) (name : String) :
    Prop where
  sees : w.Sees (putName name false frames) id env
  chain : ∀ {k : Nat} {w' : World}, Extends k w w' → w'.Bound id name →
    w'.Chain (declareName name frames) id env
  exact : w.Exact (declareName name frames) id
  lt : id < w.scopes.next
  owns : (id = Machine.globals ∧ env.find? name = none) ∨
    ∃ location, env.find? name = some location ∧ w.slots[location]? = some (id, name)

theorem Declared.mono {w' : World} {frames : List Frame} {id : ScopeId} {env : Env} {name : String}
    (h : Declared w frames id env name) (hw : Extends (id + 1) w w') :
    Declared w' frames id env name where
  sees := h.sees.mono hw
  chain hw' hb := h.chain ((hw.mono (Nat.zero_le _)).trans (hw'.mono (Nat.zero_le _))) hb
  exact frame hframe other hslot := by
    rcases hw.fresh id other hslot with hslot | hle
    · exact h.exact frame hframe other hslot
    · exact absurd hle (Nat.not_succ_le_self id)
  lt := Nat.lt_of_lt_of_le h.lt hw.next
  owns := h.owns.imp_right fun ⟨location, hl, hs⟩ => ⟨location, hl, hw.slot hs⟩

theorem Declared.at {w' : World} {frames : List Frame} {id : ScopeId} {env : Env} {name : String}
    (h : Declared w frames id env name) (hw : Extends (id + 1) w w') (hb : w'.Bound id name) :
    w'.At (declareName name frames) id env :=
  ⟨h.chain hw hb, (h.mono hw).exact, (h.mono hw).lt⟩

private theorem declared_reserve {frame : Frame} {outer : List Frame} {id : ScopeId} {env : Env}
    {name : String} (hat : w.At (frame :: outer) id env) (hname : ¬Reserved name) :
    Declared (w.reserve id name) (frame :: outer) id (env.extend name w.slots.length) name := by
  have hw : Extends id w (w.reserve id name) := extends_reserve (Nat.le_refl id)
  have hne : frame :: outer ≠ [] := List.cons_ne_nil frame outer
  have hslot : (w.reserve id name).slots[w.slots.length]? = some (id, name) := by
    rw [World.reserve, List.getElem?_append_right (Nat.le_refl _), Nat.sub_self]
    rfl
  have hchain := hat.chain.mono hw
  exact {
    sees := hchain.sees_pending hne hname hslot
    chain := fun hw' hb => (hchain.mono hw').declare hne (hw'.slot hslot) hb
    exact := fun frame' hframe other hm => by
      obtain rfl : (name, true) :: (name, false) :: frame = frame' := by
        simpa [declareName, putName] using hframe
      rcases List.mem_append.mp hm with hm | hm
      · simp [hat.exact frame rfl other hm]
      · obtain ⟨-, rfl⟩ := Prod.mk.inj (List.mem_singleton.mp hm)
        simp
    lt := hat.lt
    owns := .inr ⟨w.slots.length, find?_extend_self _ _ _, hslot⟩ }

/-- A declaration reserves a location; the machine does nothing yet. -/
theorem Agree.declareThen {frames : List Frame} {id : ScopeId} {env : Env} {name : String}
    {p : LoxLang.Run α} {g : Env → Run β} {P : World → α → β → Prop} (hat : w.At frames id env)
    (hname : ¬Reserved name) (hfresh : Fresh frames name) (hfloor : floor ≤ id)
    (h : ∀ w' env', Extends floor w w' → Declared w' frames id env' name →
      Agree floor w' p (g env') P) :
    Agree floor w p (declare env name >>= g) P := by
  intro m s hrel hle
  cases frames with
  | nil =>
    cases hat.chain
    have hdeclared : Declared w [] Machine.globals .global name :=
      ⟨hat.chain.sees, fun _ _ => .global, fun frame hf => absurd hf (by simp [declareName, putName]),
        hat.lt, .inl ⟨rfl, rfl⟩⟩
    exact h w .global (.refl floor w) hdeclared m s hrel hle
  | cons frame outer =>
    have hpos : Machine.globals < id := by
      cases hat.chain with
      | inner _ hparent _ _ =>
        apply Nat.pos_of_ne_zero
        intro hzero
        have hroot : w.scopes.parent? id = none := hzero ▸ hrel.root
        rw [hroot] at hparent
        exact Option.some_ne_none _ hparent.symm
    have hnew : (id, name) ∉ w.slots := by
      intro hm
      have hdeclares := hat.exact frame rfl name hm
      rw [hfresh frame rfl] at hdeclares
      exact Bool.noConfusion hdeclares
    have hw : Extends floor w (w.reserve id name) := extends_reserve hfloor
    have hrun : (declare env name >>= g) s =
        g (env.extend name w.slots.length) { s with cells := s.cells.push none } := by
      rw [← hrel.size]
      cases hat.chain with
      | inner => rfl
    rw [hrun]
    have hrest := h _ _ hw (declared_reserve hat hname) m _ (hrel.reserve hpos hat.lt hnew) hle
    exact hrest.trans hw

private theorem define_local {env : Env} {name : String} {value : Value Env} {location : Nat}
    {s : State} (h : env.find? name = some location) :
    define env name value s =
      .ok () { s with cells := s.cells.setIfInBounds location (some value) } := by
  rw [define, h]
  rfl

private theorem define_global {env : Env} {name : String} {value : Value Env} {s : State}
    (h : env.find? name = none) :
    define env name value s = .ok () { s with globals := s.globals.insert name value } := by
  rw [define, h]
  rfl

/-- A declared name gets its value, which may already refer to the name. -/
theorem ends_define {frames : List Frame} {id : ScopeId} {env : Env} {name : String}
    {v : Value ScopeId} {v' : Value Env} {m : Machine} {s : State} (hrel : Rel w m s)
    (hd : Declared w frames id env name) (hname : ¬Reserved name)
    (hv : (w.define id name v).Same v v') :
    Ends floor w (fun w' _ _ => w' = w.define id name v)
      (.ok () { m with scopes := m.scopes.define id name v }) (define env name v' s) := by
  have hw : Extends floor w (w.define id name v) := extends_define hname hd.lt
  rcases hd.owns with ⟨rfl, hnone⟩ | ⟨location, hlocation, hslot⟩
  · rw [define_global hnone]
    exact .ok hw (hrel.assignGlobal hname hv) rfl
  · rw [define_local hlocation]
    exact .ok hw (hrel.assignSlot hslot hname hv) rfl

theorem bound_define {id : ScopeId} {name : String} (v : Value ScopeId) (hname : ¬Reserved name)
    (hid : id < w.scopes.next) : (w.define id name v).Bound id name :=
  ⟨v, Scopes.own?_define_self _ _ _ _ hid, kept_of_not_reserved hname v⟩

theorem agree_define {frames : List Frame} {id : ScopeId} {env : Env} {name : String}
    {v : Value ScopeId} {v' : Value Env} (hd : Declared w frames id env name)
    (hname : ¬Reserved name) (hv : (w.define id name v).Same v v') :
    Agree floor w (Machine.define id name v) (define env name v')
      (fun w' _ _ => Extends (id + 1) w w' ∧ w'.Bound id name ∧
        w'.At (declareName name frames) id env) := by
  intro m s hrel _
  refine (ends_define hrel hd hname hv).mono fun w' _ _ _ hw' => ?_
  subst hw'
  have hw : Extends (id + 1) w (w.define id name v) := extends_define hname hd.lt
  exact ⟨hw, bound_define v hname hd.lt, hd.at hw (bound_define v hname hd.lt)⟩

/-- The class takes the place of the value that its name had in the meantime. -/
theorem agree_assignByName {frames : List Frame} {id : ScopeId} {env : Env} {name : String}
    {span : Span} {v : Value ScopeId} {v' : Value Env} (hd : Declared w frames id env name)
    (hname : ¬Reserved name) (hb : w.Bound id name) (hv : w.Same v v') :
    Agree floor w (Machine.assignByName id name v span) (define env name v')
      (fun w' _ _ => w'.At (declareName name frames) id env) := by
  intro m s hrel _
  obtain ⟨old, hold, -⟩ := hb
  have hown : m.scopes.own? id name = some old := hrel.scopes ▸ hold
  have hw : Extends (id + 1) w (w.define id name v) := extends_define hname hd.lt
  have hleft : Machine.assignByName id name v span m =
      .ok () { m with scopes := m.scopes.define id name v } := by
    rw [Machine.assignByName, get_bind,
      Scopes.owner?_of_own? (by rw [hown]; exact Option.some_ne_none old)]
    rfl
  rw [hleft]
  refine (ends_define hrel hd hname (hv.mono hw)).mono fun w' _ _ _ hw' => ?_
  subst hw'
  exact hd.at hw (bound_define v hname hd.lt)

end LoxLang.Lexical
