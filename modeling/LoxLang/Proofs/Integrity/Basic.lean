import LoxLang.Proofs.Places.Running
import LoxLang.Proofs.Scoping.Scoped
/-!
# What a machine can rely on

Scopes are never lost: they keep their place, their names, and what they bind
`this` and `super` to. Around the code of a function stand the scopes that its
frames describe. A method is always bound before it is called: its scope binds
`this` to an instance of the class that has the method, and the scope around that
one binds `super` to the superclass. Whatever holds once holds ever after.
-/
namespace LoxLang

/-! ## Classes -/

variable {ε : Type}

/-- A class and all the classes above it, nearest first. -/
def Class.chain : Class ε → List (Class ε)
  | ⟨identity, name, superclass, methods⟩ =>
    ⟨identity, name, superclass, methods⟩ ::
      match superclass with
      | some above => above.chain
      | none => []

namespace Class

theorem chain_of_none {c : Class ε} (h : c.superclass = none) : c.chain = [c] := by
  obtain ⟨identity, name, superclass, methods⟩ := c
  obtain rfl : superclass = none := h
  rw [chain]

theorem chain_of_some {c above : Class ε} (h : c.superclass = some above) :
    c.chain = c :: above.chain := by
  obtain ⟨identity, name, superclass, methods⟩ := c
  obtain rfl : superclass = some above := h
  rw [chain]

theorem method?_eq_findSome? (key : String) :
    (c : Class ε) → c.method? key = c.chain.findSome? (·.methods.get? key)
  | ⟨identity, name, none, methods⟩ => by
    rw [method?, chain, List.findSome?_cons]
    cases methods.get? key <;> rfl
  | ⟨identity, name, some above, methods⟩ => by
    rw [method?, chain, List.findSome?_cons]
    cases methods.get? key with
    | some method => rfl
    | none => exact method?_eq_findSome? key above

theorem exists_of_method? {c : Class ε} {key : String} {g : Closure ε}
    (h : c.method? key = some g) : ∃ owner ∈ c.chain, owner.methods.get? key = some g := by
  rw [method?_eq_findSome?] at h
  exact List.exists_of_findSome?_eq_some h

private theorem mem_chain_trans {a b : Class ε} (hab : a ∈ b.chain) :
    (c : Class ε) → b ∈ c.chain → a ∈ c.chain
  | ⟨identity, name, none, methods⟩, hbc => by
    rw [chain_of_none rfl] at hbc
    rw [← List.mem_singleton.mp hbc]
    exact hab
  | ⟨identity, name, some above, methods⟩, hbc => by
    rw [chain_of_some rfl] at hbc
    rcases List.mem_cons.mp hbc with rfl | hbc
    · exact hab
    · rw [chain_of_some rfl]
      exact List.mem_cons_of_mem _ (mem_chain_trans hab above hbc)

theorem mem_chain_of_superclass {c d above owner : Class ε} (hc : c ∈ d.chain)
    (habove : c.superclass = some above) (howner : owner ∈ above.chain) : owner ∈ d.chain := by
  refine mem_chain_trans ?_ d hc
  rw [chain_of_some habove]
  exact List.mem_cons_of_mem c howner

end Class

theorem FunDecl.Scoped.parts {frames : List Frame} {decl : FunDecl} (h : decl.Scoped frames) :
    decl.params.Nodup ∧ (∀ name ∈ decl.params, ¬Reserved name) ∧
      scopedBody (paramFrame decl.params :: frames) decl.body := by
  obtain ⟨span, name, params, body⟩ := decl
  exact h

/-! ## Later machines -/

namespace Machine

/-- A later machine has all scopes of an earlier one, in the same places. They bind the names that
they bound before, and `this` and `super` to the same values or still not at all. -/
structure Later (m m' : Machine) : Prop where
  next : m.scopes.next ≤ m'.scopes.next
  parent : ∀ id < m.scopes.next, m'.scopes.parent? id = m.scopes.parent? id
  names : ∀ id name, m.scopes.own? id name ≠ none → m'.scopes.own? id name ≠ none
  reserved : ∀ id < m.scopes.next, ∀ name, Reserved name →
    m'.scopes.own? id name = m.scopes.own? id name
  identity : m.identity ≤ m'.identity

abbrev Additions := ScopeId → String → Prop

/-- The scopes of an earlier machine have the names that they had, and some that may be added. -/
def AddsOnly (allowed : Additions) (m m' : Machine) : Prop :=
  ∀ id < m.scopes.next, ∀ name, m'.scopes.own? id name ≠ none →
    m.scopes.own? id name ≠ none ∨ allowed id name

namespace Later

variable {m m' m'' : Machine}

theorem refl (m : Machine) : Later m m :=
  ⟨Nat.le_refl _, fun _ _ => rfl, fun _ _ h => h, fun _ _ _ _ => rfl, Nat.le_refl _⟩

theorem trans (h : Later m m') (h' : Later m' m'') : Later m m'' where
  next := Nat.le_trans h.next h'.next
  parent id hid := (h'.parent id (Nat.lt_of_lt_of_le hid h.next)).trans (h.parent id hid)
  names id name hown := h'.names id name (h.names id name hown)
  reserved id hid name hname :=
    (h'.reserved id (Nat.lt_of_lt_of_le hid h.next) name hname).trans (h.reserved id hid name hname)
  identity := Nat.le_trans h.identity h'.identity

theorem parent_some (h : Later m m') {id parent : ScopeId}
    (hparent : m.scopes.parent? id = some parent) : m'.scopes.parent? id = some parent :=
  (h.parent id (Scopes.lt_of_parent? hparent)).trans hparent

theorem reserved_some (h : Later m m') {id : ScopeId} {name : String} (hname : Reserved name)
    {value : Value ScopeId} (hown : m.scopes.own? id name = some value) :
    m'.scopes.own? id name = some value :=
  (h.reserved id (Scopes.lt_of_own? (hown ▸ Option.some_ne_none value)) name hname).trans hown

end Later

end Machine

open Machine

/-! ## Scopes around code -/

/-- The scopes around code are those that its frames describe. They bind the names of the frames,
except for some that may be missing, and `this` and `super` exactly where the frames have them. -/
inductive Scopes.Around (s : Scopes) (missing : Additions) : List Frame → ScopeId → Prop
  | global : globals < s.next → Around s missing [] globals
  | inner {frame : Frame} {outer : List Frame} {id parent : ScopeId} :
      Around s missing outer parent → s.parent? id = some parent →
      (∀ name, frame.declares name = true →
        s.own? id name ≠ none ∨ missing id name ∧ ¬Reserved name) →
      (∀ name, Reserved name → s.own? id name ≠ none → frame.declares name = true) →
      Around s missing (frame :: outer) id

abbrev Scopes.Complete (s : Scopes) (frames : List Frame) (id : ScopeId) : Prop :=
  s.Around (fun _ _ => False) frames id

namespace Scopes.Around

variable {s : Scopes} {missing missing' : Additions} {frames : List Frame} {id : ScopeId}

theorem lt_next (h : s.Around missing frames id) : id < s.next := by
  cases h with
  | global hlt => exact hlt
  | inner _ hparent _ _ => exact Scopes.lt_of_parent? hparent

theorem mono (h : s.Around missing frames id)
    (hmissing : ∀ id name, missing id name → missing' id name) : s.Around missing' frames id := by
  induction h with
  | global hlt => exact .global hlt
  | inner _ hparent hnames hreserved ih =>
    refine .inner ih hparent (fun name h => ?_) hreserved
    exact (hnames name h).imp_right (And.imp_left (hmissing _ name))

theorem later {m m' : Machine} (h : m.scopes.Around missing frames id) (hlater : Later m m') :
    m'.scopes.Around missing frames id := by
  induction h with
  | global hlt => exact .global (Nat.lt_of_lt_of_le hlt hlater.next)
  | inner _ hparent hnames hreserved ih =>
    refine .inner ih (hlater.parent_some hparent)
      (fun name h => (hnames name h).imp_left (hlater.names _ name)) fun name hname hown => ?_
    rw [hlater.reserved _ (Scopes.lt_of_parent? hparent) name hname] at hown
    exact hreserved name hname hown

/-- A name is bound where its distance says, or it is one of those that are missing there. -/
theorem found (h : s.Around missing frames id) {name : String} {k : Nat}
    (hk : distanceIn frames name = some k) : ∃ owner, s.ancestor? k id = some owner ∧
      (s.own? owner name ≠ none ∨ missing owner name ∧ ¬Reserved name) := by
  induction h generalizing k with
  | global _ => exact absurd hk (by simp [distanceIn_nil])
  | @inner frame outer id parent houter hparent hnames _ ih =>
    rw [distanceIn_cons] at hk
    by_cases hframe : frame.declares name = true
    · rw [if_pos hframe] at hk
      obtain rfl := Option.some.inj hk
      exact ⟨id, Scopes.ancestor?_zero (Scopes.lt_of_parent? hparent), hnames name hframe⟩
    · rw [if_neg hframe] at hk
      obtain ⟨j, hj, rfl⟩ := Option.map_eq_some_iff.mp hk
      obtain ⟨owner, howner, hbound⟩ := ih hj
      exact ⟨owner, (Scopes.ancestor?_succ hparent).trans howner, hbound⟩

/-- No scope that is nearer than its distance says binds `this` or `super`. -/
theorem nearest (h : s.Around missing frames id) {name : String} (hname : Reserved name) {k : Nat}
    (hk : distanceIn frames name = some k) {j : Nat} (hj : j < k) {nearer : ScopeId}
    (hnearer : s.ancestor? j id = some nearer) : s.own? nearer name = none := by
  induction h generalizing k j with
  | global _ => exact absurd hk (by simp [distanceIn_nil])
  | @inner frame outer id parent houter hparent _ hreserved ih =>
    rw [distanceIn_cons] at hk
    by_cases hframe : frame.declares name = true
    · rw [if_pos hframe] at hk
      obtain rfl := Option.some.inj hk
      exact absurd hj (Nat.not_lt_zero j)
    · rw [if_neg hframe] at hk
      obtain ⟨k', hk', rfl⟩ := Option.map_eq_some_iff.mp hk
      cases j with
      | zero =>
        rw [Scopes.ancestor?_zero (Scopes.lt_of_parent? hparent)] at hnearer
        obtain rfl := Option.some.inj hnearer
        by_contra hown
        exact hframe (hreserved name hname hown)
      | succ j =>
        rw [Scopes.ancestor?_succ hparent] at hnearer
        exact ih hk' (Nat.lt_of_succ_lt_succ hj) hnearer

theorem putName (h : s.Around missing frames id) {name : String} (ready : Bool)
    (hbound : s.own? id name ≠ none ∨ missing id name ∧ ¬Reserved name) :
    s.Around missing (putName name ready frames) id := by
  cases h with
  | global hlt => exact .global hlt
  | inner houter hparent hnames hreserved =>
    refine .inner houter hparent (fun other hother => ?_) fun other hother hown => ?_
    · rw [Frame.declares_cons, Bool.or_eq_true, decide_eq_true_eq] at hother
      rcases hother with rfl | hother
      · exact hbound
      · exact hnames other hother
    · rw [Frame.declares_cons, hreserved other hother hown, Bool.or_true]

end Scopes.Around

/-- A statement can run in a scope: all names around it are bound, and the scope itself is not one
that a class made. -/
structure Machine.At (m : Machine) (frames : List Frame) (scope : ScopeId) : Prop where
  around : m.scopes.Complete frames scope
  plain : ∀ name, Reserved name → m.scopes.own? scope name = none

namespace Machine.At

variable {m m' : Machine} {frames : List Frame} {scope : ScopeId}

theorem later (h : m.At frames scope) (hlater : Later m m') : m'.At frames scope where
  around := h.around.later hlater
  plain name hname := (hlater.reserved scope h.around.lt_next name hname).trans (h.plain name hname)

/-- It does no harm if names may be missing. -/
theorem aroundAny (h : m.At frames scope) {missing : Additions} :
    m.scopes.Around missing frames scope :=
  h.around.mono fun _ _ hfalse => hfalse.elim

theorem declareName (h : m.At frames scope) {name : String}
    (hbound : m.scopes.own? scope name ≠ none) : m.At (declareName name frames) scope :=
  ⟨(h.around.putName false (.inl hbound)).putName true (.inl hbound), h.plain⟩

/-- The statements after a statement have what they need, if the name that it declares is bound. -/
theorem framesAfter (h : m.At frames scope) {s : Stmt}
    (hbound : ∀ name, s.declared? = some name → m.scopes.own? scope name ≠ none) :
    m.At (s.framesAfter frames) scope := by
  unfold Stmt.framesAfter
  cases hs : s.declared? with
  | none => exact h
  | some name => exact h.declareName (hbound name hs)

end Machine.At

/-! ## Sound values and machines -/

/-- A scope that was made to bind a method `g`, which the class `owner` declares, to an instance of
the class `c`. -/
structure MethodScope (s : Scopes) (id : ScopeId) (owner : Class ScopeId) (g : Closure ScopeId)
    (cell : Nat) (c : Class ScopeId) : Prop where
  listed : owner.methods.get? g.decl.name = some g
  inherits : owner ∈ c.chain
  receiver : s.own? id "this" = some (.object cell c)
  parent : s.parent? id = some g.env
  lt_next : g.env < s.next
  super : s.own? g.env "super" = owner.superclass.map .cls

def Closure.Bound (s : Scopes) (f : Closure ScopeId) : Prop :=
  ∃ owner g cell c, MethodScope s f.env owner g cell c ∧ f.decl = g.decl ∧
    f.isInitializer = f.decl.isInitializer

/-- The code of a function fits to its scope, and it is either a function that was `declared` or a
bound method. -/
structure Closure.Sound (declared : Closure ScopeId → Prop) (m : Machine) (f : Closure ScopeId) :
    Prop where
  code : ∃ frames, m.scopes.Complete frames f.env ∧ f.decl.Scoped frames
  origin : declared f ∨ f.Bound m.scopes

/-- The code of a method fits to its scope once the method is bound, and the scope has the
superclass. -/
structure Closure.MethodSound (m : Machine) (superclass : Option (Class ScopeId))
    (g : Closure ScopeId) : Prop where
  code : ∃ frames, m.scopes.Complete frames g.env ∧ g.decl.Scoped (thisFrame :: frames)
  super : m.scopes.own? g.env "super" = superclass.map .cls
  initializer : g.isInitializer = g.decl.isInitializer

/-- A class is younger than the classes above it, and all its methods are sound. -/
structure Class.Sound (m : Machine) (c : Class ScopeId) : Prop where
  older : c.identity < m.identity
  descends : c.chain.Pairwise fun lower upper => upper.identity < lower.identity
  methods : ∀ owner ∈ c.chain, ∀ name g, owner.methods.get? name = some g →
    g.decl.name = name ∧ g.MethodSound m owner.superclass

def Value.Sound (declared : Closure ScopeId → Prop) (m : Machine) : Value ScopeId → Prop
  | .function f => f.Sound declared m
  | .cls c | .object _ c => c.Sound m
  | _ => True

/-- All values that a machine holds are sound, and only methods are in scopes that bind `this`. -/
structure Machine.Sound (declared : Closure ScopeId → Prop) (m : Machine) : Prop where
  root : m.scopes.parent? globals = none
  global : m.At [] globals
  scopes : ∀ id name value, m.scopes.own? id name = some value → value.Sound declared m
  objects : ∀ cell, (m.objects.getD cell .empty).All (Value.Sound declared m)
  receivers : ∀ id, m.scopes.own? id "this" ≠ none →
    ∃ owner g cell c, MethodScope m.scopes id owner g cell c

section
variable {declared : Closure ScopeId → Prop} {m m' : Machine}

theorem MethodScope.later {id : ScopeId} {owner c : Class ScopeId} {g : Closure ScopeId}
    {cell : Nat} (h : MethodScope m.scopes id owner g cell c) (hlater : Later m m') :
    MethodScope m'.scopes id owner g cell c where
  listed := h.listed
  inherits := h.inherits
  receiver := hlater.reserved_some (.inl rfl) h.receiver
  parent := hlater.parent_some h.parent
  lt_next := Nat.lt_of_lt_of_le h.lt_next hlater.next
  super := (hlater.reserved g.env h.lt_next "super" (.inr rfl)).trans h.super

theorem Closure.Bound.later {f : Closure ScopeId} (h : f.Bound m.scopes) (hlater : Later m m') :
    f.Bound m'.scopes := by
  obtain ⟨owner, g, cell, c, hscope, hrest⟩ := h
  exact ⟨owner, g, cell, c, hscope.later hlater, hrest⟩

theorem Closure.Sound.later {f : Closure ScopeId} (h : f.Sound declared m) (hlater : Later m m') :
    f.Sound declared m' := by
  obtain ⟨frames, haround, hscoped⟩ := h.code
  exact ⟨⟨frames, haround.later hlater, hscoped⟩, h.origin.imp_right (·.later hlater)⟩

theorem Closure.MethodSound.later {superclass : Option (Class ScopeId)} {g : Closure ScopeId}
    (h : g.MethodSound m superclass) (hlater : Later m m') : g.MethodSound m' superclass := by
  obtain ⟨frames, haround, hscoped⟩ := h.code
  refine ⟨⟨frames, haround.later hlater, hscoped⟩, ?_, h.initializer⟩
  rw [hlater.reserved g.env haround.lt_next "super" (.inr rfl)]
  exact h.super

theorem Class.Sound.later {c : Class ScopeId} (h : c.Sound m) (hlater : Later m m') :
    c.Sound m' where
  older := Nat.lt_of_lt_of_le h.older hlater.identity
  descends := h.descends
  methods owner howner name g hg := by
    obtain ⟨hname, hsound⟩ := h.methods owner howner name g hg
    exact ⟨hname, hsound.later hlater⟩

theorem Value.Sound.later {value : Value ScopeId} (h : value.Sound declared m)
    (hlater : Later m m') : value.Sound declared m' := by
  cases value with
  | function f => exact Closure.Sound.later h hlater
  | cls c | object _ c => exact Class.Sound.later h hlater
  | _ => trivial

theorem Value.sound_ofLiteral (value : Literal) : (Value.ofLiteral value).Sound declared m := by
  cases value <;> trivial

/-- All classes of a chain were made before the next identity. -/
theorem Class.Sound.chain_older {c : Class ScopeId} (h : c.Sound m) :
    ∀ owner ∈ c.chain, owner.identity < m.identity := by
  intro owner howner
  have hdescends := h.descends
  have holder := h.older
  cases hsuper : c.superclass with
  | none =>
    rw [chain_of_none hsuper, List.mem_singleton] at howner
    rwa [howner]
  | some above =>
    rw [chain_of_some hsuper] at howner hdescends
    rcases List.mem_cons.mp howner with rfl | howner
    · exact holder
    · exact Nat.lt_trans ((List.pairwise_cons.mp hdescends).1 owner howner) holder

end

/-! ## Changes of a machine -/

namespace Machine

variable {declared : Closure ScopeId → Prop} {m m' : Machine} {allowed : Additions}

theorem later_of_scopes_eq (hscopes : m'.scopes = m.scopes) (hidentity : m.identity ≤ m'.identity) :
    Later m m' := by
  refine ⟨?_, fun id _ => ?_, fun id name hown => ?_, fun id _ name _ => ?_, hidentity⟩
  · rw [hscopes]
  · rw [hscopes]
  · rwa [hscopes]
  · rw [hscopes]

theorem addsOnly_of_scopes_eq (hscopes : m'.scopes = m.scopes) : AddsOnly allowed m m' := by
  intro id _ name hown
  rw [hscopes] at hown
  exact .inl hown

theorem later_push (m : Machine) (scope : Scope) :
    Later m { m with scopes := m.scopes.push scope } where
  next := by simp
  parent id hid := by simp only [Scopes.parent?_push, if_neg (Nat.ne_of_lt hid)]
  names id name hown := by
    have hid := Scopes.lt_of_own? hown
    simpa only [Scopes.own?_push, if_neg (Nat.ne_of_lt hid)] using hown
  reserved id hid name _ := by simp only [Scopes.own?_push, if_neg (Nat.ne_of_lt hid)]
  identity := Nat.le_refl _

theorem complete_push {frames : List Frame} {frame : Frame} {parent : ScopeId}
    {bindings : Bindings (Value ScopeId)} (h : m.scopes.Complete frames parent)
    (hnames : ∀ name, frame.declares name = true → bindings.get? name ≠ none)
    (hreserved : ∀ name, Reserved name → bindings.get? name ≠ none → frame.declares name = true) :
    (m.scopes.push ⟨bindings, some parent⟩).Complete (frame :: frames) m.scopes.next := by
  have houter := h.later (later_push m ⟨bindings, some parent⟩)
  refine .inner houter ?_ (fun name hname => .inl ?_) fun name hname hown => ?_
  · rw [Scopes.parent?_push, if_pos rfl]
  · rw [Scopes.own?_push, if_pos rfl]
    exact hnames name hname
  · rw [Scopes.own?_push, if_pos rfl] at hown
    exact hreserved name hname hown

theorem complete_pushName {frames : List Frame} {parent : ScopeId}
    (h : m.scopes.Complete frames parent) (name : String) (value : Value ScopeId) :
    (m.scopes.push ⟨Bindings.empty.insert name value, some parent⟩).Complete
      ([(name, true), (name, false)] :: frames) m.scopes.next := by
  have hget : ∀ key, (Bindings.empty.insert name value).get? key ≠ none ↔ key = name := by
    intro key
    rw [Bindings.get?_insert]
    by_cases hkey : key = name <;> simp [hkey]
  refine complete_push h (fun key hkey => (hget key).mpr ?_) fun key _ hkey => ?_
  · simpa [eq_comm] using hkey
  · simp [(hget key).mp hkey]

theorem addsOnly_push (scope : Scope) :
    AddsOnly allowed m { m with scopes := m.scopes.push scope } := by
  intro id hid name hown
  simp only [Scopes.own?_push, if_neg (Nat.ne_of_lt hid)] at hown
  exact .inl hown

private theorem own?_define_ne_none {s : Scopes} {id other : ScopeId} {name key : String}
    {value : Value ScopeId} (h : s.own? other key ≠ none) :
    (s.define id name value).own? other key ≠ none := by
  by_cases hsame : other = id ∧ key = name
  · obtain ⟨rfl, rfl⟩ := hsame
    rw [Scopes.own?_define_self _ _ _ _ (Scopes.lt_of_own? h)]
    exact Option.some_ne_none value
  · rwa [Scopes.own?_define_other _ _ _ _ _ _ hsame]

theorem later_define {name : String} (hname : ¬Reserved name) (id : ScopeId)
    (value : Value ScopeId) : Later m { m with scopes := m.scopes.define id name value } where
  next := by simp
  parent other _ := by simp
  names other key hown := own?_define_ne_none hown
  reserved other _ key hkey := by
    have hother : ¬(other = id ∧ key = name) := fun h => hname (h.2 ▸ hkey)
    exact Scopes.own?_define_other _ _ _ _ _ _ hother
  identity := Nat.le_refl _

theorem addsOnly_define {id : ScopeId} {name : String} (value : Value ScopeId)
    (h : m.scopes.own? id name ≠ none ∨ allowed id name) :
    AddsOnly allowed m { m with scopes := m.scopes.define id name value } := by
  intro other _ key hown
  by_cases hsame : other = id ∧ key = name
  · obtain ⟨rfl, rfl⟩ := hsame
    exact h
  · simp only [Scopes.own?_define_other _ _ _ _ _ _ hsame] at hown
    exact .inl hown

namespace Sound

theorem of_eq (h : m.Sound declared) (hscopes : m'.scopes = m.scopes)
    (hobjects : m'.objects = m.objects) (hidentity : m.identity ≤ m'.identity) :
    m'.Sound declared := by
  have hlater := later_of_scopes_eq hscopes hidentity
  refine ⟨?_, ?_, fun id name value hown => ?_, fun cell name value hfield => ?_, fun id hown => ?_⟩
  · rw [hscopes]
    exact h.root
  · exact h.global.later hlater
  · rw [hscopes] at hown
    exact (h.scopes id name value hown).later hlater
  · rw [hobjects] at hfield
    exact (h.objects cell name value hfield).later hlater
  · rw [hscopes] at hown ⊢
    exact h.receivers id hown

theorem push (h : m.Sound declared) {scope : Scope}
    (hscope : scope.bindings.All (Value.Sound declared m))
    (hthis : scope.bindings.get? "this" ≠ none →
      ∃ owner g cell c, MethodScope (m.scopes.push scope) m.scopes.next owner g cell c) :
    { m with scopes := m.scopes.push scope }.Sound declared := by
  have hlater := later_push m scope
  refine ⟨?_, h.global.later hlater, fun id name value hown => ?_,
    fun cell name value hfield => (h.objects cell name value hfield).later hlater,
    fun id hown => ?_⟩
  · rw [hlater.parent globals h.global.around.lt_next]
    exact h.root
  · simp only [Scopes.own?_push] at hown
    split at hown
    · exact (hscope name value hown).later hlater
    · exact (h.scopes id name value hown).later hlater
  · simp only [Scopes.own?_push] at hown
    split at hown
    · rename_i hid
      rw [hid]
      exact hthis hown
    · obtain ⟨owner, g, cell, c, hmethod⟩ := h.receivers id hown
      exact ⟨owner, g, cell, c, hmethod.later hlater⟩

/-- The new value has to be sound only after it was bound: a function may refer to itself. -/
theorem define (h : m.Sound declared) {name : String} (hname : ¬Reserved name) (id : ScopeId)
    {value : Value ScopeId}
    (hvalue : value.Sound declared { m with scopes := m.scopes.define id name value }) :
    { m with scopes := m.scopes.define id name value }.Sound declared := by
  have hlater : Later m { m with scopes := m.scopes.define id name value } :=
    later_define hname id value
  refine ⟨?_, h.global.later hlater, fun other key found hown => ?_,
    fun cell key found hfield => (h.objects cell key found hfield).later hlater,
    fun other hown => ?_⟩
  · rw [hlater.parent globals h.global.around.lt_next]
    exact h.root
  · by_cases hsame : other = id ∧ key = name
    · obtain ⟨rfl, rfl⟩ := hsame
      have hlt : other < m.scopes.next := by
        have hlt := Scopes.lt_of_own? (hown ▸ Option.some_ne_none found)
        rwa [Scopes.next_define] at hlt
      simp only [Scopes.own?_define_self _ _ _ _ hlt] at hown
      obtain rfl := Option.some.inj hown
      exact hvalue
    · simp only [Scopes.own?_define_other _ _ _ _ _ _ hsame] at hown
      exact (h.scopes other key found hown).later hlater
  · have hother : ¬(other = id ∧ "this" = name) := fun h => hname (h.2 ▸ .inl rfl)
    simp only [Scopes.own?_define_other _ _ _ _ _ _ hother] at hown
    obtain ⟨owner, g, cell, c, hmethod⟩ := h.receivers other hown
    exact ⟨owner, g, cell, c, hmethod.later hlater⟩

theorem withObjects (h : m.Sound declared) {objects : Array (Bindings (Value ScopeId))}
    (hobjects : ∀ cell, (objects.getD cell .empty).All (Value.Sound declared m)) :
    { m with objects }.Sound declared := by
  have hlater : Later m { m with objects } := later_of_scopes_eq rfl (Nat.le_refl _)
  exact ⟨h.root, h.global.later hlater,
    fun id name value hown => (h.scopes id name value hown).later hlater,
    fun cell name value hfield => (hobjects cell name value hfield).later hlater, h.receivers⟩

end Sound

end Machine

end LoxLang
