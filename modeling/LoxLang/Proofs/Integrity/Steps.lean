import LoxLang.Proofs.Course.Laws
import LoxLang.Proofs.Integrity.Basic

namespace LoxLang

open Machine

namespace Machine

/-! ## Moments -/

def Context.pending (ctx : Context) : Additions :=
  fun id name => ctx.initializing = some (id, name)

def Task.Declares : Task → Additions
  | .exec scope s => fun id name => id = scope ∧ s.declared? = some name
  | .execAll scope body => fun id name => id = scope ∧ name ∈ body.filterMap Stmt.declared?
  | _ => fun _ _ => False

def Task.IsExpression : Task → Prop
  | .eval .. | .evalAll .. => True
  | _ => False

/-- A task has what it needs: its code fits to its scope, its values are sound. -/
def Task.Ready (declared : Closure ScopeId → Prop) (missing : Additions) (m : Machine) :
    Task → Prop
  | .eval scope e => ∃ frames, e.Scoped frames ∧ m.scopes.Around missing frames scope
  | .evalAll scope es => ∃ frames, scopedArguments frames es ∧ m.scopes.Around missing frames scope
  | .call callee args _ => callee.Sound declared m ∧ ∀ arg ∈ args, arg.Sound declared m
  | .invoke f args => f.Sound declared m ∧ (∀ arg ∈ args, arg.Sound declared m) ∧
      f.decl.params.length = args.length
  | .execAll scope body => ∃ frames, scopedBody frames body ∧ m.At frames scope
  | .exec scope s => ∃ frames, s.Scoped frames ∧ m.At frames scope
  | .execLoop scope condition body => ∃ frames, condition.Scoped frames ∧
      (body.Scoped frames ∧ body.declared? = none) ∧ m.At frames scope

theorem Task.Ready.values {declared : Closure ScopeId → Prop} {missing : Additions} {m : Machine}
    {task : Task} (h : task.Ready declared missing m) :
    ∀ value ∈ task.values, value.Sound declared m := by
  cases task with
  | call callee args span => exact List.forall_mem_cons.mpr h
  | invoke f args => exact List.forall_mem_cons.mpr ⟨h.1, h.2.1⟩
  | _ => exact fun _ hvalue => absurd hvalue List.not_mem_nil

def Moment.MakesFunction (x : Moment) (f : Closure ScopeId) : Prop :=
  ∃ n scope decl, x.fuel = n + 1 ∧ x.task = .exec scope (.funDecl decl) ∧
    f = ⟨x.machine.identity, decl, scope, false⟩

/-- A moment at which the machine is sound, and at the end of its task again. -/
structure Moment.Sound (declared : Closure ScopeId → Prop) (clock : Nat → Float) (x : Moment) :
    Prop where
  opening : x.machine.Sound declared
  ready : x.task.Ready declared x.pending x.machine
  context : x.initializing = none ∨ x.task.IsExpression
  closing : (x.ending clock).Sound declared
  yields : ∀ value ∈ x.yields clock, value.Sound declared (x.ending clock)
  later : Later x.machine (x.ending clock)
  added : AddsOnly (fun id name => x.task.Declares id name ∨ x.pending id name) x.machine
    (x.ending clock)

/-! ## Orderly steps -/

variable {α β : Type} {clock : Nat → Float} {declared : Closure ScopeId → Prop}
  {allowed : Additions}

/-- A step from `m` with the result `r` keeps the machine sound and what is in its scopes, adds only
some names to the old ones, and goes through sound moments in order. A value that it gives has
`Q`. -/
structure Orderly (clock : Nat → Float) (declared : Closure ScopeId → Prop) (allowed : Additions)
    (m : Machine) (r : EStateM.Result Halt Machine α) (moments : List Moment)
    (Q : α → Machine → Prop) : Prop where
  later : Later m (ending r)
  added : AddsOnly allowed m (ending r)
  sound : (ending r).Sound declared
  result : ∀ a m', r = .ok a m' → Q a m'
  inside : ∀ x ∈ moments, x.Sound declared clock ∧ Later m x.machine ∧
    Later (x.ending clock) (ending r)
  ordered : moments.Pairwise fun x y => Later x.machine y.machine

/-- A step is orderly, provided that all functions that it declares count as declared. -/
def Proceeds (clock : Nat → Float) (declared : Closure ScopeId → Prop) (allowed : Additions)
    (p : Run α) (m : Machine) (moments : List Moment) (Q : α → Machine → Prop) : Prop :=
  (∀ x ∈ moments, ∀ f, x.MakesFunction f → declared f) →
    Orderly clock declared allowed m (p m) moments Q

def Additions.orNewerThan (allowed : Additions) (m : Machine) : Additions :=
  fun id name => allowed id name ∨ m.scopes.next ≤ id

theorem AddsOnly.trans {m m' m'' : Machine} (h : AddsOnly allowed m m') (hlater : Later m m')
    (h' : AddsOnly (allowed.orNewerThan m) m' m'') : AddsOnly allowed m m'' := by
  intro id hid name hown
  rcases h' id (Nat.lt_of_lt_of_le hid hlater.next) name hown with hown | hallowed | hnew
  · exact h id hid name hown
  · exact .inr hallowed
  · exact absurd hid (Nat.not_lt_of_le hnew)

namespace Proceeds

variable {p : Run α} {f : α → Run β} {m : Machine} {front : List Moment}
  {next : α → Machine → List Moment} {Q : α → Machine → Prop} {R : β → Machine → Prop}

theorem mono {allowed' : Additions} {Q' : α → Machine → Prop}
    (h : Proceeds clock declared allowed p m front Q)
    (hallowed : ∀ id name, allowed id name → allowed' id name)
    (hQ : ∀ a m', Q a m' → Q' a m') : Proceeds clock declared allowed' p m front Q' := by
  intro hknown
  have horderly := h hknown
  exact { horderly with
    added := fun id hid name hown =>
      (horderly.added id hid name hown).imp_right (hallowed id name)
    result := fun a m' hresult => hQ a m' (horderly.result a m' hresult) }

private theorem ofResult {r : EStateM.Result Halt Machine α} (hr : p m = r)
    (hlater : Later m (ending r))
    (hadded : AddsOnly allowed m (ending r)) (hsound : (ending r).Sound declared)
    (hresult : ∀ a m', r = .ok a m' → Q a m') : Proceeds clock declared allowed p m [] Q := by
  subst hr
  intro _
  exact ⟨hlater, hadded, hsound, hresult, fun _ hx => absurd hx List.not_mem_nil, .nil⟩

theorem ofSame {r : EStateM.Result Halt Machine α} (hr : p m = r)
    (hscopes : (ending r).scopes = m.scopes) (hidentity : m.identity ≤ (ending r).identity)
    (hsound : (ending r).Sound declared) (hresult : ∀ a m', r = .ok a m' → Q a m') :
    Proceeds clock declared allowed p m [] Q :=
  .ofResult hr (later_of_scopes_eq hscopes hidentity) (addsOnly_of_scopes_eq hscopes) hsound hresult

theorem pure (hm : m.Sound declared) {a : α} (ha : Q a m) :
    Proceeds clock declared allowed (Pure.pure a) m [] Q := by
  refine .ofSame rfl rfl (Nat.le_refl _) hm fun a' m' hresult => ?_
  obtain ⟨rfl, rfl⟩ := EStateM.Result.ok.inj hresult
  exact ha

theorem throw (hm : m.Sound declared) (halt : Halt) :
    Proceeds clock declared allowed (MonadExcept.throw halt : Run α) m [] Q :=
  .ofSame (r := .error halt m) rfl rfl (Nat.le_refl _) hm fun _ _ hresult => nomatch hresult

/-- A step and what comes after it, which may add any names to the scopes that are new by then. -/
theorem bindNew (hp : Proceeds clock declared allowed p m front Q)
    (hf : ∀ a m', Q a m' → Later m m' → m'.Sound declared →
      Proceeds clock declared (allowed.orNewerThan m) (f a) m' (next a m') R) :
    Proceeds clock declared allowed (p >>= f) m (front ++ after (p m) next) R := by
  intro hknown
  obtain ⟨hfront, hback⟩ := List.forall_mem_append.mp hknown
  have hfirst := hp hfront
  cases hresult : p m with
  | error halt m' =>
    have hbind : (p >>= f) m = .error halt m' := by rw [bind_apply, hresult]
    rw [hresult] at hfirst
    rw [hbind, after, List.append_nil]
    exact ⟨hfirst.later, hfirst.added, hfirst.sound, (fun _ _ hb => nomatch hb), hfirst.inside,
      hfirst.ordered⟩
  | ok a m' =>
    have hbind : (p >>= f) m = f a m' := by rw [bind_apply, hresult]
    rw [hresult] at hfirst hback
    rw [hbind, after]
    have hrest := hf a m' (hfirst.result a m' rfl) hfirst.later hfirst.sound hback
    refine ⟨hfirst.later.trans hrest.later, hfirst.added.trans hfirst.later hrest.added,
      hrest.sound, hrest.result, ?_, ?_⟩
    · refine List.forall_mem_append.mpr ⟨fun x hx => ?_, fun x hx => ?_⟩
      · obtain ⟨hx, hopening, hclosing⟩ := hfirst.inside x hx
        exact ⟨hx, hopening, hclosing.trans hrest.later⟩
      · obtain ⟨hx, hopening, hclosing⟩ := hrest.inside x hx
        exact ⟨hx, hfirst.later.trans hopening, hclosing⟩
    · refine List.pairwise_append.mpr ⟨hfirst.ordered, hrest.ordered, fun x hx y hy => ?_⟩
      obtain ⟨hx, -, hclosing⟩ := hfirst.inside x hx
      exact hx.later.trans (hclosing.trans (hrest.inside y hy).2.1)

theorem bind (hp : Proceeds clock declared allowed p m front Q)
    (hf : ∀ a m', Q a m' → Later m m' → m'.Sound declared →
      Proceeds clock declared allowed (f a) m' (next a m') R) :
    Proceeds clock declared allowed (p >>= f) m (front ++ after (p m) next) R :=
  hp.bindNew fun a m' ha hlater hm' =>
    (hf a m' ha hlater hm').mono (fun _ _ h => .inl h) fun _ _ h => h

theorem andThen (hp : Proceeds clock declared allowed p m front Q)
    (hf : ∀ a m', Q a m' → Later m m' → m'.Sound declared →
      Proceeds clock declared allowed (f a) m' [] R) :
    Proceeds clock declared allowed (p >>= f) m front R := by
  have hbind : Proceeds clock declared allowed (p >>= f) m (front ++ after (p m) fun _ _ => []) R :=
    hp.bind hf
  rwa [after_nil, List.append_nil] at hbind

theorem map (hp : Proceeds clock declared allowed p m front Q) {g : α → β}
    (hg : ∀ a m', Q a m' → R (g a) m') : Proceeds clock declared allowed (g <$> p) m front R := by
  rw [map_eq_pure_bind]
  exact hp.andThen fun a m' ha _ hm' => .pure hm' (hg a m' ha)

theorem first (hp : Proceeds clock declared allowed p m [] Q)
    (hf : ∀ a m', Q a m' → Later m m' → m'.Sound declared →
      Proceeds clock declared allowed (f a) m' (next a m') R) :
    Proceeds clock declared allowed (p >>= f) m (after (p m) next) R :=
  hp.bind hf

theorem firstNew (hp : Proceeds clock declared allowed p m [] Q)
    (hf : ∀ a m', Q a m' → Later m m' → m'.Sound declared →
      Proceeds clock declared (allowed.orNewerThan m) (f a) m' (next a m') R) :
    Proceeds clock declared allowed (p >>= f) m (after (p m) next) R :=
  hp.bindNew hf

theorem getThen {f : Machine → Run α} (h : Proceeds clock declared allowed (f m) m front Q) :
    Proceeds clock declared allowed (get >>= f) m front Q :=
  h

theorem enter {n : Nat} {ctx : Context} {task : Task}
    (hp : Proceeds clock declared allowed p m front Q) (hm : m.Sound declared)
    (hready : task.Ready declared ctx.pending m)
    (hcontext : ctx.initializing = none ∨ task.IsExpression) (values : α → List (Value ScopeId))
    (hrun : task.run clock n = values <$> p)
    (hallowed : ∀ id name, allowed id name → task.Declares id name ∨ ctx.pending id name)
    (hvalues : ∀ a m', Q a m' → ∀ value ∈ values a, value.Sound declared m') :
    Proceeds clock declared allowed p m (⟨ctx, n, task, m⟩ :: front) Q := by
  intro hknown
  obtain ⟨-, hrest⟩ := List.forall_mem_cons.mp hknown
  have horderly := hp hrest
  have hresult : Moment.result clock ⟨ctx, n, task, m⟩ = (values <$> p) m := by
    rw [Moment.result, hrun]
  have hending : Moment.ending clock ⟨ctx, n, task, m⟩ = ending (p m) := by
    rw [Moment.ending, hresult, ending_map]
  have hyields : ∀ value ∈ Moment.yields clock ⟨ctx, n, task, m⟩,
      value.Sound declared (ending (p m)) := by
    unfold Moment.yields
    rw [hresult, map_eq_pure_bind, bind_apply]
    cases hpm : p m with
    | ok a m' => exact hvalues a m' (horderly.result a m' hpm)
    | error halt m' => exact fun _ hvalue => absurd hvalue List.not_mem_nil
  have hmoment : Moment.Sound declared clock ⟨ctx, n, task, m⟩ := by
    refine ⟨hm, hready, hcontext, ?_, ?_, ?_, ?_⟩
    · rw [hending]
      exact horderly.sound
    · rw [hending]
      exact hyields
    · rw [hending]
      exact horderly.later
    · rw [hending]
      exact fun id hid name hown => (horderly.added id hid name hown).imp_right (hallowed id name)
  refine { horderly with inside := ?_, ordered := ?_ }
  · refine List.forall_mem_cons.mpr ⟨⟨hmoment, .refl m, ?_⟩, horderly.inside⟩
    rw [hending]
    exact .refl _
  · exact List.pairwise_cons.mpr ⟨fun y hy => (horderly.inside y hy).2.1, horderly.ordered⟩

end Proceeds

/-! ## Elementary steps -/

variable {m : Machine}

theorem proceeds_raise {Q : α → Machine → Prop} (hm : m.Sound declared) (error : Error)
    (span : Span) : Proceeds clock declared allowed (raise error span) m [] Q :=
  .throw hm _

private theorem proceeds_fault {Q : α → Machine → Prop} (hm : m.Sound declared) (what : Fault) :
    Proceeds clock declared allowed (fault what) m [] Q :=
  .throw hm _

theorem proceeds_emit (hm : m.Sound declared) (event : Event) :
    Proceeds clock declared allowed (emit event) m [] fun _ _ => True :=
  .ofSame rfl rfl (Nat.le_refl _) (hm.of_eq rfl rfl (Nat.le_refl _)) fun _ _ _ => trivial

theorem proceeds_newScope (hm : m.Sound declared) {parent : ScopeId}
    {bindings : Bindings (Value ScopeId)} (hbindings : bindings.All (Value.Sound declared m))
    (hthis : bindings.get? "this" ≠ none → ∃ owner g cell c,
      MethodScope (m.scopes.push ⟨bindings, some parent⟩) m.scopes.next owner g cell c) :
    Proceeds clock declared allowed (newScope parent bindings) m [] fun id m' =>
      id = m.scopes.next ∧ m' = { m with scopes := m.scopes.push ⟨bindings, some parent⟩ } := by
  refine .ofResult rfl (later_push m _) (addsOnly_push _) (hm.push hbindings hthis) ?_
  intro id m' hresult
  obtain ⟨hid, hm'⟩ := EStateM.Result.ok.inj hresult
  exact ⟨hid.symm, hm'.symm⟩

theorem proceeds_defineNew (hm : m.Sound declared) {scope : ScopeId} {name : String}
    {value : Value ScopeId} (hname : ¬Reserved name)
    (hvalue : value.Sound declared { m with scopes := m.scopes.define scope name value })
    (hscope : scope < m.scopes.next) (h : m.scopes.own? scope name ≠ none ∨ allowed scope name) :
    Proceeds clock declared allowed (define scope name value) m [] fun _ m' =>
      m'.scopes.own? scope name ≠ none := by
  refine .ofResult rfl (later_define hname scope value) (addsOnly_define value h)
    (hm.define hname scope hvalue) ?_
  intro _ m' hresult
  obtain ⟨-, rfl⟩ := EStateM.Result.ok.inj hresult
  simp only [Scopes.own?_define_self _ _ _ _ hscope, ne_eq, reduceCtorEq, not_false_eq_true]

theorem proceeds_define (hm : m.Sound declared) {scope : ScopeId} {name : String}
    {value : Value ScopeId} (hname : ¬Reserved name) (hvalue : value.Sound declared m)
    (hscope : scope < m.scopes.next) (h : m.scopes.own? scope name ≠ none ∨ allowed scope name) :
    Proceeds clock declared allowed (define scope name value) m [] fun _ m' =>
      m'.scopes.own? scope name ≠ none :=
  proceeds_defineNew hm hname (hvalue.later (later_define hname scope value)) hscope h

private theorem proceeds_getAt (hm : m.Sound declared) (scope : ScopeId) (distance : Nat)
    (name : String) :
    Proceeds clock declared allowed (getAt scope distance name) m [] fun v m' =>
      m' = m ∧ m.scopes.getAt? scope distance name = some v := by
  refine .getThen ?_
  cases m.scopes.getAt? scope distance name with
  | none => exact proceeds_fault hm _
  | some value => exact .pure hm ⟨rfl, rfl⟩

theorem Sound.getAt? (hm : m.Sound declared) {scope : ScopeId} {distance : Nat} {name : String}
    {value : Value ScopeId} (h : m.scopes.getAt? scope distance name = some value) :
    value.Sound declared m := by
  obtain ⟨owner, -, hown⟩ := Option.bind_eq_some_iff.mp h
  exact hm.scopes owner name value hown

theorem proceeds_lookup (hm : m.Sound declared) (scope : ScopeId) (ref : Ref) (span : Span) :
    Proceeds clock declared allowed (lookup scope ref span) m [] fun v m' =>
      v.Sound declared m' := by
  unfold lookup
  cases ref.distance with
  | some distance =>
    refine (proceeds_getAt hm scope distance ref.name).mono (fun _ _ h => h) ?_
    rintro v m' ⟨rfl, hv⟩
    exact hm.getAt? hv
  | none =>
    refine .getThen ?_
    cases hget : m.scopes.get? globals ref.name with
    | none => exact proceeds_raise hm _ span
    | some value =>
      obtain ⟨owner, -, hown⟩ := Option.bind_eq_some_iff.mp hget
      exact .pure hm (hm.scopes owner ref.name value hown)

private theorem proceeds_assignByName (hm : m.Sound declared) {scope : ScopeId} {name : String}
    {value : Value ScopeId} (span : Span) (hname : ¬Reserved name)
    (hvalue : value.Sound declared m)
    (h : m.scopes.own? scope name ≠ none ∨ m.scopes.parent? scope = none) :
    Proceeds clock declared allowed (assignByName scope name value span) m [] fun _ m' =>
      m'.scopes.own? scope name ≠ none := by
  refine .getThen ?_
  by_cases hown : m.scopes.own? scope name = none
  · have hroot := h.resolve_left fun hbound => hbound hown
    rw [Scopes.owner?_eq_none hown hroot]
    exact proceeds_raise hm _ span
  · rw [Scopes.owner?_of_own? hown]
    exact proceeds_define hm hname hvalue (Scopes.lt_of_own? hown) (.inl hown)

/-- An assignment adds no name, except one that is missing around it. -/
theorem proceeds_assign (hm : m.Sound declared) {frames : List Frame} {scope : ScopeId}
    {target : Ref} {value : Value ScopeId} (span : Span)
    (haround : m.scopes.Around allowed frames scope)
    (hdistance : target.distance = distanceIn frames target.name)
    (hname : ¬Reserved target.name) (hvalue : value.Sound declared m) :
    Proceeds clock declared allowed (assign scope target value span) m [] fun _ _ => True := by
  unfold assign
  cases hk : target.distance with
  | none =>
    exact (proceeds_assignByName hm span hname hvalue (.inr hm.root)).mono (fun _ _ h => h)
      fun _ _ _ => trivial
  | some k =>
    obtain ⟨owner, howner, hbound⟩ := haround.found (hdistance.symm.trans hk)
    refine .getThen ?_
    rw [howner]
    have hlt : owner < m.scopes.next := Scopes.lt_of_ancestor? howner
    have hadd := hbound.imp_right And.left
    exact (proceeds_define hm hname hvalue hlt hadd).mono (fun _ _ h => h) fun _ _ _ => trivial

theorem proceeds_newClosure (hm : m.Sound declared) (decl : FunDecl) (scope : ScopeId)
    (isInitializer : Bool) :
    Proceeds clock declared allowed (newClosure decl scope isInitializer) m [] fun f m' =>
      f = ⟨m.identity, decl, scope, isInitializer⟩ ∧ m'.scopes = m.scopes := by
  refine .ofSame rfl rfl (Nat.le_succ _) (hm.of_eq rfl rfl (Nat.le_succ _)) fun f m' hresult => ?_
  obtain ⟨hf, hm'⟩ := EStateM.Result.ok.inj hresult
  exact ⟨hf.symm, hm' ▸ rfl⟩

def MethodsSound (m : Machine) (superclass : Option (Class ScopeId))
    (methods : Bindings (Closure ScopeId)) : Prop :=
  ∀ name g, methods.get? name = some g → g.decl.name = name ∧ g.MethodSound m superclass

theorem MethodsSound.later {m m' : Machine} {superclass : Option (Class ScopeId)}
    {methods : Bindings (Closure ScopeId)} (h : MethodsSound m superclass methods)
    (hlater : Later m m') : MethodsSound m' superclass methods := by
  intro name g hg
  obtain ⟨hname, hsound⟩ := h name g hg
  exact ⟨hname, hsound.later hlater⟩

private theorem proceeds_newMethods (hm : m.Sound declared) {frames : List Frame} {scope : ScopeId}
    {superclass : Option (Class ScopeId)} {decls : List FunDecl}
    {methods : Bindings (Closure ScopeId)} (haround : m.scopes.Complete frames scope)
    (hsuper : m.scopes.own? scope "super" = superclass.map .cls)
    (hdecls : scopedMethods (thisFrame :: frames) decls)
    (hmethods : MethodsSound m superclass methods) :
    Proceeds clock declared allowed (newMethods scope decls methods) m [] fun methods' m' =>
      MethodsSound m' superclass methods' := by
  induction decls generalizing m methods with
  | nil => exact .pure hm hmethods
  | cons decl rest ih =>
    obtain ⟨hdecl, hrest⟩ := hdecls
    refine (proceeds_newClosure hm decl scope decl.isInitializer).andThen ?_
    rintro g m₁ ⟨rfl, hscopes⟩ hlater hm₁
    have haround₁ := haround.later hlater
    have hsuper₁ : m₁.scopes.own? scope "super" = superclass.map .cls := by rw [hscopes, hsuper]
    refine ih hm₁ haround₁ hsuper₁ hrest fun name g hg => ?_
    rw [Bindings.get?_insert] at hg
    split at hg
    · rename_i hname
      obtain rfl := Option.some.inj hg
      exact ⟨hname.symm, ⟨frames, haround₁, hdecl⟩, hsuper₁, rfl⟩
    · exact hmethods.later hlater name g hg

/-- A new class is sound, because the classes above it are older. -/
theorem Class.sound_new {name : String} {superclass : Option (Class ScopeId)}
    {methods : Bindings (Closure ScopeId)} (hsuper : ∀ above ∈ superclass, above.Sound m)
    (hmethods : MethodsSound m superclass methods) :
    (⟨m.identity, name, superclass, methods⟩ : Class ScopeId).Sound
      { m with identity := m.identity + 1 } := by
  have hlater : Later m { m with identity := m.identity + 1 } :=
    later_of_scopes_eq rfl (Nat.le_succ _)
  have hown := hmethods.later hlater
  cases superclass with
  | none =>
    refine ⟨Nat.lt_succ_self _, ?_, fun owner howner => ?_⟩
    · rw [Class.chain_of_none rfl]
      exact List.pairwise_singleton _ _
    · rw [Class.chain_of_none rfl, List.mem_singleton] at howner
      rw [howner]
      exact hown
  | some above =>
    have habove := hsuper above rfl
    refine ⟨Nat.lt_succ_self _, ?_, fun owner howner => ?_⟩
    · rw [Class.chain_of_some rfl]
      exact List.pairwise_cons.mpr ⟨habove.chain_older, habove.descends⟩
    · rw [Class.chain_of_some rfl] at howner
      rcases List.mem_cons.mp howner with rfl | howner
      · exact hown
      · exact (habove.later hlater).methods owner howner

private theorem proceeds_newClass (hm : m.Sound declared) (name : String)
    {superclass : Option (Class ScopeId)} {methods : Bindings (Closure ScopeId)}
    (hsuper : ∀ above ∈ superclass, above.Sound m) (hmethods : MethodsSound m superclass methods) :
    Proceeds clock declared allowed (newClass name superclass methods) m [] fun c m' =>
      c.Sound m' := by
  refine .ofSame rfl rfl (Nat.le_succ _) (hm.of_eq rfl rfl (Nat.le_succ _)) fun c m' hresult => ?_
  obtain ⟨rfl, rfl⟩ := EStateM.Result.ok.inj hresult
  exact Class.sound_new hsuper hmethods

theorem proceeds_declareClass (hm : m.Sound declared) {frames : List Frame}
    {scope inner : ScopeId} {name : String} {superclass : Option (Class ScopeId)}
    {decls : List FunDecl} (span : Span) (hname : ¬Reserved name)
    (hbound : m.scopes.own? scope name ≠ none) (haround : m.scopes.Complete frames inner)
    (hinner : m.scopes.own? inner "super" = superclass.map .cls)
    (hsuper : ∀ above ∈ superclass, above.Sound m)
    (hdecls : scopedMethods (thisFrame :: frames) decls) :
    Proceeds clock declared allowed (declareClass scope inner name superclass decls span) m []
      fun _ m' => m'.scopes.own? scope name ≠ none := by
  have hnone : MethodsSound m superclass .empty := fun _ _ hg => nomatch hg
  refine (proceeds_newMethods hm haround hinner hdecls hnone).andThen ?_
  intro methods m₁ hmethods hlater₁ hm₁
  refine (proceeds_emit hm₁ _).andThen fun _ m₂ _ hlater₂ hm₂ => ?_
  have hsuper₂ : ∀ above ∈ superclass, above.Sound m₂ := fun above habove =>
    (hsuper above habove).later (hlater₁.trans hlater₂)
  refine (proceeds_newClass hm₂ name hsuper₂ (hmethods.later hlater₂)).andThen ?_
  intro c m₃ hc hlater₃ hm₃
  have hbound₃ := (hlater₁.trans (hlater₂.trans hlater₃)).names scope name hbound
  exact proceeds_assignByName hm₃ span hname hc (.inl hbound₃)

theorem proceeds_newObject (hm : m.Sound declared) {c : Class ScopeId} (hc : c.Sound m) :
    Proceeds clock declared allowed (newObject c) m [] fun v m' =>
      (∃ cell, v = .object cell c) ∧ v.Sound declared m' := by
  have hlater : Later m { m with objects := m.objects.push .empty } :=
    later_of_scopes_eq rfl (Nat.le_refl _)
  refine .ofSame rfl rfl (Nat.le_refl _) (hm.withObjects (Bindings.All.pushEmpty hm.objects)) ?_
  intro v m' hresult
  obtain ⟨rfl, rfl⟩ := EStateM.Result.ok.inj hresult
  exact ⟨⟨_, rfl⟩, hc.later hlater⟩

theorem proceeds_setField (hm : m.Sound declared) (cell : Nat) (name : String)
    {value : Value ScopeId} (hvalue : value.Sound declared m) :
    Proceeds clock declared allowed (setField cell name value) m [] fun _ _ => True :=
  .ofSame rfl rfl (Nat.le_refl _) (hm.withObjects (Bindings.All.modify hm.objects hvalue))
    fun _ _ _ => trivial

private theorem methodScope_push {owner c : Class ScopeId} {g : Closure ScopeId} (cell : Nat)
    (hlisted : owner.methods.get? g.decl.name = some g) (hinherits : owner ∈ c.chain)
    (hg : g.MethodSound m owner.superclass) :
    MethodScope
      (m.scopes.push ⟨Bindings.empty.insert "this" (.object cell c), some g.env⟩)
      m.scopes.next owner g cell c := by
  obtain ⟨frames, haround, -⟩ := hg.code
  have hne : g.env ≠ m.scopes.next := Nat.ne_of_lt haround.lt_next
  refine ⟨hlisted, hinherits, ?_, ?_, ?_, ?_⟩
  · rw [Scopes.own?_push, if_pos rfl, Bindings.get?_insert, if_pos rfl]
  · rw [Scopes.parent?_push, if_pos rfl]
  · rw [Scopes.next_push]
    exact Nat.lt_succ_of_lt haround.lt_next
  · rw [Scopes.own?_push, if_neg hne]
    exact hg.super

theorem proceeds_bind (hm : m.Sound declared) {owner c : Class ScopeId} {g : Closure ScopeId}
    (cell : Nat) (hc : c.Sound m) (hlisted : owner.methods.get? g.decl.name = some g)
    (hinherits : owner ∈ c.chain) (hg : g.MethodSound m owner.superclass) :
    Proceeds clock declared allowed (Machine.bind g (.object cell c)) m [] fun f m' =>
      f.Sound declared m' ∧ f.decl = g.decl := by
  have hscope := methodScope_push cell hlisted hinherits hg
  have hbindings : (Bindings.empty.insert "this" (.object cell c)).All (Value.Sound declared m) :=
    Bindings.All.empty.insert hc
  obtain ⟨frames, haround, hscoped⟩ := hg.code
  have hcode : (m.scopes.push ⟨Bindings.empty.insert "this" (.object cell c), some g.env⟩).Complete
      (thisFrame :: frames) m.scopes.next :=
    complete_pushName haround "this" _
  refine (proceeds_newScope hm hbindings fun _ => ⟨owner, g, cell, c, hscope⟩).andThen ?_
  rintro id m₁ ⟨rfl, rfl⟩ - hm₁
  refine (proceeds_newClosure hm₁ g.decl m.scopes.next g.isInitializer).mono (fun _ _ h => h) ?_
  rintro f m₂ ⟨rfl, hscopes⟩
  simp only at hscopes
  rw [← hscopes] at hscope hcode
  exact ⟨⟨⟨thisFrame :: frames, hcode, hscoped⟩,
    .inr ⟨owner, g, cell, c, hscope, rfl, hg.initializer⟩⟩, rfl⟩

private theorem proceeds_boundMethod (hm : m.Sound declared) {above c : Class ScopeId} (cell : Nat)
    (name : String) (span : Span) (hc : c.Sound m) (habove : above.Sound m)
    (hinherits : ∀ owner ∈ above.chain, owner ∈ c.chain) :
    Proceeds clock declared allowed (match above.method? name with
      | some method => .function <$> Machine.bind method (.object cell c)
      | none => raise (.noSuchAttribute above.name name) span : Run (Value ScopeId)) m []
      fun v m' => v.Sound declared m' := by
  cases hmethod : above.method? name with
  | none => exact proceeds_raise hm _ span
  | some g =>
    obtain ⟨owner, howner, hlisted⟩ := Class.exists_of_method? hmethod
    obtain ⟨rfl, hg⟩ := habove.methods owner howner name g hlisted
    exact (proceeds_bind hm cell hc hlisted (hinherits owner howner) hg).map fun f m' hf => hf.1

theorem proceeds_property (hm : m.Sound declared) {receiver : Value ScopeId} (name : String)
    (span : Span) (hreceiver : receiver.Sound declared m) :
    Proceeds clock declared allowed (property receiver name span) m [] fun v m' =>
      v.Sound declared m' := by
  cases receiver with
  | object cell c =>
    refine .getThen ?_
    cases hfield : (m.objects.getD cell .empty).get? name with
    | some value => exact .pure hm (hm.objects cell name value hfield)
    | none => exact proceeds_boundMethod hm cell name span hreceiver hreceiver fun _ h => h
  | _ => exact proceeds_raise hm _ span

/-- The scope that binds `this` is the scope of a method, and `super` is bound around it. -/
theorem Sound.methodAt (hm : m.Sound declared) {scope : ScopeId} {k : Nat} {cell : Nat}
    {c : Class ScopeId} (hthis : m.scopes.getAt? scope k "this" = some (.object cell c)) :
    ∃ id owner g, m.scopes.ancestor? k scope = some id ∧
      MethodScope m.scopes id owner g cell c ∧
      m.scopes.getAt? scope (k + 1) "super" = owner.superclass.map .cls := by
  obtain ⟨id, hid, hown⟩ := Option.bind_eq_some_iff.mp hthis
  obtain ⟨owner, g, cell', c', hscope⟩ :=
    hm.receivers id (hown ▸ Option.some_ne_none (Value.object cell c))
  obtain ⟨rfl, rfl⟩ := Value.object.inj (Option.some.inj (hscope.receiver.symm.trans hown))
  refine ⟨id, owner, g, hid, hscope, ?_⟩
  rw [Scopes.getAt?, Scopes.ancestor?_parent hid hscope.parent hscope.lt_next]
  exact hscope.super

theorem proceeds_superMethod (hm : m.Sound declared) (scope : ScopeId) (distance : Option Nat)
    (name : String) (span : Span) :
    Proceeds clock declared allowed (superMethod scope distance name span) m [] fun v m' =>
      v.Sound declared m' := by
  unfold superMethod
  cases distance with
  | none => exact proceeds_fault hm _
  | some distance =>
    cases distance with
    | zero => exact proceeds_fault hm _
    | succ inner =>
      refine (proceeds_getAt hm scope (inner + 1) "super").andThen ?_
      rintro above m' ⟨rfl, habove⟩ - -
      cases above with
      | cls above =>
        refine (proceeds_getAt hm scope inner "this").andThen ?_
        rintro receiver m' ⟨rfl, hreceiver⟩ - -
        cases receiver with
        | object cell c =>
          obtain ⟨id, owner, g, -, hscope, hsuper⟩ := hm.methodAt hreceiver
          have howner : owner.superclass = some above := by
            cases howner : owner.superclass with
            | none => simp [hsuper, howner] at habove
            | some above' => simpa [hsuper, howner] using habove
          refine proceeds_boundMethod hm cell name span (hm.getAt? hreceiver) (hm.getAt? habove) ?_
          intro class' hclass'
          exact Class.mem_chain_of_superclass hscope.inherits howner hclass'
        | _ => exact proceeds_fault hm _
      | _ => exact proceeds_fault hm _

theorem proceeds_writeLine (hm : m.Sound declared) (text : String) (span : Span) :
    Proceeds clock declared allowed (writeLine text span) m [] fun _ _ => True := by
  have hwrite : Proceeds clock declared allowed (modifyGet fun m : Machine =>
      ((m.output.write (text ++ "\n").toUTF8).2,
        { m with output := (m.output.write (text ++ "\n").toUTF8).1 }) : Run Bool) m []
      fun _ _ => True :=
    .ofSame rfl rfl (Nat.le_refl _) (hm.of_eq rfl rfl (Nat.le_refl _)) fun _ _ _ => trivial
  refine hwrite.andThen fun ok m' _ _ hm' => ?_
  cases ok with
  | true => exact .pure hm' trivial
  | false => exact proceeds_raise hm' _ span

theorem proceeds_readClock (hm : m.Sound declared) :
    Proceeds clock declared allowed (readClock clock) m [] fun v m' => v.Sound declared m' := by
  refine .ofSame rfl rfl (Nat.le_refl _) (hm.of_eq rfl rfl (Nat.le_refl _)) fun v m' hresult => ?_
  obtain ⟨rfl, -⟩ := EStateM.Result.ok.inj hresult
  trivial

theorem proceeds_checkArity (hm : m.Sound declared) (name : String) (expected got : Nat)
    (span : Span) : Proceeds clock declared allowed (checkArity name expected got span) m []
      fun _ _ => expected = got := by
  unfold checkArity
  split
  · rename_i heq
    exact .pure hm heq
  · exact proceeds_raise hm _ span

theorem proceeds_settle (hm : m.Sound declared) {result : Except Error (Value ScopeId)}
    (span : Span) (h : ∃ literal : Except Error Literal, result = literal.map .ofLiteral) :
    Proceeds clock declared allowed (settle result span) m [] fun v m' => v.Sound declared m' := by
  obtain ⟨literal, rfl⟩ := h
  cases literal with
  | ok value => exact .pure hm (Value.sound_ofLiteral value)
  | error e => exact proceeds_raise hm e span

theorem proceeds_callResult (hm : m.Sound declared) (f : Closure ScopeId) {flow : Flow ScopeId}
    (h : ∀ v ∈ flow.values, v.Sound declared m) :
    Proceeds clock declared allowed (callResult f flow) m [] fun v m' => v.Sound declared m' := by
  unfold callResult
  split
  · refine (proceeds_getAt hm f.env 0 "this").mono (fun _ _ h => h) ?_
    rintro v m' ⟨rfl, hv⟩
    exact hm.getAt? hv
  · cases flow with
    | normal => exact .pure hm trivial
    | returned value => exact .pure hm (h value List.mem_cons_self)

theorem Proceeds.inFrame {p : Run α} {body : List Moment} {Q : α → Machine → Prop}
    (span : Span) (hroom : ¬m.frames ≥ maxFrames)
    (hQ : ∀ a (m' : Machine), Q a m' → Q a { m' with frames := m'.frames - 1 })
    (hp : Proceeds clock declared allowed p { m with frames := m.frames + 1 } body Q) :
    Proceeds clock declared allowed (inFrame span p) m body Q := by
  intro hknown
  have horderly := hp hknown
  have hrun : Machine.inFrame span p m = onMachine (fun m' => { m' with frames := m'.frames - 1 })
      (p { m with frames := m.frames + 1 }) := by
    unfold Machine.inFrame
    rw [if_neg hroom]
    cases p { m with frames := m.frames + 1 } <;> rfl
  rw [hrun]
  refine ⟨?_, ?_, ?_, fun a m' hresult => ?_, fun x hx => ?_, horderly.ordered⟩
  · rw [ending_onMachine]
    exact { horderly.later with }
  · rw [ending_onMachine]
    exact horderly.added
  · rw [ending_onMachine]
    exact horderly.sound.of_eq rfl rfl (Nat.le_refl _)
  · cases hbody : p { m with frames := m.frames + 1 } with
    | ok a' m₁ =>
      rw [hbody] at hresult
      obtain ⟨rfl, rfl⟩ := EStateM.Result.ok.inj hresult
      exact hQ a' m₁ (horderly.result a' m₁ hbody)
    | error halt m₁ =>
      rw [hbody] at hresult
      exact nomatch hresult
  · obtain ⟨hsound, hopening, hclosing⟩ := horderly.inside x hx
    rw [ending_onMachine]
    exact ⟨hsound, { hopening with }, { hclosing with }⟩

end Machine

end LoxLang
