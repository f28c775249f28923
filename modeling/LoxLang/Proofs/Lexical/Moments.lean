import LoxLang.Proofs.Course.Starts
import LoxLang.Proofs.Integrity.Sessions
import LoxLang.Proofs.Lexical.Sessions
/-!
# Lexical scoping in the course of a run

Not only at the ends of a program, but at each moment of its run there is a state of
the reference that is related to the machine, and the task at hand is one that the
reference can be given. So whatever is shown for one task from related states holds
wherever that task comes up.
-/
namespace LoxLang.Lexical
open World

variable {clock : Nat → Float} {floor : Nat} {w : World} {m m' : Machine} {s : State}

theorem Agree.of_ok {α β : Type} {p : LoxLang.Run α} {q : Run β} {P : World → α → β → Prop}
    (h : Agree floor w p q P) (hrel : Rel w m s) (hfloor : floor ≤ w.scopes.next) {a : α}
    (hok : p m = .ok a m') :
    ∃ w' b s', Extends floor w w' ∧ Rel w' m' s' ∧ P w' a b := by
  have hends := h m s hrel hfloor
  rw [hok] at hends
  generalize q s = right at hends
  cases hends with
  | ok hw hrel' hP => exact ⟨_, _, _, hw, hrel', hP⟩

/-- The code of a task stands somewhere in a world, and its values have counterparts. -/
def Placed (w : World) : Machine.Task → Prop
  | .eval scope e => ∃ frames env, w.Sees frames scope env ∧ e.Scoped frames
  | .evalAll scope es => ∃ frames env, w.Sees frames scope env ∧ scopedArguments frames es
  | .call callee args _ => ∃ callee' args', w.Same callee callee' ∧ List.Forall₂ w.Same args args'
  | .invoke f args => ∃ g args', w.SameFunction f g ∧ List.Forall₂ w.Same args args' ∧
      f.decl.params.length = args.length
  | .execAll scope body => ∃ frames env, w.At frames scope env ∧ scopedBody frames body
  | .exec scope s => ∃ frames env, w.At frames scope env ∧ s.Scoped frames
  | .execLoop scope condition body => ∃ frames env, w.At frames scope env ∧
      condition.Scoped frames ∧ body.Scoped frames ∧ body.declared? = none

def Mirrored (x : Machine.Moment) : Prop :=
  ∃ w s, Rel w x.machine s ∧ Placed w x.task

section
variable {n : Nat} {frames : List Frame} {scope : ScopeId} {env : Env} {e : Expr}
  {v : Value ScopeId}

private theorem At.after_eval (hrel : Rel w m s) (hat : w.At frames scope env)
    (he : e.Scoped frames) (h : Machine.eval clock n scope e m = .ok v m') :
    ∃ w' s', Rel w' m' s' ∧ w'.At frames scope env := by
  obtain ⟨w', _, s', hw, hrel', -⟩ :=
    ((simulates clock n).eval hat.chain.sees he).of_ok hrel hat.lt h
  exact ⟨w', s', hrel', hat.mono hw⟩

private theorem Sees.after_eval (hrel : Rel w m s) (hsees : w.Sees frames scope env)
    (he : e.Scoped frames) (h : Machine.eval clock n scope e m = .ok v m') :
    ∃ w' s' v', Rel w' m' s' ∧ w'.Sees frames scope env ∧ w'.Same v v' := by
  obtain ⟨w', v', s', hw, hrel', hv⟩ :=
    ((simulates clock n).eval hsees he).of_ok hrel (Nat.zero_le _) h
  exact ⟨w', s', v', hrel', hsees.mono hw, hv⟩

end

private theorem scoped_firstOperand {frames : List Frame} {e part : Expr}
    (h : e.firstOperand? = some part) (he : e.Scoped frames) : part.Scoped frames := by
  cases e with
  | literal | var | this | super => exact absurd h.symm (Option.some_ne_none part)
  | grouping | unary | get =>
    obtain rfl := Option.some.inj h
    exact he
  | binary | logical | call | set =>
    obtain rfl := Option.some.inj h
    exact he.1
  | assign =>
    obtain rfl := Option.some.inj h
    exact he.2.2

/-- The initializer of a variable can be evaluated once its name is declared. -/
theorem placed_initializer {frames : List Frame} {scope : ScopeId} {env : Env} {span : Span}
    {name : String} {e : Expr} (hrel : Rel w m s) (hat : w.At frames scope env)
    (h : (Stmt.varDecl span name (some e)).Scoped frames) :
    ∃ w' s', Rel w' m s' ∧ Placed w' (.eval scope e) := by
  obtain ⟨⟨hname, hfresh⟩, hvalue⟩ := h
  have hdeclare : Agree scope w (Pure.pure () : LoxLang.Run Unit) (declare env name >>= Pure.pure)
      (fun w' _ env' => Declared w' frames scope env' name) :=
    .declareThen hat hname hfresh (Nat.le_refl _) fun w' env' _ hd => .pure hd
  obtain ⟨w', env', s', -, hrel', hd⟩ := hdeclare.of_ok hrel (Nat.le_of_lt hat.lt) rfl
  exact ⟨w', s', hrel', putName name false frames, env', hd.sees, hvalue e rfl⟩

private theorem placed_construct {c : Class ScopeId} {d : Class Env} {args : List (Value ScopeId)}
    {args' : List (Value Env)} {initializer method : Closure ScopeId} {receiver : Value ScopeId}
    {m₁ m₂ : Machine} (hrel : Rel w m s) (hc : w.SameClass c d)
    (hargs : List.Forall₂ w.Same args args')
    (found : c.method? initializerName = some initializer)
    (arity : initializer.decl.params.length = args.length)
    (hobject : Machine.newObject c m = .ok receiver m₁)
    (hbind : Machine.bind initializer receiver m₁ = .ok method m₂) :
    ∃ w' s', Rel w' m₂ s' ∧ Placed w' (.invoke method args) := by
  obtain ⟨w₁, _, s₁, hw₁, hrel₁, cell, rfl, -, -⟩ :=
    (agree_newObject hc).of_ok hrel (Nat.zero_le _) hobject
  have hmethod := hc.method? initializerName
  rw [found] at hmethod
  generalize d.method? initializerName = initializer' at hmethod
  cases hmethod with
  | some hsame =>
    obtain ⟨w₂, g, s₂, hw₂, hrel₂, hfunction, hdecl⟩ :=
      (agree_bind (hsame.mono hw₁) (hc.mono hw₁)).of_ok hrel₁ (Nat.zero_le _) hbind
    have hargs₂ := forall₂_same_mono (forall₂_same_mono hargs hw₁) hw₂
    exact ⟨w₂, s₂, hrel₂, g, args', hfunction, hargs₂, hdecl ▸ arity⟩

theorem Mirrored.starts {x y : Machine.Moment} (hx : Mirrored x)
    (h : Machine.Starts clock x y) : Mirrored y := by
  obtain ⟨w, s, hrel, hplaced⟩ := hx
  cases h with
  | operand h =>
    obtain ⟨frames, env, hsees, he⟩ := hplaced
    exact ⟨w, s, hrel, frames, env, hsees, scoped_firstOperand h he⟩
  | right h | otherwise h =>
    obtain ⟨frames, env, hsees, hleft, hright⟩ := hplaced
    obtain ⟨w', s', _, hrel', hsees', -⟩ := Sees.after_eval hrel hsees hleft h
    exact ⟨w', s', hrel', frames, env, hsees', hright⟩
  | arguments h =>
    obtain ⟨frames, env, hsees, hcallee, hargs⟩ := hplaced
    obtain ⟨w', s', _, hrel', hsees', -⟩ := Sees.after_eval hrel hsees hcallee h
    exact ⟨w', s', hrel', frames, env, hsees', hargs⟩
  | fieldValue h =>
    obtain ⟨frames, env, hsees, hobject, hvalue⟩ := hplaced
    obtain ⟨w', s', _, hrel', hsees', -⟩ := Sees.after_eval hrel hsees hobject h
    exact ⟨w', s', hrel', frames, env, hsees', hvalue⟩
  | call h hargs =>
    obtain ⟨frames, env, hsees, hcallee, hes⟩ := hplaced
    obtain ⟨w₁, s₁, f', hrel₁, hsees₁, hf⟩ := Sees.after_eval hrel hsees hcallee h
    obtain ⟨w₂, values', s₂, hw₂, hrel₂, hvalues⟩ :=
      ((simulates clock _).evalAll hsees₁ hes).of_ok hrel₁ (Nat.zero_le _) hargs
    exact ⟨w₂, { s₂ with frames := s₂.frames + 1 },
      { hrel₂ with frames := congrArg (· + 1) hrel₂.frames }, f', values', hf.mono hw₂, hvalues⟩
  | firstValue =>
    obtain ⟨frames, env, hsees, hfirst, -⟩ := hplaced
    exact ⟨w, s, hrel, frames, env, hsees, hfirst⟩
  | otherValues h =>
    obtain ⟨frames, env, hsees, hfirst, hothers⟩ := hplaced
    obtain ⟨w', s', _, hrel', hsees', -⟩ := Sees.after_eval hrel hsees hfirst h
    exact ⟨w', s', hrel', frames, env, hsees', hothers⟩
  | invoke arity =>
    obtain ⟨callee', args', hcallee, hargs⟩ := hplaced
    cases hcallee with
    | function hf => exact ⟨w, s, hrel, _, args', hf, hargs, arity⟩
  | construct found arity hobject hbind =>
    obtain ⟨callee', args', hcallee, hargs⟩ := hplaced
    cases hcallee with
    | cls hc => exact placed_construct hrel hc hargs found arity hobject hbind
  | code h =>
    obtain ⟨g, args', hf, hargs, arity⟩ := hplaced
    obtain ⟨w', env, s', -, hrel', frames, hat, hbody, -⟩ :=
      (agree_enterFunction hf hargs arity).of_ok hrel (Nat.zero_le _) h
    exact ⟨w', s', hrel', frames, env, hat, hbody⟩
  | firstStmt =>
    obtain ⟨frames, env, hat, hfirst, -⟩ := hplaced
    exact ⟨w, s, hrel, frames, env, hat, hfirst⟩
  | otherStmts h =>
    obtain ⟨frames, env, hat, hfirst, hothers⟩ := hplaced
    obtain ⟨w', r, s', -, hrel', -, hat', -⟩ :=
      ((simulates clock _).exec hat hfirst (Nat.le_refl _)).of_ok hrel (Nat.le_of_lt hat.lt) h
    exact ⟨w', s', hrel', _, r.2, hat', hothers⟩
  | expr h | print h =>
    obtain ⟨frames, env, hat, hvalue⟩ := hplaced
    obtain ⟨-, rfl⟩ := EStateM.Result.ok.inj h
    exact ⟨w, s, hrel.withEvents _, frames, env, hat.chain.sees, hvalue⟩
  | ret =>
    obtain ⟨frames, env, hat, hvalue⟩ := hplaced
    exact ⟨w, s, hrel, frames, env, hat.chain.sees, hvalue _ rfl⟩
  | varDecl =>
    obtain ⟨frames, env, hat, hdecl⟩ := hplaced
    exact placed_initializer hrel hat hdecl
  | block h =>
    obtain ⟨frames, env, hat, hbody⟩ := hplaced
    have henter : Agree 0 w (Machine.newScope _ .empty) (Pure.pure env.enter)
        (fun w' inner env' => w'.At ([] :: frames) inner env' ∧ 0 ≤ inner) :=
      agree_enter hat.chain .nil (by simp) (by simp) (by simp)
    obtain ⟨w', env', s', -, hrel', hat', -⟩ := henter.of_ok hrel (Nat.zero_le _) h
    exact ⟨w', s', hrel', [] :: frames, env', hat', hbody⟩
  | condition =>
    obtain ⟨frames, env, hat, hcondition, -⟩ := hplaced
    exact ⟨w, s, hrel, frames, env, hat.chain.sees, hcondition⟩
  | yes h =>
    obtain ⟨frames, env, hat, hcondition, ⟨hyes, -⟩, -⟩ := hplaced
    obtain ⟨w', s', hrel', hat'⟩ := At.after_eval hrel hat hcondition h
    exact ⟨w', s', hrel', frames, env, hat', hyes⟩
  | no h =>
    obtain ⟨frames, env, hat, hcondition, -, hno, -⟩ := hplaced
    obtain ⟨w', s', hrel', hat'⟩ := At.after_eval hrel hat hcondition h
    exact ⟨w', s', hrel', frames, env, hat', hno⟩
  | loop => exact ⟨w, s, hrel, hplaced⟩
  | loopCondition =>
    obtain ⟨frames, env, hat, hcondition, -⟩ := hplaced
    exact ⟨w, s, hrel, frames, env, hat.chain.sees, hcondition⟩
  | loopBody h =>
    obtain ⟨frames, env, hat, hcondition, hbody, -⟩ := hplaced
    obtain ⟨w', s', hrel', hat'⟩ := At.after_eval hrel hat hcondition h
    exact ⟨w', s', hrel', frames, env, hat', hbody⟩
  | loopAgain h holds hbody =>
    obtain ⟨frames, env, hat, hcondition, hscoped, hplain⟩ := hplaced
    obtain ⟨w₁, s₁, hrel₁, hat₁⟩ := At.after_eval hrel hat hcondition h
    obtain ⟨w₂, r, s₂, -, hrel₂, -, hat₂, -⟩ :=
      (agree_execPlain (simulates clock _) hat₁ hscoped hplain (Nat.le_refl _)).of_ok hrel₁
        (Nat.le_of_lt hat₁.lt) hbody
    exact ⟨w₂, s₂, hrel₂, frames, env, hat₂, hcondition, hscoped, hplain⟩

/-- At all moments of a session some state of the reference is related to the machine. -/
theorem mirrored_session (clock : Nat → Float) (fuel : Nat) (room : Option Nat)
    (sources : List String) :
    ∀ x ∈ Machine.sessionMoments clock fuel sources (Machine.initial room), Mirrored x := by
  have hstep (x y : Machine.Moment) (hx : Mirrored x) (hxy : Machine.Starts clock x y) :
      Mirrored y := hx.starts hxy
  have hfirst (first : Stmt) (others : List Stmt) (m : Machine)
      (h : scopedBody [] (first :: others) ∧ ∃ w s, Rel w m s) :
      Mirrored ⟨{}, fuel, .exec Machine.globals first, m⟩ := by
    obtain ⟨⟨hscoped, -⟩, w, s, hrel⟩ := h
    exact ⟨w, s, hrel, [], .global, at_globals hrel.rootLt, hscoped⟩
  have hnext (first : Stmt) (others : List Stmt) (m : Machine) (flow : Flow ScopeId) (m' : Machine)
      (h : scopedBody [] (first :: others) ∧ ∃ w s, Rel w m s)
      (hexec : Machine.exec clock fuel Machine.globals first m = .ok flow m') :
      scopedBody [] others ∧ ∃ w s, Rel w m' s := by
    obtain ⟨⟨hscoped, hothers⟩, w, s, hrel⟩ := h
    obtain ⟨w', r, s', -, hrel', -⟩ := ((simulates clock fuel).exec (at_globals hrel.rootLt) hscoped
      (Nat.zero_le _)).of_ok hrel (Nat.zero_le _) hexec
    exact ⟨framesAfter_nil first ▸ hothers, w', s', hrel'⟩
  have hsource (source : String) (m : Machine) (hm : ∃ w s, Rel w m s) :
      ∀ x ∈ Machine.sourceMoments clock fuel source m, Mirrored x := by
    obtain ⟨w, s, hrel⟩ := hm
    have hopened : Rel w (m.opened source) { s with frames := 0 } := { hrel with frames := rfl }
    exact Machine.forall_programMoments
      (I := fun program m => scopedBody [] program ∧ ∃ w s, Rel w m s) hstep hfirst hnext _ _
      ⟨Machine.scoped_runnable source, w, _, hopened⟩
  have hrun (source : String) (m : Machine) (hm : ∃ w s, Rel w m s) :
      ∃ w s, Rel w (m.run clock fuel source).2 s := by
    obtain ⟨w, s, hrel⟩ := hm
    obtain ⟨w', hrel'⟩ := rel_run clock fuel hrel source
    exact ⟨w', _, hrel'⟩
  exact Machine.forall_sessionMoments hsource hrun sources (Machine.initial room)
    ⟨_, _, rel_initial room⟩

end LoxLang.Lexical
