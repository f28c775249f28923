import LoxLang.Proofs.Grammar.Reading
import LoxLang.Session
/-!
# Fuel

Fuel is only a bound. A run that does not use up its fuel is the same with any
more of it, and so are a session's reports and the machine that it leaves behind.
-/
namespace LoxLang.Machine

variable {α β : Type}

/-- Unless the first code runs out of fuel, the second does the same. -/
def Prolongs (q p : Run α) : Prop :=
  ∀ m, (∃ m', p m = .error .outOfFuel m') ∨ q m = p m

namespace Prolongs

theorem refl (p : Run α) : Prolongs p p :=
  fun _ => .inr rfl

theorem outOfFuel (q : Run α) : Prolongs q (throw .outOfFuel) :=
  fun m => .inl ⟨m, rfl⟩

theorem bind {p q : Run α} {f g : α → Run β} (h : Prolongs q p)
    (hfg : ∀ a, Prolongs (g a) (f a)) : Prolongs (q >>= g) (p >>= f) := by
  intro m
  rw [bind_apply, bind_apply]
  rcases h m with ⟨m', hout⟩ | hsame
  · exact .inl ⟨m', by rw [hout]⟩
  · rw [hsame]
    cases p m with
    | ok a m' => exact hfg a m'
    | error halt m' => exact .inr rfl

theorem after (p : Run α) {f g : α → Run β} (hfg : ∀ a, Prolongs (g a) (f a)) :
    Prolongs (p >>= g) (p >>= f) :=
  (refl p).bind hfg

private theorem thenSame {p q : Run α} (h : Prolongs q p) (f : α → Run β) :
    Prolongs (q >>= f) (p >>= f) :=
  h.bind fun a => refl (f a)

theorem map {p q : Run α} (h : Prolongs q p) (f : α → β) : Prolongs (f <$> q) (f <$> p) := by
  rw [map_eq_pure_bind, map_eq_pure_bind]
  exact h.thenSame _

theorem inFrame {p q : Run α} (h : Prolongs q p) (span : Span) :
    Prolongs (inFrame span q) (inFrame span p) := by
  intro m
  unfold Machine.inFrame
  by_cases hfull : m.frames ≥ maxFrames
  · rw [if_pos hfull, if_pos hfull]
    exact .inr rfl
  · rw [if_neg hfull, if_neg hfull]
    rcases h { m with frames := m.frames + 1 } with ⟨m', hout⟩ | hsame
    · exact .inl ⟨_, by rw [hout]⟩
    · exact .inr (by rw [hsame])

end Prolongs

/-! ## Evaluation -/

structure Suffices (clock : Nat → Float) (n k : Nat) : Prop where
  eval : ∀ scope e, Prolongs (eval clock k scope e) (eval clock n scope e)
  evalAll : ∀ scope es, Prolongs (evalAll clock k scope es) (evalAll clock n scope es)
  call : ∀ callee args span,
    Prolongs (call clock k callee args span) (call clock n callee args span)
  invoke : ∀ f args, Prolongs (invoke clock k f args) (invoke clock n f args)
  execAll : ∀ scope body, Prolongs (execAll clock k scope body) (execAll clock n scope body)
  exec : ∀ scope s, Prolongs (exec clock k scope s) (exec clock n scope s)
  execLoop : ∀ scope condition body,
    Prolongs (execLoop clock k scope condition body) (execLoop clock n scope condition body)

private theorem suffices_zero (clock : Nat → Float) (k : Nat) : Suffices clock 0 k where
  eval _ _ := by
    rw [eval.eq_def _ 0]
    exact .outOfFuel _
  evalAll _ _ := by
    rw [evalAll.eq_def _ 0]
    exact .outOfFuel _
  call _ _ _ := by
    rw [call.eq_def _ 0]
    exact .outOfFuel _
  invoke _ _ := by
    rw [invoke.eq_def _ 0]
    exact .outOfFuel _
  execAll _ _ := by
    rw [execAll.eq_def _ 0]
    exact .outOfFuel _
  exec _ _ := by
    rw [exec.eq_def _ 0]
    exact .outOfFuel _
  execLoop _ _ _ := by
    rw [execLoop.eq_def _ 0]
    exact .outOfFuel _

section
variable {clock : Nat → Float} {n k : Nat} (ih : Suffices clock n k)
include ih

private theorem prolongs_eval (scope : ScopeId) (e : Expr) :
    Prolongs (eval clock (k + 1) scope e) (eval clock (n + 1) scope e) := by
  cases e with
  | literal | var | this | super =>
    rw [eval, eval]
    exact .refl _
  | grouping span inner =>
    rw [eval, eval]
    exact ih.eval scope inner
  | unary span op operand =>
    rw [eval, eval]
    exact (ih.eval scope operand).thenSame _
  | binary span op left right =>
    rw [eval, eval]
    exact (ih.eval scope left).bind fun a => (ih.eval scope right).thenSame _
  | logical span op left right =>
    rw [eval, eval]
    refine (ih.eval scope left).bind fun a => ?_
    split
    · exact .refl _
    · exact .refl _
    · exact ih.eval scope right
  | assign span target value =>
    rw [eval, eval]
    exact (ih.eval scope value).thenSame _
  | call span callee args =>
    rw [eval, eval]
    exact (ih.eval scope callee).bind fun f => (ih.evalAll scope args).bind fun values =>
      (ih.call f values span).inFrame span
  | get span object name =>
    rw [eval, eval]
    exact (ih.eval scope object).thenSame _
  | set span object name value =>
    rw [eval, eval]
    refine (ih.eval scope object).bind fun receiver => ?_
    cases receiver with
    | object cell c => exact (ih.eval scope value).thenSame _
    | _ => exact .refl _

private theorem prolongs_evalAll (scope : ScopeId) (es : List Expr) :
    Prolongs (evalAll clock (k + 1) scope es) (evalAll clock (n + 1) scope es) := by
  cases es with
  | nil =>
    rw [evalAll, evalAll]
    exact .refl _
  | cons first others =>
    rw [evalAll, evalAll]
    exact (ih.eval scope first).bind fun value => (ih.evalAll scope others).thenSame _

private theorem prolongs_call (callee : Value ScopeId) (args : List (Value ScopeId)) (span : Span) :
    Prolongs (call clock (k + 1) callee args span) (call clock (n + 1) callee args span) := by
  cases callee with
  | function f =>
    rw [call, call]
    exact .after _ fun _ => ih.invoke f args
  | cls c =>
    rw [call, call]
    cases c.method? initializerName with
    | none => exact .refl _
    | some initializer =>
      exact .after _ fun _ => .after _ fun receiver => .after _ fun method =>
        (ih.invoke method args).thenSame _
  | _ =>
    unfold call
    exact .refl _

private theorem prolongs_invoke (f : Closure ScopeId) (args : List (Value ScopeId)) :
    Prolongs (invoke clock (k + 1) f args) (invoke clock (n + 1) f args) := by
  rw [invoke, invoke]
  exact .after _ fun scope => (ih.execAll scope f.decl.body).thenSame _

private theorem prolongs_execAll (scope : ScopeId) (body : List Stmt) :
    Prolongs (execAll clock (k + 1) scope body) (execAll clock (n + 1) scope body) := by
  cases body with
  | nil =>
    rw [execAll, execAll]
    exact .refl _
  | cons first others =>
    rw [execAll, execAll]
    refine (ih.exec scope first).bind fun flow => ?_
    cases flow with
    | normal => exact ih.execAll scope others
    | returned value => exact .refl _

private theorem prolongs_execLoop (scope : ScopeId) (condition : Expr) (body : Stmt) :
    Prolongs (execLoop clock (k + 1) scope condition body)
      (execLoop clock (n + 1) scope condition body) := by
  rw [execLoop, execLoop]
  refine (ih.eval scope condition).bind fun value => ?_
  split
  · refine (ih.exec scope body).bind fun flow => ?_
    cases flow with
    | normal => exact ih.execLoop scope condition body
    | returned value => exact .refl _
  · exact .refl _

private theorem prolongs_exec (scope : ScopeId) (s : Stmt) :
    Prolongs (exec clock (k + 1) scope s) (exec clock (n + 1) scope s) := by
  cases s with
  | expr span value =>
    rw [exec, exec]
    exact .after _ fun _ => (ih.eval scope value).thenSame _
  | print span value =>
    rw [exec, exec]
    exact .after _ fun _ => (ih.eval scope value).thenSame _
  | ret span value =>
    cases value with
    | none =>
      rw [exec, exec]
      exact .refl _
    | some value =>
      rw [exec, exec]
      exact (ih.eval scope value).map _
  | varDecl span name value =>
    cases value with
    | none =>
      rw [exec, exec]
      exact .refl _
    | some value =>
      rw [exec, exec]
      exact (ih.eval scope value).thenSame _
  | funDecl =>
    rw [exec, exec]
    exact .refl _
  | classDecl span name superclass methods =>
    -- Nothing in a class runs when it is declared.
    cases superclass with
    | none =>
      rw [exec, exec]
      exact .refl _
    | some superclass =>
      rw [exec, exec]
      exact .refl _
  | block span body =>
    rw [exec, exec]
    exact .after _ fun inner => ih.execAll inner body
  | branch span condition yes no =>
    rw [exec.eq_def, exec.eq_def]
    refine (ih.eval scope condition).bind fun value => ?_
    split
    · exact ih.exec scope yes
    · cases no with
      | none => exact .refl _
      | some no => exact ih.exec scope no
  | loop span condition body =>
    rw [exec, exec]
    exact ih.execLoop scope condition body

end

/-- What is done with some fuel is done in the same way with more. -/
theorem suffices_of_le (clock : Nat → Float) {n k : Nat} (hle : n ≤ k) : Suffices clock n k := by
  induction n generalizing k with
  | zero => exact suffices_zero clock k
  | succ n ih =>
    obtain ⟨more, rfl⟩ := Nat.exists_eq_add_of_lt hle
    have hn : Suffices clock n (n + more) := ih (Nat.le_add_right n more)
    exact {
      eval := prolongs_eval hn
      evalAll := prolongs_evalAll hn
      call := prolongs_call hn
      invoke := prolongs_invoke hn
      execAll := prolongs_execAll hn
      exec := prolongs_exec hn
      execLoop := prolongs_execLoop hn }

/-! ## Sources and sessions -/

section
variable {clock : Nat → Float} {fuel fuel' : Nat} (hle : fuel ≤ fuel')
include hle

private theorem prolongs_runAll (program : List Stmt) :
    Prolongs (runAll clock fuel' program) (runAll clock fuel program) := by
  induction program with
  | nil => exact .refl _
  | cons first others ih =>
    rw [runAll, runAll]
    exact ((suffices_of_le clock hle).exec globals first).bind fun _ => ih

private theorem execute_of_le (program : List Stmt) (m : Machine)
    (h : (m.execute clock fuel program).1 ≠ .outOfFuel) :
    m.execute clock fuel' program = m.execute clock fuel program := by
  unfold execute at h ⊢
  rcases prolongs_runAll hle program { m with frames := 0 } with ⟨m', hout⟩ | hsame
  · rw [hout] at h
    exact absurd rfl h
  · rw [hsame]

private theorem step_of_le (source : String) (m : Machine)
    (h : (m.step clock fuel source).1 ≠ .outOfFuel) :
    m.step clock fuel' source = m.step clock fuel source := by
  unfold step at h ⊢
  by_cases hread : !(parse source).errors.isEmpty
  · rw [if_pos hread, if_pos hread]
  by_cases hended : (resolve (parse source).program).globalEnded
  · simp only [hended, if_true]
  by_cases hresolved : !(resolve (parse source).program).errors.isEmpty
  · simp only [hresolved, if_true]
  · simp only [hread, hended, hresolved, Bool.false_eq_true, if_false] at h ⊢
    exact execute_of_le hle _ _ h

private theorem run_of_le (source : String) (m : Machine)
    (h : (m.run clock fuel source).1.outcome ≠ .outOfFuel) :
    m.run clock fuel' source = m.run clock fuel source := by
  rw [run_eq] at h
  rw [run_eq, run_eq, step_of_le hle source m h]

/-- If no source of a session runs out of fuel, then more fuel changes neither what the sources do
nor the machine after them. -/
theorem runSession_of_le (sources : List String) (m : Machine)
    (h : ∀ report ∈ (m.runSession clock fuel sources).1, report.outcome ≠ .outOfFuel) :
    m.runSession clock fuel' sources = m.runSession clock fuel sources := by
  induction sources generalizing m with
  | nil => rfl
  | cons source sources ih =>
    rw [runSession_cons] at h
    obtain ⟨hfirst, hothers⟩ := List.forall_mem_cons.mp h
    rw [runSession_cons, runSession_cons, run_of_le hle source m hfirst]
    simp only [ih _ hothers]

end

end LoxLang.Machine
