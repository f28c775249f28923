import LoxLang.Proofs.Lexical.Steps

namespace LoxLang.Lexical
open World

variable (clock : Nat → Float)

structure Simulates (n : Nat) : Prop where
  eval : ∀ {floor w frames id env e}, World.Sees w frames id env → e.Scoped frames →
    Agree floor w (Machine.eval clock n id e) (eval clock n env (e.relabel .noDistances))
      (fun w' => w'.Same)
  evalAll : ∀ {floor w frames id env es}, World.Sees w frames id env → scopedArguments frames es →
    Agree floor w (Machine.evalAll clock n id es)
      (evalAll clock n env (es.map (·.relabel .noDistances)))
      (fun w' => List.Forall₂ w'.Same)
  call : ∀ {floor w v v' args args' span}, World.Same w v v' → List.Forall₂ w.Same args args' →
    Agree floor w (Machine.call clock n v args span) (call clock n v' args' span)
      (fun w' => w'.Same)
  invoke : ∀ {floor w f g args args'}, World.SameFunction w f g → List.Forall₂ w.Same args args' →
    f.decl.params.length = args.length →
    Agree floor w (Machine.invoke clock n f args) (invoke clock n g args') (fun w' => w'.Same)
  execAll : ∀ {floor w frames id env body}, World.At w frames id env → scopedBody frames body →
    floor ≤ id →
    Agree floor w (Machine.execAll clock n id body)
      (execAll clock n env (body.map (·.relabel .noDistances))) (fun w' => w'.SameFlow)
  exec : ∀ {floor w frames id env s}, World.At w frames id env → s.Scoped frames → floor ≤ id →
    Agree floor w (Machine.exec clock n id s) (exec clock n env (s.relabel .noDistances))
      (fun w' flow r => w'.SameFlow flow r.1 ∧ w'.At (s.framesAfter frames) id r.2 ∧
        (s.declared? = none → r.2 = env))
  execLoop : ∀ {floor w frames id env condition body}, World.At w frames id env →
    condition.Scoped frames → body.Scoped frames → body.declared? = none → floor ≤ id →
    Agree floor w (Machine.execLoop clock n id condition body)
      (execLoop clock n env (condition.relabel .noDistances) (body.relabel .noDistances))
      (fun w' flow flow' => w'.SameFlow flow flow' ∧ w'.At frames id env)

private theorem simulates_zero : Simulates clock 0 where
  eval _ _ := by
    rw [Machine.eval, eval]
    exact .outOfFuel
  evalAll _ _ := by
    rw [Machine.evalAll, evalAll]
    exact .outOfFuel
  call _ _ := by
    rw [Machine.call, call]
    exact .outOfFuel
  invoke _ _ _ := by
    rw [Machine.invoke, invoke]
    exact .outOfFuel
  execAll _ _ _ := by
    rw [Machine.execAll, execAll]
    exact .outOfFuel
  exec _ _ _ := by
    rw [Machine.exec, exec]
    exact .outOfFuel
  execLoop _ _ _ _ _ := by
    rw [Machine.execLoop, execLoop]
    exact .outOfFuel

variable {clock} {n floor : Nat} {w : World}

section
variable {frames : List Frame} {id : ScopeId} {env : Env}

private theorem agree_logical (ih : Simulates clock n) {span : Span} {op : LogicalOp}
    {left right : Expr}
    (hs : w.Sees frames id env) (hleft : left.Scoped frames) (hright : right.Scoped frames) :
    Agree floor w (Machine.eval clock (n + 1) id (.logical span op left right))
      (eval clock (n + 1) env ((Expr.logical span op left right).relabel .noDistances))
      (fun w' => w'.Same) := by
  rw [Expr.relabel, Machine.eval, eval]
  refine (ih.eval hs hleft).bind fun w₁ a a' hw₁ ha => ?_
  have hright₁ : Agree floor w₁ (Machine.eval clock n id right)
      (eval clock n env (right.relabel .noDistances)) (fun w' => w'.Same) :=
    ih.eval (hs.mono hw₁) hright
  rw [ha.alike.isTruthy]
  cases op with
  | or =>
    cases a'.isTruthy with
    | true => exact .pure ha
    | false => exact hright₁
  | and =>
    cases a'.isTruthy with
    | true => exact hright₁
    | false => exact .pure ha

private theorem agree_set (ih : Simulates clock n) {span : Span} {object value : Expr}
    {name : String}
    (hs : w.Sees frames id env) (hobject : object.Scoped frames) (hvalue : value.Scoped frames) :
    Agree floor w (Machine.eval clock (n + 1) id (.set span object name value))
      (eval clock (n + 1) env ((Expr.set span object name value).relabel .noDistances))
      (fun w' => w'.Same) := by
  rw [Expr.relabel, Machine.eval, eval]
  refine (ih.eval hs hobject).bind fun w₁ v v' hw₁ hv => ?_
  have hother : Agree floor w₁
      (Machine.raise (.fieldOnNonInstance v.typeName name) span : LoxLang.Run (Value ScopeId))
      (raise (.fieldOnNonInstance v'.typeName name) span : Run (Value Env))
      (fun w' => w'.Same) := by
    rw [hv.alike.typeName]
    exact .raise _ _
  cases hv with
  | object =>
    refine (ih.eval (hs.mono hw₁) hvalue).bind fun w₂ x x' _ hx => ?_
    exact (agree_setField _ name hx).bind fun w₃ _ _ hw₃ _ => .pure (hx.mono hw₃)
  | _ => exact hother

private theorem agree_eval (ih : Simulates clock n) {e : Expr} (hs : w.Sees frames id env)
    (he : e.Scoped frames) :
    Agree floor w (Machine.eval clock (n + 1) id e)
      (eval clock (n + 1) env (e.relabel .noDistances)) (fun w' => w'.Same) := by
  cases e with
  | literal span value =>
    rw [Expr.relabel, Machine.eval, eval]
    exact .pure (same_ofLiteral w value)
  | var span ref =>
    rw [Expr.relabel, Machine.eval, eval]
    exact agree_lookup hs he
  | this span distance =>
    obtain ⟨k, rfl, hk⟩ := he
    rw [Expr.relabel, Machine.eval, eval]
    exact agree_this hs hk
  | super span distance method =>
    obtain ⟨k, rfl, hthis, hsuper⟩ := he
    rw [Expr.relabel, Machine.eval, eval]
    exact agree_superMethod hs hthis hsuper method span
  | grouping span inner =>
    rw [Expr.relabel, Machine.eval, eval]
    exact ih.eval hs he
  | unary span op operand =>
    have hoperand : operand.Scoped frames := he
    rw [Expr.relabel, Machine.eval, eval]
    refine (ih.eval hs hoperand).bind fun w₁ v v' _ hv => ?_
    obtain ⟨result, hleft, hright⟩ := hv.alike.unary op
    rw [hleft, hright]
    exact agree_settle result span
  | binary span op left right =>
    rw [Expr.relabel, Machine.eval, eval]
    refine (ih.eval hs he.1).bind fun w₁ a a' hw₁ ha => ?_
    refine (ih.eval (hs.mono hw₁) he.2).bind fun w₂ b b' hw₂ hb => ?_
    obtain ⟨result, hleft, hright⟩ := (ha.mono hw₂).alike.binary hb.alike op
    rw [hleft, hright]
    exact agree_settle result span
  | logical span op left right => exact agree_logical ih hs he.1 he.2
  | assign span target value =>
    obtain ⟨hdistance, hname, hvalue⟩ := he
    rw [Expr.relabel, Machine.eval, eval]
    refine (ih.eval hs hvalue).bind fun w₁ v v' hw₁ hv => ?_
    refine (agree_assign (hs.mono hw₁) hdistance hname hv).bind fun w₂ _ _ hw₂ _ => ?_
    exact .pure (hv.mono hw₂)
  | call span callee args =>
    rw [Expr.relabel, relabelArguments_eq_map, Machine.eval, eval]
    refine (ih.eval hs he.1).bind fun w₁ f f' hw₁ hf => ?_
    refine (ih.evalAll (hs.mono hw₁) he.2).bind fun w₂ vs vs' hw₂ hvs => ?_
    exact (ih.call (hf.mono hw₂) hvs).inFrame span
  | get span object name =>
    have hobject : object.Scoped frames := he
    rw [Expr.relabel, Machine.eval, eval]
    exact (ih.eval hs hobject).bind fun w₁ v v' _ hv => agree_property hv name span
  | set span object name value => exact agree_set ih hs he.1 he.2

private theorem agree_evalAll (ih : Simulates clock n) {es : List Expr} (hs : w.Sees frames id env)
    (hes : scopedArguments frames es) :
    Agree floor w (Machine.evalAll clock (n + 1) id es)
      (evalAll clock (n + 1) env (es.map (·.relabel .noDistances)))
      (fun w' => List.Forall₂ w'.Same) := by
  cases es with
  | nil =>
    rw [List.map_nil, Machine.evalAll, evalAll]
    exact .pure .nil
  | cons first others =>
    rw [List.map_cons, Machine.evalAll, evalAll]
    refine (ih.eval hs hes.1).bind fun w₁ v v' hw₁ hv => ?_
    refine (ih.evalAll (hs.mono hw₁) hes.2).bind fun w₂ vs vs' hw₂ hvs => ?_
    exact .pure (.cons (hv.mono hw₂) hvs)

end

/-! ## Calls -/

theorem forall₂_same_mono {w' : World} {args : List (Value ScopeId)} {args' : List (Value Env)}
    (h : List.Forall₂ w.Same args args') (hw : Extends floor w w') :
    List.Forall₂ w'.Same args args' :=
  h.imp fun _ _ hs => hs.mono hw

private theorem agree_call (ih : Simulates clock n) {v : Value ScopeId} {v' : Value Env}
    {args : List (Value ScopeId)} {args' : List (Value Env)} {span : Span} (hv : w.Same v v')
    (hargs : List.Forall₂ w.Same args args') :
    Agree floor w (Machine.call clock (n + 1) v args span) (call clock (n + 1) v' args' span)
      (fun w' => w'.Same) := by
  have hother : Agree floor w
      (Machine.raise (.notCallable v.typeName) span : LoxLang.Run (Value ScopeId))
      (raise (.notCallable v'.typeName) span : Run (Value Env)) (fun w' => w'.Same) := by
    rw [hv.alike.typeName]
    exact .raise _ _
  have hlength := hargs.length_eq
  cases hv with
  | @function f g hf =>
    rw [Machine.call, call, hf.decl, name_relabel, params_relabel, ← hlength]
    refine (agree_checkArity _ _ _ _).bind fun w₁ _ _ hw₁ harity => ?_
    exact ih.invoke (hf.mono hw₁) (forall₂_same_mono hargs hw₁) harity
  | @cls c d hc =>
    rw [Machine.call, call, ← hlength, hc.name]
    have hmethod := hc.method? initializerName
    generalize c.method? initializerName = method at hmethod
    generalize d.method? initializerName = method' at hmethod
    cases hmethod with
    | none =>
      refine (agree_checkArity _ _ _ _).bind fun w₁ _ _ hw₁ _ => ?_
      refine (agree_newObject (hc.mono hw₁)).mono fun w₂ _ _ _ h => ?_
      obtain ⟨cell, -, -, hsame⟩ := h
      exact hsame
    | @some f g hf =>
      simp only [hf.decl, params_relabel]
      refine (agree_checkArity _ _ _ _).bind fun w₁ _ _ hw₁ harity => ?_
      refine (agree_newObject (hc.mono hw₁)).bind fun w₂ x x' hw₂ h => ?_
      obtain ⟨cell, rfl, rfl, hsame⟩ := h
      have hw := hw₁.trans hw₂
      refine (agree_bind (hf.mono hw) (hc.mono hw)).bind fun w₃ f' g' hw₃ h => ?_
      obtain ⟨hf', hparams⟩ := h
      have hargs₃ := forall₂_same_mono (forall₂_same_mono hargs hw) hw₃
      refine (ih.invoke hf' hargs₃ (hparams ▸ harity)).bind fun w₄ _ _ hw₄ _ => ?_
      exact .pure (hsame.mono (hw₃.trans hw₄))
  | @native f =>
    cases f
    rw [Machine.call, call, ← hlength]
    exact (agree_checkArity _ _ _ _).bind fun w₁ _ _ _ _ => agree_readClock clock
  | _ =>
    unfold Machine.call call
    exact hother

private theorem zip_forall₂ {params : List String} {args : List (Value ScopeId)}
    {args' : List (Value Env)} (h : List.Forall₂ w.Same args args') :
    List.Forall₂ (fun p q => p.1 = q.1 ∧ w.Same p.2 q.2) (params.zip args) (params.zip args') := by
  induction h generalizing params with
  | nil => simp
  | cons hv _ ih =>
    cases params with
    | nil => exact .nil
    | cons name rest => exact .cons ⟨rfl, hv⟩ ih

theorem agree_enterFunction {f : Closure ScopeId} {g : Closure Env} {args : List (Value ScopeId)}
    {args' : List (Value Env)} (hf : w.SameFunction f g) (hargs : List.Forall₂ w.Same args args')
    (harity : f.decl.params.length = args.length) :
    Agree floor w (Machine.newScope f.env (Bindings.empty.insertMany (f.decl.params.zip args)))
      (bindNames g.env.enter (g.decl.params.zip args'))
      (fun w' id env => ∃ frames, w'.At frames id env ∧ scopedBody frames f.decl.body ∧
        floor ≤ id) := by
  obtain ⟨frames, hchain, hscoped, -⟩ := hf.code
  rw [hf.decl, params_relabel]
  cases hdecl : f.decl with
  | mk span name params body =>
    rw [hdecl] at hscoped harity
    obtain ⟨hnodup, hreserved, hbody⟩ := hscoped
    have hnames : (params.zip args).map (·.1) = params :=
      List.map_fst_zip (Nat.le_of_eq harity)
    have hdeclares : ∀ other, (paramFrame params).declares other = true ↔
        other ∈ (params.zip args).map (·.1) := by
      intro other
      rw [hnames, declares_paramFrame, decide_eq_true_eq]
    have hkept : ∀ p ∈ params.zip args, Kept p.1 p.2 := by
      intro p hp
      have hp : p.1 ∈ params := by
        rw [← hnames]
        exact List.mem_map_of_mem hp
      exact kept_of_not_reserved (hreserved p.1 hp) p.2
    refine (agree_enter hchain (zip_forall₂ hargs) (hnames.symm ▸ hnodup) hdeclares hkept).mono ?_
    exact fun w₁ id env _ hat => ⟨paramFrame params :: frames, hat.1, hbody, hat.2⟩

private theorem agree_invoke (ih : Simulates clock n) {f : Closure ScopeId} {g : Closure Env}
    {args : List (Value ScopeId)} {args' : List (Value Env)} (hf : w.SameFunction f g)
    (hargs : List.Forall₂ w.Same args args') (harity : f.decl.params.length = args.length) :
    Agree floor w (Machine.invoke clock (n + 1) f args) (invoke clock (n + 1) g args')
      (fun w' => w'.Same) := by
  rw [Machine.invoke, invoke]
  refine (agree_enterFunction hf hargs harity).bind fun w₁ id env hw₁ h => ?_
  obtain ⟨frames, hat, hbody, hfloor⟩ := h
  rw [hf.decl, body_relabel]
  refine (ih.execAll hat hbody hfloor).bind fun w₂ flow flow' hw₂ hflow => ?_
  exact agree_callResult (hf.mono (hw₁.trans hw₂)) hflow

/-! ## Statements -/

private theorem agree_execAll (ih : Simulates clock n) {frames : List Frame} {id : ScopeId}
    {env : Env} {body : List Stmt} (hat : w.At frames id env) (hbody : scopedBody frames body)
    (hfloor : floor ≤ id) :
    Agree floor w (Machine.execAll clock (n + 1) id body)
      (execAll clock (n + 1) env (body.map (·.relabel .noDistances))) (fun w' => w'.SameFlow) := by
  cases body with
  | nil =>
    rw [List.map_nil, Machine.execAll, execAll]
    exact .pure .normal
  | cons first others =>
    rw [List.map_cons, Machine.execAll, execAll]
    refine (ih.exec hat hbody.1 hfloor).bind fun w₁ flow r _ h => ?_
    obtain ⟨flow', env'⟩ := r
    obtain ⟨hflow, hat', -⟩ := h
    cases hflow with
    | normal => exact ih.execAll hat' hbody.2 hfloor
    | returned hv => exact .pure (.returned hv)

theorem agree_execPlain (ih : Simulates clock n) {frames : List Frame} {id : ScopeId} {env : Env}
    {s : Stmt} (hat : w.At frames id env) (hs : s.Scoped frames) (hplain : s.declared? = none)
    (hfloor : floor ≤ id) :
    Agree floor w (Machine.exec clock n id s) (exec clock n env (s.relabel .noDistances))
      (fun w' flow r => w'.SameFlow flow r.1 ∧ w'.At frames id env ∧ r.2 = env) := by
  refine (ih.exec hat hs hfloor).mono fun w' flow r _ h => ?_
  obtain ⟨hflow, hat', henv⟩ := h
  have henv := henv hplain
  rw [henv, Stmt.framesAfter, hplain] at hat'
  exact ⟨hflow, hat', henv⟩

private theorem agree_execLoop (ih : Simulates clock n) {frames : List Frame} {id : ScopeId}
    {env : Env} {condition : Expr} {body : Stmt} (hat : w.At frames id env)
    (hcondition : condition.Scoped frames) (hbody : body.Scoped frames)
    (hplain : body.declared? = none) (hfloor : floor ≤ id) :
    Agree floor w (Machine.execLoop clock (n + 1) id condition body)
      (execLoop clock (n + 1) env (condition.relabel .noDistances) (body.relabel .noDistances))
      (fun w' flow flow' => w'.SameFlow flow flow' ∧ w'.At frames id env) := by
  rw [Machine.execLoop, execLoop]
  refine Agree.bindAt hat hfloor (ih.eval hat.chain.sees hcondition) fun w₁ v v' _ hat₁ hv => ?_
  rw [hv.alike.isTruthy]
  cases v'.isTruthy with
  | false => exact .pure ⟨.normal, hat₁⟩
  | true =>
    refine (agree_execPlain ih hat₁ hbody hplain hfloor).bind fun w₂ flow r _ h => ?_
    obtain ⟨flow', env'⟩ := r
    obtain ⟨hflow, hat₂, -⟩ := h
    cases hflow with
    | normal => exact ih.execLoop hat₂ hcondition hbody hplain hfloor
    | returned hx => exact .pure ⟨.returned hx, hat₂⟩

def After (frames : List Frame) (id : ScopeId) (env : Env) (s : Stmt) (w : World)
    (flow : Flow ScopeId) (r : Flow Env × Env) : Prop :=
  w.SameFlow flow r.1 ∧ w.At (s.framesAfter frames) id r.2 ∧ (s.declared? = none → r.2 = env)

section
variable {frames : List Frame} {id : ScopeId} {env : Env} {span : Span} {name : String}

private theorem agree_varDecl (ih : Simulates clock n) {value : Option Expr}
    (hat : w.At frames id env)
    (hs : (Stmt.varDecl span name value).Scoped frames) (hfloor : floor ≤ id) :
    Agree floor w (Machine.exec clock (n + 1) id (.varDecl span name value))
      (exec clock (n + 1) env ((Stmt.varDecl span name value).relabel .noDistances))
      (After frames id env (.varDecl span name value)) := by
  obtain ⟨⟨hname, hfresh⟩, hvalue⟩ := hs
  rw [Stmt.relabel]
  cases value with
  | none =>
    rw [Option.map_none, Machine.exec, exec]
    refine .declareThen hat hname hfresh hfloor fun w₁ env' _ hd => ?_
    refine (agree_define hd hname .nil).bind fun w₂ _ _ _ h => ?_
    exact .pure ⟨.normal, h.2.2, fun hnone => absurd hnone (Option.some_ne_none _)⟩
  | some e =>
    rw [Option.map_some, Machine.exec, exec]
    refine .declareThen hat hname hfresh hfloor fun w₁ env' _ hd => ?_
    have heval := (ih.eval hd.sees (hvalue e rfl)).raiseFloor (Nat.le_succ_of_le hfloor) hd.lt
    refine heval.bind fun w₂ v v' _ h => ?_
    obtain ⟨hw₂, hv⟩ := h
    have hd₂ := hd.mono hw₂
    have hw₃ : Extends (id + 1) w₂ (w₂.define id name v) := extends_define hname hd₂.lt
    have hv₃ := hv.mono hw₃
    refine (agree_define hd₂ hname hv₃).bind fun w₃ _ _ _ h => ?_
    exact .pure ⟨.normal, h.2.2, fun hnone => absurd hnone (Option.some_ne_none _)⟩

private theorem agree_funDecl {decl : FunDecl} (hat : w.At frames id env)
    (hs : (Stmt.funDecl decl).Scoped frames) (hfloor : floor ≤ id) :
    Agree floor w (Machine.exec clock (n + 1) id (.funDecl decl))
      (exec clock (n + 1) env ((Stmt.funDecl decl).relabel .noDistances))
      (After frames id env (.funDecl decl)) := by
  obtain ⟨⟨hname, hfresh⟩, hdecl⟩ := hs
  rw [Stmt.relabel, Machine.exec, exec, name_relabel]
  refine .declareThen hat hname hfresh hfloor fun w₁ env' _ hd => ?_
  have hclosure := (agree_newClosure decl (decl.relabel .noDistances) id env' false).raiseFloor
    (Nat.le_succ_of_le hfloor) hd.lt
  refine hclosure.bind fun w₂ f g _ h => ?_
  obtain ⟨hw₂, identity, rfl, rfl⟩ := h
  have hd₂ := hd.mono hw₂
  have hw₃ : Extends (id + 1) w₂ (w₂.define id decl.name (.function ⟨identity, decl, id, false⟩)) :=
    extends_define hname hd₂.lt
  have hchain := hd₂.chain hw₃ (bound_define _ hname hd₂.lt)
  have hf : (w₂.define id decl.name (.function ⟨identity, decl, id, false⟩)).SameFunction
      ⟨identity, decl, id, false⟩ ⟨identity, decl.relabel .noDistances, env', false⟩ :=
    ⟨rfl, rfl, rfl, _, hchain, hdecl, fun hinit => absurd hinit (by simp)⟩
  refine (agree_define hd₂ hname (.function hf)).bind fun w₃ _ _ _ h => ?_
  exact .pure ⟨.normal, h.2.2, fun hnone => absurd hnone (Option.some_ne_none _)⟩

private theorem agree_baseClass {methods : List FunDecl} (hat : w.At frames id env)
    (hs : (Stmt.classDecl span name none methods).Scoped frames) (hfloor : floor ≤ id) :
    Agree floor w (Machine.exec clock (n + 1) id (.classDecl span name none methods))
      (exec clock (n + 1) env ((Stmt.classDecl span name none methods).relabel .noDistances))
      (After frames id env (.classDecl span name none methods)) := by
  obtain ⟨⟨hname, hfresh⟩, hmethods⟩ := hs
  rw [Stmt.relabel, relabelMethods_eq_map, Option.map_none, Machine.exec, exec]
  refine .declareThen hat hname hfresh hfloor fun w₁ env' _ hd => ?_
  refine (agree_define hd hname .nil).bind fun w₂ _ _ _ h => ?_
  obtain ⟨hw₂, hb, hat₂⟩ := h
  have hclass := agree_declareClass (hd.mono hw₂) hname hb hat₂.chain .none hmethods span
  refine (hclass.raiseFloor (Nat.le_succ_of_le hfloor) hat₂.lt).bind fun w₃ _ _ _ h => ?_
  exact .pure ⟨.normal, h.2, fun hnone => absurd hnone (Option.some_ne_none _)⟩

private theorem agree_derivedClass {superclass : Located Ref} {methods : List FunDecl}
    (hat : w.At frames id env)
    (hs : (Stmt.classDecl span name (some superclass) methods).Scoped frames)
    (hfloor : floor ≤ id) :
    Agree floor w (Machine.exec clock (n + 1) id (.classDecl span name (some superclass) methods))
      (exec clock (n + 1) env
        ((Stmt.classDecl span name (some superclass) methods).relabel .noDistances))
      (After frames id env (.classDecl span name (some superclass) methods)) := by
  obtain ⟨⟨hname, hfresh⟩, href, hmethods⟩ := hs
  rw [Stmt.relabel, relabelMethods_eq_map, Option.map_some, Machine.exec, exec]
  refine .declareThen hat hname hfresh hfloor fun w₁ env' _ hd => ?_
  refine (agree_define hd hname .nil).bind fun w₂ _ _ _ h => ?_
  obtain ⟨hw₂, hb, hat₂⟩ := h
  have hd₂ := hd.mono hw₂
  refine .bindAt hat₂ hfloor (agree_lookup hat₂.chain.sees href) fun w₃ v v' hw₃ hat₃ hv => ?_
  have hother : Agree floor w₃
      (Machine.raise (.superclassInvalidType v.typeName) superclass.span :
        LoxLang.Run (Flow ScopeId))
      (raise (.superclassInvalidType v'.typeName) superclass.span : Run (Flow Env × Env))
      (After frames id env (.classDecl span name (some superclass) methods)) := by
    rw [hv.alike.typeName]
    exact .raise _ _
  cases hv with
  | @cls above above' habove =>
    have hkept : Kept "super" (.cls above) :=
      ⟨fun h => absurd h (by decide), fun _ => ⟨above, rfl⟩⟩
    refine .bindAt hat₃ hfloor
      (agree_bindName hat₃.chain (.cls habove) declares_superFrame hkept) ?_
    intro w₄ inner env'' hw₄ hat₄ hinner
    have hw := hw₃.trans hw₄
    have hclass := agree_declareClass (hd₂.mono hw) hname (hw.bound id name hb) hinner.1.chain
      (.some (habove.mono hw₄)) hmethods span
    refine (hclass.raiseFloor (Nat.le_succ_of_le hfloor) hat₄.lt).bind fun w₅ _ _ _ h => ?_
    exact .pure ⟨.normal, h.2, fun hnone => absurd hnone (Option.some_ne_none _)⟩
  | _ => exact hother

private theorem agree_block (ih : Simulates clock n) {body : List Stmt} (hat : w.At frames id env)
    (hbody : scopedBody ([] :: frames) body) (hfloor : floor ≤ id) :
    Agree floor w (Machine.exec clock (n + 1) id (.block span body))
      (exec clock (n + 1) env ((Stmt.block span body).relabel .noDistances))
      (After frames id env (.block span body)) := by
  rw [Stmt.relabel, relabelBody_eq_map, Machine.exec, exec]
  have henter : Agree (id + 1) w (Machine.newScope id .empty) (Pure.pure env.enter)
      (fun w' inner env' => w'.At ([] :: frames) inner env' ∧ id + 1 ≤ inner) :=
    agree_enter hat.chain .nil (by simp) (by simp) (by simp)
  have hinner : Agree (id + 1) w (Machine.newScope id .empty >>= (Machine.execAll clock n · body))
      (Pure.pure env.enter >>= (execAll clock n · (body.map (·.relabel .noDistances))))
      (fun w' => w'.SameFlow) :=
    henter.bind fun w₁ inner env' _ h => ih.execAll h.1 hbody h.2
  rw [pure_bind] at hinner
  rw [← bind_pure (Machine.newScope id .empty >>= _)]
  exact .bindAt hat hfloor hinner fun w₁ flow flow' _ hat₁ hflow =>
    .pure ⟨hflow, hat₁, fun _ => rfl⟩

private theorem agree_branch (ih : Simulates clock n) {condition : Expr} {yes : Stmt}
    {no : Option Stmt}
    (hat : w.At frames id env) (hs : (Stmt.branch span condition yes no).Scoped frames)
    (hfloor : floor ≤ id) :
    Agree floor w (Machine.exec clock (n + 1) id (.branch span condition yes no))
      (exec clock (n + 1) env ((Stmt.branch span condition yes no).relabel .noDistances))
      (After frames id env (.branch span condition yes no)) := by
  obtain ⟨hcondition, ⟨hyes, hplain⟩, hno⟩ := hs
  rw [Stmt.relabel, Machine.exec.eq_def, exec.eq_def]
  refine .bindAt hat hfloor (ih.eval hat.chain.sees hcondition) fun w₁ v v' _ hat₁ hv => ?_
  rw [hv.alike.isTruthy]
  cases v'.isTruthy with
  | true =>
    refine (agree_execPlain ih hat₁ hyes hplain hfloor).mono fun w₂ flow r _ h => ?_
    exact ⟨h.1, h.2.2 ▸ h.2.1, fun _ => h.2.2⟩
  | false =>
    cases no with
    | none => exact .pure ⟨.normal, hat₁, fun _ => rfl⟩
    | some s =>
      refine (agree_execPlain ih hat₁ hno.1 hno.2 hfloor).mono fun w₂ flow r _ h => ?_
      exact ⟨h.1, h.2.2 ▸ h.2.1, fun _ => h.2.2⟩

private theorem agree_exec (ih : Simulates clock n) {s : Stmt} (hat : w.At frames id env)
    (hs : s.Scoped frames) (hfloor : floor ≤ id) :
    Agree floor w (Machine.exec clock (n + 1) id s)
      (exec clock (n + 1) env (s.relabel .noDistances)) (After frames id env s) := by
  cases s with
  | expr span value =>
    have hvalue : value.Scoped frames := hs
    rw [Stmt.relabel, Machine.exec, exec]
    refine .emitThen _ (.bindAt hat hfloor (ih.eval hat.chain.sees hvalue) ?_)
    intro w₁ _ _ _ hat₁ _
    exact .pure ⟨.normal, hat₁, fun _ => rfl⟩
  | print span value =>
    have hvalue : value.Scoped frames := hs
    rw [Stmt.relabel, Machine.exec, exec]
    refine .emitThen _ (.bindAt hat hfloor (ih.eval hat.chain.sees hvalue) ?_)
    intro w₁ v v' _ hat₁ hv
    rw [hv.alike.display]
    refine .bindAt hat₁ hfloor (agree_writeLine v'.display span) fun w₂ _ _ _ hat₂ _ => ?_
    exact .pure ⟨.normal, hat₂, fun _ => rfl⟩
  | ret span value =>
    cases value with
    | none =>
      rw [Stmt.relabel, Option.map_none, Machine.exec, exec]
      exact .pure ⟨.returned .nil, hat, fun _ => rfl⟩
    | some e =>
      rw [Stmt.relabel, Option.map_some, Machine.exec, exec]
      refine .bindAt hat hfloor (ih.eval hat.chain.sees (hs e rfl)) fun w₁ v v' _ hat₁ hv => ?_
      exact .pure ⟨.returned hv, hat₁, fun _ => rfl⟩
  | varDecl span name value => exact agree_varDecl ih hat hs hfloor
  | funDecl decl => exact agree_funDecl hat hs hfloor
  | classDecl span name superclass methods =>
    cases superclass with
    | none => exact agree_baseClass hat hs hfloor
    | some superclass => exact agree_derivedClass hat hs hfloor
  | block span body => exact agree_block ih hat hs hfloor
  | branch span condition yes no => exact agree_branch ih hat hs hfloor
  | loop span condition body =>
    obtain ⟨hcondition, hbody, hplain⟩ := hs
    rw [Stmt.relabel, Machine.exec, exec]
    have hloop := ih.execLoop hat hcondition hbody hplain hfloor
    rw [← bind_pure (Machine.execLoop clock n id condition body)]
    exact hloop.bind fun w₁ flow flow' _ h => .pure ⟨h.1, h.2, fun _ => rfl⟩

end

theorem simulates (clock : Nat → Float) (n : Nat) : Simulates clock n := by
  induction n with
  | zero => exact simulates_zero clock
  | succ n ih =>
    exact {
      eval := agree_eval ih
      evalAll := agree_evalAll ih
      call := agree_call ih
      invoke := agree_invoke ih
      execAll := agree_execAll ih
      exec := agree_exec ih
      execLoop := agree_execLoop ih }

end LoxLang.Lexical
