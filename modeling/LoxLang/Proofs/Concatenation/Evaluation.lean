import LoxLang.Proofs.Concatenation.Mirror

namespace LoxLang.Machine

/-- All the functions of the evaluator are mirrored, with a given amount of fuel. -/
structure Mirrored (clock : Nat → Float) (n : Nat) : Prop where
  eval : ∀ {earlier depth} id e, Mirrors earlier depth (eval clock n id e)
    (eval clock n id (e.relabel .noSpans)) Value.withoutSpans
  evalAll : ∀ {earlier depth} id es, Mirrors earlier depth (evalAll clock n id es)
    (evalAll clock n id (es.map (·.relabel .noSpans))) (List.map Value.withoutSpans)
  call : ∀ {earlier depth} v args span, Mirrors earlier depth (call clock n v args span)
    (call clock n v.withoutSpans (args.map Value.withoutSpans) (Relabel.noSpans.span span))
    Value.withoutSpans
  invoke : ∀ {earlier depth} f args, Mirrors earlier depth (invoke clock n f args)
    (invoke clock n f.withoutSpans (args.map Value.withoutSpans)) Value.withoutSpans
  execAll : ∀ {earlier depth} id body, Mirrors earlier depth (execAll clock n id body)
    (execAll clock n id (body.map (·.relabel .noSpans))) Flow.withoutSpans
  exec : ∀ {earlier depth} id s, Mirrors earlier depth (exec clock n id s)
    (exec clock n id (s.relabel .noSpans)) Flow.withoutSpans
  execLoop : ∀ {earlier depth} id condition body,
    Mirrors earlier depth (execLoop clock n id condition body)
      (execLoop clock n id (condition.relabel .noSpans) (body.relabel .noSpans)) Flow.withoutSpans

private theorem mirrored_zero (clock : Nat → Float) : Mirrored clock 0 where
  eval _ _ := by
    rw [Machine.eval, Machine.eval]
    exact .outOfFuel
  evalAll _ _ := by
    rw [Machine.evalAll, Machine.evalAll]
    exact .outOfFuel
  call _ _ _ := by
    rw [Machine.call, Machine.call]
    exact .outOfFuel
  invoke _ _ := by
    rw [Machine.invoke, Machine.invoke]
    exact .outOfFuel
  execAll _ _ := by
    rw [Machine.execAll, Machine.execAll]
    exact .outOfFuel
  exec _ _ := by
    rw [Machine.exec, Machine.exec]
    exact .outOfFuel
  execLoop _ _ _ := by
    rw [Machine.execLoop, Machine.execLoop]
    exact .outOfFuel

variable {clock : Nat → Float} {n : Nat} {earlier : ByteArray} {depth : Nat}

private theorem mirrors_logical (ih : Mirrored clock n) (id : ScopeId) (span : Span)
    (op : LogicalOp) (left right : Expr) :
    Mirrors earlier depth (eval clock (n + 1) id (.logical span op left right))
      (eval clock (n + 1) id ((Expr.logical span op left right).relabel .noSpans))
      Value.withoutSpans := by
  rw [Expr.relabel, eval, eval]
  refine (ih.eval id left).bind fun a => ?_
  rw [← a.alike_withoutSpans.isTruthy]
  cases op with
  | or =>
    cases a.isTruthy with
    | true => exact .pure rfl
    | false => exact ih.eval id right
  | and =>
    cases a.isTruthy with
    | true => exact ih.eval id right
    | false => exact .pure rfl

private theorem mirrors_set (ih : Mirrored clock n) (id : ScopeId) (span : Span) (object : Expr)
    (name : String) (value : Expr) :
    Mirrors earlier depth (eval clock (n + 1) id (.set span object name value))
      (eval clock (n + 1) id ((Expr.set span object name value).relabel .noSpans))
      Value.withoutSpans := by
  rw [Expr.relabel, eval, eval]
  refine (ih.eval id object).bind fun receiver => ?_
  cases receiver with
  | object cell c =>
    exact (ih.eval id value).bind fun v => (mirrors_setField cell name v).bind fun _ => .pure rfl
  | _ => exact .raise _ span

private theorem mirrors_eval (ih : Mirrored clock n) (id : ScopeId) (e : Expr) :
    Mirrors earlier depth (eval clock (n + 1) id e) (eval clock (n + 1) id (e.relabel .noSpans))
      Value.withoutSpans := by
  cases e with
  | literal span value =>
    rw [Expr.relabel, eval, eval]
    exact .pure (Value.withoutSpans_ofLiteral value)
  | var span ref =>
    rw [Expr.relabel, eval, eval]
    exact mirrors_lookup id ref span
  | this span distance =>
    rw [Expr.relabel, eval, eval]
    exact mirrors_lookup id ⟨"this", distance⟩ span
  | super span distance method =>
    rw [Expr.relabel, eval, eval]
    exact mirrors_superMethod id distance method span
  | grouping span inner =>
    rw [Expr.relabel, eval, eval]
    exact ih.eval id inner
  | unary span op operand =>
    rw [Expr.relabel, eval, eval]
    refine (ih.eval id operand).bind fun v => ?_
    obtain ⟨result, hleft, hright⟩ := v.alike_withoutSpans.unary op
    rw [hleft, hright]
    exact mirrors_settle result span
  | binary span op left right =>
    rw [Expr.relabel, eval, eval]
    refine (ih.eval id left).bind fun a => (ih.eval id right).bind fun b => ?_
    obtain ⟨result, hleft, hright⟩ := a.alike_withoutSpans.binary b.alike_withoutSpans op
    rw [hleft, hright]
    exact mirrors_settle result span
  | logical span op left right => exact mirrors_logical ih id span op left right
  | assign span target value =>
    rw [Expr.relabel, eval, eval]
    exact (ih.eval id value).bind fun v => (mirrors_assign id target v span).bind fun _ => .pure rfl
  | call span callee args =>
    rw [Expr.relabel, relabelArguments_eq_map, eval, eval]
    exact (ih.eval id callee).bind fun f => (ih.evalAll id args).bind fun vs =>
      mirrors_inFrame span (ih.call f vs span)
  | get span object name =>
    rw [Expr.relabel, eval, eval]
    exact (ih.eval id object).bind fun receiver => mirrors_property receiver name span
  | set span object name value => exact mirrors_set ih id span object name value

private theorem mirrors_evalAll (ih : Mirrored clock n) (id : ScopeId) (es : List Expr) :
    Mirrors earlier depth (evalAll clock (n + 1) id es)
      (evalAll clock (n + 1) id (es.map (·.relabel .noSpans))) (List.map Value.withoutSpans) := by
  cases es with
  | nil =>
    rw [List.map_nil, evalAll]
    exact .pure rfl
  | cons first others =>
    rw [List.map_cons, evalAll, evalAll]
    exact (ih.eval id first).bind fun v => (ih.evalAll id others).bind fun vs => .pure rfl

/-! ## Calls -/

private theorem mirrors_call (ih : Mirrored clock n) (v : Value ScopeId)
    (args : List (Value ScopeId)) (span : Span) :
    Mirrors earlier depth (call clock (n + 1) v args span)
      (call clock (n + 1) v.withoutSpans (args.map Value.withoutSpans)
        (Relabel.noSpans.span span)) Value.withoutSpans := by
  cases v with
  | function f =>
    rw [Value.withoutSpans, call, call, List.length_map, Closure.withoutSpans, name_relabel,
      params_relabel]
    exact (mirrors_checkArity f.decl.name f.decl.params.length args.length span).bind fun _ =>
      ih.invoke f args
  | cls c =>
    rw [Value.withoutSpans, call, call, List.length_map, Class.method?_withoutSpans,
      Class.name_withoutSpans]
    cases c.method? initializerName with
    | none =>
      exact (mirrors_checkArity c.name 0 args.length span).bind fun _ => mirrors_newObject c
    | some f =>
      have hparams : f.withoutSpans.decl.params = f.decl.params := params_relabel _ _
      simp only [Option.map_some, hparams]
      exact (mirrors_checkArity c.name f.decl.params.length args.length span).bind fun _ =>
        (mirrors_newObject c).bind fun receiver => (mirrors_bind f receiver).bind fun method =>
          (ih.invoke method args).bind fun _ => .pure rfl
  | native f =>
    cases f
    have hself : (Value.native .clock : Value ScopeId).withoutSpans = .native .clock := rfl
    rw [hself, call, call, List.length_map]
    exact (mirrors_checkArity "clock" 0 args.length span).bind fun _ => mirrors_readClock clock
  | _ =>
    unfold call
    exact .raiseType Error.notCallable _ span

private theorem mirrors_invoke (ih : Mirrored clock n) (f : Closure ScopeId)
    (args : List (Value ScopeId)) :
    Mirrors earlier depth (invoke clock (n + 1) f args)
      (invoke clock (n + 1) f.withoutSpans (args.map Value.withoutSpans)) Value.withoutSpans := by
  have hbindings : (Bindings.empty.insertMany (f.decl.params.zip args)).map Value.withoutSpans =
      Bindings.empty.insertMany
        (f.withoutSpans.decl.params.zip (args.map Value.withoutSpans)) := by
    rw [Bindings.map_insertMany, Bindings.map_empty, Closure.withoutSpans, params_relabel,
      List.zip_map_right]
    rfl
  have hbody : f.withoutSpans.decl.body = f.decl.body.map (·.relabel .noSpans) := body_relabel _ _
  rw [invoke, invoke, ← hbindings, hbody]
  exact (mirrors_newScope f.env _).bind fun scope => (ih.execAll scope f.decl.body).bind fun flow =>
    mirrors_callResult f flow

/-! ## Statements -/

private theorem mirrors_execAll (ih : Mirrored clock n) (id : ScopeId) (body : List Stmt) :
    Mirrors earlier depth (execAll clock (n + 1) id body)
      (execAll clock (n + 1) id (body.map (·.relabel .noSpans))) Flow.withoutSpans := by
  cases body with
  | nil =>
    rw [List.map_nil, execAll]
    exact .pure rfl
  | cons first others =>
    rw [List.map_cons, execAll, execAll]
    refine (ih.exec id first).bind fun flow => ?_
    cases flow with
    | normal => exact ih.execAll id others
    | returned value => exact .pure rfl

private theorem mirrors_execLoop (ih : Mirrored clock n) (id : ScopeId) (condition : Expr)
    (body : Stmt) :
    Mirrors earlier depth (execLoop clock (n + 1) id condition body)
      (execLoop clock (n + 1) id (condition.relabel .noSpans) (body.relabel .noSpans))
      Flow.withoutSpans := by
  rw [execLoop, execLoop]
  refine (ih.eval id condition).bind fun v => ?_
  rw [← v.alike_withoutSpans.isTruthy]
  cases v.isTruthy with
  | false => exact .pure rfl
  | true =>
    refine (ih.exec id body).bind fun flow => ?_
    cases flow with
    | normal => exact ih.execLoop id condition body
    | returned value => exact .pure rfl

private theorem mirrors_derivedDecl (id : ScopeId) (span : Span) (name : String)
    (superclass : Located Ref) (methods : List FunDecl) :
    Mirrors earlier depth (exec clock (n + 1) id (.classDecl span name (some superclass) methods))
      (exec clock (n + 1) id
        ((Stmt.classDecl span name (some superclass) methods).relabel .noSpans))
      Flow.withoutSpans := by
  rw [Stmt.relabel, relabelMethods_eq_map, Option.map_some, exec, exec]
  refine (mirrors_define id name .nil).bind fun _ => ?_
  refine (mirrors_lookup id superclass.value superclass.span).bind fun v => ?_
  cases v with
  | cls above =>
    exact (mirrors_newScope id (Bindings.empty.insert "super" (.cls above))).bind fun inner =>
      (mirrors_declareClass id inner name (some above) methods span).bind fun _ => .pure rfl
  | _ => exact .raiseType Error.superclassInvalidType _ superclass.span

private theorem mirrors_branch (ih : Mirrored clock n) (id : ScopeId) (span : Span)
    (condition : Expr) (yes : Stmt) (no : Option Stmt) :
    Mirrors earlier depth (exec clock (n + 1) id (.branch span condition yes no))
      (exec clock (n + 1) id ((Stmt.branch span condition yes no).relabel .noSpans))
      Flow.withoutSpans := by
  rw [Stmt.relabel, exec.eq_def, exec.eq_def]
  refine (ih.eval id condition).bind fun v => ?_
  rw [← v.alike_withoutSpans.isTruthy]
  cases v.isTruthy with
  | true => exact ih.exec id yes
  | false =>
    cases no with
    | none => exact .pure rfl
    | some s => exact ih.exec id s

private theorem mirrors_exec (ih : Mirrored clock n) (id : ScopeId) (s : Stmt) :
    Mirrors earlier depth (exec clock (n + 1) id s) (exec clock (n + 1) id (s.relabel .noSpans))
      Flow.withoutSpans := by
  cases s with
  | expr span value =>
    rw [Stmt.relabel, exec, exec]
    exact .emitThen _ _ ((ih.eval id value).bind fun _ => .pure rfl)
  | print span value =>
    rw [Stmt.relabel, exec, exec]
    refine .emitThen _ _ ((ih.eval id value).bind fun v => ?_)
    rw [← v.alike_withoutSpans.display]
    exact (mirrors_writeLine v.display span).bind fun _ => .pure rfl
  | ret span value =>
    cases value with
    | none =>
      rw [Stmt.relabel, Option.map_none, exec, exec]
      exact .pure rfl
    | some e =>
      rw [Stmt.relabel, Option.map_some, exec, exec]
      exact (ih.eval id e).map fun _ => rfl
  | varDecl span name value =>
    cases value with
    | none =>
      rw [Stmt.relabel, Option.map_none, exec, exec]
      exact (mirrors_define id name .nil).bind fun _ => .pure rfl
    | some e =>
      rw [Stmt.relabel, Option.map_some, exec, exec]
      exact (ih.eval id e).bind fun v => (mirrors_define id name v).bind fun _ => .pure rfl
  | funDecl decl =>
    rw [Stmt.relabel, exec, exec, name_relabel]
    exact (mirrors_newClosure decl id false).bind fun f =>
      (mirrors_define id decl.name (.function f)).bind fun _ => .pure rfl
  | classDecl span name superclass methods =>
    cases superclass with
    | none =>
      rw [Stmt.relabel, relabelMethods_eq_map, Option.map_none, exec, exec]
      exact (mirrors_define id name .nil).bind fun _ =>
        (mirrors_declareClass id id name none methods span).bind fun _ => .pure rfl
    | some superclass => exact mirrors_derivedDecl id span name superclass methods
  | block span body =>
    rw [Stmt.relabel, relabelBody_eq_map, exec, exec]
    exact (mirrors_newScope id .empty).bind fun inner => ih.execAll inner body
  | branch span condition yes no => exact mirrors_branch ih id span condition yes no
  | loop span condition body =>
    rw [Stmt.relabel, exec, exec]
    exact ih.execLoop id condition body

theorem mirrored (clock : Nat → Float) (n : Nat) : Mirrored clock n := by
  induction n with
  | zero => exact mirrored_zero clock
  | succ n ih =>
    exact {
      eval := mirrors_eval ih
      evalAll := mirrors_evalAll ih
      call := mirrors_call ih
      invoke := mirrors_invoke ih
      execAll := mirrors_execAll ih
      exec := mirrors_exec ih
      execLoop := mirrors_execLoop ih }

end LoxLang.Machine
