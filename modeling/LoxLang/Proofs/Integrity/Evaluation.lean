import LoxLang.Proofs.Integrity.Steps

namespace LoxLang.Machine

variable {clock : Nat → Float} {declared : Closure ScopeId → Prop} {n : Nat}

def Context.orDeclared (ctx : Context) (scope : ScopeId) (names : List String) : Additions :=
  fun id name => (id = scope ∧ name ∈ names) ∨ ctx.pending id name

theorem mem_declared_cons {first : Stmt} {others : List Stmt} {name : String} :
    name ∈ (first :: others).filterMap Stmt.declared? ↔
      name ∈ first.declared?.toList ∨ name ∈ others.filterMap Stmt.declared? := by
  cases hfirst : first.declared? <;> simp [hfirst]

structure EvaluatorProceeds (clock : Nat → Float) (declared : Closure ScopeId → Prop) (n : Nat) :
    Prop where
  eval : ∀ {ctx frames scope e m}, m.Sound declared → e.Scoped frames →
    m.scopes.Around ctx.pending frames scope →
    Proceeds clock declared ctx.pending (eval clock n scope e) m
      (moments clock n ctx (.eval scope e) m) fun v m' => v.Sound declared m'
  evalAll : ∀ {ctx frames scope es m}, m.Sound declared → scopedArguments frames es →
    m.scopes.Around ctx.pending frames scope →
    Proceeds clock declared ctx.pending (evalAll clock n scope es) m
      (moments clock n ctx (.evalAll scope es) m) fun vs m' => ∀ v ∈ vs, v.Sound declared m'
  call : ∀ {ctx callee args span m}, m.Sound declared → ctx.initializing = none →
    callee.Sound declared m → (∀ arg ∈ args, arg.Sound declared m) →
    Proceeds clock declared ctx.pending (call clock n callee args span) m
      (moments clock n ctx (.call callee args span) m) fun v m' => v.Sound declared m'
  invoke : ∀ {ctx f args m}, m.Sound declared → ctx.initializing = none → f.Sound declared m →
    (∀ arg ∈ args, arg.Sound declared m) → f.decl.params.length = args.length →
    Proceeds clock declared ctx.pending (invoke clock n f args) m
      (moments clock n ctx (.invoke f args) m) fun v m' => v.Sound declared m'
  execAll : ∀ {ctx frames scope body m}, m.Sound declared → ctx.initializing = none →
    scopedBody frames body → m.At frames scope →
    Proceeds clock declared (ctx.orDeclared scope (body.filterMap Stmt.declared?))
      (execAll clock n scope body) m (moments clock n ctx (.execAll scope body) m)
      fun flow m' => ∀ v ∈ flow.values, v.Sound declared m'
  exec : ∀ {ctx frames scope s m}, m.Sound declared → ctx.initializing = none →
    s.Scoped frames → m.At frames scope →
    Proceeds clock declared (ctx.orDeclared scope s.declared?.toList) (exec clock n scope s) m
      (moments clock n ctx (.exec scope s) m) fun flow m' =>
        (∀ v ∈ flow.values, v.Sound declared m') ∧
          ∀ name, s.declared? = some name → m'.scopes.own? scope name ≠ none
  execLoop : ∀ {ctx frames scope condition body m}, m.Sound declared → ctx.initializing = none →
    condition.Scoped frames → body.Scoped frames → body.declared? = none → m.At frames scope →
    Proceeds clock declared ctx.pending (execLoop clock n scope condition body) m
      (moments clock n ctx (.execLoop scope condition body) m)
      fun flow m' => ∀ v ∈ flow.values, v.Sound declared m'

/-! ## Starting tasks -/

section
variable {ctx : Context} {m : Machine} {frames : List Frame} {scope : ScopeId}
  {inner : List Moment}

private theorem Proceeds.startEval {e : Expr} (hm : m.Sound declared) (he : e.Scoped frames)
    (haround : m.scopes.Around ctx.pending frames scope)
    (h : Proceeds clock declared ctx.pending (eval clock n scope e) m inner fun v m' =>
      v.Sound declared m') :
    Proceeds clock declared ctx.pending (eval clock n scope e) m
      (⟨ctx, n, .eval scope e, m⟩ :: inner) fun v m' => v.Sound declared m' := by
  refine h.enter hm ⟨frames, he, haround⟩ (.inr trivial) ([·]) rfl (fun _ _ h => .inr h) ?_
  intro v m' hv
  exact fun w hw => List.mem_singleton.mp hw ▸ hv

private theorem Proceeds.startEvalAll {es : List Expr} (hm : m.Sound declared)
    (hes : scopedArguments frames es) (haround : m.scopes.Around ctx.pending frames scope)
    (h : Proceeds clock declared ctx.pending (evalAll clock n scope es) m inner fun vs m' =>
      ∀ v ∈ vs, v.Sound declared m') :
    Proceeds clock declared ctx.pending (evalAll clock n scope es) m
      (⟨ctx, n, .evalAll scope es, m⟩ :: inner) fun vs m' => ∀ v ∈ vs, v.Sound declared m' :=
  h.enter hm ⟨frames, hes, haround⟩ (.inr trivial) id (id_map _).symm (fun _ _ h => .inr h)
    fun _ _ hvs => hvs

private theorem Proceeds.startCall {callee : Value ScopeId} {args : List (Value ScopeId)}
    {span : Span}
    (hm : m.Sound declared) (hctx : ctx.initializing = none) (hcallee : callee.Sound declared m)
    (hargs : ∀ arg ∈ args, arg.Sound declared m)
    (h : Proceeds clock declared ctx.pending (call clock n callee args span) m inner fun v m' =>
      v.Sound declared m') :
    Proceeds clock declared ctx.pending (call clock n callee args span) m
      (⟨ctx, n, .call callee args span, m⟩ :: inner) fun v m' => v.Sound declared m' := by
  refine h.enter hm ⟨hcallee, hargs⟩ (.inl hctx) ([·]) rfl (fun _ _ h => .inr h) fun v m' hv => ?_
  exact fun w hw => List.mem_singleton.mp hw ▸ hv

private theorem Proceeds.startInvoke {f : Closure ScopeId} {args : List (Value ScopeId)}
    (hm : m.Sound declared) (hctx : ctx.initializing = none) (hf : f.Sound declared m)
    (hargs : ∀ arg ∈ args, arg.Sound declared m) (harity : f.decl.params.length = args.length)
    (h : Proceeds clock declared ctx.pending (invoke clock n f args) m inner fun v m' =>
      v.Sound declared m') :
    Proceeds clock declared ctx.pending (invoke clock n f args) m
      (⟨ctx, n, .invoke f args, m⟩ :: inner) fun v m' => v.Sound declared m' := by
  refine h.enter hm ⟨hf, hargs, harity⟩ (.inl hctx) ([·]) rfl (fun _ _ h => .inr h) ?_
  intro v m' hv
  exact fun w hw => List.mem_singleton.mp hw ▸ hv

private theorem Proceeds.startExecAll {body : List Stmt} (hm : m.Sound declared)
    (hctx : ctx.initializing = none)
    (hbody : scopedBody frames body) (hat : m.At frames scope)
    (h : Proceeds clock declared (ctx.orDeclared scope (body.filterMap Stmt.declared?))
      (execAll clock n scope body) m inner fun flow m' => ∀ v ∈ flow.values, v.Sound declared m') :
    Proceeds clock declared (ctx.orDeclared scope (body.filterMap Stmt.declared?))
      (execAll clock n scope body) m (⟨ctx, n, .execAll scope body, m⟩ :: inner)
      fun flow m' => ∀ v ∈ flow.values, v.Sound declared m' :=
  h.enter hm ⟨frames, hbody, hat⟩ (.inl hctx) Flow.values rfl (fun _ _ h => h)
    fun _ _ hflow => hflow

private theorem Proceeds.startExec {s : Stmt} (hm : m.Sound declared)
    (hctx : ctx.initializing = none) (hs : s.Scoped frames) (hat : m.At frames scope)
    (h : Proceeds clock declared (ctx.orDeclared scope s.declared?.toList) (exec clock n scope s) m
      inner fun flow m' => (∀ v ∈ flow.values, v.Sound declared m') ∧
        ∀ name, s.declared? = some name → m'.scopes.own? scope name ≠ none) :
    Proceeds clock declared (ctx.orDeclared scope s.declared?.toList) (exec clock n scope s) m
      (⟨ctx, n, .exec scope s, m⟩ :: inner) fun flow m' =>
        (∀ v ∈ flow.values, v.Sound declared m') ∧
          ∀ name, s.declared? = some name → m'.scopes.own? scope name ≠ none := by
  refine h.enter hm ⟨frames, hs, hat⟩ (.inl hctx) Flow.values rfl (fun id name hadd => ?_)
    fun _ _ hflow => hflow.1
  exact hadd.imp_left fun ⟨hid, hname⟩ => ⟨hid, Option.mem_toList.mp hname⟩

private theorem Proceeds.startExecLoop {condition : Expr} {body : Stmt} (hm : m.Sound declared)
    (hctx : ctx.initializing = none)
    (hcondition : condition.Scoped frames) (hbody : body.Scoped frames)
    (hnone : body.declared? = none) (hat : m.At frames scope)
    (h : Proceeds clock declared ctx.pending (execLoop clock n scope condition body) m inner
      fun flow m' => ∀ v ∈ flow.values, v.Sound declared m') :
    Proceeds clock declared ctx.pending (execLoop clock n scope condition body) m
      (⟨ctx, n, .execLoop scope condition body, m⟩ :: inner)
      fun flow m' => ∀ v ∈ flow.values, v.Sound declared m' :=
  h.enter hm ⟨frames, hcondition, ⟨hbody, hnone⟩, hat⟩ (.inl hctx) Flow.values rfl
    (fun _ _ h => .inr h) fun _ _ hflow => hflow

end

private theorem evaluatorProceeds_zero : EvaluatorProceeds clock declared 0 where
  eval hm he haround := by
    refine .startEval hm he haround ?_
    rw [Machine.eval]
    exact .throw hm _
  evalAll hm hes haround := by
    refine .startEvalAll hm hes haround ?_
    rw [Machine.evalAll]
    exact .throw hm _
  call hm hctx hcallee hargs := by
    refine .startCall hm hctx hcallee hargs ?_
    rw [Machine.call]
    exact .throw hm _
  invoke hm hctx hf hargs harity := by
    refine .startInvoke hm hctx hf hargs harity ?_
    rw [Machine.invoke]
    exact .throw hm _
  execAll hm hctx hbody hat := by
    refine .startExecAll hm hctx hbody hat ?_
    rw [Machine.execAll]
    exact .throw hm _
  exec hm hctx hs hat := by
    refine .startExec hm hctx hs hat ?_
    rw [Machine.exec]
    exact .throw hm _
  execLoop hm hctx hcondition hbody hnone hat := by
    refine .startExecLoop hm hctx hcondition hbody hnone hat ?_
    rw [Machine.execLoop]
    exact .throw hm _

section
variable (ih : EvaluatorProceeds clock declared n) {ctx : Context} {m : Machine}
  {frames : List Frame} {scope : ScopeId} (hm : m.Sound declared)
include ih hm

/-! ## Expressions -/

private theorem proceeds_logical {span : Span} {op : LogicalOp} {left right : Expr}
    (hleft : left.Scoped frames) (hright : right.Scoped frames)
    (haround : m.scopes.Around ctx.pending frames scope) :
    Proceeds clock declared ctx.pending (eval clock (n + 1) scope (.logical span op left right)) m
      (inside clock (moments clock n) n ctx (.eval scope (.logical span op left right)) m)
      fun v m' => v.Sound declared m' := by
  rw [eval]
  refine (ih.eval hm hleft haround).bind fun a m₁ ha hlater hm₁ => ?_
  have hother := ih.eval hm₁ hright (haround.later hlater)
  cases op with
  | or =>
    cases a.isTruthy with
    | true => exact .pure hm₁ ha
    | false => exact hother
  | and =>
    cases a.isTruthy with
    | true => exact hother
    | false => exact .pure hm₁ ha

private theorem proceeds_set {span : Span} {object value : Expr} {name : String}
    (hobject : object.Scoped frames) (hvalue : value.Scoped frames)
    (haround : m.scopes.Around ctx.pending frames scope) :
    Proceeds clock declared ctx.pending (eval clock (n + 1) scope (.set span object name value)) m
      (inside clock (moments clock n) n ctx (.eval scope (.set span object name value)) m)
      fun v m' => v.Sound declared m' := by
  rw [eval]
  refine (ih.eval hm hobject haround).bind fun receiver m₁ _ hlater hm₁ => ?_
  cases receiver with
  | object cell c =>
    refine (ih.eval hm₁ hvalue (haround.later hlater)).andThen fun v m₂ hv _ hm₂ => ?_
    exact (proceeds_setField hm₂ cell name hv).andThen fun _ m₃ _ hlater₃ hm₃ =>
      .pure hm₃ (hv.later hlater₃)
  | _ => exact proceeds_raise hm₁ _ span

private theorem proceeds_callExpr {span : Span} {callee : Expr} {args : List Expr}
    (hcallee : callee.Scoped frames) (hargs : scopedArguments frames args)
    (haround : m.scopes.Around ctx.pending frames scope) :
    Proceeds clock declared ctx.pending (eval clock (n + 1) scope (.call span callee args)) m
      (inside clock (moments clock n) n ctx (.eval scope (.call span callee args)) m)
      fun v m' => v.Sound declared m' := by
  rw [eval]
  refine (ih.eval hm hcallee haround).bind fun f m₁ hf hlater₁ hm₁ => ?_
  refine (ih.evalAll hm₁ hargs (haround.later hlater₁)).bind fun values m₂ hvalues hlater₂ hm₂ => ?_
  by_cases hroom : m₂.frames ≥ maxFrames
  · rw [if_pos hroom]
    have hstop : inFrame span (call clock n f values span) m₂ =
        .error (.raised ⟨.stackOverflow, span⟩) m₂ := by rw [inFrame, if_pos hroom]
    exact .ofSame hstop rfl (Nat.le_refl _) hm₂ (by rintro _ _ ⟨⟩)
  · rw [if_neg hroom]
    let m₃ : Machine := { m₂ with frames := m₂.frames + 1 }
    have hm₃ : m₃.Sound declared := hm₂.of_eq rfl rfl (Nat.le_refl _)
    have hlater₃ : Later m₂ m₃ := later_of_scopes_eq rfl (Nat.le_refl _)
    have hbody : Proceeds clock declared (ctx.inCall span).pending (call clock n f values span) m₃
        (moments clock n (ctx.inCall span) (.call f values span) m₃)
        fun v m' => v.Sound declared m' :=
      ih.call hm₃ rfl (hf.later (hlater₂.trans hlater₃))
        fun arg harg => (hvalues arg harg).later hlater₃
    have hsame : ∀ (v : Value ScopeId) (m' : Machine), v.Sound declared m' →
        v.Sound declared { m' with frames := m'.frames - 1 } := fun v m' hv =>
      hv.later (later_of_scopes_eq rfl (Nat.le_refl _))
    -- A call does not know of the variable that is being initialized.
    have hnothing : ∀ id name, (ctx.inCall span).pending id name → ctx.pending id name := by
      rintro _ _ ⟨⟩
    exact (hbody.inFrame span hroom hsame).mono hnothing fun _ _ h => h

private theorem proceeds_eval {e : Expr} (he : e.Scoped frames)
    (haround : m.scopes.Around ctx.pending frames scope) :
    Proceeds clock declared ctx.pending (eval clock (n + 1) scope e) m
      (moments clock (n + 1) ctx (.eval scope e) m) fun v m' => v.Sound declared m' := by
  refine .startEval hm he haround ?_
  cases e with
  | literal span value =>
    rw [eval]
    exact .pure hm (Value.sound_ofLiteral value)
  | var span ref =>
    rw [eval]
    exact proceeds_lookup hm scope ref span
  | this span distance =>
    rw [eval]
    exact proceeds_lookup hm scope ⟨"this", distance⟩ span
  | super span distance method =>
    rw [eval]
    exact proceeds_superMethod hm scope distance method span
  | grouping span inner =>
    rw [eval]
    exact ih.eval hm he haround
  | unary span op operand =>
    have hoperand : operand.Scoped frames := he
    rw [eval]
    refine (ih.eval hm hoperand haround).andThen fun v m₁ _ _ hm₁ => ?_
    obtain ⟨result, hresult, -⟩ := (Value.Alike.refl v).unary op
    exact proceeds_settle hm₁ span ⟨result, hresult⟩
  | binary span op left right =>
    rw [eval]
    refine (ih.eval hm he.1 haround).bind fun a m₁ _ hlater hm₁ => ?_
    refine (ih.eval hm₁ he.2 (haround.later hlater)).andThen fun b m₂ _ _ hm₂ => ?_
    obtain ⟨result, hresult, -⟩ := (Value.Alike.refl a).binary (Value.Alike.refl b) op
    exact proceeds_settle hm₂ span ⟨result, hresult⟩
  | logical span op left right => exact proceeds_logical ih hm he.1 he.2 haround
  | assign span target value =>
    obtain ⟨hdistance, hname, hvalue⟩ := he
    rw [eval]
    refine (ih.eval hm hvalue haround).andThen fun v m₁ hv hlater₁ hm₁ => ?_
    have hassign : Proceeds clock declared ctx.pending (assign scope target v span) m₁ []
        fun _ _ => True :=
      proceeds_assign hm₁ span (haround.later hlater₁) hdistance hname hv
    exact hassign.andThen fun _ m₂ _ hlater₂ hm₂ => .pure hm₂ (hv.later hlater₂)
  | call span callee args => exact proceeds_callExpr ih hm he.1 he.2 haround
  | get span object name =>
    have hobject : object.Scoped frames := he
    rw [eval]
    exact (ih.eval hm hobject haround).andThen fun receiver m₁ hreceiver _ hm₁ =>
      proceeds_property hm₁ name span hreceiver
  | set span object name value => exact proceeds_set ih hm he.1 he.2 haround

private theorem proceeds_evalAll {es : List Expr} (hes : scopedArguments frames es)
    (haround : m.scopes.Around ctx.pending frames scope) :
    Proceeds clock declared ctx.pending (evalAll clock (n + 1) scope es) m
      (moments clock (n + 1) ctx (.evalAll scope es) m)
      fun vs m' => ∀ v ∈ vs, v.Sound declared m' := by
  refine .startEvalAll hm hes haround ?_
  cases es with
  | nil =>
    rw [evalAll]
    exact .pure hm fun _ hv => absurd hv List.not_mem_nil
  | cons first others =>
    obtain ⟨hfirst, hothers⟩ := hes
    rw [evalAll]
    refine (ih.eval hm hfirst haround).bind fun v m₁ hv hlater₁ hm₁ => ?_
    refine (ih.evalAll hm₁ hothers (haround.later hlater₁)).andThen fun vs m₂ hvs hlater₂ hm₂ => ?_
    exact .pure hm₂ (List.forall_mem_cons.mpr ⟨hv.later hlater₂, hvs⟩)

/-! ## Calls -/

private theorem proceeds_call {callee : Value ScopeId} {args : List (Value ScopeId)} {span : Span}
    (hctx : ctx.initializing = none) (hcallee : callee.Sound declared m)
    (hargs : ∀ arg ∈ args, arg.Sound declared m) :
    Proceeds clock declared ctx.pending (call clock (n + 1) callee args span) m
      (moments clock (n + 1) ctx (.call callee args span) m) fun v m' => v.Sound declared m' := by
  refine .startCall hm hctx hcallee hargs ?_
  cases callee with
  | function f =>
    rw [call]
    refine (proceeds_checkArity hm _ _ _ span).first fun _ m₁ harity hlater hm₁ => ?_
    have hf : f.Sound declared m := hcallee
    have hargs₁ : ∀ arg ∈ args, arg.Sound declared m₁ :=
      fun arg harg => (hargs arg harg).later hlater
    exact ih.invoke hm₁ hctx (hf.later hlater) hargs₁ harity
  | cls c =>
    have hc : c.Sound m := hcallee
    rw [call, inside, insideCall]
    cases hmethod : c.method? initializerName with
    | none =>
      refine (proceeds_checkArity hm _ _ _ span).andThen fun _ m₁ _ hlater hm₁ => ?_
      exact (proceeds_newObject hm₁ (hc.later hlater)).mono (fun _ _ h => h) fun _ _ h => h.2
    | some initializer =>
      obtain ⟨owner, howner, hlisted⟩ := Class.exists_of_method? hmethod
      refine (proceeds_checkArity hm _ _ _ span).first fun _ m₁ harity hlater₁ hm₁ => ?_
      refine (proceeds_newObject hm₁ (hc.later hlater₁)).first ?_
      rintro _ m₂ ⟨⟨cell, rfl⟩, hreceiver⟩ hlater₂ hm₂
      have hc₂ : c.Sound m₂ := hreceiver
      obtain ⟨hname, hg⟩ := hc₂.methods owner howner _ initializer hlisted
      rw [← hname] at hlisted
      refine (proceeds_bind hm₂ cell hc₂ hlisted howner hg).first ?_
      rintro method m₃ ⟨hf, hdecl⟩ hlater₃ hm₃
      have hlater := hlater₁.trans (hlater₂.trans hlater₃)
      have harity' : method.decl.params.length = args.length := by rw [hdecl, harity]
      have hargs₃ : ∀ arg ∈ args, arg.Sound declared m₃ :=
        fun arg harg => (hargs arg harg).later hlater
      refine (ih.invoke hm₃ hctx hf hargs₃ harity').andThen ?_
      intro _ m₄ _ hlater₄ hm₄
      exact .pure hm₄ (hreceiver.later (hlater₃.trans hlater₄))
  | native f =>
    cases f
    rw [call]
    exact (proceeds_checkArity hm _ _ _ span).andThen fun _ m₁ _ _ hm₁ => proceeds_readClock hm₁
  | _ =>
    unfold call
    exact proceeds_raise hm _ span

omit ih hm in
private theorem get?_params {params : List String} {args : List (Value ScopeId)}
    (hnodup : params.Nodup) (harity : params.length = args.length) (name : String) :
    (Bindings.empty.insertMany (params.zip args)).get? name ≠ none ↔ name ∈ params := by
  have hnames : (params.zip args).map (·.1) = params :=
    List.map_fst_zip (Nat.le_of_eq harity)
  constructor
  · intro hget
    by_contra hname
    rw [← hnames] at hname
    rw [Bindings.get?_insertMany_of_notMem hname] at hget
    exact hget rfl
  · intro hname
    rw [← hnames] at hname hnodup
    obtain ⟨pair, hpair, rfl⟩ := List.mem_map.mp hname
    rw [Bindings.get?_insertMany_of_mem hnodup hpair]
    exact Option.some_ne_none pair.2

private theorem proceeds_invoke {f : Closure ScopeId} {args : List (Value ScopeId)}
    (hctx : ctx.initializing = none) (hf : f.Sound declared m)
    (hargs : ∀ arg ∈ args, arg.Sound declared m) (harity : f.decl.params.length = args.length) :
    Proceeds clock declared ctx.pending (invoke clock (n + 1) f args) m
      (moments clock (n + 1) ctx (.invoke f args) m) fun v m' => v.Sound declared m' := by
  refine .startInvoke hm hctx hf hargs harity ?_
  obtain ⟨frames, haround, hscoped⟩ := hf.code
  obtain ⟨hnodup, hproper, hbody⟩ := hscoped.parts
  let bindings : Bindings (Value ScopeId) := Bindings.empty.insertMany (f.decl.params.zip args)
  have hparams : ∀ name, bindings.get? name ≠ none ↔ name ∈ f.decl.params :=
    get?_params hnodup harity
  have hreserved : ∀ name, Reserved name → bindings.get? name = none := by
    intro name hname
    by_contra hbound
    exact hproper name ((hparams name).mp hbound) hname
  have hbindings : bindings.All (Value.Sound declared m) :=
    Bindings.All.empty.insertMany fun pair hpair => hargs pair.2 (List.of_mem_zip hpair).2
  rw [invoke, inside]
  refine (proceeds_newScope hm hbindings fun hthis =>
    absurd (hreserved "this" (.inl rfl)) hthis).firstNew ?_
  rintro _ m₁ ⟨rfl, rfl⟩ - hm₁
  have hat : At { m with scopes := m.scopes.push ⟨bindings, some f.env⟩ }
      (paramFrame f.decl.params :: frames) m.scopes.next := by
    refine ⟨complete_push haround (fun name hname => ?_) fun name hname hbound => ?_,
      fun name hname => ?_⟩
    · rw [declares_paramFrame, decide_eq_true_eq] at hname
      exact (hparams name).mpr hname
    · exact absurd (hreserved name hname) hbound
    · rw [Scopes.own?_push, if_pos rfl]
      exact hreserved name hname
  have hadd : ∀ id name,
      ctx.orDeclared m.scopes.next (f.decl.body.filterMap Stmt.declared?) id name →
      ctx.pending.orNewerThan m id name := by
    rintro id name (⟨rfl, -⟩ | hpending)
    · exact .inr (Nat.le_refl _)
    · exact .inl hpending
  refine ((ih.execAll hm₁ hctx hbody hat).mono hadd fun _ _ h => h).andThen ?_
  intro flow m₂ hflow _ hm₂
  exact proceeds_callResult hm₂ f hflow

/-! ## Statements -/

private theorem proceeds_execAll {body : List Stmt} (hctx : ctx.initializing = none)
    (hbody : scopedBody frames body) (hat : m.At frames scope) :
    Proceeds clock declared (ctx.orDeclared scope (body.filterMap Stmt.declared?))
      (execAll clock (n + 1) scope body) m (moments clock (n + 1) ctx (.execAll scope body) m)
      fun flow m' => ∀ v ∈ flow.values, v.Sound declared m' := by
  refine .startExecAll hm hctx hbody hat ?_
  cases body with
  | nil =>
    rw [execAll]
    exact .pure hm fun _ hv => absurd hv List.not_mem_nil
  | cons first others =>
    obtain ⟨hfirst, hothers⟩ := hbody
    have hadd₁ : ∀ id name, ctx.orDeclared scope first.declared?.toList id name →
        ctx.orDeclared scope ((first :: others).filterMap Stmt.declared?) id name :=
      fun _ _ => Or.imp_left (And.imp_right (mem_declared_cons.mpr ∘ .inl))
    have hadd₂ : ∀ id name, ctx.orDeclared scope (others.filterMap Stmt.declared?) id name →
        ctx.orDeclared scope ((first :: others).filterMap Stmt.declared?) id name :=
      fun _ _ => Or.imp_left (And.imp_right (mem_declared_cons.mpr ∘ .inr))
    rw [execAll]
    refine ((ih.exec hm hctx hfirst hat).mono hadd₁ fun _ _ h => h).bind ?_
    rintro flow m₁ ⟨hflow, hbound⟩ hlater hm₁
    cases flow with
    | normal =>
      have hat₁ := (hat.later hlater).framesAfter hbound
      exact (ih.execAll hm₁ hctx hothers hat₁).mono hadd₂ fun _ _ h => h
    | returned value => exact .pure hm₁ hflow

private theorem proceeds_execLoop {condition : Expr} {body : Stmt} (hctx : ctx.initializing = none)
    (hcondition : condition.Scoped frames)
    (hbody : body.Scoped frames) (hnone : body.declared? = none) (hat : m.At frames scope) :
    Proceeds clock declared ctx.pending (execLoop clock (n + 1) scope condition body) m
      (moments clock (n + 1) ctx (.execLoop scope condition body) m)
      fun flow m' => ∀ v ∈ flow.values, v.Sound declared m' := by
  refine .startExecLoop hm hctx hcondition hbody hnone hat ?_
  have hadd : ∀ id name, ctx.orDeclared scope body.declared?.toList id name →
      ctx.pending id name := by
    rintro id name (⟨-, hname⟩ | hpending)
    · rw [hnone] at hname
      exact absurd hname List.not_mem_nil
    · exact hpending
  rw [execLoop]
  refine (ih.eval hm hcondition hat.aroundAny).bind fun v m₁ _ hlater₁ hm₁ => ?_
  cases v.isTruthy with
  | false => exact .pure hm₁ fun _ hv => absurd hv List.not_mem_nil
  | true =>
    have hat₁ := hat.later hlater₁
    refine ((ih.exec hm₁ hctx hbody hat₁).mono hadd fun _ _ h => h.1).bind ?_
    intro flow m₂ hflow hlater₂ hm₂
    cases flow with
    | normal => exact ih.execLoop hm₂ hctx hcondition hbody hnone (hat₁.later hlater₂)
    | returned value => exact .pure hm₂ hflow

/-- A variable is bound after its initializer, which may already assign to it. -/
theorem proceeds_varDecl {span : Span} {name : String} {value : Option Expr}
    (hs : (Stmt.varDecl span name value).Scoped frames) (hat : m.At frames scope) :
    Proceeds clock declared (ctx.orDeclared scope [name])
      (exec clock (n + 1) scope (.varDecl span name value)) m
      (inside clock (moments clock n) n ctx (.exec scope (.varDecl span name value)) m)
      fun flow m' => flow = .normal ∧ m'.scopes.own? scope name ≠ none := by
  obtain ⟨⟨hname, -⟩, hvalue⟩ := hs
  have hadd : ctx.orDeclared scope [name] scope name := .inl ⟨rfl, List.mem_cons_self⟩
  have hlt := hat.around.lt_next
  cases value with
  | none =>
    have hnil : (Value.nil : Value ScopeId).Sound declared m := trivial
    rw [exec]
    exact (proceeds_define hm hname hnil hlt (.inr hadd)).andThen fun _ m₁ hbound _ hm₁ =>
      .pure hm₁ ⟨rfl, hbound⟩
  | some e =>
    let inner : Context := { ctx with initializing := some (scope, name) }
    have haround : m.scopes.Around inner.pending (putName name false frames) scope :=
      hat.aroundAny.putName false (.inr ⟨rfl, hname⟩)
    have hinner : ∀ id key, inner.pending id key → ctx.orDeclared scope [name] id key := by
      rintro _ _ ⟨⟩
      exact hadd
    rw [exec]
    refine ((ih.eval hm (hvalue e rfl) haround).mono hinner fun _ _ h => h).andThen ?_
    intro v m₁ hv hlater hm₁
    have hlt₁ := Nat.lt_of_lt_of_le hlt hlater.next
    exact (proceeds_define hm₁ hname hv hlt₁ (.inr hadd)).andThen fun _ m₂ hbound _ hm₂ =>
      .pure hm₂ ⟨rfl, hbound⟩

omit ih in
private theorem proceeds_funDecl {decl : FunDecl} (hs : (Stmt.funDecl decl).Scoped frames)
    (hat : m.At frames scope) (hdeclared : declared ⟨m.identity, decl, scope, false⟩) :
    Proceeds clock declared (ctx.orDeclared scope [decl.name])
      (exec clock (n + 1) scope (.funDecl decl)) m []
      fun flow m' => flow = .normal ∧ m'.scopes.own? scope decl.name ≠ none := by
  obtain ⟨⟨hname, -⟩, hscoped⟩ := hs
  have hadd : ctx.orDeclared scope [decl.name] scope decl.name := .inl ⟨rfl, List.mem_cons_self⟩
  rw [exec]
  refine (proceeds_newClosure hm decl scope false).andThen ?_
  rintro f m₁ ⟨rfl, -⟩ hlater hm₁
  have hat₁ := hat.later hlater
  have hlt₁ := hat₁.around.lt_next
  let f : Closure ScopeId := ⟨m.identity, decl, scope, false⟩
  let m₂ : Machine := { m₁ with scopes := m₁.scopes.define scope decl.name (.function f) }
  have hat₂ : m₂.At (declareName decl.name frames) scope := by
    refine (hat₁.later (later_define hname scope _)).declareName ?_
    rw [Scopes.own?_define_self _ _ _ _ hlt₁]
    exact Option.some_ne_none _
  have hf : (Value.function f).Sound declared m₂ :=
    ⟨⟨declareName decl.name frames, hat₂.around, hscoped⟩, .inl hdeclared⟩
  exact (proceeds_defineNew hm₁ hname hf hlt₁ (.inr hadd)).andThen fun _ m₃ hbound _ hm₃ =>
    .pure hm₃ ⟨rfl, hbound⟩

omit ih in
private theorem proceeds_derivedClass {above : Class ScopeId} {name : String}
    {methods : List FunDecl}
    {allowed : Additions} (habove : above.Sound m) (span : Span) (hname : ¬Reserved name)
    (hbound : m.scopes.own? scope name ≠ none) (haround : m.scopes.Complete frames scope)
    (hmethods : scopedMethods (thisFrame :: superFrame :: frames) methods) :
    Proceeds clock declared allowed (do
        let inner ← newScope scope (Bindings.empty.insert "super" (.cls above))
        declareClass scope inner name (some above) methods span
        return .normal : Run (Flow ScopeId)) m []
      fun flow m' => flow = .normal ∧ m'.scopes.own? scope name ≠ none := by
  have hbindings : (Bindings.empty.insert "super" (Value.cls above)).All (Value.Sound declared m) :=
    Bindings.All.empty.insert habove
  refine (proceeds_newScope hm hbindings fun hthis => ?_).andThen ?_
  · rw [Bindings.get?_insert] at hthis
    exact absurd rfl hthis
  · rintro _ m₁ ⟨rfl, hpush⟩ hlater hm₁
    have hsome : ∀ above' ∈ some above, above'.Sound m₁ := by
      rintro _ ⟨⟩
      exact habove.later hlater
    have hinner : m₁.scopes.Complete (superFrame :: frames) m.scopes.next := by
      rw [hpush]
      exact complete_pushName haround "super" (.cls above)
    have hsuper : m₁.scopes.own? m.scopes.next "super" = (some above).map .cls := by
      rw [hpush]
      simp only [Scopes.own?_push, Bindings.get?_insert, if_true, Option.map_some]
    exact (proceeds_declareClass hm₁ span hname (hlater.names scope name hbound) hinner hsuper hsome
      hmethods).andThen fun _ m₂ hbound₂ _ hm₂ => .pure hm₂ ⟨rfl, hbound₂⟩

omit ih in
/-- A class is bound to `nil` while its methods are made. -/
theorem proceeds_classDecl {span : Span} {name : String} {superclass : Option (Located Ref)}
    {methods : List FunDecl} (hs : (Stmt.classDecl span name superclass methods).Scoped frames)
    (hat : m.At frames scope) :
    Proceeds clock declared (ctx.orDeclared scope [name])
      (exec clock (n + 1) scope (.classDecl span name superclass methods)) m []
      fun flow m' => flow = .normal ∧ m'.scopes.own? scope name ≠ none := by
  have hadd : ctx.orDeclared scope [name] scope name := .inl ⟨rfl, List.mem_cons_self⟩
  have hnil : (Value.nil : Value ScopeId).Sound declared m := trivial
  have hlt := hat.around.lt_next
  cases superclass with
  | none =>
    obtain ⟨⟨hname, -⟩, hmethods⟩ := hs
    rw [exec]
    refine (proceeds_define hm hname hnil hlt (.inr hadd)).andThen fun _ m₁ hbound hlater hm₁ => ?_
    have hat₁ := (hat.later hlater).declareName hbound
    have hnone : ∀ above ∈ (none : Option (Class ScopeId)), above.Sound m₁ := by simp
    have hsuper : m₁.scopes.own? scope "super" = (none : Option (Class ScopeId)).map .cls :=
      hat₁.plain "super" (.inr rfl)
    exact (proceeds_declareClass hm₁ span hname hbound hat₁.around hsuper hnone hmethods).andThen
      fun _ m₂ hbound₂ _ hm₂ => .pure hm₂ ⟨rfl, hbound₂⟩
  | some superclass =>
    obtain ⟨⟨hname, -⟩, -, hmethods⟩ := hs
    rw [exec]
    refine (proceeds_define hm hname hnil hlt (.inr hadd)).andThen fun _ m₁ hbound hlater hm₁ => ?_
    have hat₁ := (hat.later hlater).declareName hbound
    refine (proceeds_lookup hm₁ scope superclass.value superclass.span).andThen ?_
    intro v m₂ hv hlater₂ hm₂
    cases v with
    | cls above =>
      have hbound₂ := hlater₂.names scope name hbound
      exact proceeds_derivedClass hm₂ hv span hname hbound₂ (hat₁.later hlater₂).around hmethods
    | _ => exact proceeds_raise hm₂ _ superclass.span

private theorem proceeds_block {span : Span} {body : List Stmt} (hctx : ctx.initializing = none)
    (hs : (Stmt.block span body).Scoped frames) (hat : m.At frames scope) :
    Proceeds clock declared ctx.pending (exec clock (n + 1) scope (.block span body)) m
      (inside clock (moments clock n) n ctx (.exec scope (.block span body)) m)
      fun flow m' => ∀ v ∈ flow.values, v.Sound declared m' := by
  have hempty : (Bindings.empty : Bindings (Value ScopeId)).get? "this" = none := rfl
  rw [exec, inside, insideStmt]
  refine (proceeds_newScope hm Bindings.All.empty fun h => absurd hempty h).firstNew ?_
  rintro _ m₁ ⟨rfl, rfl⟩ - hm₁
  have hat₁ : At { m with scopes := m.scopes.push ⟨.empty, some scope⟩ } ([] :: frames)
      m.scopes.next := by
    refine ⟨complete_push hat.around (by rintro _ ⟨⟩) fun _ _ h => absurd rfl h, ?_⟩
    intro name _
    rw [Scopes.own?_push, if_pos rfl]
    rfl
  refine (ih.execAll hm₁ hctx hs hat₁).mono ?_ fun _ _ h => h
  rintro id name (⟨rfl, -⟩ | hpending)
  · exact .inr (Nat.le_refl _)
  · exact .inl hpending

private theorem proceeds_branch {span : Span} {condition : Expr} {yes : Stmt} {no : Option Stmt}
    (hctx : ctx.initializing = none) (hs : (Stmt.branch span condition yes no).Scoped frames)
    (hat : m.At frames scope) :
    Proceeds clock declared ctx.pending (exec clock (n + 1) scope (.branch span condition yes no)) m
      (inside clock (moments clock n) n ctx (.exec scope (.branch span condition yes no)) m)
      fun flow m' => ∀ v ∈ flow.values, v.Sound declared m' := by
  obtain ⟨hcondition, hyes, hno⟩ := hs
  -- The arms of a branch declare nothing.
  have harm : ∀ {s : Stmt} {m₁ : Machine}, m₁.Sound declared →
      s.Scoped frames ∧ s.declared? = none → m₁.At frames scope →
      Proceeds clock declared ctx.pending (exec clock n scope s) m₁
        (moments clock n ctx (.exec scope s) m₁)
        fun flow m' => ∀ v ∈ flow.values, v.Sound declared m' := by
    intro s m₁ hm₁ hs hat₁
    refine (ih.exec hm₁ hctx hs.1 hat₁).mono ?_ fun _ _ h => h.1
    rintro id name (⟨-, hname⟩ | hpending)
    · rw [hs.2] at hname
      exact absurd hname List.not_mem_nil
    · exact hpending
  rw [exec.eq_def]
  refine (ih.eval hm hcondition hat.aroundAny).bind fun v m₁ _ hlater hm₁ => ?_
  cases v.isTruthy with
  | true => exact harm hm₁ hyes (hat.later hlater)
  | false =>
    cases no with
    | none => exact .pure hm₁ fun _ hv => absurd hv List.not_mem_nil
    | some s => exact harm hm₁ hno (hat.later hlater)

private theorem proceeds_exec {s : Stmt} (hctx : ctx.initializing = none) (hs : s.Scoped frames)
    (hat : m.At frames scope) :
    Proceeds clock declared (ctx.orDeclared scope s.declared?.toList) (exec clock (n + 1) scope s) m
      (moments clock (n + 1) ctx (.exec scope s) m) fun flow m' =>
        (∀ v ∈ flow.values, v.Sound declared m') ∧
          ∀ name, s.declared? = some name → m'.scopes.own? scope name ≠ none := by
  intro hknown
  refine Proceeds.startExec hm hctx hs hat ?_ hknown
  -- A declaration ends normally, and its name is bound then; all else may end either way.
  have hnormal : ∀ (name : String) (flow : Flow ScopeId) (m' : Machine),
      flow = .normal ∧ m'.scopes.own? scope name ≠ none →
      (∀ v ∈ flow.values, v.Sound declared m') ∧
        ∀ key, some name = some key → m'.scopes.own? scope key ≠ none := by
    rintro name _ m' ⟨rfl, hbound⟩
    exact ⟨fun _ hv => absurd hv List.not_mem_nil, by rintro _ ⟨⟩; exact hbound⟩
  have hnameless : ∀ (m' : Machine) (name : String),
      none = some name → m'.scopes.own? scope name ≠ none := by
    rintro _ _ ⟨⟩
  have hpending : ∀ names id name, ctx.pending id name → ctx.orDeclared scope names id name :=
    fun _ _ _ h => .inr h
  cases s with
  | expr span value =>
    rw [exec, inside, insideStmt]
    refine (proceeds_emit hm _).first fun _ m₁ _ hlater hm₁ => ?_
    have hvalue : value.Scoped frames := hs
    refine ((ih.eval hm₁ hvalue (hat.later hlater).aroundAny).mono (hpending _)
      fun _ _ h => h).andThen fun _ m₂ _ _ hm₂ => ?_
    exact .pure hm₂ ⟨fun _ hv => absurd hv List.not_mem_nil, hnameless _⟩
  | print span value =>
    rw [exec, inside, insideStmt]
    refine (proceeds_emit hm _).first fun _ m₁ _ hlater hm₁ => ?_
    have hvalue : value.Scoped frames := hs
    refine ((ih.eval hm₁ hvalue (hat.later hlater).aroundAny).mono (hpending _)
      fun _ _ h => h).andThen fun v m₂ _ _ hm₂ => ?_
    refine (proceeds_writeLine hm₂ v.display span).andThen fun _ m₃ _ _ hm₃ => ?_
    exact .pure hm₃ ⟨fun _ hv => absurd hv List.not_mem_nil, hnameless _⟩
  | ret span value =>
    cases value with
    | none =>
      rw [exec]
      refine .pure hm ⟨fun v hv => ?_, hnameless _⟩
      rw [List.mem_singleton.mp hv]
      trivial
    | some e =>
      rw [exec]
      refine ((ih.eval hm (hs e rfl) hat.aroundAny).mono (hpending _) fun _ _ h => h).map ?_
      intro v m₁ hv
      exact ⟨fun w hw => List.mem_singleton.mp hw ▸ hv, hnameless _⟩
  | varDecl span name value =>
    exact (proceeds_varDecl ih hm hs hat).mono (fun _ _ h => h) (hnormal name)
  | funDecl decl =>
    have hdeclared : declared ⟨m.identity, decl, scope, false⟩ :=
      hknown _ List.mem_cons_self _ ⟨n, scope, decl, rfl, rfl, rfl⟩
    exact (proceeds_funDecl hm hs hat hdeclared).mono (fun _ _ h => h) (hnormal decl.name)
  | classDecl span name superclass methods =>
    exact (proceeds_classDecl hm hs hat).mono (fun _ _ h => h) (hnormal name)
  | block span body =>
    exact (proceeds_block ih hm hctx hs hat).mono (hpending _)
      fun _ _ h => ⟨h, hnameless _⟩
  | branch span condition yes no =>
    exact (proceeds_branch ih hm hctx hs hat).mono (hpending _)
      fun _ _ h => ⟨h, hnameless _⟩
  | loop span condition body =>
    obtain ⟨hcondition, hbody, hnone⟩ := hs
    rw [exec]
    exact (ih.execLoop hm hctx hcondition hbody hnone hat).mono (hpending _) fun _ _ h =>
      ⟨h, hnameless _⟩

end

theorem evaluatorProceeds (clock : Nat → Float) (declared : Closure ScopeId → Prop) (n : Nat) :
    EvaluatorProceeds clock declared n := by
  induction n with
  | zero => exact evaluatorProceeds_zero
  | succ n ih =>
    exact {
      eval := fun hm => proceeds_eval ih hm
      evalAll := fun hm => proceeds_evalAll ih hm
      call := fun hm => proceeds_call ih hm
      invoke := fun hm => proceeds_invoke ih hm
      execAll := fun hm => proceeds_execAll ih hm
      exec := fun hm => proceeds_exec ih hm
      execLoop := fun hm => proceeds_execLoop ih hm }

end LoxLang.Machine
