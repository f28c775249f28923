import LoxLang.Proofs.Course.Basic
import LoxLang.Proofs.Grammar.Reading
import LoxLang.Proofs.Values
/-!
# Laws of a run

A law relates what a step does to the moments that it goes through. Most steps
neither look at the count of calls nor at the output; for these a law has to say
only one thing. It has to say more about calls, which are counted, and about
`print`, which writes. Then it holds for everything that is ever run.
-/
namespace LoxLang

def Error.IsLimit : Error → Prop
  | .stackOverflow | .writeFailed _ => True
  | _ => False

private theorem BinaryOp.not_isLimit {op : BinaryOp} {a b : Value ScopeId} {error : Error}
    (h : op.apply a b = .error error) : ¬error.IsLimit := by
  unfold BinaryOp.apply at h
  split at h <;> simp only [reduceCtorEq, Except.error.injEq] at h <;> (subst h; exact id)

private theorem UnaryOp.not_isLimit {op : UnaryOp} {a : Value ScopeId} {error : Error}
    (h : op.apply a = .error error) : ¬error.IsLimit := by
  unfold UnaryOp.apply at h
  split at h
  · exact nomatch h
  · rw [← Except.error.inj h]
    exact id
  · exact nomatch h

namespace Machine

variable {α β : Type}

def onMachine (g : Machine → Machine) :
    EStateM.Result Halt Machine α → EStateM.Result Halt Machine α
  | .ok a m => .ok a (g m)
  | .error halt m => .error halt (g m)

@[simp] theorem ending_onMachine (g : Machine → Machine) (r : EStateM.Result Halt Machine α) :
    ending (onMachine g r) = g (ending r) := by
  cases r <;> rfl

@[simp] theorem ending_map (p : Run α) (g : α → β) (m : Machine) :
    ending ((g <$> p) m) = ending (p m) := by
  rw [map_eq_pure_bind, bind_apply]
  cases p m <;> rfl

def adjusted (m : Machine) (frames : Nat) (output : Output) : Machine :=
  { m with frames, output }

/-- A step does not look at the count of calls or at the output, and reaches no limit. -/
structure Plain (p : Run α) : Prop where
  apart : ∀ m frames output,
    p (m.adjusted frames output) = onMachine (·.adjusted frames output) (p m)
  errors : ∀ m m' e, p m = .error (.raised e) m' → ¬e.value.IsLimit

namespace Plain

theorem ending_eq {p : Run α} (h : Plain p) (m : Machine) :
    (ending (p m)).frames = m.frames ∧ (ending (p m)).output = m.output := by
  have hsame : p m = onMachine (·.adjusted m.frames m.output) (p m) := h.apart m m.frames m.output
  have hending := congrArg ending hsame
  rw [ending_onMachine] at hending
  exact ⟨congrArg (·.frames) hending, congrArg (·.output) hending⟩

theorem pure (a : α) : Plain (Pure.pure a : Run α) where
  apart _ _ _ := rfl
  errors _ _ _ h := nomatch h

theorem raise {error : Error} (h : ¬error.IsLimit) (span : Span) :
    Plain (Machine.raise error span : Run α) where
  apart _ _ _ := rfl
  errors m m' e he := by
    obtain rfl := Halt.raised.inj (EStateM.Result.error.inj he).1
    exact h

theorem fault (what : Fault) : Plain (Machine.fault what : Run α) where
  apart _ _ _ := rfl
  errors _ _ _ h := by
    have hhalt := (EStateM.Result.error.inj h).1
    exact nomatch hhalt

theorem outOfFuel : Plain (throw .outOfFuel : Run α) where
  apart _ _ _ := rfl
  errors _ _ _ h := by
    have hhalt := (EStateM.Result.error.inj h).1
    exact nomatch hhalt

theorem bind {p : Run α} {f : α → Run β} (hp : Plain p) (hf : ∀ a, Plain (f a)) :
    Plain (p >>= f) where
  apart m frames output := by
    simp only [bind_apply, hp.apart m frames output]
    cases p m with
    | ok a m' => exact (hf a).apart m' frames output
    | error halt m' => rfl
  errors m m' e he := by
    rw [bind_apply] at he
    cases hresult : p m with
    | ok a m₁ =>
      rw [hresult] at he
      exact (hf a).errors m₁ m' e he
    | error halt m₁ =>
      rw [hresult] at he
      obtain ⟨rfl, -⟩ := EStateM.Result.error.inj he
      exact hp.errors m m₁ e hresult

theorem map {p : Run α} (hp : Plain p) (f : α → β) : Plain (f <$> p) := by
  rw [map_eq_pure_bind]
  exact hp.bind fun a => .pure (f a)

theorem getThen {f : Machine → Run α}
    (hsame : ∀ m frames output, f (adjusted m frames output) = f m) (hf : ∀ m, Plain (f m)) :
    Plain (get >>= f) where
  apart m frames output := by
    simp only [get_bind, hsame]
    exact (hf m).apart m frames output
  errors m m' e he := (hf m).errors m m' e he

theorem modify {f : Machine → Machine}
    (h : ∀ m frames output, f (adjusted m frames output) = (f m).adjusted frames output) :
    Plain (modify f : Run PUnit) where
  apart m frames output := congrArg (EStateM.Result.ok PUnit.unit) (h m frames output)
  errors _ _ _ he := nomatch he

theorem modifyGet {f : Machine → α × Machine}
    (h : ∀ m frames output,
      f (adjusted m frames output) = ((f m).1, (f m).2.adjusted frames output)) :
    Plain (modifyGet f : Run α) where
  apart m frames output := by
    have hleft : (MonadState.modifyGet f : Run α) (m.adjusted frames output) =
        .ok (f (m.adjusted frames output)).1 (f (m.adjusted frames output)).2 := rfl
    rw [hleft, h]
    rfl
  errors _ _ _ he := nomatch he

end Plain

/-! ## Plain steps -/

theorem plain_emit (event : Event) : Plain (emit event) :=
  .modify fun _ _ _ => rfl

private theorem plain_newScope (parent : ScopeId) (bindings : Bindings (Value ScopeId)) :
    Plain (newScope parent bindings) :=
  .modifyGet fun _ _ _ => rfl

private theorem plain_define (scope : ScopeId) (name : String) (value : Value ScopeId) :
    Plain (define scope name value) :=
  .modify fun _ _ _ => rfl

private theorem plain_getAt (scope : ScopeId) (distance : Nat) (name : String) :
    Plain (getAt scope distance name) := by
  refine .getThen (fun _ _ _ => rfl) fun m => ?_
  cases m.scopes.getAt? scope distance name with
  | some value => exact .pure value
  | none => exact .fault _

private theorem plain_assignAt (scope : ScopeId) (distance : Nat) (name : String)
    (value : Value ScopeId) : Plain (assignAt scope distance name value) := by
  refine .getThen (fun _ _ _ => rfl) fun m => ?_
  cases m.scopes.ancestor? distance scope with
  | some owner => exact plain_define owner name value
  | none => exact .fault _

private theorem plain_assignByName (scope : ScopeId) (name : String) (value : Value ScopeId)
    (span : Span) : Plain (assignByName scope name value span) := by
  refine .getThen (fun _ _ _ => rfl) fun m => ?_
  cases m.scopes.owner? scope name with
  | some owner => exact plain_define owner name value
  | none => exact .raise id span

private theorem plain_lookup (scope : ScopeId) (ref : Ref) (span : Span) :
    Plain (lookup scope ref span) := by
  unfold lookup
  cases ref.distance with
  | some distance => exact plain_getAt scope distance ref.name
  | none =>
    refine .getThen (fun _ _ _ => rfl) fun m => ?_
    cases m.scopes.get? globals ref.name with
    | some value => exact .pure value
    | none => exact .raise id span

private theorem plain_assign (scope : ScopeId) (ref : Ref) (value : Value ScopeId) (span : Span) :
    Plain (assign scope ref value span) := by
  unfold assign
  cases ref.distance with
  | some distance => exact plain_assignAt scope distance ref.name value
  | none => exact plain_assignByName globals ref.name value span

private theorem plain_newClosure (decl : FunDecl) (scope : ScopeId) (isInitializer : Bool) :
    Plain (newClosure decl scope isInitializer) :=
  .modifyGet fun _ _ _ => rfl

private theorem plain_newClass (name : String) (superclass : Option (Class ScopeId))
    (methods : Bindings (Closure ScopeId)) : Plain (newClass name superclass methods) :=
  .modifyGet fun _ _ _ => rfl

private theorem plain_newObject (c : Class ScopeId) : Plain (newObject c) :=
  .modifyGet fun _ _ _ => rfl

private theorem plain_setField (cell : Nat) (name : String) (value : Value ScopeId) :
    Plain (setField cell name value) :=
  .modify fun _ _ _ => rfl

private theorem plain_bind (method : Closure ScopeId) (receiver : Value ScopeId) :
    Plain (bind method receiver) :=
  (plain_newScope _ _).bind fun scope => plain_newClosure method.decl scope method.isInitializer

private theorem plain_newMethods (scope : ScopeId) (decls : List FunDecl)
    (methods : Bindings (Closure ScopeId)) : Plain (newMethods scope decls methods) := by
  induction decls generalizing methods with
  | nil => exact .pure methods
  | cons decl rest ih =>
    exact (plain_newClosure decl scope decl.isInitializer).bind fun method => ih _

private theorem plain_boundMethod (c : Class ScopeId) (receiver : Value ScopeId) (name : String)
    (span : Span) :
    Plain (match c.method? name with
      | some method => .function <$> bind method receiver
      | none => raise (.noSuchAttribute c.name name) span : Run (Value ScopeId)) := by
  cases c.method? name with
  | some method => exact (plain_bind method receiver).map _
  | none => exact .raise id span

private theorem plain_property (receiver : Value ScopeId) (name : String) (span : Span) :
    Plain (property receiver name span) := by
  cases receiver with
  | object cell c =>
    refine .getThen (fun _ _ _ => rfl) fun m => ?_
    cases (m.objects.getD cell .empty).get? name with
    | some value => exact .pure value
    | none => exact plain_boundMethod c (.object cell c) name span
  | _ => exact .raise id span

private theorem plain_superMethod (scope : ScopeId) (distance : Option Nat) (name : String)
    (span : Span) : Plain (superMethod scope distance name span) := by
  unfold superMethod
  cases distance with
  | none => exact .fault _
  | some distance =>
    cases distance with
    | zero => exact .fault _
    | succ inner =>
      refine (plain_getAt scope (inner + 1) "super").bind fun above => ?_
      cases above with
      | cls c =>
        refine (plain_getAt scope inner "this").bind fun receiver => ?_
        cases receiver with
        | object cell d => exact plain_boundMethod c (.object cell d) name span
        | _ => exact .fault _
      | _ => exact .fault _

private theorem plain_declareClass (scope inner : ScopeId) (name : String)
    (superclass : Option (Class ScopeId)) (decls : List FunDecl) (span : Span) :
    Plain (declareClass scope inner name superclass decls span) :=
  (plain_newMethods inner decls .empty).bind fun methods => (plain_emit _).bind fun _ =>
    (plain_newClass name superclass methods).bind fun c =>
      plain_assignByName scope name (.cls c) span

private theorem plain_readClock (clock : Nat → Float) : Plain (readClock clock) :=
  .modifyGet fun _ _ _ => rfl

private theorem plain_checkArity (name : String) (expected got : Nat) (span : Span) :
    Plain (checkArity name expected got span) := by
  unfold checkArity
  split
  · exact .pure _
  · exact .raise id span

private theorem plain_settle {result : Except Error (Value ScopeId)}
    (h : ∀ error, result = .error error → ¬error.IsLimit) (span : Span) :
    Plain (settle result span) := by
  cases result with
  | ok value => exact .pure value
  | error e => exact .raise (h e rfl) span

private theorem plain_callResult (f : Closure ScopeId) (flow : Flow ScopeId) :
    Plain (callResult f flow) := by
  unfold callResult
  split
  · exact plain_getAt f.env 0 "this"
  · cases flow with
    | normal => exact .pure Value.nil
    | returned value => exact .pure value

private theorem plain_classDecl (clock : Nat → Float) (n : Nat) (scope : ScopeId) (span : Span)
    (name : String) (superclass : Option (Located Ref)) (methods : List FunDecl) :
    Plain (exec clock (n + 1) scope (.classDecl span name superclass methods)) := by
  cases superclass with
  | none =>
    rw [exec]
    refine (plain_define scope name .nil).bind fun _ => ?_
    exact (plain_declareClass scope scope name none methods span).bind fun _ => .pure _
  | some superclass =>
    rw [exec]
    refine (plain_define scope name .nil).bind fun _ => ?_
    refine (plain_lookup scope superclass.value superclass.span).bind fun above => ?_
    cases above with
    | cls c =>
      refine (plain_newScope scope _).bind fun inner => ?_
      exact (plain_declareClass scope inner name (some c) methods span).bind fun _ => .pure _
    | _ => exact .raise id superclass.span

/-! ## Laws -/

/-- What may be said of a step that begins in some context on some machine, and of the moments that
it goes through. -/
def Judgement : Type 1 :=
  (α : Type) → Context → Run α → Machine → List Moment → Prop

structure Obeys (clock : Nat → Float) (J : Judgement) (n : Nat) : Prop where
  eval : ∀ ctx scope e m,
    J _ ctx (eval clock n scope e) m (moments clock n ctx (.eval scope e) m)
  evalAll : ∀ ctx scope es m,
    J _ ctx (evalAll clock n scope es) m (moments clock n ctx (.evalAll scope es) m)
  call : ∀ ctx callee args span m,
    J _ ctx (call clock n callee args span) m (moments clock n ctx (.call callee args span) m)
  invoke : ∀ ctx f args m,
    J _ ctx (invoke clock n f args) m (moments clock n ctx (.invoke f args) m)
  execAll : ∀ ctx scope body m,
    J _ ctx (execAll clock n scope body) m (moments clock n ctx (.execAll scope body) m)
  exec : ∀ ctx scope s m,
    J _ ctx (exec clock n scope s) m (moments clock n ctx (.exec scope s) m)
  execLoop : ∀ ctx scope condition body m,
    J _ ctx (execLoop clock n scope condition body) m
      (moments clock n ctx (.execLoop scope condition body) m)

def Task.IsOrdinary : Task → Prop
  | .eval _ (.call ..) | .exec _ (.print ..) => False
  | _ => True

/-- What has to be shown of a judgement so that all that runs obeys it. -/
structure Law (clock : Nat → Float) (J : Judgement) : Prop where
  plain : ∀ {α : Type} {ctx : Context} {p : Run α} {m : Machine}, Plain p → J α ctx p m []
  bind : ∀ {α β : Type} {ctx : Context} {p : Run α} {f : α → Run β} {m : Machine}
    {front : List Moment} {next : α → Machine → List Moment}, J α ctx p m front →
    (∀ a m', p m = .ok a m' → J β ctx (f a) m' (next a m')) →
    J β ctx (p >>= f) m (front ++ after (p m) next)
  enter : ∀ {α : Type} {n : Nat} {ctx : Context} {task : Task} {p : Run α} {m : Machine}
    {rest : List Moment} (values : α → List (Value ScopeId)), task.run clock n = values <$> p →
    n = 0 ∨ task.IsOrdinary → J α ctx p m rest → J α ctx p m (⟨ctx, n, task, m⟩ :: rest)
  pending : ∀ {α : Type} {ctx : Context} {p : Run α} {m : Machine} {inner : List Moment}
    (target : ScopeId × String),
    J α { ctx with initializing := some target } p m inner → J α ctx p m inner
  callExpr : ∀ {n : Nat}, Obeys clock J n → ∀ ctx scope span callee args m,
    J _ ctx (eval clock (n + 1) scope (.call span callee args)) m
      (moments clock (n + 1) ctx (.eval scope (.call span callee args)) m)
  printStmt : ∀ {n : Nat}, Obeys clock J n → ∀ ctx scope span value m,
    J _ ctx (exec clock (n + 1) scope (.print span value)) m
      (moments clock (n + 1) ctx (.exec scope (.print span value)) m)

@[simp] theorem after_nil (r : EStateM.Result Halt Machine α) :
    (after r fun _ _ => []) = [] := by
  cases r <;> rfl

namespace Law

variable {clock : Nat → Float} {J : Judgement} {n : Nat} {ctx : Context} {p : Run α}
  {f : α → Run β} {m : Machine}

theorem last (h : Law clock J) {front : List Moment} (hp : J α ctx p m front)
    (hf : ∀ a, Plain (f a)) : J β ctx (p >>= f) m front := by
  have hbind : J β ctx (p >>= f) m (front ++ after (p m) fun _ _ => []) :=
    h.bind hp fun a _ _ => h.plain (hf a)
  rwa [after_nil, List.append_nil] at hbind

theorem map (h : Law clock J) {front : List Moment} (hp : J α ctx p m front) (g : α → β) :
    J β ctx (g <$> p) m front := by
  rw [map_eq_pure_bind]
  exact h.last hp fun a => .pure (g a)

theorem first (h : Law clock J) {next : α → Machine → List Moment} (hp : Plain p)
    (hf : ∀ a m', J β ctx (f a) m' (next a m')) : J β ctx (p >>= f) m (after (p m) next) :=
  h.bind (h.plain hp) fun a m' _ => hf a m'

theorem start (h : Law clock J) {task : Task} (values : α → List (Value ScopeId))
    (hrun : task.run clock (n + 1) = values <$> p) (hordinary : task.IsOrdinary)
    (hp : J α ctx p m (inside clock (moments clock n) n ctx task m)) :
    J α ctx p m (moments clock (n + 1) ctx task m) :=
  h.enter values hrun (.inr hordinary) hp

theorem stop (h : Law clock J) {task : Task} (values : α → List (Value ScopeId))
    (hrun : task.run clock 0 = values <$> p) (hp : Plain p) :
    J α ctx p m (moments clock 0 ctx task m) :=
  h.enter values hrun (.inl rfl) (h.plain hp)

/-! ## All that runs obeys -/

private theorem obeys_zero (h : Law clock J) : Obeys clock J 0 where
  eval ctx scope e m := by
    refine h.stop ([·]) rfl ?_
    rw [Machine.eval]
    exact .outOfFuel
  evalAll ctx scope es m := by
    refine h.stop id (id_map _).symm ?_
    rw [Machine.evalAll]
    exact .outOfFuel
  call ctx callee args span m := by
    refine h.stop ([·]) rfl ?_
    rw [Machine.call]
    exact .outOfFuel
  invoke ctx f args m := by
    refine h.stop ([·]) rfl ?_
    rw [Machine.invoke]
    exact .outOfFuel
  execAll ctx scope body m := by
    refine h.stop Flow.values rfl ?_
    rw [Machine.execAll]
    exact .outOfFuel
  exec ctx scope s m := by
    refine h.stop Flow.values rfl ?_
    rw [Machine.exec]
    exact .outOfFuel
  execLoop ctx scope condition body m := by
    refine h.stop Flow.values rfl ?_
    rw [Machine.execLoop]
    exact .outOfFuel

section
variable (h : Law clock J) (ih : Obeys clock J n)
include h ih

private theorem obeys_logical (ctx : Context) (scope : ScopeId) (span : Span) (op : LogicalOp)
    (left right : Expr) (m : Machine) :
    J _ ctx (eval clock (n + 1) scope (.logical span op left right)) m
      (inside clock (moments clock n) n ctx (.eval scope (.logical span op left right)) m) := by
  rw [eval]
  refine h.bind (ih.eval ctx scope left m) fun a m' _ => ?_
  have hright := ih.eval ctx scope right m'
  cases op with
  | or =>
    cases a.isTruthy with
    | true => exact h.plain (.pure a)
    | false => exact hright
  | and =>
    cases a.isTruthy with
    | true => exact hright
    | false => exact h.plain (.pure a)

private theorem obeys_set (ctx : Context) (scope : ScopeId) (span : Span) (object : Expr)
    (name : String) (value : Expr) (m : Machine) :
    J _ ctx (eval clock (n + 1) scope (.set span object name value)) m
      (inside clock (moments clock n) n ctx (.eval scope (.set span object name value)) m) := by
  rw [eval]
  refine h.bind (ih.eval ctx scope object m) fun receiver m' _ => ?_
  cases receiver with
  | object cell c =>
    refine h.last (ih.eval ctx scope value m') fun v => ?_
    exact (plain_setField cell name v).bind fun _ => .pure v
  | _ => exact h.plain (.raise id span)

private theorem obeys_eval (ctx : Context) (scope : ScopeId) (e : Expr) (m : Machine) :
    J _ ctx (eval clock (n + 1) scope e) m (moments clock (n + 1) ctx (.eval scope e) m) := by
  cases e with
  | call span callee args => exact h.callExpr ih ctx scope span callee args m
  | literal span value =>
    refine h.start ([·]) rfl trivial ?_
    rw [eval]
    exact h.plain (.pure _)
  | var span ref =>
    refine h.start ([·]) rfl trivial ?_
    rw [eval]
    exact h.plain (plain_lookup scope ref span)
  | this span distance =>
    refine h.start ([·]) rfl trivial ?_
    rw [eval]
    exact h.plain (plain_lookup scope ⟨"this", distance⟩ span)
  | super span distance method =>
    refine h.start ([·]) rfl trivial ?_
    rw [eval]
    exact h.plain (plain_superMethod scope distance method span)
  | grouping span inner =>
    refine h.start ([·]) rfl trivial ?_
    rw [eval]
    exact ih.eval ctx scope inner m
  | unary span op operand =>
    refine h.start ([·]) rfl trivial ?_
    rw [eval]
    exact h.last (ih.eval ctx scope operand m) fun v =>
      plain_settle (fun _ => UnaryOp.not_isLimit) span
  | binary span op left right =>
    refine h.start ([·]) rfl trivial ?_
    rw [eval]
    refine h.bind (ih.eval ctx scope left m) fun a m' _ => ?_
    exact h.last (ih.eval ctx scope right m') fun b =>
      plain_settle (fun _ => BinaryOp.not_isLimit) span
  | logical span op left right =>
    exact h.start ([·]) rfl trivial (h.obeys_logical ih ctx scope span op left right m)
  | assign span target value =>
    refine h.start ([·]) rfl trivial ?_
    rw [eval]
    refine h.last (ih.eval ctx scope value m) fun v => ?_
    exact (plain_assign scope target v span).bind fun _ => .pure v
  | get span object name =>
    refine h.start ([·]) rfl trivial ?_
    rw [eval]
    exact h.last (ih.eval ctx scope object m) fun receiver => plain_property receiver name span
  | set span object name value =>
    exact h.start ([·]) rfl trivial (h.obeys_set ih ctx scope span object name value m)

private theorem obeys_evalAll (ctx : Context) (scope : ScopeId) (es : List Expr) (m : Machine) :
    J _ ctx (evalAll clock (n + 1) scope es) m
      (moments clock (n + 1) ctx (.evalAll scope es) m) := by
  refine h.start id (id_map _).symm trivial ?_
  cases es with
  | nil =>
    rw [evalAll]
    exact h.plain (.pure _)
  | cons first others =>
    rw [evalAll]
    refine h.bind (ih.eval ctx scope first m) fun v m' _ => ?_
    exact h.last (ih.evalAll ctx scope others m') fun vs => .pure (v :: vs)

private theorem obeys_call (ctx : Context) (callee : Value ScopeId) (args : List (Value ScopeId))
    (span : Span) (m : Machine) :
    J _ ctx (call clock (n + 1) callee args span) m
      (moments clock (n + 1) ctx (.call callee args span) m) := by
  refine h.start ([·]) rfl trivial ?_
  cases callee with
  | function f =>
    rw [call]
    exact h.first (plain_checkArity _ _ _ span) fun _ m' => ih.invoke ctx f args m'
  | cls c =>
    rw [call, inside, insideCall]
    cases c.method? initializerName with
    | none =>
      refine h.plain ?_
      exact (plain_checkArity _ _ _ span).bind fun _ => plain_newObject c
    | some initializer =>
      refine h.first (plain_checkArity _ _ _ span) fun _ m₁ => ?_
      refine h.first (plain_newObject c) fun receiver m₂ => ?_
      refine h.first (plain_bind initializer receiver) fun method m₃ => ?_
      exact h.last (ih.invoke ctx method args m₃) fun _ => .pure receiver
  | native f =>
    cases f
    rw [call]
    refine h.plain ?_
    exact (plain_checkArity _ _ _ span).bind fun _ => plain_readClock clock
  | _ =>
    unfold call
    exact h.plain (.raise id span)

private theorem obeys_invoke (ctx : Context) (f : Closure ScopeId) (args : List (Value ScopeId))
    (m : Machine) :
    J _ ctx (invoke clock (n + 1) f args) m (moments clock (n + 1) ctx (.invoke f args) m) := by
  refine h.start ([·]) rfl trivial ?_
  rw [invoke, inside]
  refine h.first (plain_newScope f.env _) fun scope m' => ?_
  exact h.last (ih.execAll ctx scope f.decl.body m') fun flow => plain_callResult f flow

private theorem obeys_execAll (ctx : Context) (scope : ScopeId) (body : List Stmt) (m : Machine) :
    J _ ctx (execAll clock (n + 1) scope body) m
      (moments clock (n + 1) ctx (.execAll scope body) m) := by
  refine h.start Flow.values rfl trivial ?_
  cases body with
  | nil =>
    rw [execAll]
    exact h.plain (.pure _)
  | cons first others =>
    rw [execAll]
    refine h.bind (ih.exec ctx scope first m) fun flow m' _ => ?_
    cases flow with
    | normal => exact ih.execAll ctx scope others m'
    | returned value => exact h.plain (.pure _)

private theorem obeys_execLoop (ctx : Context) (scope : ScopeId) (condition : Expr) (body : Stmt)
    (m : Machine) :
    J _ ctx (execLoop clock (n + 1) scope condition body) m
      (moments clock (n + 1) ctx (.execLoop scope condition body) m) := by
  refine h.start Flow.values rfl trivial ?_
  rw [execLoop]
  refine h.bind (ih.eval ctx scope condition m) fun v m₁ _ => ?_
  cases v.isTruthy with
  | false => exact h.plain (.pure _)
  | true =>
    refine h.bind (ih.exec ctx scope body m₁) fun flow m₂ _ => ?_
    cases flow with
    | normal => exact ih.execLoop ctx scope condition body m₂
    | returned value => exact h.plain (.pure _)

private theorem obeys_branch (ctx : Context) (scope : ScopeId) (span : Span) (condition : Expr)
    (yes : Stmt) (no : Option Stmt) (m : Machine) :
    J _ ctx (exec clock (n + 1) scope (.branch span condition yes no)) m
      (inside clock (moments clock n) n ctx (.exec scope (.branch span condition yes no)) m) := by
  rw [exec.eq_def]
  refine h.bind (ih.eval ctx scope condition m) fun v m' _ => ?_
  cases v.isTruthy with
  | true => exact ih.exec ctx scope yes m'
  | false =>
    cases no with
    | none => exact h.plain (.pure _)
    | some s => exact ih.exec ctx scope s m'

private theorem obeys_exec (ctx : Context) (scope : ScopeId) (s : Stmt) (m : Machine) :
    J _ ctx (exec clock (n + 1) scope s) m (moments clock (n + 1) ctx (.exec scope s) m) := by
  cases s with
  | print span value => exact h.printStmt ih ctx scope span value m
  | expr span value =>
    refine h.start Flow.values rfl trivial ?_
    rw [exec, inside, insideStmt]
    refine h.first (plain_emit _) fun _ m' => ?_
    exact h.last (ih.eval ctx scope value m') fun _ => .pure _
  | ret span value =>
    refine h.start Flow.values rfl trivial ?_
    cases value with
    | none =>
      rw [exec]
      exact h.plain (.pure _)
    | some e =>
      rw [exec]
      exact h.map (ih.eval ctx scope e m) _
  | varDecl span name value =>
    refine h.start Flow.values rfl trivial ?_
    cases value with
    | none =>
      rw [exec]
      exact h.plain ((plain_define scope name .nil).bind fun _ => .pure _)
    | some e =>
      rw [exec]
      have hvalue := h.pending (scope, name)
        (ih.eval { ctx with initializing := some (scope, name) } scope e m)
      exact h.last hvalue fun v => (plain_define scope name v).bind fun _ => .pure _
  | funDecl decl =>
    refine h.start Flow.values rfl trivial ?_
    rw [exec]
    refine h.plain ((plain_newClosure decl scope false).bind fun f => ?_)
    exact (plain_define scope decl.name (.function f)).bind fun _ => .pure _
  | classDecl span name superclass methods =>
    refine h.start Flow.values rfl trivial ?_
    exact h.plain (plain_classDecl clock n scope span name superclass methods)
  | block span body =>
    refine h.start Flow.values rfl trivial ?_
    rw [exec]
    exact h.first (plain_newScope scope .empty) fun inner m' => ih.execAll ctx inner body m'
  | branch span condition yes no =>
    exact h.start Flow.values rfl trivial (h.obeys_branch ih ctx scope span condition yes no m)
  | loop span condition body =>
    refine h.start Flow.values rfl trivial ?_
    rw [exec]
    exact ih.execLoop ctx scope condition body m

end

theorem obeys (h : Law clock J) (n : Nat) : Obeys clock J n := by
  induction n with
  | zero => exact h.obeys_zero
  | succ n ih =>
    exact {
      eval := h.obeys_eval ih
      evalAll := h.obeys_evalAll ih
      call := h.obeys_call ih
      invoke := h.obeys_invoke ih
      execAll := h.obeys_execAll ih
      exec := h.obeys_exec ih
      execLoop := h.obeys_execLoop ih }

theorem obeys_program (h : Law clock J) (fuel : Nat) (program : List Stmt) (m : Machine) :
    J _ {} (runAll clock fuel program) m (programMoments clock fuel program m) := by
  induction program generalizing m with
  | nil => exact h.plain (.pure _)
  | cons first others ih =>
    exact h.bind ((h.obeys fuel).exec {} globals first m) fun _ m' _ => ih m'

end Law

end Machine

end LoxLang
