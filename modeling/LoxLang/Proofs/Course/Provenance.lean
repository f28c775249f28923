import LoxLang.Proofs.Course.Starts
import LoxLang.Proofs.Places.Running
/-!
# Where functions come from

Functions are made by the declarations of the code that runs, and by nothing else.
So if the declarations of all sources have a property, and code of such functions
again only has such declarations, then every function that a program gets hold of
or runs has the property.
-/
namespace LoxLang

/-- A property of declarations; the first argument tells whether the function prepares an instance,
as a method of that name does. -/
abbrev Origin := Bool → FunDecl → Prop

mutual

/-- All functions that a statement makes when it runs are declared in the given way. The bodies of
these functions are not looked into. -/
def Stmt.Makes (O : Origin) : Stmt → Prop
  | .funDecl decl => O false decl
  | .classDecl _ _ _ methods => ∀ decl ∈ methods, O decl.isInitializer decl
  | .block _ body => bodyMakes O body
  | .branch _ _ yes no => yes.Makes O ∧ elseMakes O no
  | .loop _ _ body => body.Makes O
  | .expr .. | .print .. | .ret .. | .varDecl .. => True

def elseMakes (O : Origin) : Option Stmt → Prop
  | some s => s.Makes O
  | none => True

def bodyMakes (O : Origin) : List Stmt → Prop
  | [] => True
  | first :: others => first.Makes O ∧ bodyMakes O others

end

variable {O : Origin}

def Closure.From (O : Origin) (f : Closure ScopeId) : Prop :=
  O f.isInitializer f.decl

def Class.From (O : Origin) (c : Class ScopeId) : Prop :=
  ∀ name method, c.method? name = some method → method.From O

def Value.From (O : Origin) : Value ScopeId → Prop
  | .function f => f.From O
  | .cls c | .object _ c => c.From O
  | _ => True

def Flow.From (O : Origin) : Flow ScopeId → Prop
  | .normal => True
  | .returned value => value.From O

structure Machine.From (O : Origin) (m : Machine) : Prop where
  scopes : ∀ id name value, m.scopes.own? id name = some value → value.From O
  objects : ∀ cell, (m.objects.getD cell .empty).All (Value.From O)

private theorem Value.from_ofLiteral (value : Literal) : (Value.ofLiteral value).From O := by
  cases value <;> trivial

private theorem Class.from_mk {identity : Nat} {name : String} {superclass : Option (Class ScopeId)}
    {methods : Bindings (Closure ScopeId)} (hsuper : ∀ above ∈ superclass, above.From O)
    (hmethods : methods.All (·.From O)) :
    (⟨identity, name, superclass, methods⟩ : Class ScopeId).From O := by
  intro key method h
  cases hown : methods.get? key with
  | some own =>
    have hmethod : own = method := by
      cases superclass <;> simpa only [Class.method?, hown, Option.some.injEq] using h
    exact hmethod ▸ hmethods key own hown
  | none =>
    cases superclass with
    | none =>
      rw [Class.method?, hown] at h
      exact absurd h (Option.some_ne_none method).symm
    | some above =>
      rw [Class.method?, hown] at h
      exact hsuper above rfl key method h

namespace Machine

namespace From

variable {m m' : Machine}

theorem of_eq (h : m.From O) (hscopes : m'.scopes = m.scopes) (hobjects : m'.objects = m.objects) :
    m'.From O where
  scopes id name value hown := h.scopes id name value (hscopes ▸ hown)
  objects cell := hobjects ▸ h.objects cell

theorem opened (h : m.From O) (source : String) : (m.opened source).From O :=
  ⟨h.scopes, h.objects⟩

theorem concluded {r : EStateM.Result Halt Machine Unit} (h : (ending r).From O) :
    (conclude r).2.flushed.From O := by
  obtain ⟨events, hmachine⟩ := conclude_machine r
  rw [hmachine]
  exact ⟨h.scopes, h.objects⟩

theorem initial (room : Option Nat) : (Machine.initial room).From O where
  scopes id name value h := by
    have hroot : (Bindings.empty.insert "clock" (.native .clock)).All (Value.From O) :=
      Bindings.All.empty.insert trivial
    cases id with
    | zero => exact hroot name value h
    | succ id => exact absurd h (Option.some_ne_none value).symm
  objects cell := Bindings.All.empty

theorem push (h : m.From O) {scope : Scope} (hscope : scope.bindings.All (Value.From O)) :
    { m with scopes := m.scopes.push scope }.From O := by
  refine { h with scopes := fun id name value hown => ?_ }
  simp only [Scopes.own?_push] at hown
  split at hown
  · exact hscope name value hown
  · exact h.scopes id name value hown

theorem define (h : m.From O) {id : ScopeId} {name : String} {value : Value ScopeId}
    (hvalue : value.From O) : { m with scopes := m.scopes.define id name value }.From O := by
  refine { h with scopes := fun other key found hown => ?_ }
  by_cases hsame : other = id ∧ key = name
  · obtain ⟨rfl, rfl⟩ := hsame
    -- The scope exists, because otherwise nothing could be bound in it now.
    have hlt : other < m.scopes.next := by
      have hlt := Scopes.lt_of_own? (hown ▸ Option.some_ne_none found)
      rwa [Scopes.next_define] at hlt
    simp only [Scopes.own?_define_self _ _ _ _ hlt] at hown
    obtain rfl := Option.some.inj hown
    exact hvalue
  · simp only [Scopes.own?_define_other _ _ _ _ _ _ hsame] at hown
    exact h.scopes other key found hown

end From

variable {α : Type}

/-- A step keeps the origins of functions, and its result has `Q`. -/
abbrev Keeping (O : Origin) (p : Run α) (Q : α → Prop) : Prop :=
  Keeps (Machine.From O) (fun _ => True) p Q

/-! ## Elementary steps -/

private theorem keeping_raise {Q : α → Prop} (error : Error) (span : Span) :
    Keeping O (raise error span) Q :=
  .throw trivial

private theorem keeping_fault {Q : α → Prop} (what : Fault) : Keeping O (fault what) Q :=
  .throw trivial

private theorem keeping_emit (event : Event) : Keeping O (emit event) fun _ => True :=
  .modify fun _ hm => { hm with }

private theorem keeping_newScope (parent : ScopeId) {bindings : Bindings (Value ScopeId)}
    (h : bindings.All (Value.From O)) : Keeping O (newScope parent bindings) fun _ => True :=
  .modifyGet fun _ hm => ⟨hm.push h, trivial⟩

private theorem keeping_define (scope : ScopeId) (name : String) {value : Value ScopeId}
    (h : value.From O) : Keeping O (define scope name value) fun _ => True :=
  .modify fun _ hm => hm.define h

private theorem keeping_getAt (scope : ScopeId) (distance : Nat) (name : String) :
    Keeping O (getAt scope distance name) (·.From O) := by
  refine .getThen fun m hm => ?_
  cases hget : m.scopes.getAt? scope distance name with
  | some value =>
    obtain ⟨owner, -, hown⟩ := Option.bind_eq_some_iff.mp hget
    exact .pure (hm.scopes owner name value hown)
  | none => exact keeping_fault _

private theorem keeping_assignAt (scope : ScopeId) (distance : Nat) (name : String)
    {value : Value ScopeId} (h : value.From O) :
    Keeping O (assignAt scope distance name value) fun _ => True := by
  refine .getThen fun m _ => ?_
  cases m.scopes.ancestor? distance scope with
  | some owner => exact keeping_define owner name h
  | none => exact keeping_fault _

private theorem keeping_assignByName (scope : ScopeId) (name : String) {value : Value ScopeId}
    (span : Span)
    (h : value.From O) : Keeping O (assignByName scope name value span) fun _ => True := by
  refine .getThen fun m _ => ?_
  cases m.scopes.owner? scope name with
  | some owner => exact keeping_define owner name h
  | none => exact keeping_raise _ span

private theorem keeping_lookup (scope : ScopeId) (ref : Ref) (span : Span) :
    Keeping O (lookup scope ref span) (·.From O) := by
  unfold lookup
  cases ref.distance with
  | some distance => exact keeping_getAt scope distance ref.name
  | none =>
    refine .getThen fun m hm => ?_
    cases hget : m.scopes.get? globals ref.name with
    | some value =>
      obtain ⟨owner, -, hown⟩ := Option.bind_eq_some_iff.mp hget
      exact .pure (hm.scopes owner ref.name value hown)
    | none => exact keeping_raise _ span

private theorem keeping_assign (scope : ScopeId) (ref : Ref) {value : Value ScopeId} (span : Span)
    (h : value.From O) : Keeping O (assign scope ref value span) fun _ => True := by
  unfold assign
  cases ref.distance with
  | some distance => exact keeping_assignAt scope distance ref.name h
  | none => exact keeping_assignByName globals ref.name span h

private theorem keeping_newClosure {decl : FunDecl} (scope : ScopeId) {isInitializer : Bool}
    (h : O isInitializer decl) : Keeping O (newClosure decl scope isInitializer) (·.From O) :=
  .modifyGet fun _ hm => ⟨{ hm with }, h⟩

private theorem keeping_newClass (name : String) {superclass : Option (Class ScopeId)}
    {methods : Bindings (Closure ScopeId)} (hsuper : ∀ above ∈ superclass, above.From O)
    (hmethods : methods.All (·.From O)) :
    Keeping O (newClass name superclass methods) (·.From O) :=
  .modifyGet fun _ hm => ⟨{ hm with }, Class.from_mk hsuper hmethods⟩

private theorem keeping_newObject {c : Class ScopeId} (h : c.From O) :
    Keeping O (newObject c) (·.From O) :=
  .modifyGet fun _ hm => ⟨{ hm with objects := Bindings.All.pushEmpty hm.objects }, h⟩

private theorem keeping_setField (cell : Nat) (name : String) {value : Value ScopeId}
    (h : value.From O) :
    Keeping O (setField cell name value) fun _ => True :=
  .modify fun _ hm => { hm with objects := Bindings.All.modify hm.objects h }

private theorem keeping_bind {method : Closure ScopeId} {receiver : Value ScopeId}
    (hmethod : method.From O) (hreceiver : receiver.From O) :
    Keeping O (Machine.bind method receiver) (·.From O) :=
  (keeping_newScope method.env (Bindings.All.empty.insert hreceiver)).bind fun scope _ =>
    keeping_newClosure scope hmethod

private theorem keeping_newMethods (scope : ScopeId) {decls : List FunDecl}
    {methods : Bindings (Closure ScopeId)} (hdecls : ∀ decl ∈ decls, O decl.isInitializer decl)
    (hmethods : methods.All (·.From O)) :
    Keeping O (newMethods scope decls methods) (·.All (·.From O)) := by
  induction decls generalizing methods with
  | nil => exact .pure hmethods
  | cons decl rest ih =>
    have hdecl := hdecls decl List.mem_cons_self
    have hrest : ∀ decl ∈ rest, O decl.isInitializer decl :=
      fun decl h => hdecls decl (List.mem_cons_of_mem _ h)
    exact (keeping_newClosure scope hdecl).bind fun method hmethod =>
      ih hrest (hmethods.insert hmethod)

private theorem keeping_boundMethod {c : Class ScopeId} {receiver : Value ScopeId} (name : String)
    (span : Span) (hc : c.From O) (hreceiver : receiver.From O) :
    Keeping O (match c.method? name with
      | some method => .function <$> Machine.bind method receiver
      | none => raise (.noSuchAttribute c.name name) span : Run (Value ScopeId)) (·.From O) := by
  cases hmethod : c.method? name with
  | some method => exact (keeping_bind (hc name method hmethod) hreceiver).map fun f hf => hf
  | none => exact keeping_raise _ span

private theorem keeping_property {receiver : Value ScopeId} (name : String) (span : Span)
    (hreceiver : receiver.From O) : Keeping O (property receiver name span) (·.From O) := by
  cases receiver with
  | object cell c =>
    refine .getThen fun m hm => ?_
    cases hfield : (m.objects.getD cell .empty).get? name with
    | some value => exact .pure (hm.objects cell name value hfield)
    | none => exact keeping_boundMethod name span hreceiver hreceiver
  | _ => exact keeping_raise _ span

private theorem keeping_superMethod (scope : ScopeId) (distance : Option Nat) (name : String)
    (span : Span) : Keeping O (superMethod scope distance name span) (·.From O) := by
  unfold superMethod
  cases distance with
  | none => exact keeping_fault _
  | some distance =>
    cases distance with
    | zero => exact keeping_fault _
    | succ inner =>
      refine (keeping_getAt scope (inner + 1) "super").bind fun above habove => ?_
      cases above with
      | cls c =>
        refine (keeping_getAt scope inner "this").bind fun receiver hreceiver => ?_
        cases receiver with
        | object cell d => exact keeping_boundMethod name span habove hreceiver
        | _ => exact keeping_fault _
      | _ => exact keeping_fault _

private theorem keeping_declareClass (scope inner : ScopeId) (name : String)
    {superclass : Option (Class ScopeId)} {decls : List FunDecl} (span : Span)
    (hsuper : ∀ above ∈ superclass, above.From O)
    (hdecls : ∀ decl ∈ decls, O decl.isInitializer decl) :
    Keeping O (declareClass scope inner name superclass decls span) fun _ => True :=
  (keeping_newMethods inner hdecls .empty).bind fun _ hmethods => (keeping_emit _).bind fun _ _ =>
    (keeping_newClass name hsuper hmethods).bind fun _ hc => keeping_assignByName scope name span hc

private theorem keeping_writeLine (text : String) (span : Span) :
    Keeping O (writeLine text span) fun _ => True := by
  have hwrite : Keeping O (modifyGet fun m : Machine =>
      ((m.output.write (text ++ "\n").toUTF8).2,
        { m with output := (m.output.write (text ++ "\n").toUTF8).1 }) : Run Bool) fun _ => True :=
    .modifyGet fun _ hm => ⟨{ hm with }, trivial⟩
  refine hwrite.bind fun ok _ => ?_
  cases ok with
  | true => exact .pure trivial
  | false => exact keeping_raise _ span

private theorem keeping_readClock (clock : Nat → Float) : Keeping O (readClock clock) (·.From O) :=
  .modifyGet fun _ hm => ⟨{ hm with }, trivial⟩

private theorem keeping_checkArity (name : String) (expected got : Nat) (span : Span) :
    Keeping O (checkArity name expected got span) fun _ => True := by
  unfold checkArity
  split
  · exact .pure trivial
  · exact keeping_raise _ span

private theorem keeping_inFrame {p : Run α} {Q : α → Prop} (span : Span) (hp : Keeping O p Q) :
    Keeping O (inFrame span p) Q := by
  intro m hm
  unfold inFrame
  by_cases hframes : m.frames ≥ maxFrames
  · rw [if_pos hframes]
    exact ⟨hm, trivial⟩
  · rw [if_neg hframes]
    have hends := hp { m with frames := m.frames + 1 } { hm with }
    cases hresult : p { m with frames := m.frames + 1 } with
    | ok value m' =>
      rw [hresult] at hends
      exact ⟨{ hends.1 with }, hends.2⟩
    | error halt m' =>
      rw [hresult] at hends
      exact ⟨{ hends.1 with }, trivial⟩

private theorem keeping_settle {result : Except Error (Value ScopeId)} (span : Span)
    (h : ∃ literal : Except Error Literal, result = literal.map .ofLiteral) :
    Keeping O (settle result span) (·.From O) := by
  obtain ⟨literal, rfl⟩ := h
  cases literal with
  | ok value => exact .pure (Value.from_ofLiteral value)
  | error e => exact keeping_raise e span

private theorem keeping_callResult (f : Closure ScopeId) {flow : Flow ScopeId} (h : flow.From O) :
    Keeping O (callResult f flow) (·.From O) := by
  unfold callResult
  split
  · exact keeping_getAt f.env 0 "this"
  · cases flow with
    | normal => exact .pure trivial
    | returned value => exact .pure h

/-! ## Evaluation -/

structure EvaluatorKeeping (O : Origin) (clock : Nat → Float) (n : Nat) : Prop where
  eval : ∀ scope e, Keeping O (eval clock n scope e) (·.From O)
  evalAll : ∀ scope es,
    Keeping O (evalAll clock n scope es) fun values => ∀ value ∈ values, value.From O
  call : ∀ callee args span, callee.From O → (∀ arg ∈ args, arg.From O) →
    Keeping O (call clock n callee args span) (·.From O)
  invoke : ∀ f args, f.From O → (∀ arg ∈ args, arg.From O) →
    Keeping O (invoke clock n f args) (·.From O)
  execAll : ∀ scope body, bodyMakes O body → Keeping O (execAll clock n scope body) (·.From O)
  exec : ∀ scope s, s.Makes O → Keeping O (exec clock n scope s) (·.From O)
  execLoop : ∀ scope condition body, body.Makes O →
    Keeping O (execLoop clock n scope condition body) (·.From O)

private theorem evaluatorKeeping_zero (clock : Nat → Float) : EvaluatorKeeping O clock 0 where
  eval _ _ := by
    rw [Machine.eval]
    exact .throw trivial
  evalAll _ _ := by
    rw [Machine.evalAll]
    exact .throw trivial
  call _ _ _ _ _ := by
    rw [Machine.call]
    exact .throw trivial
  invoke _ _ _ _ := by
    rw [Machine.invoke]
    exact .throw trivial
  execAll _ _ _ := by
    rw [Machine.execAll]
    exact .throw trivial
  exec _ _ _ := by
    rw [Machine.exec]
    exact .throw trivial
  execLoop _ _ _ _ := by
    rw [Machine.execLoop]
    exact .throw trivial

section
variable {clock : Nat → Float} {n : Nat} (ih : EvaluatorKeeping O clock n)
include ih

private theorem keeping_eval (scope : ScopeId) (e : Expr) :
    Keeping O (eval clock (n + 1) scope e) (·.From O) := by
  cases e with
  | literal span value =>
    rw [eval]
    exact .pure (Value.from_ofLiteral value)
  | var span ref =>
    rw [eval]
    exact keeping_lookup scope ref span
  | this span distance =>
    rw [eval]
    exact keeping_lookup scope _ span
  | super span distance method =>
    rw [eval]
    exact keeping_superMethod scope distance method span
  | grouping span inner =>
    rw [eval]
    exact ih.eval scope inner
  | unary span op operand =>
    rw [eval]
    refine (ih.eval scope operand).bind fun value _ => ?_
    obtain ⟨result, hresult, -⟩ := (Value.Alike.refl value).unary op
    exact keeping_settle span ⟨result, hresult⟩
  | binary span op left right =>
    rw [eval]
    refine (ih.eval scope left).bind fun a _ => (ih.eval scope right).bind fun b _ => ?_
    obtain ⟨result, hresult, -⟩ := (Value.Alike.refl a).binary (Value.Alike.refl b) op
    exact keeping_settle span ⟨result, hresult⟩
  | logical span op left right =>
    rw [eval]
    refine (ih.eval scope left).bind fun a ha => ?_
    split
    · exact .pure ha
    · exact .pure ha
    · exact ih.eval scope right
  | assign span target value =>
    rw [eval]
    refine (ih.eval scope value).bind fun v hv => ?_
    exact (keeping_assign scope target span hv).bind fun _ _ => .pure hv
  | call span callee args =>
    rw [eval]
    refine (ih.eval scope callee).bind fun f hf => ?_
    refine (ih.evalAll scope args).bind fun values hvalues => ?_
    exact keeping_inFrame span (ih.call f values span hf hvalues)
  | get span object name =>
    rw [eval]
    exact (ih.eval scope object).bind fun receiver hreceiver =>
      keeping_property name span hreceiver
  | set span object name value =>
    rw [eval]
    refine (ih.eval scope object).bind fun receiver _ => ?_
    cases receiver with
    | object cell c =>
      refine (ih.eval scope value).bind fun v hv => ?_
      exact (keeping_setField cell name hv).bind fun _ _ => .pure hv
    | _ => exact keeping_raise _ span

private theorem keeping_evalAll (scope : ScopeId) (es : List Expr) :
    Keeping O (evalAll clock (n + 1) scope es) fun values => ∀ value ∈ values, value.From O := by
  cases es with
  | nil =>
    rw [evalAll]
    exact .pure fun _ hvalue => absurd hvalue List.not_mem_nil
  | cons first others =>
    rw [evalAll]
    refine (ih.eval scope first).bind fun v hv => (ih.evalAll scope others).bind fun vs hvs => ?_
    exact .pure (List.forall_mem_cons.mpr ⟨hv, hvs⟩)

private theorem keeping_call (callee : Value ScopeId) (args : List (Value ScopeId)) (span : Span)
    (hcallee : callee.From O) (hargs : ∀ arg ∈ args, arg.From O) :
    Keeping O (call clock (n + 1) callee args span) (·.From O) := by
  cases callee with
  | function f =>
    rw [call]
    exact (keeping_checkArity _ _ _ span).bind fun _ _ => ih.invoke f args hcallee hargs
  | cls c =>
    rw [call]
    cases hfound : c.method? initializerName with
    | none => exact (keeping_checkArity _ _ _ span).bind fun _ _ => keeping_newObject hcallee
    | some initializer =>
      refine (keeping_checkArity _ _ _ span).bind fun _ _ => ?_
      refine (keeping_newObject hcallee).bind fun receiver hreceiver => ?_
      have hinitializer := hcallee initializerName initializer hfound
      refine (keeping_bind hinitializer hreceiver).bind fun method hmethod => ?_
      exact (ih.invoke method args hmethod hargs).bind fun _ _ => .pure hreceiver
  | native native =>
    cases native
    rw [call]
    exact (keeping_checkArity _ _ _ span).bind fun _ _ => keeping_readClock clock
  | nil | bool | number | string | object =>
    rw [call]
    · exact keeping_raise _ span
    all_goals simp

private theorem keeping_invoke (hO : ∀ i decl, O i decl → bodyMakes O decl.body)
    (f : Closure ScopeId)
    (args : List (Value ScopeId)) (hf : f.From O) (hargs : ∀ arg ∈ args, arg.From O) :
    Keeping O (invoke clock (n + 1) f args) (·.From O) := by
  have hbindings : (Bindings.empty.insertMany (f.decl.params.zip args)).All (Value.From O) :=
    Bindings.All.empty.insertMany fun pair hpair => hargs pair.2 (List.of_mem_zip hpair).2
  rw [invoke]
  refine (keeping_newScope f.env hbindings).bind fun scope _ => ?_
  exact (ih.execAll scope f.decl.body (hO _ _ hf)).bind fun flow hflow => keeping_callResult f hflow

private theorem keeping_execAll (scope : ScopeId) (body : List Stmt) (h : bodyMakes O body) :
    Keeping O (execAll clock (n + 1) scope body) (·.From O) := by
  cases body with
  | nil =>
    rw [execAll]
    exact .pure trivial
  | cons first others =>
    obtain ⟨hfirst, hothers⟩ := h
    rw [execAll]
    refine (ih.exec scope first hfirst).bind fun flow hflow => ?_
    cases flow with
    | normal => exact ih.execAll scope others hothers
    | returned value => exact .pure hflow

private theorem keeping_execLoop (scope : ScopeId) (condition : Expr) (body : Stmt)
    (h : body.Makes O) :
    Keeping O (execLoop clock (n + 1) scope condition body) (·.From O) := by
  rw [execLoop]
  refine (ih.eval scope condition).bind fun v _ => ?_
  split
  · refine (ih.exec scope body h).bind fun flow hflow => ?_
    cases flow with
    | normal => exact ih.execLoop scope condition body h
    | returned value => exact .pure hflow
  · exact .pure trivial

omit ih in
private theorem keeping_classDecl (scope : ScopeId) {span : Span} {name : String}
    {superclass : Option (Located Ref)} {methods : List FunDecl}
    (h : (Stmt.classDecl span name superclass methods).Makes O) :
    Keeping O (exec clock (n + 1) scope (.classDecl span name superclass methods)) (·.From O) := by
  have hnil : (Value.nil : Value ScopeId).From O := trivial
  cases superclass with
  | none =>
    have hnone : ∀ above ∈ (none : Option (Class ScopeId)), above.From O := by simp
    rw [exec]
    refine (keeping_define scope name hnil).bind fun _ _ => ?_
    exact (keeping_declareClass scope scope name span hnone h).bind fun _ _ => .pure trivial
  | some superclass =>
    rw [exec]
    refine (keeping_define scope name hnil).bind fun _ _ => ?_
    refine (keeping_lookup scope superclass.value superclass.span).bind fun v hv => ?_
    cases v with
    | cls above =>
      have hsome : ∀ above' ∈ some above, above'.From O := by
        rintro _ ⟨⟩
        exact hv
      have hbindings : (Bindings.empty.insert "super" (.cls above)).All (Value.From O) :=
        Bindings.All.empty.insert hv
      refine (keeping_newScope scope hbindings).bind fun inner _ => ?_
      exact (keeping_declareClass scope inner name span hsome h).bind fun _ _ => .pure trivial
    | _ => exact keeping_raise _ superclass.span

private theorem keeping_exec (scope : ScopeId) (s : Stmt) (h : s.Makes O) :
    Keeping O (exec clock (n + 1) scope s) (·.From O) := by
  cases s with
  | expr span value =>
    rw [exec]
    exact (keeping_emit _).bind fun _ _ => (ih.eval scope value).bind fun _ _ => .pure trivial
  | print span value =>
    rw [exec]
    refine (keeping_emit _).bind fun _ _ => (ih.eval scope value).bind fun v _ => ?_
    exact (keeping_writeLine _ span).bind fun _ _ => .pure trivial
  | ret span value =>
    cases value with
    | none =>
      rw [exec]
      exact .pure trivial
    | some e =>
      rw [exec]
      exact (ih.eval scope e).map fun v hv => hv
  | varDecl span name value =>
    cases value with
    | none =>
      rw [exec]
      have hnil : (Value.nil : Value ScopeId).From O := trivial
      exact (keeping_define scope name hnil).bind fun _ _ => .pure trivial
    | some e =>
      rw [exec]
      refine (ih.eval scope e).bind fun v hv => ?_
      exact (keeping_define scope name hv).bind fun _ _ => .pure trivial
  | funDecl decl =>
    have hdecl : O false decl := h
    rw [exec]
    refine (keeping_newClosure scope hdecl).bind fun f hf => ?_
    have hvalue : (Value.function f).From O := hf
    exact (keeping_define scope decl.name hvalue).bind fun _ _ => .pure trivial
  | classDecl span name superclass methods => exact keeping_classDecl scope h
  | block span body =>
    rw [exec]
    exact (keeping_newScope scope .empty).bind fun inner _ => ih.execAll inner body h
  | branch span condition yes no =>
    obtain ⟨hyes, hno⟩ := h
    rw [exec.eq_def]
    refine (ih.eval scope condition).bind fun v _ => ?_
    cases v.isTruthy with
    | true => exact ih.exec scope yes hyes
    | false =>
      cases no with
      | some s => exact ih.exec scope s hno
      | none => exact .pure trivial
  | loop span condition body =>
    rw [exec]
    exact ih.execLoop scope condition body h

end

private theorem evaluatorKeeping (hO : ∀ i decl, O i decl → bodyMakes O decl.body)
    (clock : Nat → Float) (n : Nat) : EvaluatorKeeping O clock n := by
  induction n with
  | zero => exact evaluatorKeeping_zero clock
  | succ n ih =>
    exact ⟨keeping_eval ih, keeping_evalAll ih, keeping_call ih, keeping_invoke ih hO,
      keeping_execAll ih, keeping_exec ih, keeping_execLoop ih⟩

/-! ## Moments -/

section
variable {α : Type} {p : Run α} {Q : α → Prop} {m : Machine}

theorem Keeping.of_ok (h : Keeping O p Q) (hm : m.From O) {a : α} {m' : Machine}
    (hok : p m = .ok a m') : m'.From O ∧ Q a := by
  have hends := h m hm
  rw [hok] at hends
  exact hends

theorem Keeping.ending (h : Keeping O p Q) (hm : m.From O) : (ending (p m)).From O := by
  have hends := h m hm
  cases hresult : p m with
  | ok a m' =>
    rw [hresult] at hends
    exact hends.1
  | error halt m' =>
    rw [hresult] at hends
    exact hends.1

end

def Task.From (O : Origin) : Task → Prop
  | .eval .. | .evalAll .. => True
  | .call callee args _ => callee.From O ∧ ∀ arg ∈ args, arg.From O
  | .invoke f args => f.From O ∧ ∀ arg ∈ args, arg.From O
  | .execAll _ body => bodyMakes O body
  | .exec _ s => s.Makes O
  | .execLoop _ _ body => body.Makes O

structure Moment.From (O : Origin) (x : Moment) : Prop where
  machine : x.machine.From O
  task : x.task.From O

variable {clock : Nat → Float}

theorem Moment.From.starts (hO : ∀ i decl, O i decl → bodyMakes O decl.body) {x y : Moment}
    (hx : x.From O) (h : Starts clock x y) : y.From O := by
  have hevaluator := evaluatorKeeping hO clock
  obtain ⟨hm, htask⟩ := hx
  cases h with
  | operand | firstValue | ret | varDecl | condition | loopCondition => exact ⟨hm, trivial⟩
  | right h | otherwise h | arguments h | fieldValue h | otherValues h =>
    exact ⟨((hevaluator _).eval _ _ |>.of_ok hm h).1, trivial⟩
  | call h hargs =>
    obtain ⟨hm₁, hf⟩ := ((hevaluator _).eval _ _).of_ok hm h
    obtain ⟨hm₂, hvalues⟩ := ((hevaluator _).evalAll _ _).of_ok hm₁ hargs
    exact ⟨hm₂.of_eq rfl rfl, hf, hvalues⟩
  | invoke arity => exact ⟨hm, htask⟩
  | construct found arity hobject hbind =>
    obtain ⟨hm₁, hreceiver⟩ := (keeping_newObject htask.1).of_ok hm hobject
    have hinitializer := htask.1 initializerName _ found
    obtain ⟨hm₂, hmethod⟩ := (keeping_bind hinitializer hreceiver).of_ok hm₁ hbind
    exact ⟨hm₂, hmethod, htask.2⟩
  | @code n ctx f args scope m m' h =>
    have hbindings : (Bindings.empty.insertMany (f.decl.params.zip args)).All (Value.From O) :=
      Bindings.All.empty.insertMany fun pair hpair => htask.2 pair.2 (List.of_mem_zip hpair).2
    exact ⟨((keeping_newScope f.env hbindings).of_ok hm h).1, hO _ _ htask.1⟩
  | firstStmt => exact ⟨hm, htask.1⟩
  | otherStmts h => exact ⟨(((hevaluator _).exec _ _ htask.1).of_ok hm h).1, htask.2⟩
  | expr h | print h => exact ⟨((keeping_emit _).of_ok hm h).1, trivial⟩
  | block h => exact ⟨((keeping_newScope _ .empty).of_ok hm h).1, htask⟩
  | yes h => exact ⟨(((hevaluator _).eval _ _).of_ok hm h).1, htask.1⟩
  | no h => exact ⟨(((hevaluator _).eval _ _).of_ok hm h).1, htask.2⟩
  | loop => exact ⟨hm, htask⟩
  | loopBody h => exact ⟨(((hevaluator _).eval _ _).of_ok hm h).1, htask⟩
  | loopAgain h holds hbody =>
    have hm₁ := (((hevaluator _).eval _ _).of_ok hm h).1
    exact ⟨(((hevaluator _).exec _ _ htask).of_ok hm₁ hbody).1, htask⟩

section
variable (hO : ∀ i decl, O i decl → bodyMakes O decl.body)
include hO

private theorem keeping_runAll (fuel : Nat) {program : List Stmt} (h : bodyMakes O program) :
    Keeping O (runAll clock fuel program) fun _ => True := by
  induction program with
  | nil => exact .pure trivial
  | cons first others ih =>
    obtain ⟨hfirst, hothers⟩ := h
    exact ((evaluatorKeeping hO clock fuel).exec globals first hfirst).bind fun _ _ => ih hothers

private theorem from_run (fuel : Nat) {source : String} (h : bodyMakes O (runnable source))
    {m : Machine} (hm : m.From O) : (m.run clock fuel source).2.From O := by
  rw [run_machine]
  rcases step_cases clock fuel source with hstep | ⟨-, outcome, log, -, hstep⟩
  · have hkeeps : Keeping O (runAll clock fuel (runnable source)) fun _ => True :=
      keeping_runAll hO fuel h
    rw [hstep]
    exact (hkeeps.ending (hm.opened source)).concluded
  · rw [hstep]
    exact ⟨hm.scopes, hm.objects⟩

/-- If all sources declare functions in the given way only, then at no moment of a session there is
any other function. -/
theorem from_session (fuel : Nat) (h : ∀ source, bodyMakes O (runnable source))
    (sources : List String) {m : Machine} (hm : m.From O) :
    ∀ x ∈ sessionMoments clock fuel sources m, x.From O := by
  have hstep : ∀ x y : Moment, x.From O → Starts clock x y → y.From O :=
    fun x y hx hxy => hx.starts hO hxy
  have hnext (first : Stmt) (others : List Stmt) (m : Machine) (flow : Flow ScopeId) (m' : Machine)
      (h : bodyMakes O (first :: others) ∧ m.From O)
      (hexec : exec clock fuel globals first m = .ok flow m') :
      bodyMakes O others ∧ m'.From O :=
    ⟨h.1.2, (((evaluatorKeeping hO clock fuel).exec globals first h.1.1).of_ok h.2 hexec).1⟩
  have hsource (source : String) (m : Machine) (hm : m.From O) :
      ∀ x ∈ sourceMoments clock fuel source m, x.From O := by
    exact forall_programMoments (I := fun program m => bodyMakes O program ∧ m.From O) hstep
      (fun first others m h => ⟨h.2, h.1.1⟩) hnext _ _ ⟨h source, hm.opened source⟩
  have hrun (source : String) (m : Machine) (hm : m.From O) : (m.run clock fuel source).2.From O :=
    from_run hO fuel (h source) hm
  exact forall_sessionMoments hsource hrun sources m hm

end

end Machine

end LoxLang
