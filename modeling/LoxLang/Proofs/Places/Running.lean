import LoxLang.Machine.Eval
import LoxLang.Proofs.Places.Basic
import LoxLang.Proofs.Scopes
import LoxLang.Proofs.Values
/-!
# Places in what runs

A running program raises errors only at places of code that it was given: the
statements that run, or the functions that the machine keeps from before. All
values that the machine stores have code at allowed places, and every step keeps
it so. The proof is by induction on the fuel.
-/
namespace LoxLang

variable {P : Span → Prop}

/-! ## Values and machines -/

/-- The code of all methods of a class, inherited ones too, is at allowed places. -/
def Class.Within (P : Span → Prop) (c : Class ScopeId) : Prop :=
  ∀ name method, c.method? name = some method → method.decl.Within P

def Value.Within (P : Span → Prop) : Value ScopeId → Prop
  | .function f => f.decl.Within P
  | .cls c | .object _ c => c.Within P
  | _ => True

def Flow.Within (P : Span → Prop) : Flow ScopeId → Prop
  | .normal => True
  | .returned value => value.Within P

def Halt.Within (P : Span → Prop) : Halt → Prop
  | .raised error => P error.span
  | _ => True

def Bindings.All {α : Type} (Q : α → Prop) (b : Bindings α) : Prop :=
  ∀ name value, b.get? name = some value → Q value

/-- All code that a machine keeps is at allowed places. -/
structure Machine.Within (P : Span → Prop) (m : Machine) : Prop where
  scopes : ∀ id name value, m.scopes.own? id name = some value → value.Within P
  objects : ∀ cell, (m.objects.getD cell .empty).All (Value.Within P)

section
variable {Q : Span → Prop} (hPQ : ∀ span, P span → Q span)
include hPQ

theorem Class.Within.mono {c : Class ScopeId} (h : c.Within P) : c.Within Q :=
  fun name method hmethod => (h name method hmethod).mono hPQ

theorem Value.Within.mono {value : Value ScopeId} (h : value.Within P) : value.Within Q := by
  cases value with
  | function f => exact FunDecl.Within.mono hPQ h
  | cls c | object _ c => exact Class.Within.mono hPQ h
  | _ => trivial

theorem Machine.Within.mono {m : Machine} (h : m.Within P) : m.Within Q where
  scopes id name value hown := (h.scopes id name value hown).mono hPQ
  objects cell name value hfield := (h.objects cell name value hfield).mono hPQ

end

private theorem Value.within_ofLiteral (value : Literal) : (Value.ofLiteral value).Within P := by
  cases value <;> trivial

namespace Bindings.All

variable {α : Type} {Q : α → Prop} {b : Bindings α}

theorem empty : (Bindings.empty : Bindings α).All Q := by
  intro name value h
  exact absurd h (by simp)

theorem insert (hb : b.All Q) {name : String} {value : α} (hvalue : Q value) :
    (b.insert name value).All Q := by
  intro other found h
  rw [Bindings.get?_insert] at h
  split at h
  · obtain rfl := Option.some.inj h
    exact hvalue
  · exact hb other found h

theorem insertMany (hb : b.All Q) {pairs : List (String × α)} (hpairs : ∀ pair ∈ pairs, Q pair.2) :
    (b.insertMany pairs).All Q := by
  induction pairs generalizing b with
  | nil => exact hb
  | cons pair rest ih =>
    rw [Bindings.insertMany_cons]
    exact ih (hb.insert (hpairs pair List.mem_cons_self))
      fun pair' hpair' => hpairs pair' (List.mem_cons_of_mem pair hpair')

theorem pushEmpty {all : Array (Bindings α)} (h : ∀ cell, (all.getD cell .empty).All Q)
    (cell : Nat) : ((all.push .empty).getD cell .empty).All Q := by
  have hcell := h cell
  rw [Array.getD_eq_getD_getElem?] at hcell ⊢
  rw [Array.getElem?_push]
  split
  · exact Bindings.All.empty
  · exact hcell

theorem modify {all : Array (Bindings α)} (h : ∀ cell, (all.getD cell .empty).All Q) {cell : Nat}
    {name : String} {value : α} (hvalue : Q value) (other : Nat) :
    ((all.modify cell (·.insert name value)).getD other .empty).All Q := by
  have hother := h other
  rw [Array.getD_eq_getD_getElem?] at hother ⊢
  rw [Array.getElem?_modify]
  split
  · cases hfields : all[other]? with
    | none => exact Bindings.All.empty
    | some fields =>
      rw [hfields] at hother
      exact Bindings.All.insert hother hvalue
  · exact hother

end Bindings.All

private theorem Class.within_mk {identity : Nat} {name : String}
    {superclass : Option (Class ScopeId)}
    {methods : Bindings (Closure ScopeId)} (hsuper : ∀ above ∈ superclass, above.Within P)
    (hmethods : methods.All (·.decl.Within P)) :
    (⟨identity, name, superclass, methods⟩ : Class ScopeId).Within P := by
  intro key method h
  cases hown : methods.get? key with
  | some own =>
    have hmethod : own = method := by
      cases superclass <;> simpa only [Class.method?, hown, Option.some.injEq] using h
    exact hmethod ▸ hmethods key own hown
  | none =>
    cases superclass with
    | none =>
      rw [Class.method?, hown] at h
      exact absurd h (Option.some_ne_none method).symm
    | some above =>
      rw [Class.method?, hown] at h
      exact hsuper above rfl key method h

namespace Machine.Within

variable {m : Machine}

theorem initial (room : Option Nat) : (Machine.initial room).Within P where
  scopes id name value h := by
    have hroot : (Bindings.empty.insert "clock" (.native .clock)).All (Value.Within P) :=
      Bindings.All.empty.insert trivial
    cases id with
    | zero => exact hroot name value h
    | succ id => exact absurd h (Option.some_ne_none value).symm
  objects cell := Bindings.All.empty

theorem getAt? (h : m.Within P) {scope : ScopeId} {distance : Nat} {name : String}
    {value : Value ScopeId} (hget : m.scopes.getAt? scope distance name = some value) :
    value.Within P := by
  obtain ⟨owner, -, hown⟩ := Option.bind_eq_some_iff.mp hget
  exact h.scopes owner name value hown

theorem get? (h : m.Within P) {scope : ScopeId} {name : String} {value : Value ScopeId}
    (hget : m.scopes.get? scope name = some value) : value.Within P := by
  obtain ⟨owner, -, hown⟩ := Option.bind_eq_some_iff.mp hget
  exact h.scopes owner name value hown

theorem push (h : m.Within P) {scope : Scope} (hscope : scope.bindings.All (Value.Within P)) :
    { m with scopes := m.scopes.push scope }.Within P := by
  refine { h with scopes := fun id name value hown => ?_ }
  simp only [Scopes.own?_push] at hown
  split at hown
  · exact hscope name value hown
  · exact h.scopes id name value hown

theorem define (h : m.Within P) {id : ScopeId} {name : String} {value : Value ScopeId}
    (hvalue : value.Within P) :
    { m with scopes := m.scopes.define id name value }.Within P := by
  refine { h with scopes := fun other key found hown => ?_ }
  by_cases hsame : other = id ∧ key = name
  · obtain ⟨rfl, rfl⟩ := hsame
    -- The scope exists, because otherwise nothing could be bound in it now.
    have hlt : other < m.scopes.next := by
      have hlt := Scopes.lt_of_own? (hown ▸ Option.some_ne_none found)
      rwa [Scopes.next_define] at hlt
    simp only [Scopes.own?_define_self _ _ _ _ hlt] at hown
    obtain rfl := Option.some.inj hown
    exact hvalue
  · simp only [Scopes.own?_define_other _ _ _ _ _ _ hsame] at hown
    exact h.scopes other key found hown

theorem newObject (h : m.Within P) : { m with objects := m.objects.push .empty }.Within P :=
  { h with objects := Bindings.All.pushEmpty h.objects }

theorem setField (h : m.Within P) {cell : Nat} {name : String} {value : Value ScopeId}
    (hvalue : value.Within P) :
    { m with objects := m.objects.modify cell (·.insert name value) }.Within P :=
  { h with objects := Bindings.All.modify h.objects hvalue }

end Machine.Within

namespace Machine

variable {α : Type}

/-- A step keeps the code of a machine at allowed places, its result has `Q`, and an error that it
raises is at an allowed place. -/
abbrev Stays (P : Span → Prop) (p : Run α) (Q : α → Prop) : Prop :=
  Keeps (Machine.Within P) (Halt.Within P) p Q

/-! ## Elementary steps -/

private theorem stays_raise {Q : α → Prop} (error : Error) {span : Span} (h : P span) :
    Stays P (raise error span) Q :=
  .throw h

private theorem stays_fault {Q : α → Prop} (what : Fault) : Stays P (fault what) Q :=
  .throw trivial

private theorem stays_emit (event : Event) : Stays P (emit event) fun _ => True :=
  .modify fun _ hm => { hm with }

private theorem stays_newScope (parent : ScopeId) {bindings : Bindings (Value ScopeId)}
    (h : bindings.All (Value.Within P)) : Stays P (newScope parent bindings) fun _ => True :=
  .modifyGet fun _ hm => ⟨hm.push h, trivial⟩

private theorem stays_define (scope : ScopeId) (name : String) {value : Value ScopeId}
    (h : value.Within P) : Stays P (define scope name value) fun _ => True :=
  .modify fun _ hm => hm.define h

private theorem stays_getAt (scope : ScopeId) (distance : Nat) (name : String) :
    Stays P (getAt scope distance name) (·.Within P) := by
  refine .getThen fun m hm => ?_
  cases hget : m.scopes.getAt? scope distance name with
  | some value => exact .pure (hm.getAt? hget)
  | none => exact stays_fault _

private theorem stays_assignAt (scope : ScopeId) (distance : Nat) (name : String)
    {value : Value ScopeId}
    (h : value.Within P) : Stays P (assignAt scope distance name value) fun _ => True := by
  refine .getThen fun m _ => ?_
  cases m.scopes.ancestor? distance scope with
  | some owner => exact stays_define owner name h
  | none => exact stays_fault _

private theorem stays_assignByName (scope : ScopeId) (name : String) {value : Value ScopeId}
    {span : Span} (h : value.Within P) (hspan : P span) :
    Stays P (assignByName scope name value span) fun _ => True := by
  refine .getThen fun m _ => ?_
  cases m.scopes.owner? scope name with
  | some owner => exact stays_define owner name h
  | none => exact stays_raise _ hspan

private theorem stays_lookup (scope : ScopeId) (ref : Ref) {span : Span} (hspan : P span) :
    Stays P (lookup scope ref span) (·.Within P) := by
  unfold lookup
  cases ref.distance with
  | some distance => exact stays_getAt scope distance ref.name
  | none =>
    refine .getThen fun m hm => ?_
    cases hget : m.scopes.get? globals ref.name with
    | some value => exact .pure (hm.get? hget)
    | none => exact stays_raise _ hspan

private theorem stays_assign (scope : ScopeId) (ref : Ref) {value : Value ScopeId} {span : Span}
    (h : value.Within P) (hspan : P span) :
    Stays P (assign scope ref value span) fun _ => True := by
  unfold assign
  cases ref.distance with
  | some distance => exact stays_assignAt scope distance ref.name h
  | none => exact stays_assignByName globals ref.name h hspan

private theorem stays_newClosure {decl : FunDecl} (scope : ScopeId) (isInitializer : Bool)
    (h : decl.Within P) : Stays P (newClosure decl scope isInitializer) (·.decl.Within P) :=
  .modifyGet fun _ hm => ⟨{ hm with }, h⟩

private theorem stays_newClass (name : String) {superclass : Option (Class ScopeId)}
    {methods : Bindings (Closure ScopeId)} (hsuper : ∀ above ∈ superclass, above.Within P)
    (hmethods : methods.All (·.decl.Within P)) :
    Stays P (newClass name superclass methods) (·.Within P) :=
  .modifyGet fun _ hm => ⟨{ hm with }, Class.within_mk hsuper hmethods⟩

private theorem stays_newObject {c : Class ScopeId} (h : c.Within P) :
    Stays P (newObject c) (·.Within P) :=
  .modifyGet fun _ hm => ⟨hm.newObject, h⟩

private theorem stays_setField (cell : Nat) (name : String) {value : Value ScopeId}
    (h : value.Within P) :
    Stays P (setField cell name value) fun _ => True :=
  .modify fun _ hm => hm.setField h

private theorem stays_bind {method : Closure ScopeId} {receiver : Value ScopeId}
    (hmethod : method.decl.Within P) (hreceiver : receiver.Within P) :
    Stays P (Machine.bind method receiver) (·.decl.Within P) :=
  (stays_newScope method.env (Bindings.All.empty.insert hreceiver)).bind fun scope _ =>
    stays_newClosure scope method.isInitializer hmethod

private theorem stays_newMethods (scope : ScopeId) {decls : List FunDecl}
    {methods : Bindings (Closure ScopeId)} (hdecls : withinMethods P decls)
    (hmethods : methods.All (·.decl.Within P)) :
    Stays P (newMethods scope decls methods) (·.All (·.decl.Within P)) := by
  induction decls generalizing methods with
  | nil => exact .pure hmethods
  | cons decl rest ih =>
    obtain ⟨hdecl, hrest⟩ := hdecls
    exact (stays_newClosure scope decl.isInitializer hdecl).bind fun method hmethod =>
      ih hrest (hmethods.insert hmethod)

private theorem stays_boundMethod {c : Class ScopeId} {receiver : Value ScopeId} (name : String)
    {span : Span} (hc : c.Within P) (hreceiver : receiver.Within P) (hspan : P span) :
    Stays P (match c.method? name with
      | some method => .function <$> Machine.bind method receiver
      | none => raise (.noSuchAttribute c.name name) span : Run (Value ScopeId)) (·.Within P) := by
  cases hmethod : c.method? name with
  | some method => exact (stays_bind (hc name method hmethod) hreceiver).map fun f hf => hf
  | none => exact stays_raise _ hspan

private theorem stays_property {receiver : Value ScopeId} (name : String) {span : Span}
    (hreceiver : receiver.Within P) (hspan : P span) :
    Stays P (property receiver name span) (·.Within P) := by
  cases receiver with
  | object cell c =>
    refine .getThen fun m hm => ?_
    cases hfield : (m.objects.getD cell .empty).get? name with
    | some value => exact .pure (hm.objects cell name value hfield)
    | none => exact stays_boundMethod name hreceiver hreceiver hspan
  | _ => exact stays_raise _ hspan

private theorem stays_superMethod (scope : ScopeId) (distance : Option Nat) (name : String)
    {span : Span}
    (hspan : P span) : Stays P (superMethod scope distance name span) (·.Within P) := by
  unfold superMethod
  cases distance with
  | none => exact stays_fault _
  | some distance =>
    cases distance with
    | zero => exact stays_fault _
    | succ inner =>
      refine (stays_getAt scope (inner + 1) "super").bind fun above habove => ?_
      cases above with
      | cls c =>
        refine (stays_getAt scope inner "this").bind fun receiver hreceiver => ?_
        cases receiver with
        | object cell d => exact stays_boundMethod name habove hreceiver hspan
        | _ => exact stays_fault _
      | _ => exact stays_fault _

private theorem stays_declareClass (scope inner : ScopeId) (name : String)
    {superclass : Option (Class ScopeId)} {decls : List FunDecl} {span : Span}
    (hsuper : ∀ above ∈ superclass, above.Within P) (hdecls : withinMethods P decls)
    (hspan : P span) :
    Stays P (declareClass scope inner name superclass decls span) fun _ => True :=
  (stays_newMethods inner hdecls .empty).bind fun _ hmethods => (stays_emit _).bind fun _ _ =>
    (stays_newClass name hsuper hmethods).bind fun _ hc => stays_assignByName scope name hc hspan

private theorem stays_writeLine (text : String) {span : Span} (hspan : P span) :
    Stays P (writeLine text span) fun _ => True := by
  have hwrite : Stays P (modifyGet fun m : Machine =>
      ((m.output.write (text ++ "\n").toUTF8).2,
        { m with output := (m.output.write (text ++ "\n").toUTF8).1 }) : Run Bool) fun _ => True :=
    .modifyGet fun _ hm => ⟨{ hm with }, trivial⟩
  refine hwrite.bind fun ok _ => ?_
  cases ok with
  | true => exact .pure trivial
  | false => exact stays_raise _ hspan

private theorem stays_readClock (clock : Nat → Float) : Stays P (readClock clock) (·.Within P) :=
  .modifyGet fun _ hm => ⟨{ hm with }, trivial⟩

private theorem stays_checkArity (name : String) (expected got : Nat) {span : Span}
    (hspan : P span) :
    Stays P (checkArity name expected got span) fun _ => True := by
  unfold checkArity
  split
  · exact .pure trivial
  · exact stays_raise _ hspan

private theorem stays_inFrame {p : Run α} {Q : α → Prop} {span : Span} (hspan : P span)
    (hp : Stays P p Q) : Stays P (inFrame span p) Q := by
  intro m hm
  unfold inFrame
  by_cases hframes : m.frames ≥ maxFrames
  · rw [if_pos hframes]
    exact ⟨hm, hspan⟩
  · rw [if_neg hframes]
    have hends := hp { m with frames := m.frames + 1 } { hm with }
    cases hresult : p { m with frames := m.frames + 1 } with
    | ok value m' =>
      rw [hresult] at hends
      exact ⟨{ hends.1 with }, hends.2⟩
    | error halt m' =>
      rw [hresult] at hends
      exact ⟨{ hends.1 with }, hends.2⟩

private theorem stays_settle {result : Except Error (Value ScopeId)} {span : Span}
    (h : ∃ literal : Except Error Literal, result = literal.map .ofLiteral) (hspan : P span) :
    Stays P (settle result span) (·.Within P) := by
  obtain ⟨literal, rfl⟩ := h
  cases literal with
  | ok value => exact .pure (Value.within_ofLiteral value)
  | error e => exact stays_raise e hspan

private theorem stays_callResult (f : Closure ScopeId) {flow : Flow ScopeId} (h : flow.Within P) :
    Stays P (callResult f flow) (·.Within P) := by
  unfold callResult
  split
  · exact stays_getAt f.env 0 "this"
  · cases flow with
    | normal => exact .pure trivial
    | returned value => exact .pure h

/-! ## Evaluation -/

structure EvaluatorStays (P : Span → Prop) (clock : Nat → Float) (n : Nat) : Prop where
  eval : ∀ scope e, e.Within P → Stays P (eval clock n scope e) (·.Within P)
  evalAll : ∀ scope es, withinArguments P es →
    Stays P (evalAll clock n scope es) fun values => ∀ value ∈ values, value.Within P
  call : ∀ callee args span, callee.Within P → (∀ arg ∈ args, arg.Within P) → P span →
    Stays P (call clock n callee args span) (·.Within P)
  invoke : ∀ f args, f.decl.Within P → (∀ arg ∈ args, arg.Within P) →
    Stays P (invoke clock n f args) (·.Within P)
  execAll : ∀ scope body, withinBody P body → Stays P (execAll clock n scope body) (·.Within P)
  exec : ∀ scope s, s.Within P → Stays P (exec clock n scope s) (·.Within P)
  execLoop : ∀ scope condition body, condition.Within P → body.Within P →
    Stays P (execLoop clock n scope condition body) (·.Within P)

private theorem evaluatorStays_zero (clock : Nat → Float) : EvaluatorStays P clock 0 where
  eval _ _ _ := by
    rw [Machine.eval]
    exact .throw trivial
  evalAll _ _ _ := by
    rw [Machine.evalAll]
    exact .throw trivial
  call _ _ _ _ _ _ := by
    rw [Machine.call]
    exact .throw trivial
  invoke _ _ _ _ := by
    rw [Machine.invoke]
    exact .throw trivial
  execAll _ _ _ := by
    rw [Machine.execAll]
    exact .throw trivial
  exec _ _ _ := by
    rw [Machine.exec]
    exact .throw trivial
  execLoop _ _ _ _ _ := by
    rw [Machine.execLoop]
    exact .throw trivial

section
variable {clock : Nat → Float} {n : Nat} (ih : EvaluatorStays P clock n)
include ih

private theorem stays_eval (scope : ScopeId) (e : Expr) (h : e.Within P) :
    Stays P (eval clock (n + 1) scope e) (·.Within P) := by
  cases e with
  | literal span value =>
    rw [eval]
    exact .pure (Value.within_ofLiteral value)
  | var span ref =>
    rw [eval]
    exact stays_lookup scope ref h
  | this span distance =>
    rw [eval]
    exact stays_lookup scope _ h
  | super span distance method =>
    rw [eval]
    exact stays_superMethod scope distance method h
  | grouping span inner =>
    rw [eval]
    exact ih.eval scope inner h.2
  | unary span op operand =>
    obtain ⟨hspan, hoperand⟩ := h
    rw [eval]
    refine (ih.eval scope operand hoperand).bind fun value _ => ?_
    obtain ⟨result, hresult, -⟩ := (Value.Alike.refl value).unary op
    exact stays_settle ⟨result, hresult⟩ hspan
  | binary span op left right =>
    obtain ⟨hspan, hleft, hright⟩ := h
    rw [eval]
    refine (ih.eval scope left hleft).bind fun a _ => ?_
    refine (ih.eval scope right hright).bind fun b _ => ?_
    obtain ⟨result, hresult, -⟩ := (Value.Alike.refl a).binary (Value.Alike.refl b) op
    exact stays_settle ⟨result, hresult⟩ hspan
  | logical span op left right =>
    obtain ⟨-, hleft, hright⟩ := h
    rw [eval]
    refine (ih.eval scope left hleft).bind fun a ha => ?_
    split
    · exact .pure ha
    · exact .pure ha
    · exact ih.eval scope right hright
  | assign span target value =>
    obtain ⟨hspan, hvalue⟩ := h
    rw [eval]
    refine (ih.eval scope value hvalue).bind fun v hv => ?_
    exact (stays_assign scope target hv hspan).bind fun _ _ => .pure hv
  | call span callee args =>
    obtain ⟨hspan, hcallee, hargs⟩ := h
    rw [eval]
    refine (ih.eval scope callee hcallee).bind fun f hf => ?_
    refine (ih.evalAll scope args hargs).bind fun values hvalues => ?_
    exact stays_inFrame hspan (ih.call f values span hf hvalues hspan)
  | get span object name =>
    obtain ⟨hspan, hobject⟩ := h
    rw [eval]
    exact (ih.eval scope object hobject).bind fun receiver hreceiver =>
      stays_property name hreceiver hspan
  | set span object name value =>
    obtain ⟨hspan, hobject, hvalue⟩ := h
    rw [eval]
    refine (ih.eval scope object hobject).bind fun receiver _ => ?_
    cases receiver with
    | object cell c =>
      refine (ih.eval scope value hvalue).bind fun v hv => ?_
      exact (stays_setField cell name hv).bind fun _ _ => .pure hv
    | _ => exact stays_raise _ hspan

private theorem stays_evalAll (scope : ScopeId) (es : List Expr) (h : withinArguments P es) :
    Stays P (evalAll clock (n + 1) scope es) fun values => ∀ value ∈ values, value.Within P := by
  cases es with
  | nil =>
    rw [evalAll]
    exact .pure fun _ hvalue => absurd hvalue List.not_mem_nil
  | cons first others =>
    obtain ⟨hfirst, hothers⟩ := h
    rw [evalAll]
    refine (ih.eval scope first hfirst).bind fun v hv => ?_
    refine (ih.evalAll scope others hothers).bind fun vs hvs => ?_
    exact .pure (List.forall_mem_cons.mpr ⟨hv, hvs⟩)

private theorem stays_call (callee : Value ScopeId) (args : List (Value ScopeId)) (span : Span)
    (hcallee : callee.Within P) (hargs : ∀ arg ∈ args, arg.Within P) (hspan : P span) :
    Stays P (call clock (n + 1) callee args span) (·.Within P) := by
  cases callee with
  | function f =>
    rw [call]
    exact (stays_checkArity _ _ _ hspan).bind fun _ _ => ih.invoke f args hcallee hargs
  | cls c =>
    rw [call]
    cases hmethod : c.method? initializerName with
    | none =>
      exact (stays_checkArity _ _ _ hspan).bind fun _ _ => stays_newObject hcallee
    | some initializer =>
      refine (stays_checkArity _ _ _ hspan).bind fun _ _ => ?_
      refine (stays_newObject hcallee).bind fun receiver hreceiver => ?_
      refine (stays_bind (hcallee _ initializer hmethod) hreceiver).bind fun method hm => ?_
      exact (ih.invoke method args hm hargs).bind fun _ _ => .pure hreceiver
  | native f =>
    cases f
    rw [call]
    exact (stays_checkArity _ _ _ hspan).bind fun _ _ => stays_readClock clock
  | _ =>
    unfold call
    exact stays_raise _ hspan

private theorem stays_invoke (f : Closure ScopeId) (args : List (Value ScopeId))
    (hf : f.decl.Within P) (hargs : ∀ arg ∈ args, arg.Within P) :
    Stays P (invoke clock (n + 1) f args) (·.Within P) := by
  have hbindings : (Bindings.empty.insertMany (f.decl.params.zip args)).All (Value.Within P) :=
    Bindings.All.empty.insertMany fun pair hpair => hargs pair.2 (List.of_mem_zip hpair).2
  rw [invoke]
  refine (stays_newScope f.env hbindings).bind fun scope _ => ?_
  exact (ih.execAll scope f.decl.body hf.body).bind fun flow hflow => stays_callResult f hflow

private theorem stays_execAll (scope : ScopeId) (body : List Stmt) (h : withinBody P body) :
    Stays P (execAll clock (n + 1) scope body) (·.Within P) := by
  cases body with
  | nil =>
    rw [execAll]
    exact .pure trivial
  | cons first others =>
    obtain ⟨hfirst, hothers⟩ := h
    rw [execAll]
    refine (ih.exec scope first hfirst).bind fun flow hflow => ?_
    cases flow with
    | normal => exact ih.execAll scope others hothers
    | returned value => exact .pure hflow

private theorem stays_execLoop (scope : ScopeId) (condition : Expr) (body : Stmt)
    (hcondition : condition.Within P) (hbody : body.Within P) :
    Stays P (execLoop clock (n + 1) scope condition body) (·.Within P) := by
  rw [execLoop]
  refine (ih.eval scope condition hcondition).bind fun value _ => ?_
  split
  · refine (ih.exec scope body hbody).bind fun flow hflow => ?_
    cases flow with
    | normal => exact ih.execLoop scope condition body hcondition hbody
    | returned value => exact .pure hflow
  · exact .pure trivial

omit ih in
private theorem stays_classDecl (scope : ScopeId) {span : Span} (name : String)
    {superclass : Option (Located Ref)} {methods : List FunDecl}
    (h : (Stmt.classDecl span name superclass methods).Within P) :
    Stays P (exec clock (n + 1) scope (.classDecl span name superclass methods)) (·.Within P) := by
  obtain ⟨hspan, hsuper, hmethods⟩ := h
  have hnil : (Value.nil : Value ScopeId).Within P := trivial
  cases superclass with
  | none =>
    rw [exec]
    refine (stays_define scope name hnil).bind fun _ _ => ?_
    have hnone : ∀ above ∈ (none : Option (Class ScopeId)), above.Within P := by simp
    exact (stays_declareClass scope scope name hnone hmethods hspan).bind fun _ _ => .pure trivial
  | some superclass =>
    rw [exec]
    refine (stays_define scope name hnil).bind fun _ _ => ?_
    refine (stays_lookup scope superclass.value (hsuper superclass rfl)).bind fun v hv => ?_
    cases v with
    | cls above =>
      have habove : ∀ above' ∈ some above, above'.Within P := by
        rintro _ ⟨⟩
        exact hv
      refine (stays_newScope scope (Bindings.All.empty.insert hv)).bind fun inner _ => ?_
      exact (stays_declareClass scope inner name habove hmethods hspan).bind fun _ _ =>
        .pure trivial
    | _ => exact stays_raise _ (hsuper superclass rfl)

private theorem stays_exec (scope : ScopeId) (s : Stmt) (h : s.Within P) :
    Stays P (exec clock (n + 1) scope s) (·.Within P) := by
  cases s with
  | expr span value =>
    rw [exec]
    exact (stays_emit _).bind fun _ _ => (ih.eval scope value h.2).bind fun _ _ => .pure trivial
  | print span value =>
    rw [exec]
    refine (stays_emit _).bind fun _ _ => (ih.eval scope value h.2).bind fun v _ => ?_
    exact (stays_writeLine v.display h.1).bind fun _ _ => .pure trivial
  | ret span value =>
    cases value with
    | none =>
      rw [exec]
      exact .pure trivial
    | some e =>
      rw [exec]
      exact (ih.eval scope e (h.2 e rfl)).map fun v hv => hv
  | varDecl span name value =>
    cases value with
    | none =>
      have hnil : (Value.nil : Value ScopeId).Within P := trivial
      rw [exec]
      exact (stays_define scope name hnil).bind fun _ _ => .pure trivial
    | some e =>
      rw [exec]
      refine (ih.eval scope e (h.2 e rfl)).bind fun v hv => ?_
      exact (stays_define scope name hv).bind fun _ _ => .pure trivial
  | funDecl decl =>
    rw [exec]
    refine (stays_newClosure scope false h).bind fun f hf => ?_
    have hvalue : (Value.function f).Within P := hf
    exact (stays_define scope decl.name hvalue).bind fun _ _ => .pure trivial
  | classDecl span name superclass methods => exact stays_classDecl scope name h
  | block span body =>
    rw [exec]
    exact (stays_newScope scope .empty).bind fun inner _ => ih.execAll inner body h.2
  | branch span condition yes no =>
    obtain ⟨-, hcondition, hyes, hno⟩ := h
    rw [exec.eq_def]
    refine (ih.eval scope condition hcondition).bind fun v _ => ?_
    split
    · exact ih.exec scope yes hyes
    · cases no with
      | none => exact .pure trivial
      | some s => exact ih.exec scope s hno
  | loop span condition body =>
    obtain ⟨-, hcondition, hbody⟩ := h
    rw [exec]
    exact ih.execLoop scope condition body hcondition hbody

end

theorem evaluatorStays (P : Span → Prop) (clock : Nat → Float) (n : Nat) :
    EvaluatorStays P clock n := by
  induction n with
  | zero => exact evaluatorStays_zero clock
  | succ n ih =>
    exact ⟨stays_eval ih, stays_evalAll ih, stays_call ih, stays_invoke ih, stays_execAll ih,
      stays_exec ih, stays_execLoop ih⟩

end Machine

end LoxLang
