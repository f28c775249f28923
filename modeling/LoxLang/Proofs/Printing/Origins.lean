import LoxLang.Proofs.Cursor.Trees
import LoxLang.Proofs.Places.Reading

namespace LoxLang

/-! ## Properties of all expressions of a tree -/

def Tree.Every (P : Expr → Prop) (t : Tree) : Prop :=
  ∀ e, t.Has (.expr e) → P e

namespace Tree.Every

variable {P : Expr → Prop}

theorem child {t child : Tree} (h : t.Every P) (hchild : child ∈ t.children) : child.Every P :=
  fun e he => h e (.under hchild he)

theorem root {e : Expr} (h : (Tree.expr e).Every P) : P e :=
  h e (.root _)

theorem expr {e : Expr} (he : P e) (h : ∀ child ∈ e.children, (Tree.expr child).Every P) :
    (Tree.expr e).Every P := by
  intro node hnode
  cases hnode with
  | root => exact he
  | under hmem hrest =>
    obtain ⟨child, hchild, rfl⟩ := List.mem_map.mp hmem
    exact h child hchild node hrest

theorem stmt {s : Stmt} (h : ∀ child ∈ s.children, child.Every P) : (Tree.stmt s).Every P := by
  intro node hnode
  cases hnode with
  | under hmem hrest => exact h _ hmem node hrest

theorem pair {span : Span} {first second : Stmt} (hfirst : (Tree.stmt first).Every P)
    (hsecond : (Tree.stmt second).Every P) : (Tree.stmt (.block span [first, second])).Every P :=
  stmt (by simp [Stmt.children, hfirst, hsecond])

theorem method {decl : FunDecl} (h : ∀ s ∈ decl.body, (Tree.stmt s).Every P) :
    (Tree.method decl).Every P := by
  intro node hnode
  cases hnode with
  | under hmem hrest =>
    obtain ⟨s, hs, rfl⟩ := List.mem_map.mp hmem
    exact h s hs node hrest

end Tree.Every

/-- The constant and the name of a node are those of allowed tokens. A loop that does not say when
to end has the constant `true`. -/
def Expr.From (T : Token → Prop) : Expr → Prop
  | .literal _ value => value = .bool true ∨ ∃ token, T token ∧ Parser.literal? token = some value
  | .var _ ref => T (.identifier ref.name)
  | .super _ _ method => T (.identifier method)
  | .assign _ target _ => T (.identifier target.name)
  | .get _ _ name | .set _ _ name _ => T (.identifier name)
  | _ => True

abbrev Tree.From (T : Token → Prop) (t : Tree) : Prop :=
  t.Every (·.From T)

/-! ## Steps of reading -/

def Reader.Ahead (T : Token → Prop) (r : Reader) : Prop :=
  ∀ l ∈ r.rest, T l.token

variable {T : Token → Prop}

namespace Reader.Ahead

variable {r : Reader}

theorem advance (h : r.Ahead T) : r.advance.Ahead T := by
  unfold Reader.advance
  split
  · rename_i l ls hrest
    exact fun l' hl' => h l' (hrest ▸ List.mem_cons_of_mem l hl')
  · exact h

theorem skipFrom {last : Lexeme} {ls : List Lexeme} (h : ∀ l ∈ ls, T l.token) :
    ∀ l ∈ (Reader.skipFrom last ls).2, T l.token := by
  induction ls generalizing last with
  | nil => exact h
  | cons l ls ih =>
    rw [Reader.skipFrom]
    split
    · exact h
    · exact ih fun l' hl' => h l' (List.mem_cons_of_mem l hl')

theorem synchronize (h : r.Ahead T) : r.synchronize.Ahead T := by
  unfold Reader.synchronize
  split
  · exact h
  · rename_i l ls hrest
    exact skipFrom fun l' hl' => h l' (hrest ▸ List.mem_cons_of_mem l hl')

end Reader.Ahead

namespace Parser

variable {α : Type}

abbrev Takes (T : Token → Prop) (p : Parser α) (Q : α → Prop) : Prop :=
  Keeps (Reader.Ahead T) (fun _ => True) p Q

section
variable {p q : Parser α} {Q : α → Prop}

private theorem takes_some (hp : Takes T p Q) : Takes T (some <$> p) fun o => ∀ a ∈ o, Q a := by
  refine hp.map fun a ha => ?_
  rintro _ ⟨⟩
  exact ha

private theorem takes_fail (what : String) : Takes T (failExpecting what) Q :=
  fun _ hr => ⟨hr, trivial⟩

private theorem takes_look {β : Type} {look : Parser β} {f : β → Parser α}
    (hlook : ∀ r, ∃ b, look r = .ok b r) (h : ∀ b, Takes T (f b) Q) :
    Takes T (look >>= f) Q := by
  intro r hr
  obtain ⟨b, hb⟩ := hlook r
  rw [bind_apply, hb]
  exact h b r hr

private theorem takes_fromStart {f : Nat → Parser α} (h : ∀ start, Takes T (f start) Q) :
    Takes T (nextStart >>= f) Q :=
  takes_look (fun _ => ⟨_, rfl⟩) h

private theorem takes_fromSpan {f : Span → Parser α} (h : ∀ span, Takes T (f span) Q) :
    Takes T (nextSpan >>= f) Q :=
  takes_look (fun _ => ⟨_, rfl⟩) h

private theorem takes_spanFrom {f : Span → Parser α} {start : Nat}
    (h : ∀ span, Takes T (f span) Q) :
    Takes T (spanFrom start >>= f) Q :=
  takes_look (fun _ => ⟨_, rfl⟩) h

private theorem takes_ifCheck {token : Token} (hp : Takes T p Q) (hq : Takes T q Q) :
    Takes T (do if ← check token then p else q) Q :=
  takes_look (fun r => ⟨_, check_apply token r⟩) fun b => by cases b <;> assumption

private theorem takes_ifCloses (hp : Takes T p Q) (hq : Takes T q Q) :
    Takes T (do if ← closes then p else q) Q :=
  takes_look (fun r => ⟨_, closes_apply r⟩) fun b => by cases b <;> assumption

private theorem takes_ifAtEnd (hp : Takes T p Q) (hq : Takes T q Q) :
    Takes T (do if ← atEnd then p else q) Q :=
  takes_look (fun r => ⟨_, atEnd_apply r⟩) fun b => by cases b <;> assumption

private theorem takes_peek {f : Option Token → Parser α}
    (h : ∀ next, (∀ token ∈ next, T token) → Takes T (f next) Q) : Takes T (peek >>= f) Q := by
  intro r hr
  refine h (r.rest.head?.map (·.token)) (fun token htoken => ?_) r hr
  obtain ⟨l, hl, rfl⟩ := Option.map_eq_some_iff.mp htoken
  exact hr l (List.mem_of_mem_head? hl)

private theorem takes_advance {f : Unit → Parser α} (h : Takes T (f ()) Q) :
    Takes T (advance >>= f) Q :=
  fun r hr => h r.advance hr.advance

private theorem takes_ifEat {token : Token} (hp : Takes T p Q) (hq : Takes T q Q) :
    Takes T (do if ← eat token then p else q) Q := by
  intro r hr
  rw [bind_apply, eat_apply]
  by_cases h : r.tokens.head? = some token
  · rw [if_pos h]
    exact hp r.advance hr.advance
  · rw [if_neg h]
    exact hq r hr

private theorem takes_expect (token : Token) (what : String) :
    Takes T (expect token what) fun _ => True :=
  takes_ifEat (.pure trivial) (takes_fail what)

private theorem takes_expectName (what : String) :
    Takes T (expectName what) fun name => T (.identifier name) := by
  refine takes_peek fun next hnext => ?_
  split
  · exact takes_advance (.pure (hnext _ rfl))
  · exact takes_fail what

private theorem takes_after {token : Token} (hp : Takes T p Q) :
    Takes T (after token p) fun o => ∀ a ∈ o, Q a :=
  takes_ifEat (takes_some hp) (.pure fun _ ha => absurd ha (Option.not_mem_none _))

private theorem takes_before {token : Token} (hp : Takes T p Q) :
    Takes T (before token p) fun o => ∀ a ∈ o, Q a :=
  takes_ifCheck (.pure fun _ ha => absurd ha (Option.not_mem_none _)) (takes_some hp)

end

private theorem takes_report (error : Error) (span : Span) :
    Takes T (report error span) fun _ => True :=
  fun _ hr => ⟨hr, trivial⟩

private theorem takes_limit (count : Nat) (error : Error) :
    Takes T (limit count error) fun _ => True := by
  unfold limit
  split
  · exact .pure trivial
  · exact takes_fromSpan fun span => takes_report error span

/-- A reader that recovers has only dropped tokens. -/
theorem takes_recover {p : Parser Stmt} {Q : Stmt → Prop} (hp : Takes T p Q) :
    Takes T (recover p) fun o => ∀ s ∈ o, Q s := by
  intro r hr
  have hpr := hp r hr
  unfold recover
  cases hresult : p r with
  | ok s r' =>
    rw [hresult] at hpr
    refine ⟨hpr.1, ?_⟩
    rintro _ ⟨⟩
    exact hpr.2
  | error e r' =>
    rw [hresult] at hpr
    have hpushed : { r' with errors := r'.errors.push e }.Ahead T := hpr.1
    exact ⟨hpushed.synchronize, fun _ hs => absurd hs (Option.not_mem_none _)⟩

/-! ## Expressions -/

private theorem every_apply {P : Expr → Prop} {op : Operator} {span : Span} {left right : Expr}
    (hop : P (op.apply span left right)) (hleft : (Tree.expr left).Every P)
    (hright : (Tree.expr right).Every P) : (Tree.expr (op.apply span left right)).Every P := by
  refine .expr hop ?_
  cases op <;> simp [Operator.apply, Expr.children, hleft, hright]

structure ExpressionsFrom (T : Token → Prop) (n : Nat) : Prop where
  expression : Takes T (expression n) fun e => (Tree.expr e).From T
  operation : ∀ levels, Takes T (operation n levels) fun e => (Tree.expr e).From T
  operationTail : ∀ level tighter start left, (Tree.expr left).From T →
    Takes T (operationTail n level tighter start left) fun e => (Tree.expr e).From T
  unary : Takes T (unary n) fun e => (Tree.expr e).From T
  callTail : ∀ start callee, (Tree.expr callee).From T →
    Takes T (callTail n start callee) fun e => (Tree.expr e).From T
  arguments : ∀ count, Takes T (arguments n count) fun es =>
    ∀ e ∈ es, (Tree.expr e).From T
  primary : Takes T (primary n) fun e => (Tree.expr e).From T

private theorem expressionsFrom_zero : ExpressionsFrom T 0 := by
  constructor <;> intros <;> exact takes_fail _

private theorem forall_getD {P : Expr → Prop} {args : Option (List Expr)}
    (h : ∀ es ∈ args, ∀ e ∈ es, P e) : ∀ e ∈ args.getD [], P e := by
  cases args with
  | none => simp
  | some es => exact h es rfl

section
variable {n : Nat} (ih : ExpressionsFrom T n)
include ih

private theorem takes_expression :
    Takes T (expression (n + 1)) fun e => (Tree.expr e).From T := by
  rw [expression]
  refine takes_fromStart fun start => (ih.operation levels).bind fun target htarget => ?_
  refine takes_ifCheck (takes_fromSpan fun sign => takes_advance ?_) (.pure htarget)
  refine ih.expression.bind fun value hvalue => takes_spanFrom fun span => ?_
  split
  · rename_i ref
    exact .pure (.expr htarget.root (by simpa [Expr.children] using hvalue))
  · rename_i object name
    have hobject : (Tree.expr object).From T :=
      htarget.child (by simp [Tree.children, Expr.children])
    exact .pure (.expr htarget.root (by simp [Expr.children, hobject, hvalue]))
  · exact (takes_report _ sign).bind fun _ _ => .pure htarget

private theorem takes_operation (levels : List Level) :
    Takes T (operation (n + 1) levels) fun e => (Tree.expr e).From T := by
  cases levels with
  | nil =>
    rw [operation]
    exact ih.unary
  | cons level tighter =>
    rw [operation]
    refine takes_fromStart fun start => (ih.operation tighter).bind fun left hleft => ?_
    exact ih.operationTail level tighter start left hleft

private theorem takes_operationTail (level : Level) (tighter : List Level) (start : Nat)
    (left : Expr) (hleft : (Tree.expr left).From T) :
    Takes T (operationTail (n + 1) level tighter start left)
      fun e => (Tree.expr e).From T := by
  rw [operationTail]
  refine takes_peek fun next _ => ?_
  cases next.bind level with
  | none => exact .pure hleft
  | some op =>
    refine takes_advance ((ih.operation tighter).bind fun right hright => ?_)
    refine takes_spanFrom fun span => ih.operationTail level tighter start _ ?_
    exact every_apply (by cases op <;> trivial) hleft hright

private theorem takes_unary : Takes T (unary (n + 1)) fun e => (Tree.expr e).From T := by
  rw [unary]
  refine takes_fromStart fun start => takes_peek fun next _ => ?_
  cases next.bind unaryOp? with
  | none => exact ih.primary.bind fun callee hcallee => ih.callTail start callee hcallee
  | some op =>
    refine takes_advance (ih.unary.bind fun operand hoperand => takes_spanFrom fun span => ?_)
    exact .pure (.expr trivial (by simpa [Expr.children] using hoperand))

private theorem takes_callTail (start : Nat) (callee : Expr)
    (hcallee : (Tree.expr callee).From T) :
    Takes T (callTail (n + 1) start callee) fun e => (Tree.expr e).From T := by
  rw [callTail]
  refine takes_ifEat ?_ (takes_ifEat ?_ (.pure hcallee))
  · refine (takes_before (ih.arguments 0)).bind fun args hargs => ?_
    refine (takes_expect _ _).bind fun _ _ => takes_spanFrom fun span => ?_
    refine ih.callTail start _ (.expr trivial ?_)
    exact List.forall_mem_cons.mpr ⟨hcallee, forall_getD hargs⟩
  · refine (takes_expectName _).bind fun name hname => takes_spanFrom fun span => ?_
    exact ih.callTail start _ (.expr hname (by simpa [Expr.children] using hcallee))

private theorem takes_arguments (count : Nat) :
    Takes T (arguments (n + 1) count) fun es => ∀ e ∈ es, (Tree.expr e).From T := by
  rw [arguments]
  refine (takes_limit _ _).bind fun _ _ => ih.expression.bind fun first hfirst => ?_
  refine (takes_after (ih.arguments (count + 1))).bind fun others hothers => ?_
  exact .pure (List.forall_mem_cons.mpr ⟨hfirst, forall_getD hothers⟩)

private theorem takes_primary : Takes T (primary (n + 1)) fun e => (Tree.expr e).From T := by
  rw [primary]
  refine takes_fromStart fun start => takes_peek fun next hnext => ?_
  have hleaf (e : Span → Expr) (he : ∀ span, (e span).From T)
      (hchildren : ∀ span, ∀ child ∈ (e span).children, (Tree.expr child).From T) :
      Takes T (do return e (← spanFrom start)) fun e => (Tree.expr e).From T :=
    takes_spanFrom fun span => .pure (.expr (he span) (hchildren span))
  split
  · exact takes_advance (hleaf _ (fun _ => trivial) (by simp [Expr.children]))
  · exact takes_advance (hleaf _ (fun _ => hnext _ rfl) (by simp [Expr.children]))
  · refine takes_advance (ih.expression.bind fun inner hinner => ?_)
    refine (takes_expect _ _).bind fun _ _ => hleaf _ (fun _ => trivial) ?_
    simpa [Expr.children] using hinner
  · refine takes_advance ((takes_expect _ _).bind fun _ _ => ?_)
    refine (takes_expectName _).bind fun method hmethod => hleaf _ (fun _ => hmethod) ?_
    simp [Expr.children]
  · split
    · rename_i value hvalue
      obtain ⟨token, htoken, hliteral⟩ := Option.bind_eq_some_iff.mp hvalue
      refine takes_advance (hleaf _ (fun _ => .inr ⟨token, hnext token htoken, hliteral⟩) ?_)
      simp [Expr.children]
    · exact takes_fail _

end

private theorem expressionsFrom (T : Token → Prop) (n : Nat) : ExpressionsFrom T n := by
  induction n with
  | zero => exact expressionsFrom_zero
  | succ n ih =>
    exact ⟨takes_expression ih, takes_operation ih, takes_operationTail ih, takes_unary ih,
      takes_callTail ih, takes_arguments ih, takes_primary ih⟩

/-! ## Statements and declarations -/

private theorem takes_parameters (n count : Nat) : Takes T (parameters n count) fun _ => True := by
  induction n generalizing count with
  | zero => exact takes_fail _
  | succ n ih =>
    rw [parameters]
    refine (takes_limit _ _).bind fun _ _ => (takes_expectName _).bind fun first _ => ?_
    exact (takes_after (ih (count + 1))).bind fun others _ => .pure trivial

private theorem takes_exprStmt (n : Nat) : Takes T (exprStmt n) fun s => (Tree.stmt s).From T := by
  refine takes_fromStart fun start => ?_
  refine (expressionsFrom T n).expression.bind fun value hvalue => ?_
  refine (takes_expect _ _).bind fun _ _ => takes_spanFrom fun span => ?_
  exact .pure (.stmt (by simpa [Stmt.children] using hvalue))

private theorem takes_varDecl (n start : Nat) :
    Takes T (varDecl n start) fun s => (Tree.stmt s).From T := by
  refine (takes_expectName _).bind fun name _ => ?_
  refine (takes_after (expressionsFrom T n).expression).bind fun value hvalue => ?_
  refine (takes_expect _ _).bind fun _ _ => takes_spanFrom fun span => ?_
  exact .pure (.stmt (by simpa [Stmt.children] using hvalue))

private theorem takes_superclassRef :
    Takes T superclassRef fun above => (Tree.expr (.var above.span above.value)).From T := by
  refine takes_fromSpan fun span => (takes_expectName _).bind fun name hname => ?_
  exact .pure (.expr hname (by simp [Expr.children]))

private theorem takes_forInit (n : Nat) :
    Takes T (forInit n) fun init => ∀ s ∈ init, (Tree.stmt s).From T := by
  refine takes_fromStart fun start => ?_
  refine takes_ifEat (.pure fun _ hs => absurd hs (Option.not_mem_none _)) ?_
  exact takes_ifEat (takes_some (takes_varDecl n start)) (takes_some (takes_exprStmt n))

private theorem from_forRound {span : Span} {increment : Option Expr} {body : Stmt}
    (hincrement : ∀ e ∈ increment, (Tree.expr e).From T) (hbody : (Tree.stmt body).From T) :
    (Tree.stmt (forRound span increment body)).From T := by
  cases increment with
  | none => exact hbody
  | some e =>
    have hstmt : (Tree.stmt (.expr e.span e)).From T :=
      .stmt (by simpa [Stmt.children] using hincrement e rfl)
    exact .pair hbody hstmt

/-- A counting loop adds at most the constant `true`. -/
theorem from_forLoop {span : Span} {init : Option Stmt} {condition increment : Option Expr}
    {body : Stmt} (hinit : ∀ s ∈ init, (Tree.stmt s).From T)
    (hcondition : ∀ e ∈ condition, (Tree.expr e).From T)
    (hincrement : ∀ e ∈ increment, (Tree.expr e).From T) (hbody : (Tree.stmt body).From T) :
    (Tree.stmt (forLoop span init condition increment body)).From T := by
  have htest : (Tree.expr (condition.getD (.literal span (.bool true)))).From T := by
    cases condition with
    | none => exact .expr (.inl rfl) (by simp [Expr.children])
    | some e => exact hcondition e rfl
  have hround : (Tree.stmt (forRound span increment body)).From T :=
    from_forRound hincrement hbody
  have hloop : (Tree.stmt (.loop span (condition.getD (.literal span (.bool true)))
      (forRound span increment body))).From T :=
    .stmt (by simp [Stmt.children, htest, hround])
  cases init with
  | none => exact hloop
  | some s => exact .pair (hinit s rfl) hloop

private theorem forall_toList_append {P : Stmt → Prop} {first : Option Stmt} {others : List Stmt}
    (hfirst : ∀ s ∈ first, P s) (hothers : ∀ s ∈ others, P s) :
    ∀ s ∈ first.toList ++ others, P s := by
  rw [List.forall_mem_append]
  exact ⟨fun s hs => hfirst s (Option.mem_toList.mp hs), hothers⟩

structure StatementsFrom (T : Token → Prop) (n : Nat) : Prop where
  declaration : Takes T (declaration n) fun s => (Tree.stmt s).From T
  declarations : Takes T (declarations n) fun ss => ∀ s ∈ ss, (Tree.stmt s).From T
  block : Takes T (block n) fun ss => ∀ s ∈ ss, (Tree.stmt s).From T
  function : ∀ kind start, Takes T (function n kind start) fun decl => (Tree.method decl).From T
  methods : Takes T (methods n) fun decls => ∀ decl ∈ decls, (Tree.method decl).From T
  classDecl : ∀ start, Takes T (classDecl n start) fun s => (Tree.stmt s).From T
  statement : Takes T (statement n) fun s => (Tree.stmt s).From T

private theorem statementsFrom_zero : StatementsFrom T 0 where
  declaration := takes_fail _
  declarations := .pure (by simp)
  block := takes_fail _
  function _ _ := takes_fail _
  methods := takes_fail _
  classDecl _ := takes_fail _
  statement := takes_fail _

section
variable {n : Nat} (ih : StatementsFrom T n)
include ih

private theorem takes_declaration :
    Takes T (declaration (n + 1)) fun s => (Tree.stmt s).From T := by
  rw [declaration]
  refine takes_fromStart fun start => takes_ifEat (ih.classDecl start) ?_
  refine takes_ifEat ((ih.function _ start).map fun decl hdecl => ?_) ?_
  · exact .stmt fun child hchild => hdecl.child hchild
  · exact takes_ifEat (takes_varDecl n start) ih.statement

private theorem takes_declarations :
    Takes T (declarations (n + 1)) fun ss => ∀ s ∈ ss, (Tree.stmt s).From T := by
  rw [declarations]
  refine takes_ifCloses (.pure (by simp)) ?_
  refine (takes_recover ih.declaration).bind fun first hfirst => ?_
  exact ih.declarations.bind fun others hothers => .pure (forall_toList_append hfirst hothers)

private theorem takes_block : Takes T (block (n + 1)) fun ss => ∀ s ∈ ss, (Tree.stmt s).From T := by
  rw [block]
  refine ih.declarations.bind fun body hbody => ?_
  exact (takes_expect _ _).bind fun _ _ => .pure hbody

private theorem takes_function (kind : String) (start : Nat) :
    Takes T (function (n + 1) kind start) fun decl => (Tree.method decl).From T := by
  rw [function]
  refine (takes_expectName _).bind fun name _ => (takes_expect _ _).bind fun _ _ => ?_
  refine (takes_before (takes_parameters n 0)).bind fun params _ => ?_
  refine (takes_expect _ _).bind fun _ _ => (takes_expect _ _).bind fun _ _ => ?_
  refine ih.block.bind fun body hbody => ?_
  exact takes_spanFrom fun span => .pure (.method hbody)

private theorem takes_methods :
    Takes T (methods (n + 1)) fun decls => ∀ decl ∈ decls, (Tree.method decl).From T := by
  rw [methods]
  refine takes_ifCloses (.pure (by simp)) (takes_fromStart fun start => ?_)
  refine (ih.function _ start).bind fun first hfirst => ?_
  exact ih.methods.bind fun others hothers => .pure (List.forall_mem_cons.mpr ⟨hfirst, hothers⟩)

private theorem takes_classDecl (start : Nat) :
    Takes T (classDecl (n + 1) start) fun s => (Tree.stmt s).From T := by
  rw [classDecl]
  refine (takes_expectName _).bind fun name _ => ?_
  refine (takes_after takes_superclassRef).bind fun superclass hsuper => ?_
  refine (takes_expect _ _).bind fun _ _ => ih.methods.bind fun methods hmethods => ?_
  refine (takes_expect _ _).bind fun _ _ => takes_spanFrom fun span => .pure (.stmt ?_)
  simp only [Stmt.children, List.forall_mem_append, List.forall_mem_map]
  exact ⟨fun above habove => hsuper above (Option.mem_toList.mp habove), hmethods⟩

private theorem takes_statement : Takes T (statement (n + 1)) fun s => (Tree.stmt s).From T := by
  have hexpr := (expressionsFrom T n).expression
  rw [statement]
  refine takes_fromStart fun start => ?_
  refine takes_ifEat ?_ (takes_ifEat ?_ (takes_ifEat ?_ (takes_ifEat ?_
    (takes_ifEat ?_ (takes_ifEat ?_ (takes_exprStmt n))))))
  · refine (takes_expect _ _).bind fun _ _ => (takes_forInit n).bind fun init hinit => ?_
    refine (takes_before hexpr).bind fun condition hcondition => ?_
    refine (takes_expect _ _).bind fun _ _ => ?_
    refine (takes_before hexpr).bind fun increment hincrement => ?_
    refine (takes_expect _ _).bind fun _ _ => ih.statement.bind fun body hbody => ?_
    exact takes_spanFrom fun span => .pure (from_forLoop hinit hcondition hincrement hbody)
  · refine (takes_expect _ _).bind fun _ _ => hexpr.bind fun condition hcondition => ?_
    refine (takes_expect _ _).bind fun _ _ => ih.statement.bind fun yes hyes => ?_
    refine (takes_after ih.statement).bind fun no hno => takes_spanFrom fun span => ?_
    exact .pure (.stmt (by simpa [Stmt.children, hcondition, hyes] using hno))
  · refine hexpr.bind fun value hvalue => (takes_expect _ _).bind fun _ _ => ?_
    exact takes_spanFrom fun span => .pure (.stmt (by simpa [Stmt.children] using hvalue))
  · refine (takes_before hexpr).bind fun value hvalue => (takes_expect _ _).bind fun _ _ => ?_
    exact takes_spanFrom fun span => .pure (.stmt (by simpa [Stmt.children] using hvalue))
  · refine (takes_expect _ _).bind fun _ _ => hexpr.bind fun condition hcondition => ?_
    refine (takes_expect _ _).bind fun _ _ => ih.statement.bind fun body hbody => ?_
    exact takes_spanFrom fun span => .pure (.stmt (by simp [Stmt.children, hcondition, hbody]))
  · refine ih.block.bind fun body hbody => takes_spanFrom fun span => .pure (.stmt ?_)
    simpa [Stmt.children] using hbody

end

private theorem statementsFrom (T : Token → Prop) (n : Nat) : StatementsFrom T n := by
  induction n with
  | zero => exact statementsFrom_zero
  | succ n ih =>
    exact ⟨takes_declaration ih, takes_declarations ih, takes_block ih, takes_function ih,
      takes_methods ih, takes_classDecl ih, takes_statement ih⟩

theorem takes_program (n : Nat) : Takes T (program n) fun ss => ∀ s ∈ ss, (Tree.stmt s).From T := by
  induction n with
  | zero => exact .pure (by simp)
  | succ n ih =>
    rw [program]
    refine takes_ifAtEnd (.pure (by simp)) ?_
    refine (takes_recover (statementsFrom T n).declaration).bind fun first hfirst => ?_
    exact ih.bind fun others hothers => .pure (forall_toList_append hfirst hothers)

end Parser

end LoxLang
