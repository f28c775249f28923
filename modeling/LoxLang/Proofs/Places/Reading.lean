import LoxLang.Proofs.Grammar.Depth
import LoxLang.Proofs.Places.Basic
import LoxLang.Proofs.Scoping.Proper

namespace LoxLang

variable {source : String}

structure Reader.Placed (source : String) (r : Reader) : Prop where
  rest : ∀ l ∈ r.rest, l.span.PointsInto source
  last : ∀ l ∈ r.last, l.span.PointsInto source
  errors : ∀ e ∈ r.errors.toList, e.span.PointsInto source
  sourceEnd : Boundary source r.sourceEnd

namespace Reader.Placed

variable {r : Reader}

theorem nextSpan (h : r.Placed source) : r.nextSpan.PointsInto source := by
  unfold Reader.nextSpan
  split
  · rename_i l ls hrest
    exact h.rest l (hrest ▸ List.mem_cons_self)
  · exact Span.pointsInto_of_boundaries (Nat.le_refl _) h.sourceEnd h.sourceEnd

theorem spanFrom (h : r.Placed source) {start : Nat} (hstart : Boundary source start) :
    (r.spanFrom start).PointsInto source := by
  unfold Reader.spanFrom
  split
  · rename_i l hlast
    apply Span.pointsInto_of_boundaries
    · exact Nat.le_max_right _ _
    · exact hstart
    -- If nothing was read since `start`, then the last lexeme ends before it.
    · rcases Nat.le_total l.span.stop start with hle | hle
      · rwa [Nat.max_eq_right hle]
      · rw [Nat.max_eq_left hle]
        exact (h.last l hlast).stop
  · exact Span.pointsInto_of_boundaries (Nat.le_refl _) hstart hstart

theorem expected (h : r.Placed source) (what : String) :
    (r.expected what).span.PointsInto source := by
  have hspan : (r.expected what).span = r.nextSpan := by
    unfold Reader.expected Reader.nextSpan
    split <;> rfl
  rw [hspan]
  exact h.nextSpan

theorem advance (h : r.Placed source) : r.advance.Placed source := by
  unfold Reader.advance
  split
  · rename_i l ls hrest
    refine ⟨fun l' hl' => h.rest l' (hrest ▸ List.mem_cons_of_mem l hl'), ?_, h.errors, h.sourceEnd⟩
    rintro _ ⟨⟩
    exact h.rest l (hrest ▸ List.mem_cons_self)
  · exact h

theorem push (h : r.Placed source) {e : Located Error} (he : e.span.PointsInto source) :
    { r with errors := r.errors.push e }.Placed source := by
  refine ⟨h.rest, h.last, fun e' he' => ?_, h.sourceEnd⟩
  rw [Array.toList_push, List.mem_append, List.mem_singleton] at he'
  rcases he' with he' | rfl
  · exact h.errors e' he'
  · exact he

theorem skipFrom {last : Lexeme} {ls : List Lexeme} (hlast : last.span.PointsInto source)
    (hls : ∀ l ∈ ls, l.span.PointsInto source) :
    (Reader.skipFrom last ls).1.span.PointsInto source ∧
      ∀ l ∈ (Reader.skipFrom last ls).2, l.span.PointsInto source := by
  induction ls generalizing last with
  | nil => exact ⟨hlast, hls⟩
  | cons l ls ih =>
    rw [Reader.skipFrom]
    split
    · exact ⟨hlast, hls⟩
    · exact ih (hls l List.mem_cons_self) fun l' hl' => hls l' (List.mem_cons_of_mem l hl')

theorem synchronize (h : r.Placed source) : r.synchronize.Placed source := by
  unfold Reader.synchronize
  split
  · exact h
  · rename_i l ls hrest
    have hskip := skipFrom (h.rest l (hrest ▸ List.mem_cons_self))
      fun l' hl' => h.rest l' (hrest ▸ List.mem_cons_of_mem l hl')
    refine ⟨hskip.2, ?_, h.errors, h.sourceEnd⟩
    rintro _ ⟨⟩
    exact hskip.1

end Reader.Placed

private theorem Reader.placed_opening (source : String) :
    (Reader.opening source).Placed source where
  rest _ hl := Lexeme.pointsInto (mem_of_mem_lexemes hl)
  last _ hl := absurd hl (Option.not_mem_none _)
  errors e he :=
    pointsInto_itemsFrom (fun _ hl => Lexeme.pointsInto hl)
      (fun _ h => absurd h (Option.not_mem_none _)) e he
  sourceEnd := boundary_end source

namespace Parser

variable {α : Type}

/-- A step keeps a reader placed, and its result has `Q`. If it fails, then at a place in the
source. -/
abbrev Places (source : String) (p : Parser α) (Q : α → Prop) : Prop :=
  Keeps (Reader.Placed source) (fun e => e.span.PointsInto source) p Q

section
variable {p q : Parser α} {Q : α → Prop}

private theorem places_some (hp : Places source p Q) :
    Places source (some <$> p) fun o => ∀ a ∈ o, Q a := by
  refine hp.map fun a ha => ?_
  rintro _ ⟨⟩
  exact ha

private theorem places_fail (what : String) : Places source (failExpecting what) Q :=
  fun _ hr => ⟨hr, hr.expected what⟩

private theorem places_fromStart {f : Nat → Parser α}
    (h : ∀ start, Boundary source start → Places source (f start) Q) :
    Places source (nextStart >>= f) Q :=
  fun r hr => h r.nextSpan.start hr.nextSpan.start r hr

private theorem places_fromSpan {f : Span → Parser α}
    (h : ∀ span, span.PointsInto source → Places source (f span) Q) :
    Places source (nextSpan >>= f) Q :=
  fun r hr => h r.nextSpan hr.nextSpan r hr

private theorem places_spanFrom {f : Span → Parser α} {start : Nat} (hstart : Boundary source start)
    (h : ∀ span, span.PointsInto source → Places source (f span) Q) :
    Places source (spanFrom start >>= f) Q :=
  fun r hr => h (r.spanFrom start) (hr.spanFrom hstart) r hr

private theorem places_peek {f : Option Token → Parser α} (h : ∀ next, Places source (f next) Q) :
    Places source (peek >>= f) Q :=
  fun r hr => h (r.rest.head?.map (·.token)) r hr

private theorem places_advance {f : Unit → Parser α} (h : Places source (f ()) Q) :
    Places source (advance >>= f) Q :=
  fun r hr => h r.advance hr.advance

private theorem places_ifSeen {look : Parser Bool} (hlook : ∀ r, ∃ seen, look r = .ok seen r)
    (hp : Places source p Q) (hq : Places source q Q) :
    Places source (do if ← look then p else q) Q := by
  intro r hr
  obtain ⟨seen, hseen⟩ := hlook r
  rw [bind_apply, hseen]
  cases seen with
  | true => exact hp r hr
  | false => exact hq r hr

private theorem places_ifCheck {token : Token} (hp : Places source p Q) (hq : Places source q Q) :
    Places source (do if ← check token then p else q) Q :=
  places_ifSeen (fun r => ⟨_, check_apply token r⟩) hp hq

private theorem places_ifEat {token : Token} (hp : Places source p Q) (hq : Places source q Q) :
    Places source (do if ← eat token then p else q) Q := by
  intro r hr
  rw [bind_apply, eat_apply]
  by_cases h : r.tokens.head? = some token
  · rw [if_pos h]
    exact hp r.advance hr.advance
  · rw [if_neg h]
    exact hq r hr

private theorem places_ifCloses (hp : Places source p Q) (hq : Places source q Q) :
    Places source (do if ← closes then p else q) Q :=
  places_ifSeen (fun r => ⟨_, closes_apply r⟩) hp hq

private theorem places_ifAtEnd (hp : Places source p Q) (hq : Places source q Q) :
    Places source (do if ← atEnd then p else q) Q :=
  places_ifSeen (fun r => ⟨_, atEnd_apply r⟩) hp hq

private theorem places_expect (token : Token) (what : String) :
    Places source (expect token what) fun _ => True :=
  places_ifEat (.pure trivial) (places_fail what)

private theorem places_expectName (what : String) :
    Places source (expectName what) fun _ => True := by
  refine places_peek fun next => ?_
  split
  · exact places_advance (.pure trivial)
  · exact places_fail what

private theorem places_after {token : Token} (hp : Places source p Q) :
    Places source (after token p) fun o => ∀ a ∈ o, Q a :=
  places_ifEat (places_some hp) (.pure fun _ ha => absurd ha (Option.not_mem_none _))

private theorem places_before {token : Token} (hp : Places source p Q) :
    Places source (before token p) fun o => ∀ a ∈ o, Q a :=
  places_ifCheck (.pure fun _ ha => absurd ha (Option.not_mem_none _)) (places_some hp)

end

private theorem places_report (error : Error) {span : Span} (h : span.PointsInto source) :
    Places source (report error span) fun _ => True :=
  fun _ hr => ⟨hr.push h, trivial⟩

private theorem places_limit (count : Nat) (error : Error) :
    Places source (limit count error) fun _ => True := by
  unfold limit
  split
  · exact .pure trivial
  · exact places_fromSpan fun span hspan => places_report error hspan

/-- A failure that is recovered from is on record, at its place. -/
theorem places_recover {p : Parser Stmt} {Q : Stmt → Prop} (hp : Places source p Q) :
    Places source (recover p) fun o => ∀ s ∈ o, Q s := by
  intro r hr
  have hpr := hp r hr
  unfold recover
  cases hresult : p r with
  | ok s r' =>
    rw [hresult] at hpr
    refine ⟨hpr.1, ?_⟩
    rintro _ ⟨⟩
    exact hpr.2
  | error e r' =>
    rw [hresult] at hpr
    exact ⟨(hpr.1.push hpr.2).synchronize, fun _ hs => absurd hs (Option.not_mem_none _)⟩

/-! ## Expressions -/

private theorem Operator.within_apply {P : Span → Prop} {op : Operator} {span : Span}
    {left right : Expr} (hspan : P span) (hleft : left.Within P) (hright : right.Within P) :
    (op.apply span left right).Within P := by
  cases op <;> exact ⟨hspan, hleft, hright⟩

private theorem withinArguments_getD {P : Span → Prop} {args : Option (List Expr)}
    (h : ∀ es ∈ args, withinArguments P es) : withinArguments P (args.getD []) := by
  cases args with
  | none => trivial
  | some es => exact h es rfl

structure ExpressionsPlaced (source : String) (n : Nat) : Prop where
  expression : Places source (expression n) (·.Within (Span.PointsInto source))
  operation : ∀ levels, Places source (operation n levels) (·.Within (Span.PointsInto source))
  operationTail : ∀ level tighter start left, Boundary source start →
    left.Within (Span.PointsInto source) →
    Places source (operationTail n level tighter start left) (·.Within (Span.PointsInto source))
  unary : Places source (unary n) (·.Within (Span.PointsInto source))
  callTail : ∀ start callee, Boundary source start → callee.Within (Span.PointsInto source) →
    Places source (callTail n start callee) (·.Within (Span.PointsInto source))
  arguments : ∀ count, Places source (arguments n count) (withinArguments (Span.PointsInto source))
  primary : Places source (primary n) (·.Within (Span.PointsInto source))

private theorem expressionsPlaced_zero : ExpressionsPlaced source 0 := by
  constructor <;> intros <;> exact places_fail _

section
variable {n : Nat} (ih : ExpressionsPlaced source n)
include ih

private theorem places_expression :
    Places source (expression (n + 1)) (·.Within (Span.PointsInto source)) := by
  rw [expression]
  refine places_fromStart fun start hstart => ?_
  refine (ih.operation levels).bind fun target htarget => ?_
  refine places_ifCheck ?_ (.pure htarget)
  refine places_fromSpan fun sign hsign => places_advance ?_
  refine ih.expression.bind fun value hvalue => ?_
  refine places_spanFrom hstart fun span hspan => ?_
  split
  · exact .pure ⟨hspan, hvalue⟩
  · exact .pure ⟨hspan, htarget.2, hvalue⟩
  · exact (places_report _ hsign).bind fun _ _ => .pure htarget

private theorem places_operation (levels : List Level) :
    Places source (operation (n + 1) levels) (·.Within (Span.PointsInto source)) := by
  cases levels with
  | nil =>
    rw [operation]
    exact ih.unary
  | cons level tighter =>
    rw [operation]
    refine places_fromStart fun start hstart => ?_
    refine (ih.operation tighter).bind fun left hleft => ?_
    exact ih.operationTail level tighter start left hstart hleft

private theorem places_operationTail (level : Level) (tighter : List Level) (start : Nat)
    (left : Expr) (hstart : Boundary source start) (hleft : left.Within (Span.PointsInto source)) :
    Places source (operationTail (n + 1) level tighter start left)
      (·.Within (Span.PointsInto source)) := by
  rw [operationTail]
  refine places_peek fun next => ?_
  cases next.bind level with
  | none => exact .pure hleft
  | some op =>
    refine places_advance ?_
    refine (ih.operation tighter).bind fun right hright => ?_
    refine places_spanFrom hstart fun span hspan => ?_
    exact ih.operationTail level tighter start _ hstart (Operator.within_apply hspan hleft hright)

private theorem places_unary :
    Places source (unary (n + 1)) (·.Within (Span.PointsInto source)) := by
  rw [unary]
  refine places_fromStart fun start hstart => places_peek fun next => ?_
  cases next.bind unaryOp? with
  | none => exact ih.primary.bind fun callee hcallee => ih.callTail start callee hstart hcallee
  | some op =>
    refine places_advance (ih.unary.bind fun operand hoperand => ?_)
    exact places_spanFrom hstart fun span hspan => .pure ⟨hspan, hoperand⟩

private theorem places_callTail (start : Nat) (callee : Expr) (hstart : Boundary source start)
    (hcallee : callee.Within (Span.PointsInto source)) :
    Places source (callTail (n + 1) start callee) (·.Within (Span.PointsInto source)) := by
  rw [callTail]
  refine places_ifEat ?_ (places_ifEat ?_ (.pure hcallee))
  · refine (places_before (ih.arguments 0)).bind fun args hargs => ?_
    refine (places_expect _ _).bind fun _ _ => ?_
    refine places_spanFrom hstart fun span hspan => ?_
    exact ih.callTail start _ hstart ⟨hspan, hcallee, withinArguments_getD hargs⟩
  · refine (places_expectName _).bind fun name _ => ?_
    refine places_spanFrom hstart fun span hspan => ?_
    exact ih.callTail start _ hstart ⟨hspan, hcallee⟩

private theorem places_arguments (count : Nat) :
    Places source (arguments (n + 1) count) (withinArguments (Span.PointsInto source)) := by
  rw [arguments]
  refine (places_limit _ _).bind fun _ _ => ?_
  refine ih.expression.bind fun first hfirst => ?_
  refine (places_after (ih.arguments (count + 1))).bind fun others hothers => ?_
  exact .pure ⟨hfirst, withinArguments_getD hothers⟩

private theorem places_primary :
    Places source (primary (n + 1)) (·.Within (Span.PointsInto source)) := by
  rw [primary]
  refine places_fromStart fun start hstart => places_peek fun next => ?_
  have hleaf (e : Span → Expr) (he : ∀ span, span.PointsInto source →
      (e span).Within (Span.PointsInto source)) :
      Places source (do return e (← spanFrom start)) (·.Within (Span.PointsInto source)) :=
    places_spanFrom hstart fun span hspan => .pure (he span hspan)
  split
  · exact places_advance (hleaf _ fun _ h => h)
  · exact places_advance (hleaf _ fun _ h => h)
  · refine places_advance (ih.expression.bind fun inner hinner => ?_)
    exact (places_expect _ _).bind fun _ _ => hleaf _ fun _ h => ⟨h, hinner⟩
  · refine places_advance ((places_expect _ _).bind fun _ _ => ?_)
    exact (places_expectName _).bind fun method _ => hleaf _ fun _ h => h
  · split
    · exact places_advance (hleaf _ fun _ h => h)
    · exact places_fail _

end

private theorem expressionsPlaced (source : String) (n : Nat) : ExpressionsPlaced source n := by
  induction n with
  | zero => exact expressionsPlaced_zero
  | succ n ih =>
    exact ⟨places_expression ih, places_operation ih, places_operationTail ih, places_unary ih,
      places_callTail ih, places_arguments ih, places_primary ih⟩

/-! ## Statements and declarations -/

private theorem places_parameters (n count : Nat) :
    Places source (parameters n count) fun _ => True := by
  induction n generalizing count with
  | zero => exact places_fail _
  | succ n ih =>
    rw [parameters]
    refine (places_limit _ _).bind fun _ _ => (places_expectName _).bind fun first _ => ?_
    exact (places_after (ih (count + 1))).bind fun others _ => .pure trivial

private theorem places_exprStmt (n : Nat) :
    Places source (exprStmt n) (·.Within (Span.PointsInto source)) := by
  refine places_fromStart fun start hstart => ?_
  refine (expressionsPlaced source n).expression.bind fun value hvalue => ?_
  refine (places_expect _ _).bind fun _ _ => ?_
  exact places_spanFrom hstart fun span hspan => .pure ⟨hspan, hvalue⟩

private theorem places_varDecl (n : Nat) {start : Nat} (hstart : Boundary source start) :
    Places source (varDecl n start) (·.Within (Span.PointsInto source)) := by
  refine (places_expectName _).bind fun name _ => ?_
  refine (places_after (expressionsPlaced source n).expression).bind fun value hvalue => ?_
  refine (places_expect _ _).bind fun _ _ => ?_
  exact places_spanFrom hstart fun span hspan => .pure ⟨hspan, hvalue⟩

private theorem places_superclassRef :
    Places source superclassRef fun above => above.span.PointsInto source := by
  refine places_fromSpan fun span hspan => ?_
  exact (places_expectName _).bind fun name _ => .pure hspan

private theorem places_forInit (n : Nat) :
    Places source (forInit n) fun init => ∀ s ∈ init, s.Within (Span.PointsInto source) := by
  refine places_fromStart fun start hstart => ?_
  refine places_ifEat (.pure fun _ hs => absurd hs (Option.not_mem_none _)) ?_
  exact places_ifEat (places_some (places_varDecl n hstart)) (places_some (places_exprStmt n))

private theorem within_forRound {P : Span → Prop} {span : Span} {increment : Option Expr}
    {body : Stmt}
    (hspan : P span) (hincrement : ∀ e ∈ increment, e.Within P) (hbody : body.Within P) :
    (forRound span increment body).Within P := by
  cases increment with
  | none => exact hbody
  | some e =>
    have he := hincrement e rfl
    exact ⟨hspan, hbody, ⟨he.span, he⟩, trivial⟩

/-- The statements that a counting loop stands for have no places of their own. -/
theorem within_forLoop {P : Span → Prop} {span : Span} {init : Option Stmt}
    {condition increment : Option Expr} {body : Stmt} (hspan : P span)
    (hinit : ∀ s ∈ init, s.Within P) (hcondition : ∀ e ∈ condition, e.Within P)
    (hincrement : ∀ e ∈ increment, e.Within P) (hbody : body.Within P) :
    (forLoop span init condition increment body).Within P := by
  have htest : (condition.getD (.literal span (.bool true))).Within P := by
    cases condition with
    | none => exact hspan
    | some e => exact hcondition e rfl
  have hround := within_forRound hspan hincrement hbody
  cases init with
  | none => exact ⟨hspan, htest, hround⟩
  | some s => exact ⟨hspan, hinit s rfl, ⟨hspan, htest, hround⟩, trivial⟩

private theorem withinBody_toList_append {P : Span → Prop} {first : Option Stmt}
    {others : List Stmt} (hfirst : ∀ s ∈ first, s.Within P) (hothers : withinBody P others) :
    withinBody P (first.toList ++ others) := by
  cases first with
  | none => exact hothers
  | some s => exact ⟨hfirst s rfl, hothers⟩

private theorem withinElse_of_forall {P : Span → Prop} {no : Option Stmt}
    (h : ∀ s ∈ no, s.Within P) :
    withinElse P no := by
  cases no with
  | none => trivial
  | some s => exact h s rfl

structure StatementsPlaced (source : String) (n : Nat) : Prop where
  declaration : Places source (declaration n) (·.Within (Span.PointsInto source))
  declarations : Places source (declarations n) (withinBody (Span.PointsInto source))
  block : Places source (block n) (withinBody (Span.PointsInto source))
  function : ∀ kind start, Boundary source start →
    Places source (function n kind start) (·.Within (Span.PointsInto source))
  methods : Places source (methods n) (withinMethods (Span.PointsInto source))
  classDecl : ∀ start, Boundary source start →
    Places source (classDecl n start) (·.Within (Span.PointsInto source))
  statement : Places source (statement n) (·.Within (Span.PointsInto source))

private theorem statementsPlaced_zero : StatementsPlaced source 0 where
  declaration := places_fail _
  declarations := .pure trivial
  block := places_fail _
  function _ _ _ := places_fail _
  methods := places_fail _
  classDecl _ _ := places_fail _
  statement := places_fail _

section
variable {n : Nat} (ih : StatementsPlaced source n)
include ih

private theorem places_declaration :
    Places source (declaration (n + 1)) (·.Within (Span.PointsInto source)) := by
  rw [declaration]
  refine places_fromStart fun start hstart => ?_
  refine places_ifEat (ih.classDecl start hstart) ?_
  refine places_ifEat ((ih.function _ start hstart).map fun decl hdecl => hdecl) ?_
  exact places_ifEat (places_varDecl n hstart) ih.statement

private theorem places_declarations :
    Places source (declarations (n + 1)) (withinBody (Span.PointsInto source)) := by
  rw [declarations]
  refine places_ifCloses (.pure trivial) ?_
  refine (places_recover ih.declaration).bind fun first hfirst => ?_
  exact ih.declarations.bind fun others hothers => .pure (withinBody_toList_append hfirst hothers)

private theorem places_block :
    Places source (block (n + 1)) (withinBody (Span.PointsInto source)) := by
  rw [block]
  refine ih.declarations.bind fun body hbody => ?_
  exact (places_expect _ _).bind fun _ _ => .pure hbody

private theorem places_function (kind : String) (start : Nat) (hstart : Boundary source start) :
    Places source (function (n + 1) kind start) (·.Within (Span.PointsInto source)) := by
  rw [function]
  refine (places_expectName _).bind fun name _ => (places_expect _ _).bind fun _ _ => ?_
  refine (places_before (places_parameters n 0)).bind fun params _ => ?_
  refine (places_expect _ _).bind fun _ _ => (places_expect _ _).bind fun _ _ => ?_
  refine ih.block.bind fun body hbody => ?_
  exact places_spanFrom hstart fun span hspan => .pure ⟨hspan, hbody⟩

private theorem places_methods :
    Places source (methods (n + 1)) (withinMethods (Span.PointsInto source)) := by
  rw [methods]
  refine places_ifCloses (.pure trivial) ?_
  refine places_fromStart fun start hstart => ?_
  refine (ih.function _ start hstart).bind fun first hfirst => ?_
  exact ih.methods.bind fun others hothers => .pure ⟨hfirst, hothers⟩

private theorem places_classDecl (start : Nat) (hstart : Boundary source start) :
    Places source (classDecl (n + 1) start) (·.Within (Span.PointsInto source)) := by
  rw [classDecl]
  refine (places_expectName _).bind fun name _ => ?_
  refine (places_after places_superclassRef).bind fun superclass hsuper => ?_
  refine (places_expect _ _).bind fun _ _ => ?_
  refine ih.methods.bind fun methods hmethods => ?_
  refine (places_expect _ _).bind fun _ _ => ?_
  exact places_spanFrom hstart fun span hspan => .pure ⟨hspan, hsuper, hmethods⟩

private theorem places_statement :
    Places source (statement (n + 1)) (·.Within (Span.PointsInto source)) := by
  have hexpr := (expressionsPlaced source n).expression
  rw [statement]
  refine places_fromStart fun start hstart => ?_
  refine places_ifEat ?_ (places_ifEat ?_ (places_ifEat ?_ (places_ifEat ?_
    (places_ifEat ?_ (places_ifEat ?_ (places_exprStmt n))))))
  · refine (places_expect _ _).bind fun _ _ => (places_forInit n).bind fun init hinit => ?_
    refine (places_before hexpr).bind fun condition hcondition => ?_
    refine (places_expect _ _).bind fun _ _ => ?_
    refine (places_before hexpr).bind fun increment hincrement => ?_
    refine (places_expect _ _).bind fun _ _ => ih.statement.bind fun body hbody => ?_
    exact places_spanFrom hstart fun span hspan =>
      .pure (within_forLoop hspan hinit hcondition hincrement hbody)
  · refine (places_expect _ _).bind fun _ _ => hexpr.bind fun condition hcondition => ?_
    refine (places_expect _ _).bind fun _ _ => ih.statement.bind fun yes hyes => ?_
    refine (places_after ih.statement).bind fun no hno => ?_
    exact places_spanFrom hstart fun span hspan =>
      .pure ⟨hspan, hcondition, hyes, withinElse_of_forall hno⟩
  · refine hexpr.bind fun value hvalue => (places_expect _ _).bind fun _ _ => ?_
    exact places_spanFrom hstart fun span hspan => .pure ⟨hspan, hvalue⟩
  · refine (places_before hexpr).bind fun value hvalue => (places_expect _ _).bind fun _ _ => ?_
    exact places_spanFrom hstart fun span hspan => .pure ⟨hspan, hvalue⟩
  · refine (places_expect _ _).bind fun _ _ => hexpr.bind fun condition hcondition => ?_
    refine (places_expect _ _).bind fun _ _ => ih.statement.bind fun body hbody => ?_
    exact places_spanFrom hstart fun span hspan => .pure ⟨hspan, hcondition, hbody⟩
  · refine ih.block.bind fun body hbody => ?_
    exact places_spanFrom hstart fun span hspan => .pure ⟨hspan, hbody⟩

end

private theorem statementsPlaced (source : String) (n : Nat) : StatementsPlaced source n := by
  induction n with
  | zero => exact statementsPlaced_zero
  | succ n ih =>
    exact ⟨places_declaration ih, places_declarations ih, places_block ih, places_function ih,
      places_methods ih, places_classDecl ih, places_statement ih⟩

private theorem places_program (n : Nat) :
    Places source (program n) (withinBody (Span.PointsInto source)) := by
  induction n with
  | zero => exact .pure trivial
  | succ n ih =>
    rw [program]
    refine places_ifAtEnd (.pure trivial) ?_
    refine (places_recover (statementsPlaced source n).declaration).bind fun first hfirst => ?_
    exact ih.bind fun others hothers => .pure (withinBody_toList_append hfirst hothers)

end Parser

/-- All errors and all nodes that are read from a source point into it. -/
theorem parse_pointsInto (source : String) :
    (∀ e ∈ (parse source).errors, e.span.PointsInto source) ∧
      withinBody (Span.PointsInto source) (parse source).program := by
  obtain ⟨r, hread, herrors⟩ := program_opening (Nat.le_refl _)
  have h := Parser.places_program (Parser.depth (Reader.opening source).rest) _
    (Reader.placed_opening source)
  rw [hread] at h
  rw [← herrors]
  exact ⟨h.1.errors, h.2⟩

end LoxLang
