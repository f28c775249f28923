import LoxLang.Proofs.Cursor.Trees

namespace LoxLang.Parser

variable {α β : Type} {input : Input} {cursor : Nat}

/-- From `cursor` the step moves forwards. Its result and the cursor after it are related by `Q`;
its failure is raised at the cursor after it. -/
def Steps (input : Input) (cursor : Nat) (p : Parser α) (Q : α → Nat → Prop) : Prop :=
  ∀ r, r.Stands input cursor → match p r with
    | .ok a r' => ∃ cursor', cursor ≤ cursor' ∧ r'.Stands input cursor' ∧ Q a cursor'
    | .error e r' => ∃ cursor', cursor ≤ cursor' ∧ r'.Stands input cursor' ∧
        input.Raises cursor' e

namespace Steps

variable {p : Parser α} {Q R : α → Nat → Prop}

theorem mono (h : Steps input cursor p Q) (hQR : ∀ a cursor', Q a cursor' → R a cursor') :
    Steps input cursor p R := by
  intro r hr
  have hends := h r hr
  cases hp : p r with
  | ok a r' =>
    rw [hp] at hends
    obtain ⟨cursor', hle, hr', hQ⟩ := hends
    exact ⟨cursor', hle, hr', hQR _ _ hQ⟩
  | error e r' =>
    rw [hp] at hends
    exact hends

theorem pure {a : α} (h : Q a cursor) : Steps input cursor (Pure.pure a) Q :=
  fun _ hr => ⟨cursor, Nat.le_refl _, hr, h⟩

theorem bind {f : α → Parser β} {R : β → Nat → Prop} (hp : Steps input cursor p Q)
    (hf : ∀ a cursor', cursor ≤ cursor' → Q a cursor' → Steps input cursor' (f a) R) :
    Steps input cursor (p >>= f) R := by
  intro r hr
  have hends := hp r hr
  rw [bind_apply]
  cases hresult : p r with
  | error e r' =>
    rw [hresult] at hends
    exact hends
  | ok a r' =>
    rw [hresult] at hends
    obtain ⟨cursor', hle, hr', hQ⟩ := hends
    have hends' := hf a cursor' hle hQ r' hr'
    cases hresult' : f a r' with
    | error e r'' =>
      simp only [hresult'] at hends' ⊢
      obtain ⟨cursor'', hle', hr'', hraises⟩ := hends'
      exact ⟨cursor'', Nat.le_trans hle hle', hr'', hraises⟩
    | ok b r'' =>
      simp only [hresult'] at hends' ⊢
      obtain ⟨cursor'', hle', hr'', hR⟩ := hends'
      exact ⟨cursor'', Nat.le_trans hle hle', hr'', hR⟩

theorem map {f : α → β} {R : β → Nat → Prop} (hp : Steps input cursor p Q)
    (hf : ∀ a cursor', Q a cursor' → R (f a) cursor') : Steps input cursor (f <$> p) R := by
  have h : Steps input cursor (p >>= fun a => Pure.pure (f a)) R :=
    hp.bind fun a cursor' _ hQ => pure (hf a cursor' hQ)
  exact h

theorem some (hp : Steps input cursor p Q) :
    Steps input cursor (Option.some <$> p) fun o cursor' => ∀ a ∈ o, Q a cursor' := by
  refine hp.map fun a cursor' hQ => ?_
  rintro _ ⟨⟩
  exact hQ

end Steps

section
variable {p q : Parser α} {Q : α → Nat → Prop}

private theorem steps_fail (what : String) : Steps input cursor (failExpecting what) Q :=
  fun _ hr => ⟨cursor, Nat.le_refl _, hr, hr.raises_expected what⟩

private theorem steps_fromStart {f : Nat → Parser α}
    (h : Steps input cursor (f (input.spanAt cursor).start) Q) :
    Steps input cursor (nextStart >>= f) Q := by
  intro r hr
  have hends := h r hr
  rw [← hr.nextSpan] at hends
  exact hends

private theorem steps_fromSpan {f : Span → Parser α}
    (h : Steps input cursor (f (input.spanAt cursor)) Q) :
    Steps input cursor (nextSpan >>= f) Q := by
  intro r hr
  have hends := h r hr
  rw [← hr.nextSpan] at hends
  exact hends

/-- What was read since the lexeme at `i` is covered by the span from its start. -/
theorem steps_spanFrom {f : Span → Parser α} {i : Nat} (hi : i < cursor)
    (h : ∀ span, input.Covers i cursor span → Steps input cursor (f span) Q) :
    Steps input cursor (spanFrom (input.spanAt i).start >>= f) Q :=
  fun r hr => h _ (hr.covers hi) r hr

private theorem steps_peek {f : Option Token → Parser α} (hnone : Steps input cursor (f none) Q)
    (hsome : ∀ l, input.lexemes[cursor]? = some l → Steps input cursor (f (some l.token)) Q) :
    Steps input cursor (peek >>= f) Q := by
  intro r hr
  rw [bind_apply, peek_apply, ← r.head?_tokens, ← hr.getElem?]
  cases hl : input.lexemes[cursor]? with
  | none => exact hnone r hr
  | some l => exact hsome l hl r hr

private theorem steps_advance {f : Unit → Parser α} {l : Lexeme}
    (hl : input.lexemes[cursor]? = some l)
    (h : Steps input (cursor + 1) (f ()) Q) : Steps input cursor (advance >>= f) Q := by
  intro r hr
  have hends := h r.advance (hr.advance (List.getElem?_eq_some_iff.mp hl).1)
  change match f () r.advance with
    | .ok a r' => ∃ cursor', cursor ≤ cursor' ∧ r'.Stands input cursor' ∧ Q a cursor'
    | .error e r' => ∃ cursor', cursor ≤ cursor' ∧ r'.Stands input cursor' ∧
        input.Raises cursor' e
  cases hf : f () r.advance with
  | ok a r' =>
    simp only [hf] at hends ⊢
    obtain ⟨cursor', hle, hends⟩ := hends
    exact ⟨cursor', Nat.le_of_succ_le hle, hends⟩
  | error e r' =>
    simp only [hf] at hends ⊢
    obtain ⟨cursor', hle, hends⟩ := hends
    exact ⟨cursor', Nat.le_of_succ_le hle, hends⟩

private theorem steps_ifCheck {token : Token}
    (hp : ∀ l, input.lexemes[cursor]? = some l → l.token = token → Steps input cursor p Q)
    (hq : Steps input cursor q Q) : Steps input cursor (do if ← check token then p else q) Q := by
  intro r hr
  rw [bind_apply, check_apply]
  by_cases h : r.tokens.head? = some token
  · obtain ⟨l, hl, htoken⟩ := hr.next h
    rw [decide_eq_true h]
    exact hp l hl htoken r hr
  · rw [decide_eq_false h]
    exact hq r hr

private theorem steps_ifEat {token : Token} (hp : Steps input (cursor + 1) p Q)
    (hq : Steps input cursor q Q) : Steps input cursor (do if ← eat token then p else q) Q := by
  intro r hr
  rw [bind_apply, eat_apply]
  by_cases h : r.tokens.head? = some token
  · obtain ⟨l, hl, -⟩ := hr.next h
    rw [if_pos h]
    exact steps_advance (f := fun _ => p) hl hp r hr
  · rw [if_neg h]
    exact hq r hr

private theorem steps_ifCloses (hp : Steps input cursor p Q)
    (hq : cursor < input.lexemes.length → Steps input cursor q Q) :
    Steps input cursor (do if ← closes then p else q) Q := by
  intro r hr
  rw [bind_apply, closes_apply]
  cases hc : r.tokens.head?.all (· = .symbol .rightBrace) with
  | true => exact hp r hr
  | false =>
    refine hq (Nat.lt_of_le_of_ne hr.inside fun hend => ?_) r hr
    rw [Reader.tokens, hr.rest_eq_nil_iff.mpr hend] at hc
    exact absurd hc (by simp)

private theorem steps_ifAtEnd (hp : cursor = input.lexemes.length → Steps input cursor p Q)
    (hq : cursor < input.lexemes.length → Steps input cursor q Q) :
    Steps input cursor (do if ← atEnd then p else q) Q := by
  intro r hr
  rw [bind_apply, atEnd_apply]
  cases hc : r.tokens.isEmpty with
  | true =>
    refine hp (hr.rest_eq_nil_iff.mp ?_) r hr
    simpa [Reader.tokens] using hc
  | false =>
    refine hq (Nat.lt_of_le_of_ne hr.inside fun hend => ?_) r hr
    rw [Reader.tokens, hr.rest_eq_nil_iff.mpr hend] at hc
    exact absurd hc (by simp)

private theorem steps_expect (token : Token) (what : String) :
    Steps input cursor (expect token what) fun _ cursor' => cursor < cursor' :=
  steps_ifEat (.pure (Nat.lt_succ_self _)) (steps_fail what)

private theorem steps_expectName (what : String) :
    Steps input cursor (expectName what) fun _ cursor' => cursor' = cursor + 1 ∧
      cursor < input.lexemes.length := by
  refine steps_peek (steps_fail what) fun l hl => ?_
  split
  · exact steps_advance hl (.pure ⟨rfl, (List.getElem?_eq_some_iff.mp hl).1⟩)
  · exact steps_fail what

private theorem steps_after {token : Token} (hp : Steps input (cursor + 1) p Q) :
    Steps input cursor (after token p) fun o cursor' => ∀ a ∈ o, Q a cursor' :=
  steps_ifEat hp.some (.pure fun _ ha => absurd ha (Option.not_mem_none _))

private theorem steps_before {token : Token} (hp : Steps input cursor p Q) :
    Steps input cursor (before token p) fun o cursor' => ∀ a ∈ o, Q a cursor' :=
  steps_ifCheck (fun _ _ _ => .pure fun _ ha => absurd ha (Option.not_mem_none _)) hp.some

end

private theorem steps_report {error : Error} {span : Span} {i : Nat}
    (h : input.Raises i ⟨error, span⟩) :
    Steps input cursor (report error span) fun _ cursor' => cursor' = cursor :=
  fun _ hr => ⟨cursor, Nat.le_refl _, hr.push h, rfl⟩

private theorem steps_limit {count : Nat} {error : Error}
    (h : cursor ≤ input.lexemes.length → input.Raises cursor ⟨error, input.spanAt cursor⟩) :
    Steps input cursor (limit count error) fun _ cursor' => cursor' = cursor := by
  unfold limit
  split
  · exact .pure rfl
  · exact steps_fromSpan fun r hr => steps_report (h hr.inside) r hr

/-- Before the end, reading with recovery moves on even if it fails. -/
theorem steps_recover {p : Parser Stmt} {Q : Stmt → Nat → Prop}
    (hp : Steps input cursor p fun s cursor' => cursor < cursor' ∧ Q s cursor')
    (hlt : cursor < input.lexemes.length) :
    Steps input cursor (recover p) fun o cursor' => cursor < cursor' ∧ ∀ s ∈ o, Q s cursor' := by
  intro r hr
  have hpr := hp r hr
  unfold recover
  cases hresult : p r with
  | ok s r' =>
    rw [hresult] at hpr
    obtain ⟨cursor', hle, hr', hmoved, hQ⟩ := hpr
    refine ⟨cursor', hle, hr', hmoved, ?_⟩
    rintro _ ⟨⟩
    exact hQ
  | error e r' =>
    rw [hresult] at hpr
    obtain ⟨cursor', hle, hr', hraises⟩ := hpr
    have hnone : ∀ cursor'', ∀ s ∈ (none : Option Stmt), Q s cursor'' :=
      fun _ _ hs => absurd hs (Option.not_mem_none _)
    have hpushed := hr'.push hraises
    by_cases hend : cursor' = input.lexemes.length
    · refine ⟨cursor', hle, ?_, by omega, hnone _⟩
      simpa only [hpushed.synchronize_atEnd hend] using hpushed
    · have hinside := hr'.inside
      obtain ⟨cursor'', hmoved, -, -, hstands⟩ := hpushed.synchronize (by omega)
      exact ⟨cursor'', by omega, hstands, by omega, hnone _⟩

/-! ## Expressions -/

private theorem Operator.spread_apply {op : Operator} {i k : Nat} {span : Span} {left right : Expr}
    (covers : input.Covers i k span) (hleft : (Tree.expr left).Spread input i k)
    (hright : (Tree.expr right).Spread input i k) :
    (Tree.expr (op.apply span left right)).Spread input i k := by
  cases op <;> exact .two covers rfl hleft hright

abbrev StepsExpr (input : Input) (cursor : Nat) (p : Parser Expr) : Prop :=
  Steps input cursor p fun e cursor' => (Tree.expr e).Spread input cursor cursor'

/-- How the functions that read expressions move on with this bound. Those that continue an
expression are given what was read from the lexemes since `i`. -/
structure ExpressionsStep (input : Input) (n : Nat) : Prop where
  expression : ∀ cursor, StepsExpr input cursor (expression n)
  operation : ∀ cursor levels, StepsExpr input cursor (operation n levels)
  operationTail : ∀ i cursor level tighter left, (Tree.expr left).Spread input i cursor →
    Steps input cursor (operationTail n level tighter (input.spanAt i).start left)
      fun e cursor' => (Tree.expr e).Spread input i cursor'
  unary : ∀ cursor, StepsExpr input cursor (unary n)
  callTail : ∀ i cursor callee, (Tree.expr callee).Spread input i cursor →
    Steps input cursor (callTail n (input.spanAt i).start callee)
      fun e cursor' => (Tree.expr e).Spread input i cursor'
  arguments : ∀ cursor count, Steps input cursor (arguments n count)
    fun args cursor' => ∀ e ∈ args, (Tree.expr e).Spread input cursor cursor'
  primary : ∀ cursor, StepsExpr input cursor (primary n)

private theorem expressionsStep_zero : ExpressionsStep input 0 := by
  constructor <;> intros <;> exact steps_fail _

section
variable {n : Nat} (ih : ExpressionsStep input n)
include ih

private theorem steps_expression (cursor : Nat) : StepsExpr input cursor (expression (n + 1)) := by
  rw [expression]
  refine steps_fromStart ?_
  refine (ih.operation cursor levels).bind fun target c₁ _ htarget => ?_
  refine steps_ifCheck (fun l hl hsign => ?_) (.pure htarget)
  refine steps_fromSpan (steps_advance hl ?_)
  refine (ih.expression (c₁ + 1)).bind fun value c₂ _ hvalue => ?_
  have hlt := htarget.lt
  have hlt' := hvalue.lt
  refine steps_spanFrom (by omega) fun span covers => ?_
  have hvalue : (Tree.expr value).Spread input cursor c₂ := hvalue.mono (by omega) (Nat.le_refl _)
  have htarget : (Tree.expr target).Spread input cursor c₂ :=
    htarget.mono (Nat.le_refl _) (by omega)
  split
  · exact .pure (.one covers rfl hvalue)
  · rename_i object name
    exact .pure (.two covers rfl (htarget.child List.mem_cons_self) hvalue)
  · rw [Input.spanAt_of_getElem? hl]
    refine (steps_report (.invalidAssignTarget l hl hsign)).bind fun _ c₃ _ heq => ?_
    rw [heq]
    exact .pure htarget

private theorem steps_operation (cursor : Nat) (levels : List Level) :
    StepsExpr input cursor (operation (n + 1) levels) := by
  cases levels with
  | nil =>
    rw [operation]
    exact ih.unary cursor
  | cons level tighter =>
    rw [operation]
    refine steps_fromStart ?_
    refine (ih.operation cursor tighter).bind fun left c₁ _ hleft => ?_
    exact ih.operationTail cursor c₁ level tighter left hleft

private theorem steps_operationTail (i cursor : Nat) (level : Level) (tighter : List Level)
    (left : Expr) (hleft : (Tree.expr left).Spread input i cursor) :
    Steps input cursor (operationTail (n + 1) level tighter (input.spanAt i).start left)
      fun e cursor' => (Tree.expr e).Spread input i cursor' := by
  rw [operationTail]
  refine steps_peek (.pure hleft) fun l hl => ?_
  cases (some l.token).bind level with
  | none => exact .pure hleft
  | some op =>
    refine steps_advance hl ?_
    refine (ih.operation (cursor + 1) tighter).bind fun right c₁ _ hright => ?_
    have hlt := hleft.lt
    have hlt' := hright.lt
    refine steps_spanFrom (by omega) fun span covers => ?_
    exact ih.operationTail i c₁ level tighter _ (Operator.spread_apply covers
      (hleft.mono (Nat.le_refl _) (by omega)) (hright.mono (by omega) (Nat.le_refl _)))

private theorem steps_unary (cursor : Nat) : StepsExpr input cursor (unary (n + 1)) := by
  have hcall : StepsExpr input cursor (primary n >>= callTail n (input.spanAt cursor).start) :=
    (ih.primary cursor).bind fun callee c₁ _ hcallee => ih.callTail cursor c₁ callee hcallee
  rw [unary]
  refine steps_fromStart (steps_peek hcall fun l hl => ?_)
  cases (some l.token).bind unaryOp? with
  | none => exact hcall
  | some op =>
    refine steps_advance hl ((ih.unary (cursor + 1)).bind fun operand c₁ _ hoperand => ?_)
    have hlt := hoperand.lt
    exact steps_spanFrom (by omega) fun span covers =>
      .pure (.one covers rfl (hoperand.mono (by omega) (Nat.le_refl _)))

private theorem steps_callTail (i cursor : Nat) (callee : Expr)
    (hcallee : (Tree.expr callee).Spread input i cursor) :
    Steps input cursor (callTail (n + 1) (input.spanAt i).start callee)
      fun e cursor' => (Tree.expr e).Spread input i cursor' := by
  have hlt := hcallee.lt
  rw [callTail]
  refine steps_ifEat ?_ (steps_ifEat ?_ (.pure hcallee))
  · refine (steps_before (ih.arguments (cursor + 1) 0)).bind fun args c₁ hle₁ hargs => ?_
    refine (steps_expect _ _).bind fun _ c₂ hle₂ _ => ?_
    refine steps_spanFrom (by omega) fun span covers => ?_
    refine ih.callTail i c₂ _ (.call covers (hcallee.mono (Nat.le_refl _) (by omega)) ?_)
    intro e he
    cases args with
    | none => exact absurd he List.not_mem_nil
    | some es => exact (hargs es rfl e he).mono (by omega) hle₂
  · refine (steps_expectName _).bind fun name c₁ hle₁ _ => ?_
    refine steps_spanFrom (by omega) fun span covers => ?_
    exact ih.callTail i c₁ _ (.one covers rfl (hcallee.mono (Nat.le_refl _) (by omega)))

private theorem steps_arguments (cursor count : Nat) :
    Steps input cursor (arguments (n + 1) count)
      fun args cursor' => ∀ e ∈ args, (Tree.expr e).Spread input cursor cursor' := by
  rw [arguments]
  refine (steps_limit fun inside => .tooManyArguments inside).bind fun _ c₁ _ heq => ?_
  subst heq
  refine (ih.expression _).bind fun first c₂ hle₂ hfirst => ?_
  refine (steps_after (ih.arguments (c₂ + 1) (count + 1))).bind fun others c₃ hle₃ hothers => ?_
  refine .pure fun e he => ?_
  rcases List.mem_cons.mp he with rfl | he
  · exact hfirst.mono (Nat.le_refl _) hle₃
  · cases others with
    | none => exact absurd he List.not_mem_nil
    | some es => exact (hothers es rfl e he).mono (by omega) (Nat.le_refl _)

private theorem steps_primary (cursor : Nat) : StepsExpr input cursor (primary (n + 1)) := by
  rw [primary]
  refine steps_fromStart (steps_peek (steps_fail _) fun l hl => ?_)
  have hleaf (e : Span → Expr) (hspan : ∀ span, (e span).span = span)
      (hnone : ∀ span, (e span).children = []) (c : Nat) (hc : cursor < c) :
      Steps input c (do return e (← spanFrom (input.spanAt cursor).start))
        fun e cursor' => (Tree.expr e).Spread input cursor cursor' :=
    steps_spanFrom hc fun span covers => .pure (.leaf ((hspan span).symm ▸ covers) (hnone span))
  split
  · exact steps_advance hl (hleaf _ (fun _ => rfl) (fun _ => rfl) _ (Nat.lt_succ_self _))
  · exact steps_advance hl (hleaf _ (fun _ => rfl) (fun _ => rfl) _ (Nat.lt_succ_self _))
  · refine steps_advance hl ((ih.expression (cursor + 1)).bind fun inner c₁ hle₁ hinner => ?_)
    refine (steps_expect _ _).bind fun _ c₂ hle₂ _ => ?_
    exact steps_spanFrom (by omega) fun span covers =>
      .pure (.one covers rfl (hinner.mono (by omega) hle₂))
  · refine steps_advance hl ((steps_expect _ _).bind fun _ c₁ hle₁ _ => ?_)
    refine (steps_expectName _).bind fun method c₂ hle₂ _ => ?_
    exact hleaf _ (fun _ => rfl) (fun _ => rfl) _ (by omega)
  · split
    · exact steps_advance hl (hleaf _ (fun _ => rfl) (fun _ => rfl) _ (Nat.lt_succ_self _))
    · exact steps_fail _

end

private theorem expressionsStep (input : Input) (n : Nat) : ExpressionsStep input n := by
  induction n with
  | zero => exact expressionsStep_zero
  | succ n ih =>
    exact ⟨steps_expression ih, steps_operation ih, steps_operationTail ih, steps_unary ih,
      steps_callTail ih, steps_arguments ih, steps_primary ih⟩

/-! ## Statements and declarations -/

abbrev StepsStmt (input : Input) (i cursor : Nat) (p : Parser Stmt) : Prop :=
  Steps input cursor p fun s cursor' => cursor < cursor' ∧ (Tree.stmt s).Spread input i cursor'

abbrev StepsBody (input : Input) (cursor : Nat) (p : Parser (List Stmt)) : Prop :=
  Steps input cursor p fun body cursor' =>
    ∀ s ∈ body, (Tree.stmt s).Spread input cursor cursor'

private theorem steps_parameters (n cursor count : Nat) :
    Steps input cursor (parameters n count) fun _ _ => True := by
  induction n generalizing cursor count with
  | zero => exact steps_fail _
  | succ n ih =>
    rw [parameters]
    refine (steps_limit fun inside => .tooManyParameters inside).bind fun _ _ _ _ => ?_
    refine (steps_expectName _).bind fun first c₂ _ _ => ?_
    exact (steps_after (ih (c₂ + 1) (count + 1))).bind fun others _ _ _ => .pure trivial

private theorem steps_exprStmt (n cursor : Nat) : StepsStmt input cursor cursor (exprStmt n) := by
  refine steps_fromStart ?_
  refine ((expressionsStep input n).expression cursor).bind fun value c₁ hle₁ hvalue => ?_
  refine (steps_expect _ _).bind fun _ c₂ hle₂ _ => ?_
  have hlt : cursor < c₂ := Nat.lt_of_lt_of_le hvalue.lt hle₂
  refine steps_spanFrom hlt fun span covers => .pure ⟨hlt, ?_⟩
  refine .optional (some value) covers rfl ?_
  rintro _ ⟨⟩
  exact hvalue.mono (Nat.le_refl _) hle₂

private theorem steps_varDecl (n : Nat) {i cursor : Nat} (hi : i ≤ cursor) :
    StepsStmt input i cursor (varDecl n (input.spanAt i).start) := by
  refine (steps_expectName _).bind fun name c₁ hle₁ hc₁ => ?_
  refine (steps_after ((expressionsStep input n).expression (c₁ + 1))).bind
    fun value c₂ hle₂ hvalue => ?_
  refine (steps_expect _ _).bind fun _ c₃ hle₃ _ => ?_
  refine steps_spanFrom (by omega) fun span covers => .pure ⟨by omega, ?_⟩
  exact .optional value covers rfl fun e he => (hvalue e he).mono (by omega) hle₃

private theorem steps_superclassRef (cursor : Nat) :
    Steps input cursor superclassRef fun above cursor' =>
      (Tree.expr (.var above.span above.value)).Spread input cursor cursor' := by
  refine steps_fromSpan ((steps_expectName _).bind fun name c₁ _ hc₁ => ?_)
  obtain ⟨rfl, hlt⟩ := hc₁
  exact .pure (.leaf (Input.covers_spanAt hlt) rfl)

private theorem steps_forInit (n cursor : Nat) :
    Steps input cursor (forInit n) fun init cursor' =>
      ∀ s ∈ init, (Tree.stmt s).Spread input cursor cursor' := by
  refine steps_fromStart ?_
  refine steps_ifEat (.pure fun _ hs => absurd hs (Option.not_mem_none _)) (steps_ifEat ?_ ?_)
  · exact (steps_varDecl n (Nat.le_succ cursor)).some.mono fun init c hinit s hs => (hinit s hs).2
  · exact (steps_exprStmt n cursor).some.mono fun init c hinit s hs => (hinit s hs).2

structure StatementsStep (input : Input) (n : Nat) : Prop where
  declaration : ∀ cursor, StepsStmt input cursor cursor (declaration n)
  declarations : ∀ cursor, StepsBody input cursor (declarations n)
  block : ∀ cursor, Steps input cursor (block n) fun body cursor' =>
    cursor < cursor' ∧ ∀ s ∈ body, (Tree.stmt s).Spread input cursor cursor'
  function : ∀ kind i cursor, i ≤ cursor →
    Steps input cursor (function n kind (input.spanAt i).start) fun decl cursor' =>
      cursor < cursor' ∧ (Tree.method decl).Spread input i cursor'
  methods : ∀ cursor, Steps input cursor (methods n) fun decls cursor' =>
    ∀ decl ∈ decls, (Tree.method decl).Spread input cursor cursor'
  classDecl : ∀ i cursor, i ≤ cursor →
    StepsStmt input i cursor (classDecl n (input.spanAt i).start)
  statement : ∀ cursor, StepsStmt input cursor cursor (statement n)

private theorem statementsStep_zero : StatementsStep input 0 where
  declaration _ := steps_fail _
  declarations _ := .pure fun _ hs => absurd hs List.not_mem_nil
  block _ := steps_fail _
  function _ _ _ _ := steps_fail _
  methods _ := steps_fail _
  classDecl _ _ _ := steps_fail _
  statement _ := steps_fail _

section
variable {n : Nat} (ih : StatementsStep input n)
include ih

private theorem steps_declaration (cursor : Nat) :
    StepsStmt input cursor cursor (declaration (n + 1)) := by
  have hle := Nat.le_succ cursor
  rw [declaration]
  refine steps_fromStart (steps_ifEat ?_ (steps_ifEat ?_ (steps_ifEat ?_ (ih.statement cursor))))
  · exact (ih.classDecl cursor _ hle).mono fun s c h => ⟨by omega, h.2⟩
  · exact (ih.function _ cursor _ hle).map fun decl c h => ⟨by omega, h.2.funDecl⟩
  · exact (steps_varDecl n hle).mono fun s c h => ⟨by omega, h.2⟩

private theorem steps_declarations (cursor : Nat) :
    StepsBody input cursor (declarations (n + 1)) := by
  rw [declarations]
  refine steps_ifCloses (.pure fun _ hs => absurd hs List.not_mem_nil) fun hlt => ?_
  refine (steps_recover (ih.declaration cursor) hlt).bind fun first c₁ hle₁ hfirst => ?_
  refine (ih.declarations c₁).bind fun others c₂ hle₂ hothers => .pure fun s hs => ?_
  rcases List.mem_append.mp hs with hs | hs
  · exact (hfirst.2 s (Option.mem_toList.mp hs)).mono (Nat.le_refl _) hle₂
  · exact (hothers s hs).mono hle₁ (Nat.le_refl _)

private theorem steps_block (cursor : Nat) :
    Steps input cursor (block (n + 1)) fun body cursor' =>
      cursor < cursor' ∧ ∀ s ∈ body, (Tree.stmt s).Spread input cursor cursor' := by
  rw [block]
  refine (ih.declarations cursor).bind fun body c₁ hle₁ hbody => ?_
  refine (steps_expect _ _).bind fun _ c₂ hle₂ hlt => .pure ⟨by omega, fun s hs => ?_⟩
  exact (hbody s hs).mono (Nat.le_refl _) hle₂

private theorem steps_function (kind : String) (i cursor : Nat) (hi : i ≤ cursor) :
    Steps input cursor (function (n + 1) kind (input.spanAt i).start) fun decl cursor' =>
      cursor < cursor' ∧ (Tree.method decl).Spread input i cursor' := by
  rw [function]
  refine (steps_expectName _).bind fun name c₁ hle₁ _ => ?_
  refine (steps_expect _ _).bind fun _ c₂ hle₂ _ => ?_
  refine (steps_before (steps_parameters n c₂ 0)).bind fun params c₃ hle₃ _ => ?_
  refine (steps_expect _ _).bind fun _ c₄ hle₄ _ => ?_
  refine (steps_expect _ _).bind fun _ c₅ hle₅ _ => ?_
  refine (ih.block c₅).bind fun body c₆ hle₆ hbody => ?_
  refine steps_spanFrom (by omega) fun span covers => .pure ⟨by omega, ?_⟩
  exact .body body covers rfl fun s hs => (hbody.2 s hs).mono (by omega) (Nat.le_refl _)

private theorem steps_methods (cursor : Nat) :
    Steps input cursor (methods (n + 1)) fun decls cursor' =>
      ∀ decl ∈ decls, (Tree.method decl).Spread input cursor cursor' := by
  rw [methods]
  refine steps_ifCloses (.pure fun _ hdecl => absurd hdecl List.not_mem_nil) fun _ => ?_
  refine steps_fromStart ?_
  refine (ih.function _ cursor cursor (Nat.le_refl _)).bind fun first c₁ hle₁ hfirst => ?_
  refine (ih.methods c₁).bind fun others c₂ hle₂ hothers => .pure fun decl hdecl => ?_
  rcases List.mem_cons.mp hdecl with rfl | hdecl
  · exact hfirst.2.mono (Nat.le_refl _) hle₂
  · exact (hothers decl hdecl).mono hle₁ (Nat.le_refl _)

private theorem steps_classDecl (i cursor : Nat) (hi : i ≤ cursor) :
    StepsStmt input i cursor (classDecl (n + 1) (input.spanAt i).start) := by
  rw [classDecl]
  refine (steps_expectName _).bind fun name c₁ hle₁ _ => ?_
  refine (steps_after (steps_superclassRef (c₁ + 1))).bind fun superclass c₂ hle₂ hsuper => ?_
  refine (steps_expect _ _).bind fun _ c₃ hle₃ _ => ?_
  refine (ih.methods c₃).bind fun methods c₄ hle₄ hmethods => ?_
  refine (steps_expect _ _).bind fun _ c₅ hle₅ _ => ?_
  refine steps_spanFrom (by omega) fun span covers => .pure ⟨by omega, ?_⟩
  exact .classDecl covers (fun above h => (hsuper above h).mono (by omega) (by omega))
    fun decl h => (hmethods decl h).mono (by omega) hle₅

private theorem steps_statement (cursor : Nat) :
    StepsStmt input cursor cursor (statement (n + 1)) := by
  have hexpr := (expressionsStep input n).expression
  rw [statement]
  refine steps_fromStart (steps_ifEat ?_ (steps_ifEat ?_ (steps_ifEat ?_ (steps_ifEat ?_
    (steps_ifEat ?_ (steps_ifEat ?_ (steps_exprStmt n cursor)))))))
  · refine (steps_expect _ _).bind fun _ c₁ hle₁ _ => ?_
    refine (steps_forInit n c₁).bind fun init c₂ hle₂ hinit => ?_
    refine (steps_before (hexpr c₂)).bind fun condition c₃ hle₃ hcondition => ?_
    refine (steps_expect _ _).bind fun _ c₄ hle₄ _ => ?_
    refine (steps_before (hexpr c₄)).bind fun increment c₅ hle₅ hincrement => ?_
    refine (steps_expect _ _).bind fun _ c₆ hle₆ _ => ?_
    refine (ih.statement c₆).bind fun body c₇ hle₇ hbody => ?_
    refine steps_spanFrom (by omega) fun span covers => .pure ⟨by omega, ?_⟩
    exact .forLoop covers (fun s hs => (hinit s hs).mono (by omega) (by omega))
      (fun e he => (hcondition e he).mono (by omega) (by omega))
      (fun e he => (hincrement e he).mono (by omega) (by omega))
      (hbody.2.mono (by omega) (Nat.le_refl _))
  · refine (steps_expect _ _).bind fun _ c₁ hle₁ _ => ?_
    refine (hexpr c₁).bind fun condition c₂ hle₂ hcondition => ?_
    refine (steps_expect _ _).bind fun _ c₃ hle₃ _ => ?_
    refine (ih.statement c₃).bind fun yes c₄ hle₄ hyes => ?_
    refine (steps_after (ih.statement (c₄ + 1))).bind fun no c₅ hle₅ hno => ?_
    refine steps_spanFrom (by omega) fun span covers => .pure ⟨by omega, ?_⟩
    exact .branch covers (hcondition.mono (by omega) (by omega))
      (hyes.2.mono (by omega) hle₅) fun s hs => (hno s hs).2.mono (by omega) (Nat.le_refl _)
  · refine (hexpr (cursor + 1)).bind fun value c₁ hle₁ hvalue => ?_
    refine (steps_expect _ _).bind fun _ c₂ hle₂ _ => ?_
    refine steps_spanFrom (by omega) fun span covers => .pure ⟨by omega, ?_⟩
    refine .optional (some value) covers rfl ?_
    rintro _ ⟨⟩
    exact hvalue.mono (by omega) hle₂
  · refine (steps_before (hexpr (cursor + 1))).bind fun value c₁ hle₁ hvalue => ?_
    refine (steps_expect _ _).bind fun _ c₂ hle₂ _ => ?_
    refine steps_spanFrom (by omega) fun span covers => .pure ⟨by omega, ?_⟩
    exact .optional value covers rfl fun e he => (hvalue e he).mono (by omega) hle₂
  · refine (steps_expect _ _).bind fun _ c₁ hle₁ _ => ?_
    refine (hexpr c₁).bind fun condition c₂ hle₂ hcondition => ?_
    refine (steps_expect _ _).bind fun _ c₃ hle₃ _ => ?_
    refine (ih.statement c₃).bind fun body c₄ hle₄ hbody => ?_
    refine steps_spanFrom (by omega) fun span covers => .pure ⟨by omega, ?_⟩
    exact .loop covers (hcondition.mono (by omega) (by omega))
      (hbody.2.mono (by omega) (Nat.le_refl _))
  · refine (ih.block (cursor + 1)).bind fun body c₁ hle₁ hbody => ?_
    refine steps_spanFrom (by omega) fun span covers => .pure ⟨by omega, ?_⟩
    exact .body body covers rfl fun s hs =>
      (hbody.2 s hs).mono (by omega) (Nat.le_refl _)

end

theorem statementsStep (input : Input) (n : Nat) : StatementsStep input n := by
  induction n with
  | zero => exact statementsStep_zero
  | succ n ih =>
    exact ⟨steps_declaration ih, steps_declarations ih, steps_block ih, steps_function ih,
      steps_methods ih, steps_classDecl ih, steps_statement ih⟩

/-- With a bound that is not reached, a program is read up to the end. -/
theorem steps_program (n cursor : Nat) :
    Steps input cursor (program n) fun body cursor' =>
      (input.lexemes.length < cursor + n → cursor' = input.lexemes.length) ∧
        ∀ s ∈ body, (Tree.stmt s).Spread input cursor cursor' := by
  induction n generalizing cursor with
  | zero =>
    intro r hr
    have hinside := hr.inside
    exact ⟨cursor, Nat.le_refl _, hr, fun h => by omega, fun _ hs => absurd hs List.not_mem_nil⟩
  | succ n ih =>
    rw [program]
    refine steps_ifAtEnd (fun hend => .pure ⟨fun _ => hend, fun _ hs => ?_⟩) fun hlt => ?_
    · exact absurd hs List.not_mem_nil
    refine (steps_recover ((statementsStep input n).declaration cursor) hlt).bind
      fun first c₁ hle₁ hfirst => ?_
    refine (ih c₁).bind fun others c₂ hle₂ hothers => .pure ⟨fun h => ?_, fun s hs => ?_⟩
    · exact hothers.1 (by omega)
    · rcases List.mem_append.mp hs with hs | hs
      · exact (hfirst.2 s (Option.mem_toList.mp hs)).mono (Nat.le_refl _) hle₂
      · exact (hothers.2 s hs).mono hle₁ (Nat.le_refl _)

end LoxLang.Parser
