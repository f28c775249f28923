import LoxLang.Proofs.Grammar.Soundness
import LoxLang.Proofs.Relabel
/-!
# Derived expressions are read

A reader with a phrase ahead, and after it nothing that could carry the phrase on,
reads that phrase: it gives its tree, up to spans, and records no error. This is
said here for phrases of every kind, and there is one rule for each production of
expressions. The rules also count how much depth is needed: twenty levels for each
token are more than enough.
-/
namespace LoxLang.Grammar
open Token LoxLang.Parser

/-! ## What may follow a phrase -/

/-- Tokens that carry on an expression without operators looser than a level. -/
def Continues (k : Nat) (token : Token) : Prop :=
  token = symbol .leftParen ∨ token = symbol .dot ∨ ∃ j op, k ≤ j ∧ Infix j token op

def Stops (k : Nat) (rest : List Token) : Prop :=
  ∀ token, rest.head? = some token → ¬Continues k token

def Closed (rest : List Token) : Prop :=
  Stops 0 rest ∧ rest.head? ≠ some (symbol .equal)

theorem Stops.mono {k j : Nat} {rest : List Token} (h : Stops k rest) (hkj : k ≤ j) :
    Stops j rest := by
  intro token ht hc
  rcases hc with hc | hc | ⟨i, op, hi, hop⟩
  · exact h token ht (.inl hc)
  · exact h token ht (.inr (.inl hc))
  · exact h token ht (.inr (.inr ⟨i, op, Nat.le_trans hkj hi, hop⟩))

private theorem Infix.level_unique {k j : Nat} {token : Token} {op op' : Operator}
    (h : Infix k token op) (h' : Infix j token op') : j = k := by
  cases h <;> cases h' <;> rfl

theorem Infix.lt {k : Nat} {token : Token} {op : Operator} (h : Infix k token op) : k < 6 := by
  cases h <;> decide

theorem Infix.stops {k : Nat} {token : Token} {op : Operator} (h : Infix k token op)
    (rest : List Token) : Stops (k + 1) (token :: rest) := by
  intro t ht hc
  obtain rfl : token = t := by simpa using ht
  rcases hc with rfl | rfl | ⟨j, op', hj, hop⟩
  · cases h
  · cases h
  · have hlevel := h.level_unique hop
    omega

private theorem level_of_infix {k : Nat} {level : Level} {token : Token} {op : Operator}
    (hk : levels[k]? = some level) (h : Infix k token op) : level token = some op := by
  cases h <;> simp only [levels, List.getElem?_cons_zero, List.getElem?_cons_succ,
    Option.some.injEq] at hk <;> subst hk <;> rfl

private theorem unaryOp_of_prefix {token : Token} {op : UnaryOp} (h : Prefix token op) :
    unaryOp? token = some op := by
  cases h <;> rfl

inductive Ender : Token → Prop
  | semicolon : Ender (symbol .semicolon)
  | rightParen : Ender (symbol .rightParen)
  | comma : Ender (symbol .comma)

theorem Ender.closed {token : Token} (h : Ender token) (rest : List Token) :
    Closed (token :: rest) := by
  refine ⟨fun t ht hc => ?_, by cases h <;> simp⟩
  obtain rfl : token = t := by simpa using ht
  rcases hc with rfl | rfl | ⟨j, op, -, hop⟩
  · cases h
  · cases h
  · cases h <;> cases hop

theorem Ender.not_startsExpression {token : Token} (h : Ender token) :
    startsExpression token = false := by
  cases h <;> rfl

private theorem stops_equal (rest : List Token) : Stops 0 (symbol .equal :: rest) := by
  intro t ht hc
  obtain rfl : symbol .equal = t := by simpa using ht
  rcases hc with hc | hc | ⟨j, op, -, hop⟩
  · simp at hc
  · simp at hc
  · cases hop

/-! ## Trees up to spans -/

def Phrase.relabel (f : Relabel) : (phrase : Phrase) → phrase.Tree → phrase.Tree
  | .expression, e | .operation _, e | .unary, e | .call, e | .primary, e => e.relabel f
  | .arguments, es => es.map (·.relabel f)
  | .optional, e => e.map (·.relabel f)
  | .binding, s | .statement _, s | .declaration, s => s.relabel f
  | .initializer, s => s.map (·.relabel f)
  | .function, decl => decl.relabel f
  | .methods, decls => decls.map (·.relabel f)
  | .declarations, ss => ss.map (·.relabel f)

def Same (phrase : Phrase) (a b : phrase.Tree) : Prop :=
  phrase.relabel .noSpans a = phrase.relabel .noSpans b

def Yields (phrase : Phrase) (t : phrase.Tree) (rest : List Token) (t' : phrase.Tree)
    (rest' : List Token) : Prop :=
  Same phrase t' t ∧ rest' = rest

private theorem Operator.relabel_apply (f : Relabel) (op : Operator) (span : Span) (a b : Expr) :
    (op.apply span a b).relabel f = op.apply (f.span span) (a.relabel f) (b.relabel f) := by
  cases op <;> simp [Operator.apply, Expr.relabel]

private theorem eq_var_of_same {e : Expr} {span : Span} {ref : Ref}
    (h : e.relabel .noSpans = (Expr.var span ref).relabel .noSpans) :
    ∃ span', e = .var span' ref := by
  cases e <;> simp only [Expr.relabel, Expr.var.injEq, reduceCtorEq] at h
  rename_i span' ref'
  have hr : ref'.relabel .noSpans = ref.relabel .noSpans := h.2
  cases ref
  cases ref'
  simp only [Ref.relabel, Relabel.noSpans_distance, Ref.mk.injEq] at hr
  exact ⟨span', by rw [hr.1, hr.2]⟩

private theorem eq_get_of_same {e o : Expr} {span : Span} {name : String}
    (h : e.relabel .noSpans = (Expr.get span o name).relabel .noSpans) :
    ∃ span' o', e = .get span' o' name ∧ o'.relabel .noSpans = o.relabel .noSpans := by
  cases e <;> simp only [Expr.relabel, Expr.get.injEq, reduceCtorEq] at h
  rename_i span' o' name'
  exact ⟨span', o', by rw [h.2.2], h.2.1⟩

/-! ## Expressions -/

/-- The rest of a chain of operators of a level; on the last level there is none. -/
def operationRest (n k start : Nat) (left : Expr) : Parser Expr :=
  match levels.drop k with
  | [] => return left
  | level :: tighter => operationTail n level tighter start left

/-- A phrase is read wherever it stands. A chain that groups to the left can grow, so of such a
phrase only this is said: to read on after it is enough. -/
def Completes : (phrase : Phrase) → List Token → phrase.Tree → Prop
  | .expression, ts, e => ∀ n rest, 20 * ts.length + 10 ≤ n → Closed rest →
    Succeeds (ts ++ rest) (expression n) (Yields .expression e rest)
  | .operation k, ts, e => ∀ n rest Q, 20 * ts.length + (9 - k) ≤ n → Stops (k + 1) rest →
    (∀ m start e', n ≤ m + ts.length → Same (.operation k) e' e →
      Succeeds rest (operationRest m k start e') Q) →
    Succeeds (ts ++ rest) (operation n (levels.drop k)) Q
  | .unary, ts, e => ∀ n rest, 20 * ts.length + 2 ≤ n → Stops 6 rest →
    Succeeds (ts ++ rest) (unary n) (Yields .unary e rest)
  | .call, ts, e => ∀ n rest Q, 20 * ts.length + 2 ≤ n →
    (∀ m start e', n ≤ m + ts.length → Same .call e' e → Succeeds rest (callTail m start e') Q) →
    Succeeds (ts ++ rest) (unary n) Q
  | .primary, ts, e => (∀ token, ts.head? = some token → unaryOp? token = none) ∧
    ∀ n rest, 20 * ts.length + 1 ≤ n →
      Succeeds (ts ++ rest) (primary n) (Yields .primary e rest)
  | .arguments, ts, es => ∀ n count rest, 20 * ts.length + 11 ≤ n →
    count + es.length ≤ maxArguments →
    Succeeds (ts ++ symbol .rightParen :: rest) (arguments n count)
      (Yields .arguments es (symbol .rightParen :: rest))
  | .optional, ts, e => ∀ n token rest, 20 * ts.length + 10 ≤ n → Ender token →
    Succeeds (ts ++ token :: rest) (before token (expression n))
      (Yields .optional e (token :: rest))
  | .binding, ts, s => ∀ n start rest, 20 * ts.length ≤ n →
    Succeeds (ts ++ rest) (varDecl n start) (Yields .binding s rest)
  | .initializer, ts, s => ∀ n rest, 20 * ts.length ≤ n →
    Succeeds (ts ++ rest) (forInit n) (Yields .initializer s rest)
  | .statement isOpen, ts, s => ∀ n rest, 20 * ts.length + 11 ≤ n →
    (isOpen = true → rest.head? ≠ some (keyword .kwElse)) →
    Succeeds (ts ++ rest) (statement n) (Yields (.statement isOpen) s rest)
  | .function, ts, f => ∀ n kind start rest, 20 * ts.length ≤ n →
    Succeeds (ts ++ rest) (function n kind start) (Yields .function f rest)
  | .methods, ts, fs => ∀ n rest, 20 * ts.length + 1 ≤ n →
    Succeeds (ts ++ symbol .rightBrace :: rest) (methods n)
      (Yields .methods fs (symbol .rightBrace :: rest))
  | .declaration, ts, s => ∀ n rest, 20 * ts.length + 12 ≤ n →
    rest.head? ≠ some (keyword .kwElse) →
    Succeeds (ts ++ rest) (declaration n) (Yields .declaration s rest)
  | .declarations, ts, ss => ∀ n, 20 * ts.length + 13 ≤ n →
    (∀ rest, Succeeds (ts ++ symbol .rightBrace :: rest) (declarations n)
      (Yields .declarations ss (symbol .rightBrace :: rest))) ∧
    Succeeds ts (program n) (Yields .declarations ss [])

private theorem operationRest_stop {k n start : Nat} {e : Expr} {rest : List Token}
    {Q : Expr → List Token → Prop} (hn : 0 < n) (hs : Stops k rest) (hQ : Q e rest) :
    Succeeds rest (operationRest n k start e) Q := by
  unfold operationRest
  split
  · exact .pure hQ
  · rename_i level tighter hl
    obtain ⟨m, rfl⟩ := Nat.exists_eq_add_one_of_ne_zero (Nat.ne_of_gt hn)
    obtain ⟨-, hlevel, rfl⟩ := drop_levels hl
    rw [operationTail]
    apply succeeds_peekThen
    have hnone : rest.head?.bind level = none := by
      cases ht : rest.head? with
      | none => rfl
      | some token =>
        cases ho : level token with
        | none => exact ho
        | some op =>
          exact absurd (.inr (.inr ⟨k, op, Nat.le_refl k, infix_of_level hlevel ho⟩)) (hs token ht)
    rw [hnone]
    exact .pure hQ

private theorem operation_of_completes {k : Nat} {ts : List Token} {e : Expr}
    (h : Completes (.operation k) ts e) {n : Nat} {rest : List Token}
    (hpos : 0 < ts.length) (hn : 20 * ts.length + (9 - k) ≤ n) (hs : Stops k rest) :
    Succeeds (ts ++ rest) (operation n (levels.drop k)) (Yields (.operation k) e rest) := by
  refine h n rest _ hn (hs.mono (Nat.le_succ k)) fun m start e' hm he => ?_
  exact operationRest_stop (by omega) hs ⟨he, rfl⟩

private theorem callTail_stop {n start : Nat} {e : Expr} {rest : List Token}
    {Q : Expr → List Token → Prop} (hn : 0 < n) (hs : Stops 6 rest) (hQ : Q e rest) :
    Succeeds rest (callTail n start e) Q := by
  obtain ⟨m, rfl⟩ := Nat.exists_eq_add_one_of_ne_zero (Nat.ne_of_gt hn)
  rw [callTail]
  apply succeeds_ifEat_other (fun h => hs _ h (.inl rfl))
  exact succeeds_ifEat_other (fun h => hs _ h (.inr (.inl rfl))) (.pure hQ)

section
variable {span : Span} {name : String} {ts us : List Token} {e e₁ e₂ : Expr}

theorem completes_tighter {k : Nat} (hk : k < 6) (hpos : 0 < ts.length)
    (h : Completes (.operation (k + 1)) ts e) : Completes (.operation k) ts e := by
  intro n rest Q hn hs hrest
  obtain ⟨m, rfl⟩ : ∃ m, n = m + 1 := ⟨n - 1, by omega⟩
  cases hl : levels.drop k with
  | nil =>
    have hlen := congrArg List.length hl
    simp only [levels, List.length_drop, List.length_cons, List.length_nil] at hlen
    omega
  | cons level tighter =>
    obtain ⟨-, -, rfl⟩ := drop_levels hl
    rw [operation]
    refine succeeds_fromStart fun start => ?_
    refine (operation_of_completes h hpos (by omega) hs).bind fun e' t hy => ?_
    obtain ⟨he, rfl⟩ := hy
    have hr := hrest m start e' (by omega) he
    rw [operationRest, hl] at hr
    exact hr

theorem completes_operand (h : Completes .unary ts e) (hpos : 0 < ts.length) :
    Completes (.operation 6) ts e := by
  intro n rest Q hn hs hrest
  obtain ⟨m, rfl⟩ : ∃ m, n = m + 1 := ⟨n - 1, by omega⟩
  have hl : levels.drop 6 = [] := rfl
  rw [hl, operation]
  have hs6 : Stops 6 rest := by
    intro token ht hc
    obtain hc | hc | ⟨j, op, hj, hop⟩ := hc
    · exact hs token ht (.inl hc)
    · exact hs token ht (.inr (.inl hc))
    · have hlt := hop.lt
      omega
  intro r hr
  obtain ⟨e', r', hu, herr, he, ht⟩ := h m rest (by omega) hs6 r hr
  obtain ⟨a, r'', ha, herr', hQ⟩ := hrest m 0 e' (by omega) he r' ht
  rw [operationRest, hl] at ha
  obtain ⟨rfl, rfl⟩ : e' = a ∧ r' = r'' := by
    cases ha
    exact ⟨rfl, rfl⟩
  exact ⟨e', r', hu, herr, hQ⟩

theorem completes_operator {k : Nat} {token : Token} {op : Operator} (hus : 0 < us.length)
    (h₁ : Completes (.operation k) ts e₁) (hop : Infix k token op)
    (h₂ : Completes (.operation (k + 1)) us e₂) :
    Completes (.operation k) (ts ++ token :: us) (op.apply span e₁ e₂) := by
  intro n rest Q hn hs hrest
  simp only [List.length_append, List.length_cons] at hn hrest
  rw [List.append_assoc]
  refine h₁ n _ Q (by omega) (hop.stops _) fun m start e₁' hm he₁ => ?_
  obtain ⟨m, rfl⟩ : ∃ i, m = i + 1 := ⟨m - 1, by omega⟩
  unfold operationRest
  split
  · rename_i hl
    have hlen := congrArg List.length hl
    have hlt := hop.lt
    simp only [levels, List.length_drop, List.length_cons, List.length_nil] at hlen
    omega
  · rename_i level tighter hl
    obtain ⟨-, hlevel, rfl⟩ := drop_levels hl
    rw [operationTail]
    apply succeeds_peekThen
    rw [List.cons_append, List.head?_cons, Option.bind_some, level_of_infix hlevel hop]
    apply succeeds_advance
    refine (operation_of_completes h₂ hus (by omega) hs).bind fun e₂' t hy => ?_
    obtain ⟨he₂, rfl⟩ := hy
    refine succeeds_spanFrom start fun span' => ?_
    have hsame : Same (.operation k) (op.apply span' e₁' e₂') (op.apply span e₁ e₂) := by
      simp only [Same, Phrase.relabel] at he₁ he₂ ⊢
      rw [Operator.relabel_apply, Operator.relabel_apply, he₁, he₂]
      rfl
    have hr := hrest m start _ (by omega) hsame
    rw [operationRest, hl] at hr
    exact hr

theorem completes_unary {token : Token} {op : UnaryOp} (hop : Prefix token op)
    (h : Completes .unary ts e) : Completes .unary (token :: ts) (.unary span op e) := by
  intro n rest hn hs
  simp only [List.length_cons] at hn
  obtain ⟨m, rfl⟩ : ∃ m, n = m + 1 := ⟨n - 1, by omega⟩
  rw [unary]
  refine succeeds_fromStart fun start => succeeds_peekThen ?_
  rw [List.cons_append, List.head?_cons, Option.bind_some, unaryOp_of_prefix hop]
  refine succeeds_advance ((h m rest (by omega) hs).bind fun e' t hy => ?_)
  obtain ⟨he, rfl⟩ := hy
  refine succeeds_spanFrom start fun span' => .pure ⟨?_, rfl⟩
  simp only [Same, Phrase.relabel, Expr.relabel, Relabel.noSpans_span] at he ⊢
  rw [he]

theorem completes_chain (h : Completes .call ts e) (hpos : 0 < ts.length) :
    Completes .unary ts e := by
  intro n rest hn hs
  refine h n rest _ hn fun m start e' hm he => ?_
  exact callTail_stop (by omega) hs ⟨he, rfl⟩

theorem completes_primary (h : Completes .primary ts e) (hpos : 0 < ts.length) :
    Completes .call ts e := by
  intro n rest Q hn hrest
  obtain ⟨m, rfl⟩ : ∃ m, n = m + 1 := ⟨n - 1, by omega⟩
  rw [unary]
  refine succeeds_fromStart fun start => succeeds_peekThen ?_
  have hnone : (ts ++ rest).head?.bind unaryOp? = none := by
    cases ts with
    | nil => simp at hpos
    | cons token ts => exact h.1 token rfl
  rw [hnone]
  refine (h.2 m rest (by omega)).bind fun e' t hy => ?_
  obtain ⟨he, rfl⟩ := hy
  exact hrest m start e' (by omega) he

theorem completes_callEmpty (h : Completes .call ts e) :
    Completes .call (ts ++ [symbol .leftParen, symbol .rightParen]) (.call span e []) := by
  intro n rest Q hn hrest
  simp only [List.length_append, List.length_cons, List.length_nil] at hn hrest
  rw [List.append_assoc]
  refine h n _ Q (by omega) fun m start e' hm he => ?_
  obtain ⟨m, rfl⟩ : ∃ i, m = i + 1 := ⟨m - 1, by omega⟩
  rw [callTail]
  refine succeeds_ifEat (succeeds_before_stop.bind fun args t hy => ?_)
  obtain ⟨rfl, rfl⟩ := hy
  refine succeeds_expect _ (succeeds_spanFrom start fun span' => hrest m start _ (by omega) ?_)
  simp only [Same, Phrase.relabel, Expr.relabel, Relabel.noSpans_span] at he ⊢
  rw [he, Option.getD_none]

theorem completes_call {es : List Expr} (h : Completes .call ts e)
    (ha : Completes .arguments us es) (hstart : Starts startsExpression us)
    (hlen : es.length ≤ maxArguments) :
    Completes .call (ts ++ symbol .leftParen :: us ++ [symbol .rightParen]) (.call span e es) := by
  intro n rest Q hn hrest
  simp only [List.length_append, List.length_cons, List.length_nil] at hn hrest
  rw [List.append_assoc, List.append_assoc]
  refine h n _ Q (by omega) fun m start e' hm he => ?_
  obtain ⟨m, rfl⟩ : ∃ i, m = i + 1 := ⟨m - 1, by omega⟩
  rw [callTail]
  have hne := (hstart.append (symbol .rightParen :: rest)).head?_ne
    Ender.rightParen.not_startsExpression
  refine succeeds_ifEat ((succeeds_before hne (ha m 0 rest (by omega) (by omega))).bind
    fun args t hy => ?_)
  obtain ⟨es', rfl, hes, rfl⟩ := hy
  refine succeeds_expect _ (succeeds_spanFrom start fun span' => hrest m start _ (by omega) ?_)
  simp only [Same, Phrase.relabel, Expr.relabel, Relabel.noSpans_span, relabelArguments_eq_map]
    at he hes ⊢
  rw [he, Option.getD_some, hes]

theorem completes_get (h : Completes .call ts e) :
    Completes .call (ts ++ [symbol .dot, identifier name]) (.get span e name) := by
  intro n rest Q hn hrest
  simp only [List.length_append, List.length_cons, List.length_nil] at hn hrest
  rw [List.append_assoc]
  refine h n _ Q (by omega) fun m start e' hm he => ?_
  obtain ⟨m, rfl⟩ : ∃ i, m = i + 1 := ⟨m - 1, by omega⟩
  rw [callTail]
  refine succeeds_ifEat_other (by simp) (succeeds_ifEat (succeeds_expectName _
    (succeeds_spanFrom start fun span' => hrest m start _ (by omega) ?_)))
  simp only [Same, Phrase.relabel, Expr.relabel, Relabel.noSpans_span] at he ⊢
  rw [he]

theorem completes_lastArgument (h : Completes .expression ts e) :
    Completes .arguments ts [e] := by
  intro n count rest hn hlen
  simp only [List.length_cons, List.length_nil] at hlen
  obtain ⟨m, rfl⟩ : ∃ i, n = i + 1 := ⟨n - 1, by omega⟩
  rw [arguments]
  apply succeeds_limit _ (by omega)
  refine (h m _ (by omega) (Ender.rightParen.closed rest)).bind fun e' t hy => ?_
  obtain ⟨he, rfl⟩ := hy
  refine (succeeds_after_other (by simp)).bind fun others t hy => ?_
  obtain ⟨rfl, rfl⟩ := hy
  refine .pure ⟨?_, rfl⟩
  simp only [Same, Phrase.relabel, Option.getD_none, List.map_cons, List.map_nil] at he ⊢
  rw [he]

theorem completes_moreArguments {es : List Expr} (h : Completes .expression ts e)
    (ho : Completes .arguments us es) :
    Completes .arguments (ts ++ symbol .comma :: us) (e :: es) := by
  intro n count rest hn hlen
  simp only [List.length_append, List.length_cons] at hn hlen
  obtain ⟨m, rfl⟩ : ∃ i, n = i + 1 := ⟨n - 1, by omega⟩
  rw [arguments, List.append_assoc]
  apply succeeds_limit _ (by omega)
  refine (h m _ (by omega) (Ender.comma.closed _)).bind fun e' t hy => ?_
  obtain ⟨he, rfl⟩ := hy
  refine (succeeds_after (ho m (count + 1) rest (by omega) (by omega))).bind fun others t hy => ?_
  obtain ⟨es', rfl, hes, rfl⟩ := hy
  refine .pure ⟨?_, rfl⟩
  simp only [Same, Phrase.relabel, Option.getD_some, List.map_cons] at he hes ⊢
  rw [he, hes]

theorem completes_operation (hpos : 0 < ts.length) (h : Completes (.operation 0) ts e) :
    Completes .expression ts e := by
  intro n rest hn hc
  obtain ⟨m, rfl⟩ : ∃ i, n = i + 1 := ⟨n - 1, by omega⟩
  rw [expression]
  refine succeeds_fromStart fun start => ?_
  refine (operation_of_completes h hpos (by omega) hc.1).bind fun e' t hy => ?_
  obtain ⟨he, rfl⟩ := hy
  refine (succeeds_check _).bind fun b t hy => ?_
  obtain ⟨rfl, rfl⟩ := hy
  rw [decide_eq_false hc.2]
  exact .pure ⟨he, rfl⟩

theorem completes_constant {token : Token} {value : Literal} (hc : Constant token value) :
    Completes .primary [token] (.literal span value) := by
  refine ⟨fun t ht => ?_, fun n rest hn => ?_⟩
  · obtain rfl : token = t := by simpa using ht
    cases hc <;> rfl
  · obtain ⟨m, rfl⟩ : ∃ i, n = i + 1 := ⟨n - 1, by omega⟩
    rw [primary]
    refine succeeds_fromStart fun start => succeeds_peekThen ?_
    cases hc <;> exact succeeds_advance (succeeds_spanFrom start fun _ => .pure ⟨rfl, rfl⟩)

theorem completes_this : Completes .primary [keyword .kwThis] (.this span none) := by
  refine ⟨fun t ht => ?_, fun n rest hn => ?_⟩
  · obtain rfl : keyword .kwThis = t := by simpa using ht
    rfl
  · obtain ⟨m, rfl⟩ : ∃ i, n = i + 1 := ⟨n - 1, by omega⟩
    rw [primary]
    exact succeeds_fromStart fun start => succeeds_peekThen
      (succeeds_advance (succeeds_spanFrom start fun _ => .pure ⟨rfl, rfl⟩))

theorem completes_name : Completes .primary [identifier name] (.var span ⟨name, none⟩) := by
  refine ⟨fun t ht => ?_, fun n rest hn => ?_⟩
  · obtain rfl : identifier name = t := by simpa using ht
    rfl
  · obtain ⟨m, rfl⟩ : ∃ i, n = i + 1 := ⟨n - 1, by omega⟩
    rw [primary]
    exact succeeds_fromStart fun start => succeeds_peekThen
      (succeeds_advance (succeeds_spanFrom start fun _ => .pure ⟨rfl, rfl⟩))

theorem completes_super :
    Completes .primary [keyword .kwSuper, symbol .dot, identifier name] (.super span none name) := by
  refine ⟨fun t ht => ?_, fun n rest hn => ?_⟩
  · obtain rfl : keyword .kwSuper = t := by simpa using ht
    rfl
  · obtain ⟨m, rfl⟩ : ∃ i, n = i + 1 := ⟨n - 1, by omega⟩
    rw [primary]
    exact succeeds_fromStart fun start => succeeds_peekThen (succeeds_advance (succeeds_expect _
      (succeeds_expectName _ (succeeds_spanFrom start fun _ => .pure ⟨rfl, rfl⟩))))

theorem completes_grouping (h : Completes .expression ts e) :
    Completes .primary (symbol .leftParen :: ts ++ [symbol .rightParen]) (.grouping span e) := by
  refine ⟨fun t ht => ?_, fun n rest hn => ?_⟩
  · obtain rfl : symbol .leftParen = t := by simpa using ht
    rfl
  · simp only [List.length_append, List.length_cons, List.length_nil] at hn
    obtain ⟨m, rfl⟩ : ∃ i, n = i + 1 := ⟨n - 1, by omega⟩
    rw [primary, List.append_assoc]
    refine succeeds_fromStart fun start => succeeds_peekThen (succeeds_advance ?_)
    refine (h m _ (by omega) (Ender.rightParen.closed rest)).bind fun e' t hy => ?_
    obtain ⟨he, rfl⟩ := hy
    refine succeeds_expect _ (succeeds_spanFrom start fun span' => .pure ⟨?_, rfl⟩)
    simp only [Same, Phrase.relabel, Expr.relabel, Relabel.noSpans_span] at he ⊢
    rw [he]

private theorem completes_operation_of_call (hpos : 0 < ts.length) (h : Completes .call ts e)
    {k : Nat} (hk : k ≤ 6) : Completes (.operation k) ts e := by
  obtain ⟨j, rfl⟩ : ∃ j, k = 6 - j := ⟨6 - k, by omega⟩
  clear hk
  induction j with
  | zero => exact completes_operand (completes_chain h hpos) hpos
  | succ j ih =>
    by_cases hj : j < 6
    · apply completes_tighter (by omega) hpos
      rw [show 6 - (j + 1) + 1 = 6 - j by omega]
      exact ih
    · rw [show 6 - (j + 1) = 6 - j by omega]
      exact ih

theorem completes_assignVariable (h : Completes .expression us e) :
    Completes .expression (identifier name :: symbol .equal :: us) (.assign span ⟨name, none⟩ e) := by
  intro n rest hn hc
  simp only [List.length_cons] at hn
  obtain ⟨m, rfl⟩ : ∃ i, n = i + 1 := ⟨n - 1, by omega⟩
  rw [expression]
  refine succeeds_fromStart fun start => ?_
  have htarget : Completes (.operation 0) [identifier name] (.var ⟨0, 0⟩ ⟨name, none⟩) :=
    completes_operation_of_call (by simp) (completes_primary completes_name (by simp))
      (Nat.zero_le 6)
  refine (operation_of_completes htarget (by simp)
    (by simp only [List.length_cons, List.length_nil]; omega) (stops_equal (us ++ rest))).bind
    fun target t hy => ?_
  obtain ⟨htarget, rfl⟩ := hy
  obtain ⟨span', rfl⟩ := eq_var_of_same htarget
  refine (succeeds_check _).bind fun b t hy => ?_
  obtain ⟨rfl, rfl⟩ := hy
  rw [decide_eq_true List.head?_cons]
  refine succeeds_fromSpan fun sign => succeeds_advance ?_
  refine (h m rest (by omega) hc).bind fun e' t hy => ?_
  obtain ⟨he, rfl⟩ := hy
  refine succeeds_spanFrom start fun span'' => .pure ⟨?_, rfl⟩
  simp only [Same, Phrase.relabel, Expr.relabel, Ref.relabel, Relabel.noSpans_span,
    Relabel.noSpans_distance] at he ⊢
  rw [he]

theorem completes_assignProperty {o : Expr} (hts : 0 < ts.length) (ho : Completes .call ts o)
    (h : Completes .expression us e) :
    Completes .expression (ts ++ symbol .dot :: identifier name :: symbol .equal :: us)
      (.set span o name e) := by
  intro n rest hn hc
  simp only [List.length_append, List.length_cons] at hn
  obtain ⟨m, rfl⟩ : ∃ i, n = i + 1 := ⟨n - 1, by omega⟩
  rw [expression]
  refine succeeds_fromStart fun start => ?_
  have htarget : Completes (.operation 0) (ts ++ [symbol .dot, identifier name])
      (.get ⟨0, 0⟩ o name) :=
    completes_operation_of_call (by simp) (completes_get ho) (Nat.zero_le 6)
  have hsplit : ts ++ symbol .dot :: identifier name :: symbol .equal :: us ++ rest =
      (ts ++ [symbol .dot, identifier name]) ++ symbol .equal :: (us ++ rest) := by simp
  rw [hsplit]
  refine (operation_of_completes htarget (by simp)
    (by simp only [List.length_append, List.length_cons, List.length_nil]; omega)
    (stops_equal (us ++ rest))).bind fun target t hy => ?_
  obtain ⟨htarget, rfl⟩ := hy
  obtain ⟨span', o', rfl, ho'⟩ := eq_get_of_same htarget
  refine (succeeds_check _).bind fun b t hy => ?_
  obtain ⟨rfl, rfl⟩ := hy
  rw [decide_eq_true List.head?_cons]
  refine succeeds_fromSpan fun sign => succeeds_advance ?_
  refine (h m rest (by omega) hc).bind fun e' t hy => ?_
  obtain ⟨he, rfl⟩ := hy
  refine succeeds_spanFrom start fun span'' => .pure ⟨?_, rfl⟩
  simp only [Same, Phrase.relabel, Expr.relabel, Relabel.noSpans_span] at he ⊢
  rw [he, ho']

end

end LoxLang.Grammar
