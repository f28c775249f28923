import LoxLang.Proofs.Grammar.Reading
/-!
# The bound is never reached

Every function that reads takes a bound on how deep it may recurse. With at least
`20 * k + 13` of it, where `k` lexemes are ahead, one more does not change what is
read. The reason is that fewer than twenty functions call each other before one of
them takes a lexeme, so the proof also counts the lexemes that are taken.
-/
namespace LoxLang

private theorem Reader.length_advance (r : Reader) : r.advance.rest.length = r.rest.length - 1 := by
  unfold advance
  split
  · rename_i h
    simp [h]
  · rename_i h
    simp [h]

private theorem Reader.length_skipFrom (last : Lexeme) (ls : List Lexeme) :
    (skipFrom last ls).2.length ≤ ls.length := by
  induction ls generalizing last with
  | nil => exact Nat.le_refl _
  | cons l ls ih =>
    rw [skipFrom]
    split
    · exact Nat.le_refl _
    · exact Nat.le_succ_of_le (ih l)

private theorem Reader.length_synchronize (r : Reader) :
    r.synchronize.rest.length ≤ r.rest.length - 1 := by
  unfold synchronize
  split
  · rename_i h
    simp [h]
  · rename_i l ls h
    rw [h]
    exact length_skipFrom l ls

namespace Parser

variable {α β : Type}

/-- With `k` lexemes ahead two steps do the same. They give no lexeme back, and if they have a
result then they have taken `j` lexemes at least. -/
def Alike (k j : Nat) (p q : Parser α) : Prop :=
  ∀ r, r.rest.length = k → p r = q r ∧
    match p r with
    | .ok _ r' => r'.rest.length + j ≤ k
    | .error _ r' => r'.rest.length ≤ k

namespace Alike

variable {k j i : Nat} {p q : Parser α}

theorem mono (h : Alike k j p q) (hi : i ≤ j) : Alike k i p q := by
  intro r hr
  obtain ⟨hsame, htaken⟩ := h r hr
  refine ⟨hsame, ?_⟩
  cases hp : p r with
  | ok a r' =>
    rw [hp] at htaken
    exact Nat.le_trans (Nat.add_le_add_left hi _) htaken
  | error e r' =>
    rw [hp] at htaken
    exact htaken

theorem pure {a : α} : Alike k 0 (Pure.pure a) (Pure.pure a) :=
  fun _ hr => ⟨rfl, Nat.le_of_eq hr⟩

/-- What the first step has taken, the steps after it need not take. -/
theorem bind {f g : α → Parser β} (hp : Alike k j p q)
    (hf : ∀ a k', k' + j ≤ k → Alike k' (i - j) (f a) (g a)) : Alike k i (p >>= f) (q >>= g) := by
  intro r hr
  obtain ⟨hsame, htaken⟩ := hp r hr
  rw [bind_apply, bind_apply, ← hsame]
  cases hpr : p r with
  | error e r' =>
    rw [hpr] at htaken
    exact ⟨rfl, htaken⟩
  | ok a r' =>
    rw [hpr] at htaken
    obtain ⟨hsame', htaken'⟩ := hf a r'.rest.length htaken r' rfl
    refine ⟨hsame', ?_⟩
    cases hfr : f a r' with
    | error e r'' =>
      simp only [hfr] at htaken' ⊢
      omega
    | ok b r'' =>
      simp only [hfr] at htaken' ⊢
      omega

theorem map {f : α → β} (hp : Alike k j p q) : Alike k j (f <$> p) (f <$> q) := by
  have h : Alike k j (p >>= fun a => Pure.pure (f a)) (q >>= fun a => Pure.pure (f a)) :=
    hp.bind fun a k' _ => pure.mono (Nat.le_of_eq (Nat.sub_self j))
  exact h

end Alike

variable {k j : Nat}

private theorem alike_fail (what : String) :
    Alike k j (failExpecting what : Parser α) (failExpecting what) :=
  fun _ hr => ⟨rfl, Nat.le_of_eq hr⟩

theorem alike_fromStart {f g : Nat → Parser α} (h : ∀ start, Alike k j (f start) (g start)) :
    Alike k j (nextStart >>= f) (nextStart >>= g) :=
  fun r hr => h r.nextSpan.start r hr

private theorem alike_fromSpan {f g : Span → Parser α} (h : ∀ span, Alike k j (f span) (g span)) :
    Alike k j (nextSpan >>= f) (nextSpan >>= g) :=
  fun r hr => h r.nextSpan r hr

private theorem alike_spanFrom {f g : Span → Parser α} (start : Nat)
    (h : ∀ span, Alike k j (f span) (g span)) :
    Alike k j (spanFrom start >>= f) (spanFrom start >>= g) :=
  fun r hr => h (r.spanFrom start) r hr

private theorem alike_peek {f g : Option Token → Parser α}
    (hnone : k = 0 → Alike k j (f none) (g none))
    (hsome : ∀ k' token, k = k' + 1 → Alike k j (f (some token)) (g (some token))) :
    Alike k j (peek >>= f) (peek >>= g) := by
  intro r hr
  rw [bind_apply, bind_apply, peek_apply]
  cases hrest : r.rest with
  | nil =>
    have hk : k = 0 := by rw [← hr, hrest, List.length_nil]
    have hhead : r.tokens.head? = none := by simp [Reader.tokens, hrest]
    rw [hhead]
    exact hnone hk r hr
  | cons l ls =>
    have hhead : r.tokens.head? = some l.token := by simp [Reader.tokens, hrest]
    rw [hhead]
    exact hsome ls.length l.token (by rw [← hr, hrest, List.length_cons]) r hr

private theorem alike_advance {f g : Unit → Parser α} (h : Alike k (j - 1) (f ()) (g ())) :
    Alike (k + 1) j (advance >>= f) (advance >>= g) := by
  intro r hr
  obtain ⟨hsame, htaken⟩ := h r.advance (by rw [Reader.length_advance, hr, Nat.add_sub_cancel])
  refine ⟨hsame, ?_⟩
  change match f () r.advance with
    | .ok _ r' => r'.rest.length + j ≤ k + 1
    | .error _ r' => r'.rest.length ≤ k + 1
  cases hf : f () r.advance with
  | ok a r' =>
    simp only [hf] at htaken ⊢
    omega
  | error e r' =>
    simp only [hf] at htaken ⊢
    omega

private theorem alike_check {f g : Bool → Parser α} {token : Token}
    (htrue : ∀ k', k = k' + 1 → Alike k j (f true) (g true))
    (hfalse : Alike k j (f false) (g false)) :
    Alike k j (check token >>= f) (check token >>= g) := by
  intro r hr
  rw [bind_apply, bind_apply, check_apply]
  by_cases h : r.tokens.head? = some token
  · obtain ⟨rest, hrest⟩ := List.head?_eq_some_iff.mp h
    have hk : k = rest.length + 1 := by
      rw [← hr, ← List.length_cons, ← hrest, Reader.tokens, List.length_map]
    rw [decide_eq_true h]
    exact htrue _ hk r hr
  · rw [decide_eq_false h]
    exact hfalse r hr

private theorem alike_ifEat {token : Token} {p p' q q' : Parser α}
    (hp : ∀ k', k = k' + 1 → Alike k' (j - 1) p p') (hq : Alike k j q q') :
    Alike k j (do if ← eat token then p else q) (do if ← eat token then p' else q') := by
  intro r hr
  rw [bind_apply, bind_apply, eat_apply]
  by_cases h : r.tokens.head? = some token
  · obtain ⟨rest, hrest⟩ := List.head?_eq_some_iff.mp h
    have hk : k = rest.length + 1 := by
      rw [← hr, ← List.length_cons, ← hrest, Reader.tokens, List.length_map]
    subst hk
    rw [if_pos h]
    exact alike_advance (f := fun _ => p) (g := fun _ => p') (hp _ rfl) r hr
  · rw [if_neg h]
    exact hq r hr

private theorem alike_ifCloses {p p' q q' : Parser α} (hp : Alike k j p p')
    (hq : 0 < k → Alike k j q q') :
    Alike k j (do if ← closes then p else q) (do if ← closes then p' else q') := by
  intro r hr
  rw [bind_apply, bind_apply, closes_apply]
  cases hc : r.tokens.head?.all (· = .symbol .rightBrace) with
  | true => exact hp r hr
  | false =>
    refine hq (Nat.pos_of_ne_zero fun hk => ?_) r hr
    have hnil : r.rest = [] := List.eq_nil_of_length_eq_zero (hr.trans hk)
    simp [Reader.tokens, hnil] at hc

private theorem alike_ifAtEnd {p p' q q' : Parser α} (hp : Alike k j p p')
    (hq : 0 < k → Alike k j q q') :
    Alike k j (do if ← atEnd then p else q) (do if ← atEnd then p' else q') := by
  intro r hr
  rw [bind_apply, bind_apply, atEnd_apply]
  cases hc : r.tokens.isEmpty with
  | true => exact hp r hr
  | false =>
    refine hq (Nat.pos_of_ne_zero fun hk => ?_) r hr
    have hnil : r.rest = [] := List.eq_nil_of_length_eq_zero (hr.trans hk)
    simp [Reader.tokens, hnil] at hc

private theorem alike_expect (token : Token) (what : String) :
    Alike k 1 (expect token what) (expect token what) :=
  alike_ifEat (fun _ _ => .pure) (alike_fail what)

private theorem alike_expectName (what : String) :
    Alike k 1 (expectName what) (expectName what) := by
  apply alike_peek
  · exact fun _ => alike_fail what
  · intro k' token hk
    subst hk
    cases token with
    | identifier name => exact alike_advance .pure
    | _ => exact alike_fail what

private theorem alike_after {token : Token} {p q : Parser α}
    (h : ∀ k', k = k' + 1 → Alike k' 0 p q) :
    Alike k 0 (after token p) (after token q) :=
  alike_ifEat (fun k' hk => (h k' hk).map) .pure

private theorem alike_before {token : Token} {p q : Parser α} (h : Alike k 0 p q) :
    Alike k 0 (before token p) (before token q) :=
  alike_check (fun _ _ => .pure) h.map

private theorem alike_report (error : Error) (span : Span) :
    Alike k 0 (report error span) (report error span) :=
  fun _ hr => ⟨rfl, Nat.le_of_eq hr⟩

private theorem alike_limit (count : Nat) (error : Error) :
    Alike k 0 (limit count error) (limit count error) := by
  unfold limit
  split
  · exact .pure
  · exact alike_fromSpan fun span => alike_report error span

/-- Where something is ahead, reading with recovery takes a lexeme even if it fails. -/
theorem alike_recover {p q : Parser Stmt} (h : Alike k 1 p q) (hk : 0 < k) :
    Alike k 1 (recover p) (recover q) := by
  intro r hr
  obtain ⟨hsame, htaken⟩ := h r hr
  unfold recover
  rw [← hsame]
  cases hp : p r with
  | ok s r' =>
    rw [hp] at htaken
    exact ⟨rfl, htaken⟩
  | error e r' =>
    rw [hp] at htaken
    have hskip := Reader.length_synchronize { r' with errors := r'.errors.push e }
    refine ⟨rfl, ?_⟩
    simp only at hskip ⊢
    omega

/-! ## Expressions -/

/-- With enough of the bound, one more does not change how expressions are read. -/
structure ExpressionsSettled (n : Nat) : Prop where
  expression : ∀ k, 20 * k + 10 ≤ n → Alike k 1 (expression n) (expression (n + 1))
  operation : ∀ k levels, 20 * k + levels.length + 3 ≤ n →
    Alike k 1 (operation n levels) (operation (n + 1) levels)
  operationTail : ∀ k level tighter start left, 20 * k + tighter.length + 1 ≤ n →
    Alike k 0 (operationTail n level tighter start left)
      (operationTail (n + 1) level tighter start left)
  unary : ∀ k, 20 * k + 2 ≤ n → Alike k 1 (unary n) (unary (n + 1))
  callTail : ∀ k start callee, 20 * k + 1 ≤ n →
    Alike k 0 (callTail n start callee) (callTail (n + 1) start callee)
  arguments : ∀ k count, 20 * k + 11 ≤ n → Alike k 1 (arguments n count) (arguments (n + 1) count)
  primary : ∀ k, 20 * k + 1 ≤ n → Alike k 1 (primary n) (primary (n + 1))

private theorem expressionsSettled_zero : ExpressionsSettled 0 := by
  constructor <;> intros <;> omega

section
variable {n : Nat} (ih : ExpressionsSettled n)
include ih

private theorem alike_expression (k : Nat) (hk : 20 * k + 10 ≤ n + 1) :
    Alike k 1 (expression (n + 1)) (expression (n + 2)) := by
  rw [expression, expression]
  refine alike_fromStart fun start => ?_
  have hlevels : 20 * k + levels.length + 3 ≤ n := by
    simp only [levels, List.length_cons, List.length_nil]
    omega
  refine (ih.operation k levels hlevels).bind fun target k₁ hk₁ => ?_
  apply alike_check
  · rintro k₂ rfl
    refine alike_fromSpan fun sign => alike_advance ?_
    refine (ih.expression k₂ (by omega)).bind fun value k₃ hk₃ => ?_
    refine alike_spanFrom start fun span => ?_
    split
    · exact .pure
    · exact .pure
    · exact (alike_report _ _).bind fun _ _ _ => .pure
  · exact .pure

private theorem alike_operation (k : Nat) (levels : List Level)
    (hk : 20 * k + levels.length + 3 ≤ n + 1) :
    Alike k 1 (operation (n + 1) levels) (operation (n + 2) levels) := by
  cases levels with
  | nil =>
    rw [operation, operation]
    exact ih.unary k (by omega)
  | cons level tighter =>
    rw [List.length_cons] at hk
    rw [operation, operation]
    refine alike_fromStart fun start => ?_
    refine (ih.operation k tighter (by omega)).bind fun left k₁ hk₁ => ?_
    exact ih.operationTail k₁ level tighter start left (by omega)

private theorem alike_operationTail (k : Nat) (level : Level) (tighter : List Level) (start : Nat)
    (left : Expr) (hk : 20 * k + tighter.length + 1 ≤ n + 1) :
    Alike k 0 (operationTail (n + 1) level tighter start left)
      (operationTail (n + 2) level tighter start left) := by
  rw [operationTail, operationTail]
  apply alike_peek
  · exact fun _ => .pure
  · rintro k₁ token rfl
    cases hop : (some token).bind level with
    | none => exact .pure
    | some op =>
      apply alike_advance
      refine (ih.operation k₁ tighter (by omega)).bind fun right k₂ hk₂ => ?_
      refine alike_spanFrom start fun span => ?_
      exact ih.operationTail k₂ level tighter start _ (by omega)

private theorem alike_unary (k : Nat) (hk : 20 * k + 2 ≤ n + 1) :
    Alike k 1 (unary (n + 1)) (unary (n + 2)) := by
  have hcall (start : Nat) : Alike k 1 (primary n >>= callTail n start)
      (primary (n + 1) >>= callTail (n + 1) start) :=
    (ih.primary k (by omega)).bind fun callee k₁ hk₁ => ih.callTail k₁ start callee (by omega)
  rw [unary, unary]
  refine alike_fromStart fun start => ?_
  apply alike_peek
  · exact fun _ => hcall start
  · rintro k₁ token rfl
    cases hop : (some token).bind unaryOp? with
    | none => exact hcall start
    | some op =>
      apply alike_advance
      refine (ih.unary k₁ (by omega)).bind fun operand k₂ hk₂ => ?_
      exact alike_spanFrom start fun span => .pure

private theorem alike_callTail (k start : Nat) (callee : Expr) (hk : 20 * k + 1 ≤ n + 1) :
    Alike k 0 (callTail (n + 1) start callee) (callTail (n + 2) start callee) := by
  rw [callTail, callTail]
  apply alike_ifEat
  · rintro k₁ rfl
    refine (alike_before ((ih.arguments k₁ 0 (by omega)).mono (Nat.zero_le 1))).bind
      fun args k₂ hk₂ => ?_
    refine (alike_expect _ _).bind fun _ k₃ hk₃ => ?_
    refine alike_spanFrom start fun span => ?_
    exact ih.callTail k₃ start _ (by omega)
  apply alike_ifEat
  · rintro k₁ rfl
    refine (alike_expectName _).bind fun name k₂ hk₂ => ?_
    refine alike_spanFrom start fun span => ?_
    exact ih.callTail k₂ start _ (by omega)
  · exact .pure

private theorem alike_arguments (k count : Nat) (hk : 20 * k + 11 ≤ n + 1) :
    Alike k 1 (arguments (n + 1) count) (arguments (n + 2) count) := by
  rw [arguments, arguments]
  refine (alike_limit _ _).bind fun _ k₁ hk₁ => ?_
  refine (ih.expression k₁ (by omega)).bind fun first k₂ hk₂ => ?_
  have hothers : Alike k₂ 0 (after (.symbol .comma) (arguments n (count + 1)))
      (after (.symbol .comma) (arguments (n + 1) (count + 1))) :=
    alike_after fun k₃ hk₃ => (ih.arguments k₃ (count + 1) (by omega)).mono (Nat.zero_le 1)
  exact hothers.bind fun others _ _ => .pure

private theorem alike_primary (k : Nat) (hk : 20 * k + 1 ≤ n + 1) :
    Alike k 1 (primary (n + 1)) (primary (n + 2)) := by
  rw [primary, primary]
  refine alike_fromStart fun start => ?_
  apply alike_peek
  · exact fun _ => alike_fail _
  · rintro k₁ token rfl
    split
    · exact alike_advance (alike_spanFrom start fun span => .pure)
    · exact alike_advance (alike_spanFrom start fun span => .pure)
    · apply alike_advance
      refine (ih.expression k₁ (by omega)).bind fun inner k₂ hk₂ => ?_
      refine (alike_expect _ _).bind fun _ k₃ hk₃ => ?_
      exact alike_spanFrom start fun span => .pure
    · apply alike_advance
      refine (alike_expect _ _).bind fun _ k₂ hk₂ => ?_
      refine (alike_expectName _).bind fun method k₃ hk₃ => ?_
      exact alike_spanFrom start fun span => .pure
    · split
      · exact alike_advance (alike_spanFrom start fun span => .pure)
      · exact alike_fail _

end

private theorem expressionsSettled (n : Nat) : ExpressionsSettled n := by
  induction n with
  | zero => exact expressionsSettled_zero
  | succ n ih =>
    exact ⟨alike_expression ih, alike_operation ih, alike_operationTail ih, alike_unary ih,
      alike_callTail ih, alike_arguments ih, alike_primary ih⟩

/-! ## Statements and declarations -/

private theorem alike_parameters (n k count : Nat) (hk : 20 * k + 1 ≤ n) :
    Alike k 1 (parameters n count) (parameters (n + 1) count) := by
  induction n generalizing k count with
  | zero => omega
  | succ n ih =>
    rw [parameters, parameters]
    refine (alike_limit _ _).bind fun _ k₁ hk₁ => ?_
    refine (alike_expectName _).bind fun first k₂ hk₂ => ?_
    have hothers : Alike k₂ 0 (after (.symbol .comma) (parameters n (count + 1)))
        (after (.symbol .comma) (parameters (n + 1) (count + 1))) :=
      alike_after fun k₃ hk₃ => (ih k₃ (count + 1) (by omega)).mono (Nat.zero_le 1)
    exact hothers.bind fun others _ _ => .pure

private theorem alike_optional (n k : Nat) (token : Token) (hk : 20 * k + 10 ≤ n) :
    Alike k 0 (before token (expression n)) (before token (expression (n + 1))) :=
  alike_before (((expressionsSettled n).expression k hk).mono (Nat.zero_le 1))

private theorem alike_exprStmt (n k : Nat) (hk : 20 * k + 10 ≤ n) :
    Alike k 1 (exprStmt n) (exprStmt (n + 1)) := by
  refine alike_fromStart fun start => ?_
  refine ((expressionsSettled n).expression k hk).bind fun value k₁ hk₁ => ?_
  refine (alike_expect _ _).bind fun _ k₂ hk₂ => ?_
  exact alike_spanFrom start fun span => .pure

private theorem alike_varDecl (n k start : Nat) (hk : 20 * k ≤ n) :
    Alike k 1 (varDecl n start) (varDecl (n + 1) start) := by
  refine (alike_expectName _).bind fun name k₁ hk₁ => ?_
  have hvalue : Alike k₁ 0 (after (.symbol .equal) (expression n))
      (after (.symbol .equal) (expression (n + 1))) :=
    alike_after fun k₂ hk₂ =>
      ((expressionsSettled n).expression k₂ (by omega)).mono (Nat.zero_le 1)
  refine hvalue.bind fun value k₂ hk₂ => ?_
  refine (alike_expect _ _).bind fun _ k₃ hk₃ => ?_
  exact alike_spanFrom start fun span => .pure

private theorem alike_superclassRef (k : Nat) : Alike k 0 superclassRef superclassRef := by
  refine alike_fromSpan fun span => ?_
  exact (alike_expectName _).bind fun name _ _ => .pure

private theorem alike_forInit (n k : Nat) (hk : 20 * k + 10 ≤ n) :
    Alike k 1 (forInit n) (forInit (n + 1)) := by
  refine alike_fromStart fun start => ?_
  apply alike_ifEat
  · exact fun _ _ => .pure
  apply alike_ifEat
  · exact fun k₁ hk₁ => ((alike_varDecl n k₁ start (by omega)).map).mono (Nat.zero_le 1)
  · exact (alike_exprStmt n k hk).map

structure StatementsSettled (n : Nat) : Prop where
  declaration : ∀ k, 20 * k + 12 ≤ n → Alike k 1 (declaration n) (declaration (n + 1))
  declarations : ∀ k, 20 * k + 13 ≤ n → Alike k 0 (declarations n) (declarations (n + 1))
  block : ∀ k, 20 * k + 14 ≤ n → Alike k 1 (block n) (block (n + 1))
  function : ∀ k kind start, 20 * k + 1 ≤ n →
    Alike k 1 (function n kind start) (function (n + 1) kind start)
  methods : ∀ k, 20 * k + 2 ≤ n → Alike k 0 (methods n) (methods (n + 1))
  classDecl : ∀ k start, 20 * k + 1 ≤ n → Alike k 1 (classDecl n start) (classDecl (n + 1) start)
  statement : ∀ k, 20 * k + 11 ≤ n → Alike k 1 (statement n) (statement (n + 1))

private theorem statementsSettled_zero : StatementsSettled 0 := by
  constructor <;> intros <;> omega

section
variable {n : Nat} (ih : StatementsSettled n)
include ih

private theorem alike_declaration (k : Nat) (hk : 20 * k + 12 ≤ n + 1) :
    Alike k 1 (declaration (n + 1)) (declaration (n + 2)) := by
  rw [declaration, declaration]
  refine alike_fromStart fun start => ?_
  apply alike_ifEat
  · exact fun k₁ hk₁ => (ih.classDecl k₁ start (by omega)).mono (Nat.zero_le 1)
  apply alike_ifEat
  · exact fun k₁ hk₁ => ((ih.function k₁ _ start (by omega)).map).mono (Nat.zero_le 1)
  apply alike_ifEat
  · exact fun k₁ hk₁ => (alike_varDecl n k₁ start (by omega)).mono (Nat.zero_le 1)
  · exact ih.statement k (by omega)

private theorem alike_declarations (k : Nat) (hk : 20 * k + 13 ≤ n + 1) :
    Alike k 0 (declarations (n + 1)) (declarations (n + 2)) := by
  rw [declarations, declarations]
  apply alike_ifCloses
  · exact .pure
  · intro hpos
    refine (alike_recover (ih.declaration k (by omega)) hpos).bind fun first k₁ hk₁ => ?_
    refine (ih.declarations k₁ (by omega)).bind fun others k₂ hk₂ => ?_
    exact .pure

private theorem alike_block (k : Nat) (hk : 20 * k + 14 ≤ n + 1) :
    Alike k 1 (block (n + 1)) (block (n + 2)) := by
  rw [block, block]
  refine (ih.declarations k (by omega)).bind fun body k₁ hk₁ => ?_
  exact (alike_expect _ _).bind fun _ _ _ => .pure

private theorem alike_function (k : Nat) (kind : String) (start : Nat) (hk : 20 * k + 1 ≤ n + 1) :
    Alike k 1 (function (n + 1) kind start) (function (n + 2) kind start) := by
  rw [function, function]
  refine (alike_expectName _).bind fun name k₁ hk₁ => ?_
  refine (alike_expect _ _).bind fun _ k₂ hk₂ => ?_
  refine (alike_before ((alike_parameters n k₂ 0 (by omega)).mono (Nat.zero_le 1))).bind
    fun params k₃ hk₃ => ?_
  refine (alike_expect _ _).bind fun _ k₄ hk₄ => ?_
  refine (alike_expect _ _).bind fun _ k₅ hk₅ => ?_
  refine (ih.block k₅ (by omega)).bind fun body k₆ hk₆ => ?_
  exact alike_spanFrom start fun span => .pure

private theorem alike_methods (k : Nat) (hk : 20 * k + 2 ≤ n + 1) :
    Alike k 0 (methods (n + 1)) (methods (n + 2)) := by
  rw [methods, methods]
  apply alike_ifCloses
  · exact .pure
  · intro _
    refine alike_fromStart fun start => ?_
    refine (ih.function k _ start (by omega)).bind fun first k₁ hk₁ => ?_
    refine (ih.methods k₁ (by omega)).bind fun others k₂ hk₂ => ?_
    exact .pure

private theorem alike_classDecl (k start : Nat) (hk : 20 * k + 1 ≤ n + 1) :
    Alike k 1 (classDecl (n + 1) start) (classDecl (n + 2) start) := by
  rw [classDecl, classDecl]
  refine (alike_expectName _).bind fun name k₁ hk₁ => ?_
  refine (alike_after fun k₂ hk₂ => alike_superclassRef k₂).bind fun superclass k₂ hk₂ => ?_
  refine (alike_expect _ _).bind fun _ k₃ hk₃ => ?_
  refine (ih.methods k₃ (by omega)).bind fun methods k₄ hk₄ => ?_
  refine (alike_expect _ _).bind fun _ k₅ hk₅ => ?_
  exact alike_spanFrom start fun span => .pure

private theorem alike_statement (k : Nat) (hk : 20 * k + 11 ≤ n + 1) :
    Alike k 1 (statement (n + 1)) (statement (n + 2)) := by
  have hexpr := (expressionsSettled n).expression
  rw [statement, statement]
  refine alike_fromStart fun start => ?_
  apply alike_ifEat
  · rintro k₁ rfl
    refine (alike_expect _ _).bind fun _ k₂ hk₂ => ?_
    refine (alike_forInit n k₂ (by omega)).bind fun init k₃ hk₃ => ?_
    refine (alike_optional n k₃ _ (by omega)).bind fun condition k₄ hk₄ => ?_
    refine (alike_expect _ _).bind fun _ k₅ hk₅ => ?_
    refine (alike_optional n k₅ _ (by omega)).bind fun increment k₆ hk₆ => ?_
    refine (alike_expect _ _).bind fun _ k₇ hk₇ => ?_
    refine (ih.statement k₇ (by omega)).bind fun body k₈ hk₈ => ?_
    exact alike_spanFrom start fun span => .pure
  apply alike_ifEat
  · rintro k₁ rfl
    refine (alike_expect _ _).bind fun _ k₂ hk₂ => ?_
    refine (hexpr k₂ (by omega)).bind fun condition k₃ hk₃ => ?_
    refine (alike_expect _ _).bind fun _ k₄ hk₄ => ?_
    refine (ih.statement k₄ (by omega)).bind fun yes k₅ hk₅ => ?_
    refine (alike_after fun k₆ hk₆ => (ih.statement k₆ (by omega)).mono (Nat.zero_le 1)).bind
      fun no k₆ hk₆ => ?_
    exact alike_spanFrom start fun span => .pure
  apply alike_ifEat
  · rintro k₁ rfl
    refine (hexpr k₁ (by omega)).bind fun value k₂ hk₂ => ?_
    refine (alike_expect _ _).bind fun _ k₃ hk₃ => ?_
    exact alike_spanFrom start fun span => .pure
  apply alike_ifEat
  · rintro k₁ rfl
    refine (alike_optional n k₁ _ (by omega)).bind fun value k₂ hk₂ => ?_
    refine (alike_expect _ _).bind fun _ k₃ hk₃ => ?_
    exact alike_spanFrom start fun span => .pure
  apply alike_ifEat
  · rintro k₁ rfl
    refine (alike_expect _ _).bind fun _ k₂ hk₂ => ?_
    refine (hexpr k₂ (by omega)).bind fun condition k₃ hk₃ => ?_
    refine (alike_expect _ _).bind fun _ k₄ hk₄ => ?_
    refine (ih.statement k₄ (by omega)).bind fun body k₅ hk₅ => ?_
    exact alike_spanFrom start fun span => .pure
  apply alike_ifEat
  · rintro k₁ rfl
    refine (ih.block k₁ (by omega)).bind fun body k₂ hk₂ => ?_
    exact alike_spanFrom start fun span => .pure
  · exact alike_exprStmt n k (by omega)

end

theorem statementsSettled (n : Nat) : StatementsSettled n := by
  induction n with
  | zero => exact statementsSettled_zero
  | succ n ih =>
    exact ⟨alike_declaration ih, alike_declarations ih, alike_block ih, alike_function ih,
      alike_methods ih, alike_classDecl ih, alike_statement ih⟩

theorem alike_program (n k : Nat) (hk : 20 * k + 13 ≤ n) :
    Alike k 0 (program n) (program (n + 1)) := by
  induction n generalizing k with
  | zero => omega
  | succ n ih =>
    rw [program, program]
    apply alike_ifAtEnd
    · exact .pure
    · intro hpos
      refine (alike_recover ((statementsSettled n).declaration k (by omega)) hpos).bind
        fun first k₁ hk₁ => ?_
      refine (ih k₁ (by omega)).bind fun others k₂ hk₂ => ?_
      exact .pure

private theorem program_eq_of_le {n m : Nat} {r : Reader} (hn : 20 * r.rest.length + 13 ≤ n)
    (h : n ≤ m) :
    program m r = program n r := by
  obtain ⟨d, rfl⟩ := Nat.exists_eq_add_of_le h
  induction d with
  | zero => rfl
  | succ d ih =>
    have hstep := (alike_program (n + d) r.rest.length (by omega) r rfl).1
    exact hstep.symm.trans (ih (Nat.le_add_right n d))

theorem program_ok (n : Nat) (r : Reader) : ∃ stmts r', program n r = .ok stmts r' := by
  induction n generalizing r with
  | zero => exact ⟨[], r, rfl⟩
  | succ n ih =>
    rw [program, bind_apply, atEnd_apply]
    cases r.tokens.isEmpty with
    | true => exact ⟨[], r, rfl⟩
    | false =>
      obtain ⟨first, r₁, hfirst⟩ : ∃ first r₁, recover (declaration n) r = .ok first r₁ := by
        unfold recover
        split
        · exact ⟨_, _, rfl⟩
        · exact ⟨_, _, rfl⟩
      obtain ⟨others, r₂, hothers⟩ := ih r₁
      refine ⟨first.toList ++ others, r₂, ?_⟩
      simp only [Bool.false_eq_true, if_false]
      rw [bind_apply, hfirst]
      simp only [bind_apply, hothers]
      rfl

end Parser

def Reader.opening (source : String) : Reader where
  rest := Item.lexemes (items source)
  last := none
  errors := (Item.errors (items source)).toArray
  sourceEnd := source.utf8ByteSize

/-- A source is read in the same way with every bound that is large enough. -/
theorem program_opening {source : String} {n : Nat}
    (h : Parser.depth (Reader.opening source).rest ≤ n) :
    ∃ r, Parser.program n (Reader.opening source) = .ok (parse source).program r ∧
      r.errors.toList = (parse source).errors := by
  have hdepth : 20 * (Reader.opening source).rest.length + 13 ≤
      Parser.depth (Reader.opening source).rest := by
    unfold Parser.depth
    omega
  rw [Parser.program_eq_of_le hdepth h]
  obtain ⟨stmts, r, hread⟩ := Parser.program_ok (Parser.depth (Reader.opening source).rest)
    (Reader.opening source)
  have hparse : parse source = ⟨stmts, r.errors.toList⟩ := by
    unfold parse
    simp only [Reader.opening] at hread
    simp only [hread]
  rw [hparse]
  exact ⟨r, hread, rfl⟩

end LoxLang
