import LoxLang.Proofs.Grammar.First
import LoxLang.Proofs.Grammar.Reading
/-!
# What is read is derived

A reader that records no error has read a phrase: the tokens it passed over
derive the tree that it returns. The claim is shown for all functions at once, by
induction on the bound on their depth.
-/
namespace LoxLang.Grammar
open Token LoxLang.Parser

/-! ## Operators and targets -/

theorem infix_of_level {k : Nat} {level : Level} {token : Token} {op : Operator}
    (hk : levels[k]? = some level) (h : level token = some op) : Infix k token op := by
  match k with
  | 0 | 1 | 2 | 3 | 4 | 5 =>
    simp only [levels, List.getElem?_cons_zero, List.getElem?_cons_succ, Option.some.injEq] at hk
    subst hk
    simp only at h
    split at h <;> simp only [Option.some.injEq, reduceCtorEq] at h <;> subst h <;> constructor
  | k + 6 => simp [levels] at hk

theorem prefix_of_unaryOp {token : Token} {op : UnaryOp} (h : unaryOp? token = some op) :
    Prefix token op := by
  unfold unaryOp? at h
  split at h <;> simp only [Option.some.injEq, reduceCtorEq] at h <;> subst h <;> constructor

theorem constant_of_literal {token : Token} {value : Literal} (h : literal? token = some value) :
    Constant token value := by
  unfold literal? at h
  split at h <;> simp only [Option.some.injEq, reduceCtorEq] at h <;> subst h <;> constructor

theorem drop_levels {k : Nat} {level : Level} {tighter : List Level}
    (h : levels.drop k = level :: tighter) :
    k < 6 ∧ levels[k]? = some level ∧ tighter = levels.drop (k + 1) := by
  have hk : levels[k]? = some level := by rw [← List.head?_drop, h, List.head?_cons]
  refine ⟨(List.getElem?_eq_some_iff.mp hk).1, hk, ?_⟩
  rw [← List.tail_drop, h, List.tail_cons]

private theorem Derives.operator {k : Nat} {span : Span} {left right : List Token} {a b : Expr}
    {token : Token} {op : Operator} (hleft : Derives (.operation k) left a)
    (hop : Infix k token op) (hright : Derives (.operation (k + 1)) right b) :
    Derives (.operation k) (left ++ token :: right) (op.apply span a b) := by
  cases op with
  | binary op => exact .binary hleft hop hright
  | logical op => exact .logical hleft hop hright

/-- What is known of the tokens of an expression that could be assigned to. -/
def TargetTokens (ts : List Token) : Expr → Prop
  | .var _ ref => ts = [identifier ref.name] ∧ ref.distance = none
  | .get _ o name =>
    ∃ object, ts = object ++ [symbol .dot, identifier name] ∧ Derives .call object o
  | _ => True

/-- Phrases without an assignment outside of parentheses are targets only if they look so. -/
def Target : (phrase : Phrase) → List Token → phrase.Tree → Prop
  | .operation _, ts, e | .unary, ts, e | .call, ts, e | .primary, ts, e => TargetTokens ts e
  | _, _, _ => True

private theorem target_of_derives {phrase : Phrase} {ts : List Token} {t : phrase.Tree}
    (h : Derives phrase ts t) : Target phrase ts t := by
  induction h with
  | binary | logical => trivial
  | tighter _ ih => exact ih
  | operand _ ih => exact ih
  | chain _ ih => exact ih
  | primary _ ih => exact ih
  | get h => exact ⟨_, rfl, h⟩
  | name => exact ⟨rfl, rfl⟩
  | _ => trivial

/-! ## Expressions -/

/-- A phrase stands at the front of the tokens ahead, and the rest are the tokens after it. -/
def Front (phrase : Phrase) (ahead : List Token) (t : phrase.Tree) (rest : List Token) : Prop :=
  ∃ ts, ahead = ts ++ rest ∧ Derives phrase ts t

/-- The readers of expressions, up to a given depth, read phrases. -/
structure ExpressionsSound (n : Nat) : Prop where
  expression : Reads (expression n) (Front .expression)
  operation : ∀ k ≤ 6, Reads (operation n (levels.drop k)) (Front (.operation k))
  operationTail : ∀ {k level tighter} start left, levels.drop k = level :: tighter →
    Reads (operationTail n level tighter start left) fun s e t =>
      ∀ ts, Derives (.operation k) ts left → ∃ us, s = us ++ t ∧ Derives (.operation k) (ts ++ us) e
  unary : Reads (unary n) (Front .unary)
  callTail : ∀ start callee, Reads (callTail n start callee) fun s e t =>
    ∀ ts, Derives .call ts callee → ∃ us, s = us ++ t ∧ Derives .call (ts ++ us) e
  arguments : ∀ count, Reads (arguments n count) fun s es t =>
    Front .arguments s es t ∧ count + es.length ≤ maxArguments
  primary : Reads (primary n) (Front .primary)

private theorem expressionsSound_zero : ExpressionsSound 0 where
  expression := reads_fail _
  operation _ _ := reads_fail _
  operationTail _ _ _ := reads_fail _
  unary := reads_fail _
  callTail _ _ := reads_fail _
  arguments _ := reads_fail _
  primary := reads_fail _

private theorem reads_assignment (span : Span) (target value : Expr) (sign : Span) :
    Reads (match target with
      | .var _ ref => return .assign span ⟨ref.name, none⟩ value
      | .get _ object name => return .set span object name value
      | _ => do
        report .invalidAssignTarget sign
        return target : Parser Expr)
      (fun s e t => t = s ∧ ∀ ts us, Derives (.operation 0) ts target →
        Derives .expression us value → Derives .expression (ts ++ symbol .equal :: us) e) := by
  split
  · apply Reads.pure
    intro s
    refine ⟨rfl, fun ts us hts hus => ?_⟩
    obtain ⟨rfl, -⟩ := target_of_derives hts
    exact .assignVariable hus
  · apply Reads.pure
    intro s
    refine ⟨rfl, fun ts us hts hus => ?_⟩
    obtain ⟨object, rfl, ho⟩ := target_of_derives hts
    simpa using Derives.assignProperty ho hus
  · refine (reads_report (P := fun _ _ _ => False) _ _).bind fun _ => ?_
    exact .pure fun _ _ h => h.elim

section
variable {n : Nat} (ih : ExpressionsSound n)
include ih

private theorem reads_expression : Reads (expression (n + 1)) (Front .expression) := by
  rw [expression]
  refine reads_fromStart fun start => ?_
  refine (ih.operation 0 (Nat.zero_le 6)).bind fun target => ?_
  apply reads_ifCheck
  · refine reads_fromSpan fun sign => ?_
    apply reads_advance
    refine ih.expression.bind fun value => ?_
    refine reads_spanFrom start fun span => ?_
    apply (reads_assignment span target value sign).mono
    intro m e t h s hvalue s' htarget
    obtain ⟨rfl, hassign⟩ := h
    obtain ⟨us, rfl, hus⟩ := hvalue
    obtain ⟨ts, rfl, hts⟩ := htarget
    exact ⟨ts ++ symbol .equal :: us, by simp, hassign ts us hts hus⟩
  · apply Reads.pure
    intro t s htarget
    obtain ⟨ts, rfl, hts⟩ := htarget
    exact ⟨ts, rfl, .operation hts⟩

private theorem reads_operation (k : Nat) (hk : k ≤ 6) :
    Reads (operation (n + 1) (levels.drop k)) (Front (.operation k)) := by
  cases hl : levels.drop k with
  | nil =>
    obtain rfl : k = 6 := by
      have hlen := congrArg List.length hl
      simp only [levels, List.length_drop, List.length_cons, List.length_nil] at hlen
      omega
    rw [operation]
    apply ih.unary.mono
    intro s e t h
    obtain ⟨ts, rfl, hts⟩ := h
    exact ⟨ts, rfl, .operand hts⟩
  | cons level tighter =>
    obtain ⟨hlt, -, rfl⟩ := drop_levels hl
    rw [operation]
    refine reads_fromStart fun start => ?_
    refine (ih.operation (k + 1) hlt).bind fun left => ?_
    apply (ih.operationTail start left hl).mono
    intro m e t h s hleft
    obtain ⟨ts, rfl, hts⟩ := hleft
    obtain ⟨us, rfl, hus⟩ := h ts (.tighter hts)
    exact ⟨ts ++ us, by simp, hus⟩

private theorem reads_operationTail {k : Nat} {level : Level} {tighter : List Level} (start : Nat)
    (left : Expr) (hl : levels.drop k = level :: tighter) :
    Reads (operationTail (n + 1) level tighter start left) (fun s e t =>
      ∀ ts, Derives (.operation k) ts left →
        ∃ us, s = us ++ t ∧ Derives (.operation k) (ts ++ us) e) := by
  obtain ⟨hlt, hlevel, rfl⟩ := drop_levels hl
  rw [operationTail]
  refine reads_peek fun next => ?_
  split
  · rename_i op hop
    obtain ⟨token, rfl, hop⟩ := Option.bind_eq_some_iff.mp hop
    apply reads_advance
    refine (ih.operation (k + 1) hlt).bind fun right => ?_
    refine reads_spanFrom start fun span => ?_
    apply (ih.operationTail start (op.apply span left right) hl).mono
    intro m e t h s hright ts hts
    obtain ⟨vs, rfl, hvs⟩ := hright
    obtain ⟨us, rfl, hus⟩ := h _ (.operator hts (infix_of_level hlevel hop) hvs)
    exact ⟨token :: vs ++ us, by simp, by simpa using hus⟩
  · apply Reads.pure
    intro s _ ts hts
    exact ⟨[], by simp, by simpa using hts⟩

private theorem reads_unary : Reads (unary (n + 1)) (Front .unary) := by
  rw [unary]
  refine reads_fromStart fun start => ?_
  refine reads_peek fun next => ?_
  split
  · rename_i op hop
    obtain ⟨token, rfl, hop⟩ := Option.bind_eq_some_iff.mp hop
    apply reads_advance
    refine ih.unary.bind fun operand => ?_
    refine reads_spanFrom start fun span => ?_
    apply Reads.pure
    intro t s hoperand
    obtain ⟨ts, rfl, hts⟩ := hoperand
    exact ⟨token :: ts, rfl, .unary (prefix_of_unaryOp hop) hts⟩
  · refine ih.primary.bind fun callee => ?_
    apply (ih.callTail start callee).mono
    intro m e t h s hcallee _
    obtain ⟨ts, rfl, hts⟩ := hcallee
    obtain ⟨us, rfl, hus⟩ := h ts (.primary hts)
    exact ⟨ts ++ us, by simp, .chain hus⟩

private theorem reads_callTail (start : Nat) (callee : Expr) :
    Reads (callTail (n + 1) start callee) (fun s e t =>
      ∀ ts, Derives .call ts callee → ∃ us, s = us ++ t ∧ Derives .call (ts ++ us) e) := by
  rw [callTail]
  apply reads_ifEat
  · refine (reads_before (symbol .rightParen) (ih.arguments 0)).bind fun args => ?_
    apply reads_expect
    refine reads_spanFrom start fun span => ?_
    apply (ih.callTail start (.call span callee (args.getD []))).mono
    intro m e t h s hargs ts hts
    rcases hargs with ⟨rfl, rfl⟩ | ⟨es, rfl, ⟨as, rfl, has⟩, hlen⟩
    · obtain ⟨us, rfl, hus⟩ := h _ (.callEmpty hts)
      exact ⟨[symbol .leftParen, symbol .rightParen] ++ us, by simp, by simpa using hus⟩
    · obtain ⟨us, rfl, hus⟩ := h _ (.call hts has (by simpa [maxArguments] using hlen))
      exact ⟨symbol .leftParen :: as ++ symbol .rightParen :: us, by simp, by simpa using hus⟩
  apply reads_ifEat
  · refine reads_expectName fun name => ?_
    refine reads_spanFrom start fun span => ?_
    apply (ih.callTail start (.get span callee name)).mono
    intro m e t h ts hts
    obtain ⟨us, rfl, hus⟩ := h _ (.get hts)
    exact ⟨symbol .dot :: identifier name :: us, by simp, by simpa using hus⟩
  · apply Reads.pure
    intro s ts hts
    exact ⟨[], by simp, by simpa using hts⟩

private theorem reads_arguments (count : Nat) :
    Reads (arguments (n + 1) count) (fun s es t =>
      Front .arguments s es t ∧ count + es.length ≤ maxArguments) := by
  rw [arguments]
  apply reads_limit
  refine ih.expression.bind fun first => ?_
  refine (reads_after (symbol .comma) (ih.arguments (count + 1))).bind fun others => ?_
  apply Reads.pure
  intro t s hothers s' hfirst hlt
  obtain ⟨ts, rfl, hts⟩ := hfirst
  rcases hothers with ⟨m, others, rfl, rfl, ⟨us, rfl, hus⟩, hlen⟩ | ⟨-, rfl, rfl⟩
  · refine ⟨⟨ts ++ symbol .comma :: us, by simp, .moreArguments hts hus⟩, ?_⟩
    simp only [Option.getD_some, List.length_cons]
    omega
  · exact ⟨⟨ts, rfl, .lastArgument hts⟩, hlt⟩

private theorem reads_primary : Reads (primary (n + 1)) (Front .primary) := by
  rw [primary]
  refine reads_fromStart fun start => ?_
  refine reads_peek fun next => ?_
  split
  · apply reads_advance
    refine reads_spanFrom start fun span => ?_
    exact .pure fun _ => ⟨[keyword .kwThis], rfl, .this⟩
  · rename_i name
    apply reads_advance
    refine reads_spanFrom start fun span => ?_
    exact .pure fun _ => ⟨[identifier name], rfl, .name⟩
  · apply reads_advance
    refine ih.expression.bind fun inner => ?_
    apply reads_expect
    refine reads_spanFrom start fun span => ?_
    apply Reads.pure
    intro t s hinner
    obtain ⟨ts, rfl, hts⟩ := hinner
    exact ⟨symbol .leftParen :: ts ++ [symbol .rightParen], by simp, .grouping hts⟩
  · apply reads_advance
    apply reads_expect
    refine reads_expectName fun method => ?_
    refine reads_spanFrom start fun span => ?_
    exact .pure fun _ => ⟨[keyword .kwSuper, symbol .dot, identifier method], rfl, .super⟩
  · split
    · rename_i value hvalue
      obtain ⟨token, rfl, hliteral⟩ := Option.bind_eq_some_iff.mp hvalue
      apply reads_advance
      refine reads_spanFrom start fun span => ?_
      exact .pure fun _ => ⟨[token], rfl, .constant (constant_of_literal hliteral)⟩
    · exact reads_fail _

end

private theorem expressionsSound (n : Nat) : ExpressionsSound n := by
  induction n with
  | zero => exact expressionsSound_zero
  | succ n ih =>
    exact ⟨reads_expression ih, reads_operation ih, reads_operationTail ih, reads_unary ih,
      reads_callTail ih, reads_arguments ih, reads_primary ih⟩

/-! ## Statements and declarations -/

private theorem reads_parameters (n count : Nat) :
    Reads (parameters n count) (fun s params t =>
      s = names params ++ t ∧ params ≠ [] ∧ count + params.length ≤ maxArguments) := by
  induction n generalizing count with
  | zero => exact reads_fail _
  | succ n ih =>
    rw [parameters]
    apply reads_limit
    refine reads_expectName fun first => ?_
    refine (reads_after (symbol .comma) (ih (count + 1))).bind fun others => ?_
    apply Reads.pure
    intro t s hothers hlt
    rcases hothers with ⟨_, others, rfl, rfl, rfl, hne, hlen⟩ | ⟨-, rfl, rfl⟩
    · obtain ⟨second, more, rfl⟩ := List.exists_cons_of_ne_nil hne
      refine ⟨by simp [names], by simp, ?_⟩
      simp only [Option.getD_some, List.length_cons] at hlen ⊢
      omega
    · exact ⟨rfl, by simp, hlt⟩

private theorem reads_parameterList (n : Nat) :
    Reads (before (symbol .rightParen) (parameters n 0)) (fun s params t =>
      s = names (params.getD []) ++ t ∧ (params.getD []).length ≤ maxArguments) := by
  apply (reads_before (symbol .rightParen) (reads_parameters n 0)).mono
  intro s _ t h
  rcases h with ⟨rfl, rfl⟩ | ⟨params, rfl, rfl, -, hlen⟩
  · exact ⟨rfl, by simp⟩
  · exact ⟨rfl, by simpa using hlen⟩

private theorem reads_exprStmt (n : Nat) :
    Reads (exprStmt n) (fun s stmt t => ∃ ts span e, s = ts ++ symbol .semicolon :: t ∧
      stmt = .expr span e ∧ Derives .expression ts e) := by
  refine reads_fromStart fun start => ?_
  refine (expressionsSound n).expression.bind fun value => ?_
  apply reads_expect
  refine reads_spanFrom start fun span => ?_
  apply Reads.pure
  intro t s hvalue
  obtain ⟨ts, rfl, hts⟩ := hvalue
  exact ⟨ts, span, value, rfl, rfl, hts⟩

private theorem reads_varDecl (n start : Nat) : Reads (varDecl n start) (Front .binding) := by
  refine reads_expectName fun name => ?_
  refine (reads_after (symbol .equal) (expressionsSound n).expression).bind fun value => ?_
  apply reads_expect
  refine reads_spanFrom start fun span => ?_
  apply Reads.pure
  intro t s hvalue
  rcases hvalue with ⟨m, e, rfl, rfl, ts, rfl, hts⟩ | ⟨-, rfl, rfl⟩
  · exact ⟨identifier name :: symbol .equal :: ts ++ [symbol .semicolon], by simp, .bind hts⟩
  · exact ⟨[identifier name, symbol .semicolon], rfl, .bindEmpty⟩

private theorem reads_forInit (n : Nat) : Reads (forInit n) (Front .initializer) := by
  refine reads_fromStart fun start => ?_
  apply reads_ifEat
  · exact .pure fun _ => ⟨[symbol .semicolon], rfl, .noInitializer⟩
  apply reads_ifEat
  · apply Reads.map
    apply (reads_varDecl n start).mono
    intro m stmt t h
    obtain ⟨ts, rfl, hts⟩ := h
    exact ⟨keyword .kwVar :: ts, rfl, .bindingInitializer hts⟩
  · apply Reads.map
    apply (reads_exprStmt n).mono
    intro s stmt t h
    obtain ⟨ts, span, e, rfl, rfl, hts⟩ := h
    exact ⟨ts ++ [symbol .semicolon], by simp, .exprInitializer hts⟩

private theorem reads_optional (token : Token) (n : Nat) :
    Reads (before token (expression n)) (Front .optional) := by
  apply (reads_before token (expressionsSound n).expression).mono
  intro s value t h
  rcases h with ⟨rfl, rfl⟩ | ⟨e, rfl, ts, rfl, hts⟩
  · exact ⟨[], rfl, .absent⟩
  · exact ⟨ts, rfl, .present hts⟩

theorem counting_forLoop (span : Span) (init : Option Stmt) (condition increment : Option Expr)
    (body : Stmt) :
    ∃ test round, Test condition test ∧ Round increment body round ∧
      Counting init (.loop span test round) (forLoop span init condition increment body) := by
  refine ⟨condition.getD (.literal span (.bool true)), forRound span increment body, ?_, ?_, ?_⟩
  · cases condition <;> constructor
  · cases increment <;> constructor
  · cases init <;> constructor

/-- A statement stands at the front of the tokens ahead. No `else` is left after it that it could
have taken. -/
def StatementFront (ahead : List Token) (stmt : Stmt) (rest : List Token) : Prop :=
  ∃ isOpen ts, ahead = ts ++ rest ∧ Derives (.statement isOpen) ts stmt ∧
    (isOpen = true → rest.head? ≠ some (keyword .kwElse))

structure StatementsSound (n : Nat) : Prop where
  declaration : Reads (declaration n) (Front .declaration)
  declarations : Reads (declarations n) (Front .declarations)
  block : Reads (block n) fun s body t =>
    ∃ ts, s = ts ++ symbol .rightBrace :: t ∧ Derives .declarations ts body
  function : ∀ kind start, Reads (function n kind start) (Front .function)
  methods : Reads (methods n) (Front .methods)
  classDecl : ∀ start, Reads (classDecl n start) fun s stmt t =>
    Front .declaration (keyword .kwClass :: s) stmt t
  statement : Reads (statement n) StatementFront

private theorem statementsSound_zero : StatementsSound 0 where
  declaration := reads_fail _
  declarations := .pure fun _ => ⟨[], rfl, .noDeclarations⟩
  block := reads_fail _
  function _ _ := reads_fail _
  methods := reads_fail _
  classDecl _ := reads_fail _
  statement := reads_fail _

section
variable {n : Nat} (ih : StatementsSound n)
include ih

private theorem reads_declaration : Reads (declaration (n + 1)) (Front .declaration) := by
  rw [declaration]
  refine reads_fromStart fun start => ?_
  apply reads_ifEat
  · exact ih.classDecl start
  apply reads_ifEat
  · apply Reads.map
    apply (ih.function "function" start).mono
    intro m f t h
    obtain ⟨ts, rfl, hts⟩ := h
    exact ⟨keyword .kwFun :: ts, rfl, .funDecl hts⟩
  apply reads_ifEat
  · apply (reads_varDecl n start).mono
    intro m stmt t h
    obtain ⟨ts, rfl, hts⟩ := h
    exact ⟨keyword .kwVar :: ts, rfl, .varDecl hts⟩
  · apply ih.statement.mono
    intro s stmt t h
    obtain ⟨isOpen, ts, rfl, hts, -⟩ := h
    exact ⟨ts, rfl, .statement hts⟩

private theorem reads_declarations : Reads (declarations (n + 1)) (Front .declarations) := by
  rw [declarations]
  apply reads_ifCloses
  · exact .pure fun _ => ⟨[], rfl, .noDeclarations⟩
  · refine (reads_recover ih.declaration).bind fun first => ?_
    refine ih.declarations.bind fun others => ?_
    apply Reads.pure
    intro t s hothers s' hfirst
    obtain ⟨stmt, rfl, ts, rfl, hts⟩ := hfirst
    obtain ⟨us, rfl, hus⟩ := hothers
    exact ⟨ts ++ us, by simp, .moreDeclarations hts hus⟩

private theorem reads_block : Reads (block (n + 1)) (fun s body t =>
    ∃ ts, s = ts ++ symbol .rightBrace :: t ∧ Derives .declarations ts body) := by
  rw [block]
  refine ih.declarations.bind fun body => ?_
  apply reads_expect
  apply Reads.pure
  intro t s hbody
  exact hbody

private theorem reads_function (kind : String) (start : Nat) :
    Reads (function (n + 1) kind start) (Front .function) := by
  rw [function]
  refine reads_expectName fun name => ?_
  apply reads_expect
  refine (reads_parameterList n).bind fun params => ?_
  apply reads_expect
  apply reads_expect
  refine ih.block.bind fun body => ?_
  refine reads_spanFrom start fun span => ?_
  apply Reads.pure
  intro t s hbody s' hparams
  obtain ⟨ts, rfl, hts⟩ := hbody
  obtain ⟨rfl, hlen⟩ := hparams
  exact ⟨_, by simp, .function hlen hts⟩

private theorem reads_methods : Reads (methods (n + 1)) (Front .methods) := by
  rw [methods]
  apply reads_ifCloses
  · exact .pure fun _ => ⟨[], rfl, .noMethods⟩
  · refine reads_fromStart fun start => ?_
    refine (ih.function "method" start).bind fun first => ?_
    refine ih.methods.bind fun others => ?_
    apply Reads.pure
    intro t s hothers s' hfirst
    obtain ⟨ts, rfl, hts⟩ := hfirst
    obtain ⟨us, rfl, hus⟩ := hothers
    exact ⟨ts ++ us, by simp, .moreMethods hts hus⟩

private theorem reads_classDecl (start : Nat) : Reads (classDecl (n + 1) start) (fun s stmt t =>
    Front .declaration (keyword .kwClass :: s) stmt t) := by
  have hsuper : Reads superclassRef (fun s ref t =>
      ∃ name span, s = identifier name :: t ∧ ref = ⟨⟨name, none⟩, span⟩) := by
    refine reads_fromSpan fun span => ?_
    refine reads_expectName fun name => ?_
    exact .pure fun _ => ⟨name, span, rfl, rfl⟩
  rw [classDecl]
  refine reads_expectName fun name => ?_
  refine (reads_after (symbol .less) hsuper).bind fun superclass => ?_
  apply reads_expect
  refine ih.methods.bind fun methods => ?_
  apply reads_expect
  refine reads_spanFrom start fun span => ?_
  apply Reads.pure
  intro t s hmethods s' hsuperclass
  obtain ⟨ts, rfl, hts⟩ := hmethods
  rcases hsuperclass with ⟨_, ref, rfl, rfl, superclass, superspan, rfl, rfl⟩ | ⟨-, rfl, rfl⟩
  · exact ⟨_, by simp, .derivedClass hts⟩
  · exact ⟨_, by simp, .baseClass hts⟩

private theorem reads_branch (start : Nat) :
    Reads (do
        expect (.symbol .leftParen) "'(' after 'if'"
        let condition ← expression n
        expect (.symbol .rightParen) "')' after if condition"
        let yes ← statement n
        let no ← after (.keyword .kwElse) (statement n)
        return .branch (← spanFrom start) condition yes no : Parser Stmt)
      (fun s stmt t => StatementFront (keyword .kwIf :: s) stmt t) := by
  apply reads_expect
  refine (expressionsSound n).expression.bind fun condition => ?_
  apply reads_expect
  refine ih.statement.bind fun yes => ?_
  refine (reads_after (keyword .kwElse) ih.statement).bind fun no => ?_
  refine reads_spanFrom start fun span => ?_
  apply Reads.pure
  intro t s hno s' hyes s'' hcondition
  obtain ⟨cs, rfl, hcs⟩ := hcondition
  obtain ⟨isOpen, ys, rfl, hys, hopen⟩ := hyes
  rcases hno with ⟨_, no, rfl, rfl, isOpen', ns, rfl, hns, hopen'⟩ | ⟨hne, rfl, rfl⟩
  -- The branch before `else` is not open, since an open one would have taken it.
  · obtain rfl : isOpen = false := by
      cases isOpen with
      | false => rfl
      | true => exact absurd rfl (hopen rfl)
    exact ⟨isOpen', _, by simp, .branchElse hcs hys hns, hopen'⟩
  · exact ⟨true, _, by simp, .branch hcs hys, fun _ => hne⟩

private theorem reads_counting (start : Nat) :
    Reads (do
        expect (.symbol .leftParen) "'(' after 'for'"
        let init ← forInit n
        let condition ← before (.symbol .semicolon) (expression n)
        expect (.symbol .semicolon) "';' after loop condition"
        let increment ← before (.symbol .rightParen) (expression n)
        expect (.symbol .rightParen) "')' after for clauses"
        let body ← statement n
        return forLoop (← spanFrom start) init condition increment body : Parser Stmt)
      (fun s stmt t => StatementFront (keyword .kwFor :: s) stmt t) := by
  apply reads_expect
  refine (reads_forInit n).bind fun init => ?_
  refine (reads_optional _ n).bind fun condition => ?_
  apply reads_expect
  refine (reads_optional _ n).bind fun increment => ?_
  apply reads_expect
  refine ih.statement.bind fun body => ?_
  refine reads_spanFrom start fun span => ?_
  apply Reads.pure
  intro t s hbody _ hincrement _ hcondition _ hinit
  obtain ⟨is, rfl, his⟩ := hinit
  obtain ⟨cs, rfl, hcs⟩ := hcondition
  obtain ⟨ns, rfl, hns⟩ := hincrement
  obtain ⟨isOpen, bs, rfl, hbs, hopen⟩ := hbody
  obtain ⟨test, round, htest, hround, hloop⟩ := counting_forLoop span init condition increment body
  exact ⟨isOpen, _, by simp, .counting his hcs hns hbs htest hround hloop, hopen⟩

private theorem reads_loop (start : Nat) :
    Reads (do
        expect (.symbol .leftParen) "'(' after 'while'"
        let condition ← expression n
        expect (.symbol .rightParen) "')' after condition"
        let body ← statement n
        return .loop (← spanFrom start) condition body : Parser Stmt)
      (fun s stmt t => StatementFront (keyword .kwWhile :: s) stmt t) := by
  apply reads_expect
  refine (expressionsSound n).expression.bind fun condition => ?_
  apply reads_expect
  refine ih.statement.bind fun body => ?_
  refine reads_spanFrom start fun span => ?_
  apply Reads.pure
  intro t s hbody s' hcondition
  obtain ⟨cs, rfl, hcs⟩ := hcondition
  obtain ⟨isOpen, bs, rfl, hbs, hopen⟩ := hbody
  exact ⟨isOpen, _, by simp, .loop hcs hbs, hopen⟩

private theorem reads_statement : Reads (statement (n + 1)) StatementFront := by
  rw [statement]
  refine reads_fromStart fun start => ?_
  apply reads_ifEat
  · exact reads_counting ih start
  apply reads_ifEat
  · exact reads_branch ih start
  apply reads_ifEat
  · refine (expressionsSound n).expression.bind fun value => ?_
    apply reads_expect
    refine reads_spanFrom start fun span => ?_
    apply Reads.pure
    intro t s hvalue
    obtain ⟨ts, rfl, hts⟩ := hvalue
    exact ⟨false, _, by simp, .print hts, by simp⟩
  apply reads_ifEat
  · refine (reads_optional _ n).bind fun value => ?_
    apply reads_expect
    refine reads_spanFrom start fun span => ?_
    apply Reads.pure
    intro t s hvalue
    obtain ⟨ts, rfl, hts⟩ := hvalue
    exact ⟨false, _, by simp, .ret hts, by simp⟩
  apply reads_ifEat
  · exact reads_loop ih start
  apply reads_ifEat
  · refine ih.block.bind fun body => ?_
    refine reads_spanFrom start fun span => ?_
    apply Reads.pure
    intro t s hbody
    obtain ⟨ts, rfl, hts⟩ := hbody
    exact ⟨false, _, by simp, .block hts, by simp⟩
  · apply (reads_exprStmt n).mono
    intro s stmt t h
    obtain ⟨ts, span, e, rfl, rfl, hts⟩ := h
    exact ⟨false, _, by simp, .exprStmt hts, by simp⟩

end

private theorem statementsSound (n : Nat) : StatementsSound n := by
  induction n with
  | zero => exact statementsSound_zero
  | succ n ih =>
    exact ⟨reads_declaration ih, reads_declarations ih, reads_block ih, reads_function ih,
      reads_methods ih, reads_classDecl ih, reads_statement ih⟩

/-- A program is read to its end if the bound exceeds the number of tokens. -/
theorem reads_program (n : Nat) :
    Reads (program n) (fun s p t => Front .declarations s p t ∧ (s.length < n → t = [])) := by
  induction n with
  | zero =>
    apply Reads.pure
    intro s
    exact ⟨⟨[], rfl, .noDeclarations⟩, fun h => absurd h (Nat.not_lt_zero _)⟩
  | succ n ih =>
    rw [program]
    apply reads_ifAtEnd
    · exact .pure fun s hs => ⟨⟨[], rfl, .noDeclarations⟩, fun _ => hs⟩
    · refine (reads_recover (statementsSound n).declaration).bind fun first => ?_
      refine ih.bind fun others => ?_
      apply Reads.pure
      intro t s hothers s' hfirst
      obtain ⟨stmt, rfl, ts, rfl, hts⟩ := hfirst
      obtain ⟨⟨us, rfl, hus⟩, hrest⟩ := hothers
      refine ⟨⟨ts ++ us, by simp, .moreDeclarations hts hus⟩, fun hlen => hrest ?_⟩
      have hpos := (first_of_derives hts).length_pos
      simp only [List.length_append] at hlen ⊢
      omega

end LoxLang.Grammar
