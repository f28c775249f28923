import LoxLang.Proofs.Grammar.ExpressionCompleteness

namespace LoxLang.Grammar
open Token LoxLang.Parser

variable {span : Span} {name : String} {ts us : List Token} {e : Expr} {s : Stmt}

private theorem succeeds_statement_of_expression {n : Nat} {rest : List Token}
    {Q : Stmt → List Token → Prop} (hstart : Starts startsExpression ts)
    (h : Succeeds (ts ++ rest) (exprStmt n) Q) : Succeeds (ts ++ rest) (statement (n + 1)) Q := by
  have hstart := hstart.append rest
  rw [statement]
  refine succeeds_fromStart fun start => ?_
  refine succeeds_ifEat_other (hstart.head?_ne rfl) (succeeds_ifEat_other (hstart.head?_ne rfl) ?_)
  refine succeeds_ifEat_other (hstart.head?_ne rfl) (succeeds_ifEat_other (hstart.head?_ne rfl) ?_)
  exact succeeds_ifEat_other (hstart.head?_ne rfl) (succeeds_ifEat_other (hstart.head?_ne rfl) h)

private theorem succeeds_exprStmt (span : Span) {n : Nat} {rest : List Token}
    (h : Completes .expression ts e) (hn : 20 * ts.length + 10 ≤ n) :
    Succeeds (ts ++ symbol .semicolon :: rest) (exprStmt n)
      (fun s t => s.relabel .noSpans = (Stmt.expr span e).relabel .noSpans ∧ t = rest) := by
  rw [exprStmt]
  refine succeeds_fromStart fun start => ?_
  refine (h n _ hn (Ender.semicolon.closed rest)).bind fun e' t hy => ?_
  obtain ⟨he, rfl⟩ := hy
  refine succeeds_expect _ (succeeds_spanFrom start fun span' => .pure ⟨?_, rfl⟩)
  simp only [Same, Phrase.relabel] at he
  simp only [Stmt.relabel, Relabel.noSpans_span, he]

private theorem completes_absent : Completes .optional [] none := by
  intro n token rest hn hend
  refine succeeds_before_stop.mono fun a t hy => ?_
  obtain ⟨rfl, rfl⟩ := hy
  exact ⟨rfl, rfl⟩

private theorem completes_present (hstart : Starts startsExpression ts)
    (h : Completes .expression ts e) :
    Completes .optional ts (some e) := by
  intro n token rest hn hend
  have hne := (hstart.append (token :: rest)).head?_ne hend.not_startsExpression
  refine (succeeds_before hne (h n _ hn (hend.closed rest))).mono fun a t hy => ?_
  obtain ⟨e', rfl, he, rfl⟩ := hy
  simp only [Same, Phrase.relabel] at he
  exact ⟨by simp only [Same, Phrase.relabel, Option.map_some, he], rfl⟩

/-! ## Statements -/

private theorem completes_exprStmt (hstart : Starts startsExpression ts)
    (h : Completes .expression ts e) :
    Completes (.statement false) (ts ++ [symbol .semicolon]) (.expr span e) := by
  intro n rest hn _
  simp only [List.length_append, List.length_cons, List.length_nil] at hn
  obtain ⟨m, rfl⟩ : ∃ i, n = i + 1 := ⟨n - 1, by omega⟩
  rw [List.append_assoc]
  exact succeeds_statement_of_expression hstart (succeeds_exprStmt span h (by omega))

private theorem completes_print (h : Completes .expression ts e) :
    Completes (.statement false) (keyword .kwPrint :: ts ++ [symbol .semicolon])
      (.print span e) := by
  intro n rest hn _
  simp only [List.length_append, List.length_cons, List.length_nil] at hn
  obtain ⟨m, rfl⟩ : ∃ i, n = i + 1 := ⟨n - 1, by omega⟩
  rw [statement, List.append_assoc]
  refine succeeds_fromStart fun start => ?_
  refine succeeds_ifEat_other (by simp) (succeeds_ifEat_other (by simp) (succeeds_ifEat ?_))
  refine (h m _ (by omega) (Ender.semicolon.closed rest)).bind fun e' t hy => ?_
  obtain ⟨he, rfl⟩ := hy
  refine succeeds_expect _ (succeeds_spanFrom start fun span' => .pure ⟨?_, rfl⟩)
  simp only [Same, Phrase.relabel] at he
  simp only [Same, Phrase.relabel, Stmt.relabel, Relabel.noSpans_span, he]

private theorem completes_ret {value : Option Expr} (h : Completes .optional ts value) :
    Completes (.statement false) (keyword .kwReturn :: ts ++ [symbol .semicolon])
      (.ret span value) := by
  intro n rest hn _
  simp only [List.length_append, List.length_cons, List.length_nil] at hn
  obtain ⟨m, rfl⟩ : ∃ i, n = i + 1 := ⟨n - 1, by omega⟩
  rw [statement, List.append_assoc]
  refine succeeds_fromStart fun start => ?_
  refine succeeds_ifEat_other (by simp) (succeeds_ifEat_other (by simp) ?_)
  refine succeeds_ifEat_other (by simp) (succeeds_ifEat ?_)
  refine (h m _ rest (by omega) Ender.semicolon).bind fun value' t hy => ?_
  obtain ⟨hv, rfl⟩ := hy
  refine succeeds_expect _ (succeeds_spanFrom start fun span' => .pure ⟨?_, rfl⟩)
  simp only [Same, Phrase.relabel] at hv
  simp only [Same, Phrase.relabel, Stmt.relabel, Relabel.noSpans_span, hv]

private theorem succeeds_block {body : List Stmt} {n : Nat} {rest : List Token}
    (h : Completes .declarations ts body) (hn : 20 * ts.length + 14 ≤ n) :
    Succeeds (ts ++ symbol .rightBrace :: rest) (block n) (Yields .declarations body rest) := by
  obtain ⟨m, rfl⟩ : ∃ i, n = i + 1 := ⟨n - 1, by omega⟩
  rw [block]
  refine ((h m (by omega)).1 rest).bind fun body' t hy => ?_
  obtain ⟨hb, rfl⟩ := hy
  exact succeeds_expect _ (.pure ⟨hb, rfl⟩)

private theorem completes_block {body : List Stmt} (h : Completes .declarations ts body) :
    Completes (.statement false) (symbol .leftBrace :: ts ++ [symbol .rightBrace])
      (.block span body) := by
  intro n rest hn _
  simp only [List.length_append, List.length_cons, List.length_nil] at hn
  obtain ⟨m, rfl⟩ : ∃ i, n = i + 1 := ⟨n - 1, by omega⟩
  rw [statement, List.append_assoc]
  refine succeeds_fromStart fun start => ?_
  refine succeeds_ifEat_other (by simp) (succeeds_ifEat_other (by simp) ?_)
  refine succeeds_ifEat_other (by simp) (succeeds_ifEat_other (by simp) ?_)
  refine succeeds_ifEat_other (by simp) (succeeds_ifEat ?_)
  refine (succeeds_block h (by omega)).bind fun body' t hy => ?_
  obtain ⟨hb, rfl⟩ := hy
  refine succeeds_spanFrom start fun span' => .pure ⟨?_, rfl⟩
  simp only [Same, Phrase.relabel] at hb
  simp only [Same, Phrase.relabel, Stmt.relabel, Relabel.noSpans_span, relabelBody_eq_map, hb]

private theorem completes_branch {isOpen : Bool} (hc : Completes .expression ts e)
    (hyes : Completes (.statement isOpen) us s) :
    Completes (.statement true)
      (keyword .kwIf :: symbol .leftParen :: ts ++ symbol .rightParen :: us)
      (.branch span e s none) := by
  intro n rest hn hrest
  have hrest := hrest rfl
  simp only [List.length_append, List.length_cons] at hn
  obtain ⟨m, rfl⟩ : ∃ i, n = i + 1 := ⟨n - 1, by omega⟩
  rw [statement, List.append_assoc]
  refine succeeds_fromStart fun start => succeeds_ifEat_other (by simp) (succeeds_ifEat ?_)
  refine succeeds_expect _ ((hc m _ (by omega) (Ender.rightParen.closed _)).bind fun e' t hy => ?_)
  obtain ⟨he, rfl⟩ := hy
  refine succeeds_expect _ ((hyes m rest (by omega) fun _ => hrest).bind fun s' t hy => ?_)
  obtain ⟨hs, rfl⟩ := hy
  refine (succeeds_after_other hrest).bind fun no t hy => ?_
  obtain ⟨rfl, rfl⟩ := hy
  refine succeeds_spanFrom start fun span' => .pure ⟨?_, rfl⟩
  simp only [Same, Phrase.relabel] at he hs
  simp only [Same, Phrase.relabel, Stmt.relabel, Relabel.noSpans_span, relabelElse_eq_map, he, hs]

private theorem completes_branchElse {isOpen : Bool} {vs : List Token} {s' : Stmt}
    (hc : Completes .expression ts e) (hyes : Completes (.statement false) us s)
    (hno : Completes (.statement isOpen) vs s') :
    Completes (.statement isOpen)
      (keyword .kwIf :: symbol .leftParen :: ts ++ symbol .rightParen :: us ++
        keyword .kwElse :: vs)
      (.branch span e s (some s')) := by
  intro n rest hn hrest
  simp only [List.length_append, List.length_cons] at hn
  obtain ⟨m, rfl⟩ : ∃ i, n = i + 1 := ⟨n - 1, by omega⟩
  rw [statement, List.append_assoc, List.append_assoc]
  refine succeeds_fromStart fun start => succeeds_ifEat_other (by simp) (succeeds_ifEat ?_)
  refine succeeds_expect _ ((hc m _ (by omega) (Ender.rightParen.closed _)).bind fun c t hy => ?_)
  obtain ⟨he, rfl⟩ := hy
  refine succeeds_expect _ ((hyes m _ (by omega) (by simp)).bind fun yes t hy => ?_)
  obtain ⟨hs, rfl⟩ := hy
  refine (succeeds_after (hno m rest (by omega) hrest)).bind fun no t hy => ?_
  obtain ⟨no, rfl, hs', rfl⟩ := hy
  refine succeeds_spanFrom start fun span' => .pure ⟨?_, rfl⟩
  simp only [Same, Phrase.relabel] at he hs hs'
  simp only [Same, Phrase.relabel, Stmt.relabel, Relabel.noSpans_span, relabelElse_eq_map,
    Option.map_some, he, hs, hs']

private theorem completes_loop {isOpen : Bool} (hc : Completes .expression ts e)
    (hbody : Completes (.statement isOpen) us s) :
    Completes (.statement isOpen)
      (keyword .kwWhile :: symbol .leftParen :: ts ++ symbol .rightParen :: us)
      (.loop span e s) := by
  intro n rest hn hrest
  simp only [List.length_append, List.length_cons] at hn
  obtain ⟨m, rfl⟩ : ∃ i, n = i + 1 := ⟨n - 1, by omega⟩
  rw [statement, List.append_assoc]
  refine succeeds_fromStart fun start => ?_
  refine succeeds_ifEat_other (by simp) (succeeds_ifEat_other (by simp) ?_)
  refine succeeds_ifEat_other (by simp) (succeeds_ifEat_other (by simp) (succeeds_ifEat ?_))
  refine succeeds_expect _ ((hc m _ (by omega) (Ender.rightParen.closed _)).bind fun e' t hy => ?_)
  obtain ⟨he, rfl⟩ := hy
  refine succeeds_expect _ ((hbody m rest (by omega) hrest).bind fun s' t hy => ?_)
  obtain ⟨hs, rfl⟩ := hy
  refine succeeds_spanFrom start fun span' => .pure ⟨?_, rfl⟩
  simp only [Same, Phrase.relabel] at he hs
  simp only [Same, Phrase.relabel, Stmt.relabel, Relabel.noSpans_span, he, hs]

theorem forLoop_same {init init' : Option Stmt} {c c' i i' : Option Expr} {test : Expr}
    {body' round loop : Stmt} {span' : Span}
    (hinit : init'.map (·.relabel .noSpans) = init.map (·.relabel .noSpans))
    (hc : c'.map (·.relabel .noSpans) = c.map (·.relabel .noSpans))
    (hi : i'.map (·.relabel .noSpans) = i.map (·.relabel .noSpans))
    (hs : body'.relabel .noSpans = s.relabel .noSpans)
    (htest : Test c test) (hround : Round i s round)
    (hloop : Counting init (.loop span test round) loop) :
    (forLoop span' init' c' i' body').relabel .noSpans = loop.relabel .noSpans := by
  have hcondition : (c'.getD (.literal span' (.bool true))).relabel .noSpans =
      test.relabel .noSpans := by
    cases htest with
    | always =>
      obtain rfl := Option.map_eq_none_iff.mp hc
      simp [Expr.relabel]
    | given =>
      obtain ⟨e', rfl, he⟩ := Option.map_eq_some_iff.mp hc
      exact he
  have hbody : (forRound span' i' body').relabel .noSpans = round.relabel .noSpans := by
    cases hround with
    | plain =>
      obtain rfl := Option.map_eq_none_iff.mp hi
      exact hs
    | increment =>
      obtain ⟨e', rfl, he⟩ := Option.map_eq_some_iff.mp hi
      simp [forRound, Stmt.relabel, hs, he]
  have hwhole : (forLoop span' none c' i' body').relabel .noSpans =
      (Stmt.loop span test round).relabel .noSpans := by
    simp only [forLoop, Stmt.relabel, Relabel.noSpans_span, hcondition, hbody]
  cases hloop with
  | plain =>
    obtain rfl := Option.map_eq_none_iff.mp hinit
    exact hwhole
  | initialized =>
    obtain ⟨init', rfl, hinit'⟩ := Option.map_eq_some_iff.mp hinit
    have hblock : forLoop span' (some init') c' i' body' =
        .block span' [init', forLoop span' none c' i' body'] := rfl
    rw [hblock]
    rw [Stmt.relabel, Stmt.relabel, relabelBody_eq_map, relabelBody_eq_map]
    simp only [List.map_cons, List.map_nil, hinit', hwhole, Relabel.noSpans_span]

private theorem completes_counting {isOpen : Bool} {is cs ns : List Token} {init : Option Stmt}
    {c i : Option Expr} {test : Expr} {round loop : Stmt}
    (hinit : Completes .initializer is init) (hc : Completes .optional cs c)
    (hi : Completes .optional ns i) (hbody : Completes (.statement isOpen) us s)
    (htest : Test c test) (hround : Round i s round)
    (hloop : Counting init (.loop span test round) loop) :
    Completes (.statement isOpen)
      (keyword .kwFor :: symbol .leftParen :: is ++ cs ++ symbol .semicolon :: ns ++
        symbol .rightParen :: us) loop := by
  intro n rest hn hrest
  simp only [List.length_append, List.length_cons] at hn
  obtain ⟨m, rfl⟩ : ∃ i, n = i + 1 := ⟨n - 1, by omega⟩
  rw [statement, List.append_assoc, List.append_assoc, List.append_assoc]
  refine succeeds_fromStart fun start => succeeds_ifEat (succeeds_expect _ ?_)
  refine (hinit m _ (by omega)).bind fun init' t hy => ?_
  obtain ⟨hinit', rfl⟩ := hy
  refine (hc m _ _ (by omega) Ender.semicolon).bind fun c' t hy => ?_
  obtain ⟨hc', rfl⟩ := hy
  refine succeeds_expect _ ((hi m _ _ (by omega) Ender.rightParen).bind fun i' t hy => ?_)
  obtain ⟨hi', rfl⟩ := hy
  refine succeeds_expect _ ((hbody m rest (by omega) hrest).bind fun body' t hy => ?_)
  obtain ⟨hbody', rfl⟩ := hy
  refine succeeds_spanFrom start fun span' => .pure ⟨?_, rfl⟩
  exact forLoop_same hinit' hc' hi' hbody' htest hround hloop

private theorem completes_noInitializer : Completes .initializer [symbol .semicolon] none := by
  intro n rest hn
  rw [forInit]
  exact succeeds_fromStart fun start => succeeds_ifEat (.pure ⟨rfl, rfl⟩)

private theorem completes_bindingInitializer (h : Completes .binding ts s) :
    Completes .initializer (keyword .kwVar :: ts) (some s) := by
  intro n rest hn
  simp only [List.length_cons] at hn
  rw [forInit]
  refine succeeds_fromStart fun start => succeeds_ifEat_other (by simp) (succeeds_ifEat ?_)
  refine Succeeds.map ((h n start rest (by omega)).mono fun s' t hy => ?_)
  obtain ⟨hs, rfl⟩ := hy
  simp only [Same, Phrase.relabel] at hs
  exact ⟨by simp only [Same, Phrase.relabel, Option.map_some, hs], rfl⟩

private theorem completes_exprInitializer (hstart : Starts startsExpression ts)
    (h : Completes .expression ts e) :
    Completes .initializer (ts ++ [symbol .semicolon]) (some (.expr span e)) := by
  intro n rest hn
  simp only [List.length_append, List.length_cons, List.length_nil] at hn
  have hahead := (hstart.append [symbol .semicolon]).append rest
  rw [forInit]
  refine succeeds_fromStart fun start => succeeds_ifEat_other (hahead.head?_ne rfl) ?_
  refine succeeds_ifEat_other (hahead.head?_ne rfl) (Succeeds.map ?_)
  rw [List.append_assoc]
  refine (succeeds_exprStmt span h (by omega)).mono fun s' t hy => ?_
  obtain ⟨hs, rfl⟩ := hy
  exact ⟨by simp only [Same, Phrase.relabel, Option.map_some, hs], rfl⟩

/-! ## Declarations -/

private theorem completes_bindEmpty :
    Completes .binding [identifier name, symbol .semicolon] (.varDecl span name none) := by
  intro n start rest hn
  rw [varDecl]
  refine succeeds_expectName _ ((succeeds_after_other (by simp)).bind fun value t hy => ?_)
  obtain ⟨rfl, rfl⟩ := hy
  exact succeeds_expect _ (succeeds_spanFrom start fun span' => .pure ⟨rfl, rfl⟩)

private theorem completes_bind (h : Completes .expression ts e) :
    Completes .binding (identifier name :: symbol .equal :: ts ++ [symbol .semicolon])
      (.varDecl span name (some e)) := by
  intro n start rest hn
  simp only [List.length_append, List.length_cons, List.length_nil] at hn
  rw [varDecl, List.append_assoc]
  refine succeeds_expectName _ ((succeeds_after
    (h n _ (by omega) (Ender.semicolon.closed rest))).bind fun value t hy => ?_)
  obtain ⟨e', rfl, he, rfl⟩ := hy
  refine succeeds_expect _ (succeeds_spanFrom start fun span' => .pure ⟨?_, rfl⟩)
  simp only [Same, Phrase.relabel] at he
  simp only [Same, Phrase.relabel, Stmt.relabel, Relabel.noSpans_span, Option.map_some, he]

private theorem succeeds_parameters (params : List String) (n count : Nat) (rest : List Token)
    (hne : params ≠ []) (hn : (names params).length ≤ n)
    (hlen : count + params.length ≤ maxArguments) :
    Succeeds (names params ++ symbol .rightParen :: rest) (parameters n count)
      (fun a t => a = params ∧ t = symbol .rightParen :: rest) := by
  induction params generalizing n count with
  | nil => exact absurd rfl hne
  | cons first others ih =>
    cases others with
    | nil =>
      have hlength : (names [first]).length = 1 := rfl
      simp only [List.length_cons, List.length_nil] at hlen
      obtain ⟨m, rfl⟩ : ∃ i, n = i + 1 := ⟨n - 1, by omega⟩
      rw [parameters]
      refine succeeds_limit _ (by omega) (succeeds_expectName _ ?_)
      refine (succeeds_after_other (by simp)).bind fun others t hy => ?_
      obtain ⟨rfl, rfl⟩ := hy
      exact .pure ⟨rfl, rfl⟩
    | cons second others =>
      rw [names_cons_cons] at hn ⊢
      simp only [List.length_cons] at hn hlen
      obtain ⟨m, rfl⟩ : ∃ i, n = i + 1 := ⟨n - 1, by omega⟩
      rw [parameters]
      refine succeeds_limit _ (by omega) (succeeds_expectName _ ?_)
      have hothers := ih m (count + 1) (List.cons_ne_nil _ _) (by omega)
        (by simp only [List.length_cons]; omega)
      refine (succeeds_after hothers).bind fun params t hy => ?_
      obtain ⟨params, rfl, rfl, rfl⟩ := hy
      exact .pure ⟨rfl, rfl⟩

private theorem succeeds_before_parameters (params : List String) (n : Nat) (rest : List Token)
    (hn : (names params).length ≤ n) (hlen : params.length ≤ maxArguments) :
    Succeeds (names params ++ symbol .rightParen :: rest)
      (before (symbol .rightParen) (parameters n 0))
      (fun a t => a.getD [] = params ∧ t = symbol .rightParen :: rest) := by
  cases params with
  | nil =>
    refine succeeds_before_stop.mono fun a t hy => ?_
    obtain ⟨rfl, rfl⟩ := hy
    exact ⟨rfl, rfl⟩
  | cons first others =>
    have hne : (names (first :: others) ++ symbol .rightParen :: rest).head? ≠
        some (symbol .rightParen) := by
      cases others <;> simp [names]
    refine (succeeds_before hne (succeeds_parameters _ n 0 rest (List.cons_ne_nil _ _) hn
      (by omega))).mono fun a t hy => ?_
    obtain ⟨params, rfl, rfl, rfl⟩ := hy
    exact ⟨rfl, rfl⟩

private theorem completes_function {params : List String} {body : List Stmt}
    (hlen : params.length ≤ maxArguments) (h : Completes .declarations ts body) :
    Completes .function
      (identifier name :: symbol .leftParen :: names params ++
        symbol .rightParen :: symbol .leftBrace :: ts ++ [symbol .rightBrace])
      ⟨span, name, params, body⟩ := by
  intro n kind start rest hn
  simp only [List.length_append, List.length_cons, List.length_nil] at hn
  obtain ⟨m, rfl⟩ : ∃ i, n = i + 1 := ⟨n - 1, by omega⟩
  rw [function, List.append_assoc, List.append_assoc]
  refine succeeds_expectName _ (succeeds_expect _ ?_)
  refine (succeeds_before_parameters params m _ (by omega) hlen).bind fun params' t hy => ?_
  obtain ⟨rfl, rfl⟩ := hy
  refine succeeds_expect _ (succeeds_expect _ ((succeeds_block h (by omega)).bind
    fun body' t hy => ?_))
  obtain ⟨hb, rfl⟩ := hy
  refine succeeds_spanFrom start fun span' => .pure ⟨?_, rfl⟩
  simp only [Same, Phrase.relabel] at hb
  simp only [Same, Phrase.relabel, FunDecl.relabel, Relabel.noSpans_span, relabelBody_eq_map, hb]

private theorem completes_noMethods : Completes .methods [] [] := by
  intro n rest hn
  obtain ⟨m, rfl⟩ : ∃ i, n = i + 1 := ⟨n - 1, by omega⟩
  rw [methods]
  exact succeeds_ifCloses (.pure ⟨rfl, rfl⟩)

private theorem completes_moreMethods {f : FunDecl} {fs : List FunDecl}
    (hstart : ∃ name rest, ts = identifier name :: rest)
    (h : Completes .function ts f) (hothers : Completes .methods us fs) :
    Completes .methods (ts ++ us) (f :: fs) := by
  intro n rest hn
  obtain ⟨first, others, rfl⟩ := hstart
  simp only [List.length_append, List.length_cons] at hn
  obtain ⟨m, rfl⟩ : ∃ i, n = i + 1 := ⟨n - 1, by omega⟩
  rw [methods, List.append_assoc]
  refine succeeds_ifCloses_other (by simp) (succeeds_fromStart fun start => ?_)
  refine (h m "method" start _ (by simp only [List.length_cons]; omega)).bind fun f' t hy => ?_
  obtain ⟨hf, rfl⟩ := hy
  refine (hothers m rest (by omega)).bind fun fs' t hy => ?_
  obtain ⟨hfs, rfl⟩ := hy
  refine .pure ⟨?_, rfl⟩
  simp only [Same, Phrase.relabel] at hf hfs
  simp only [Same, Phrase.relabel, List.map_cons, hf, hfs]

private theorem completes_varDecl (h : Completes .binding ts s) :
    Completes .declaration (keyword .kwVar :: ts) s := by
  intro n rest hn _
  simp only [List.length_cons] at hn
  obtain ⟨m, rfl⟩ : ∃ i, n = i + 1 := ⟨n - 1, by omega⟩
  rw [declaration]
  refine succeeds_fromStart fun start => ?_
  refine succeeds_ifEat_other (by simp) (succeeds_ifEat_other (by simp) (succeeds_ifEat ?_))
  exact h m start rest (by omega)

private theorem completes_funDecl {f : FunDecl} (h : Completes .function ts f) :
    Completes .declaration (keyword .kwFun :: ts) (.funDecl f) := by
  intro n rest hn _
  simp only [List.length_cons] at hn
  obtain ⟨m, rfl⟩ : ∃ i, n = i + 1 := ⟨n - 1, by omega⟩
  rw [declaration]
  refine succeeds_fromStart fun start => succeeds_ifEat_other (by simp) (succeeds_ifEat ?_)
  refine Succeeds.map ((h m "function" start rest (by omega)).mono fun f' t hy => ?_)
  obtain ⟨hf, rfl⟩ := hy
  simp only [Same, Phrase.relabel] at hf
  exact ⟨by simp only [Same, Phrase.relabel, Stmt.relabel, hf], rfl⟩

private theorem completes_baseClass {methods : List FunDecl} (h : Completes .methods ts methods) :
    Completes .declaration
      (keyword .kwClass :: identifier name :: symbol .leftBrace :: ts ++ [symbol .rightBrace])
      (.classDecl span name none methods) := by
  intro n rest hn _
  simp only [List.length_append, List.length_cons, List.length_nil] at hn
  obtain ⟨m, rfl⟩ : ∃ i, n = i + 1 + 1 := ⟨n - 2, by omega⟩
  rw [declaration, List.append_assoc]
  refine succeeds_fromStart fun start => succeeds_ifEat ?_
  rw [classDecl]
  refine succeeds_expectName _ ((succeeds_after_other (by simp)).bind fun superclass t hy => ?_)
  obtain ⟨rfl, rfl⟩ := hy
  refine succeeds_expect _ ((h m rest (by omega)).bind fun methods' t hy => ?_)
  obtain ⟨hm, rfl⟩ := hy
  refine succeeds_expect _ (succeeds_spanFrom start fun span' => .pure ⟨?_, rfl⟩)
  simp only [Same, Phrase.relabel] at hm
  simp only [Same, Phrase.relabel, Stmt.relabel, Relabel.noSpans_span, relabelMethods_eq_map,
    Option.map_none, hm]

private theorem completes_derivedClass {superclass : String} {superspan : Span}
    {methods : List FunDecl} (h : Completes .methods ts methods) :
    Completes .declaration
      (keyword .kwClass :: identifier name :: symbol .less :: identifier superclass ::
        symbol .leftBrace :: ts ++ [symbol .rightBrace])
      (.classDecl span name (some ⟨⟨superclass, none⟩, superspan⟩) methods) := by
  intro n rest hn _
  simp only [List.length_append, List.length_cons, List.length_nil] at hn
  obtain ⟨m, rfl⟩ : ∃ i, n = i + 1 + 1 := ⟨n - 2, by omega⟩
  rw [declaration, List.append_assoc]
  refine succeeds_fromStart fun start => succeeds_ifEat ?_
  rw [classDecl]
  have hsuperclass : ∀ rest, Succeeds (identifier superclass :: rest) superclassRef
      (fun a t => a.value = ⟨superclass, none⟩ ∧ t = rest) := fun rest =>
    succeeds_fromSpan fun span' => succeeds_expectName _ (.pure ⟨rfl, rfl⟩)
  refine succeeds_expectName _ ((succeeds_after (hsuperclass _)).bind fun superclass' t hy => ?_)
  obtain ⟨⟨ref, refspan⟩, rfl, href, rfl⟩ := hy
  refine succeeds_expect _ ((h m rest (by omega)).bind fun methods' t hy => ?_)
  obtain ⟨hm, rfl⟩ := hy
  refine succeeds_expect _ (succeeds_spanFrom start fun span' => .pure ⟨?_, rfl⟩)
  simp only [Same, Phrase.relabel] at hm href
  simp only [Same, Phrase.relabel, Stmt.relabel, Relabel.noSpans_span, relabelMethods_eq_map,
    Option.map_some, Relabel.superclass, hm, href]

private theorem completes_statement {isOpen : Bool} (hstart : Starts startsStatement ts)
    (h : Completes (.statement isOpen) ts s) : Completes .declaration ts s := by
  intro n rest hn hrest
  obtain ⟨m, rfl⟩ : ∃ i, n = i + 1 := ⟨n - 1, by omega⟩
  have hstart := hstart.append rest
  rw [declaration]
  refine succeeds_fromStart fun start => succeeds_ifEat_other (hstart.head?_ne rfl) ?_
  refine succeeds_ifEat_other (hstart.head?_ne rfl) (succeeds_ifEat_other (hstart.head?_ne rfl) ?_)
  exact h m rest (by omega) fun _ => hrest

private theorem completes_noDeclarations : Completes .declarations [] [] := by
  intro n hn
  obtain ⟨m, rfl⟩ : ∃ i, n = i + 1 := ⟨n - 1, by omega⟩
  constructor
  · intro rest
    rw [declarations]
    exact succeeds_ifCloses (.pure ⟨rfl, rfl⟩)
  · rw [program]
    exact succeeds_ifAtEnd (.pure ⟨rfl, rfl⟩)

/-- The two readers of declarations differ only in where they stop. -/
theorem succeeds_moreDeclarations {ss : List Stmt} {n : Nat} {others : Parser (List Stmt)}
    {ahead stop : List Token} (h : Completes .declaration ts s) (hn : 20 * ts.length + 12 ≤ n)
    (helse : ahead.head? ≠ some (keyword .kwElse))
    (hothers : Succeeds ahead others (Yields .declarations ss stop)) :
    Succeeds (ts ++ ahead) (do
        let first ← recover (declaration n)
        let others ← others
        return first.toList ++ others)
      (Yields .declarations (s :: ss) stop) := by
  refine (succeeds_recover (h n ahead hn helse)).bind fun first t hy => ?_
  obtain ⟨s', rfl, hs, rfl⟩ := hy
  refine hothers.bind fun ss' t hy => ?_
  obtain ⟨hss, rfl⟩ := hy
  refine .pure ⟨?_, rfl⟩
  simp only [Same, Phrase.relabel] at hs hss
  simp only [Same, Phrase.relabel, Option.toList_some, List.singleton_append, List.map_cons, hs,
    hss]

private theorem completes_moreDeclarations {ss : List Stmt} (hstart : Starts startsDeclaration ts)
    (hnext : us = [] ∨ Starts startsDeclaration us) (h : Completes .declaration ts s)
    (hothers : Completes .declarations us ss) : Completes .declarations (ts ++ us) (s :: ss) := by
  intro n hn
  have hpos := hstart.length_pos
  simp only [List.length_append] at hn
  obtain ⟨m, rfl⟩ : ∃ i, n = i + 1 := ⟨n - 1, by omega⟩
  obtain ⟨hbody, hprogram⟩ := hothers m (by omega)
  constructor
  · intro rest
    have helse : (us ++ symbol .rightBrace :: rest).head? ≠ some (keyword .kwElse) := by
      rcases hnext with rfl | hnext
      · simp
      · exact (hnext.append _).head?_ne rfl
    have hfirst := succeeds_moreDeclarations h (by omega : 20 * ts.length + 12 ≤ m) helse
      (hbody rest)
    rw [declarations, List.append_assoc]
    obtain ⟨token, ts, rfl, htoken⟩ := hstart
    refine succeeds_ifCloses_other (fun heq => ?_) hfirst
    subst heq
    exact Bool.noConfusion htoken
  · have helse : us.head? ≠ some (keyword .kwElse) := by
      rcases hnext with rfl | hnext
      · simp
      · exact hnext.head?_ne rfl
    rw [program]
    refine succeeds_ifAtEnd_other (fun heq => ?_)
      (succeeds_moreDeclarations h (by omega) helse hprogram)
    simp [List.append_eq_nil_iff.mp heq] at hpos

/-! ## Every derivation -/

private theorem level_le_of_derives {phrase : Phrase} {t : phrase.Tree} (h : Derives phrase ts t)
    {k : Nat} (hk : phrase = .operation k) : k ≤ 6 := by
  induction h generalizing k with
  | binary _ _ _ ih _ | logical _ _ _ ih _ => exact ih hk
  | tighter _ ih =>
    cases hk
    exact Nat.le_of_succ_le (ih rfl)
  | operand =>
    cases hk
    exact Nat.le_refl 6
  | _ => exact Phrase.noConfusion hk

theorem completes_of_derives {phrase : Phrase} {ts : List Token} {t : phrase.Tree}
    (h : Derives phrase ts t) : Completes phrase ts t := by
  induction h with
  | assignVariable _ ih => exact completes_assignVariable ih
  | assignProperty ho _ iho ih =>
    exact completes_assignProperty (first_of_derives ho).length_pos iho ih
  | operation h ih => exact completes_operation (first_of_derives h).length_pos ih
  | binary _ hop hright ihleft ihright | logical _ hop hright ihleft ihright =>
    exact completes_operator (first_of_derives hright).length_pos ihleft hop ihright
  | tighter h ih =>
    exact completes_tighter (level_le_of_derives h rfl) (first_of_derives h).length_pos ih
  | operand h ih => exact completes_operand ih (first_of_derives h).length_pos
  | unary hop _ ih => exact completes_unary hop ih
  | chain h ih => exact completes_chain ih (first_of_derives h).length_pos
  | callEmpty _ ih => exact completes_callEmpty ih
  | call _ ha hlen ih iha => exact completes_call ih iha (first_of_derives ha) hlen
  | get _ ih => exact completes_get ih
  | primary h ih => exact completes_primary ih (first_of_derives h).length_pos
  | lastArgument _ ih => exact completes_lastArgument ih
  | moreArguments _ _ ih iho => exact completes_moreArguments ih iho
  | constant hc => exact completes_constant hc
  | this => exact completes_this
  | name => exact completes_name
  | grouping _ ih => exact completes_grouping ih
  | super => exact completes_super
  | absent => exact completes_absent
  | present h ih => exact completes_present (first_of_derives h) ih
  | exprStmt h ih => exact completes_exprStmt (first_of_derives h) ih
  | print _ ih => exact completes_print ih
  | ret _ ih => exact completes_ret ih
  | block _ ih => exact completes_block ih
  | branch _ _ ihc ihyes => exact completes_branch ihc ihyes
  | branchElse _ _ _ ihc ihyes ihno => exact completes_branchElse ihc ihyes ihno
  | loop _ _ ihc ihbody => exact completes_loop ihc ihbody
  | counting _ _ _ _ htest hround hloop ihinit ihc ihi ihbody =>
    exact completes_counting ihinit ihc ihi ihbody htest hround hloop
  | noInitializer => exact completes_noInitializer
  | bindingInitializer _ ih => exact completes_bindingInitializer ih
  | exprInitializer h ih => exact completes_exprInitializer (first_of_derives h) ih
  | bindEmpty => exact completes_bindEmpty
  | bind _ ih => exact completes_bind ih
  | function hlen _ ih => exact completes_function hlen ih
  | noMethods => exact completes_noMethods
  | moreMethods h _ ih iho => exact completes_moreMethods (first_of_derives h) ih iho
  | varDecl _ ih => exact completes_varDecl ih
  | funDecl _ ih => exact completes_funDecl ih
  | baseClass _ ih => exact completes_baseClass ih
  | derivedClass _ ih => exact completes_derivedClass ih
  | statement h ih => exact completes_statement (first_of_derives h) ih
  | noDeclarations => exact completes_noDeclarations
  | moreDeclarations h ho ih iho =>
    exact completes_moreDeclarations (first_of_derives h) (first_of_derives ho) ih iho

end LoxLang.Grammar
