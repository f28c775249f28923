import LoxLang.Proofs.Grammar.Depth
import LoxLang.Proofs.Lexemes
import LoxLang.Proofs.Prompt.Room
/-!
# Every source can be closed

Whatever a source is, some text after it makes it complete: it closes a string
that is open, and then goes on with semicolons and closing braces for long enough.
So a prompt that waits for more lines can always be left.
-/
namespace LoxLang

namespace Parser

/-! ## Expressions -/

def Apart (levels : List Level) : Prop :=
  ∀ level ∈ levels, ∀ token op, level token = some op → closer token = false

private theorem apart_levels : Apart levels := by
  intro level hlevel token op hop
  obtain ⟨k, hk⟩ := List.getElem?_of_mem hlevel
  cases Grammar.infix_of_level hk hop <;> rfl

private theorem closer_of_unaryOp {token : Token} {op : UnaryOp} (h : unaryOp? token = some op) :
    closer token = false := by
  cases Grammar.prefix_of_unaryOp h <;> rfl

private theorem closer_of_literal {token : Token} {value : Literal}
    (h : literal? token = some value) :
    closer token = false := by
  cases Grammar.constant_of_literal h <;> rfl

/-- Expressions take nothing of the row, and they take something. -/
structure ExpressionsMove (n : Nat) : Prop where
  expression : Moves 0 3 (expression n)
  operation : ∀ levels, Apart levels → Moves 0 3 (operation n levels)
  operationTail : ∀ level tighter start left, Apart (level :: tighter) →
    Moves 0 0 (operationTail n level tighter start left)
  unary : Moves 0 3 (unary n)
  callTail : ∀ start callee, Moves 0 0 (callTail n start callee)
  arguments : ∀ count, Moves 0 3 (arguments n count)
  primary : Moves 0 3 (primary n)

private theorem expressionsMove_zero : ExpressionsMove 0 where
  expression := moves_fail _ _ _
  operation _ _ := moves_fail _ _ _
  operationTail _ _ _ _ _ := moves_fail _ _ _
  unary := moves_fail _ _ _
  callTail _ _ := moves_fail _ _ _
  arguments _ := moves_fail _ _ _
  primary := moves_fail _ _ _

private theorem moves_finish (k start : Nat) {α : Type} (make : Span → α) :
    Moves k k (do return make (← spanFrom start)) :=
  moves_spanFrom start fun _ => moves_pure k _

section
variable {n : Nat} (ih : ExpressionsMove n)
include ih

private theorem moves_expression : Moves 0 3 (expression (n + 1)) := by
  rw [LoxLang.Parser.expression]
  refine moves_fromStart fun start => ?_
  refine (ih.operation levels apart_levels).bind (fun target => ?_) (by decide)
  refine moves_ifCheck (movesAt_fromSpan fun sign => ?_) (moves_pure 3 target)
  refine movesAt_advance rfl ?_
  refine (ih.expression.more 6).bind (fun value => ?_) (by decide)
  refine moves_spanFrom start fun span => ?_
  have hdone (e : Expr) : Moves 9 3 (pure e : Parser Expr) := (moves_pure 9 e).less (by decide)
  split
  · exact hdone _
  · exact hdone _
  · exact moves_report sign rfl (hdone _)

private theorem moves_operation (levels : List Level) (hlevels : Apart levels) :
    Moves 0 3 (operation (n + 1) levels) := by
  cases levels with
  | nil =>
    rw [LoxLang.Parser.operation]
    exact ih.unary
  | cons level tighter =>
    have htighter : Apart tighter := fun l hl => hlevels l (List.mem_cons_of_mem level hl)
    rw [LoxLang.Parser.operation]
    refine moves_fromStart fun start => ?_
    refine (ih.operation tighter htighter).bind (fun left => ?_) (by decide)
    exact (ih.operationTail level tighter start left hlevels).more 3

private theorem moves_operationTail (level : Level) (tighter : List Level) (start : Nat)
    (left : Expr) (hlevels : Apart (level :: tighter)) :
    Moves 0 0 (operationTail (n + 1) level tighter start left) := by
  have htighter : Apart tighter := fun l hl => hlevels l (List.mem_cons_of_mem level hl)
  rw [LoxLang.Parser.operationTail]
  refine moves_peek fun next => ?_
  cases hop : next.bind level with
  | none => exact moves_pure 0 left next
  | some op =>
    obtain ⟨token, rfl, htoken⟩ := Option.bind_eq_some_iff.mp hop
    refine movesAt_advance (hlevels level List.mem_cons_self token op htoken) ?_
    refine ((ih.operation tighter htighter).more 3).bind (fun right => ?_) (by decide)
    refine moves_spanFrom start fun span => ?_
    exact ((ih.operationTail level tighter start _ hlevels).more 6).less (by decide)

private theorem moves_unary : Moves 0 3 (unary (n + 1)) := by
  rw [LoxLang.Parser.unary]
  refine moves_fromStart fun start => moves_peek fun next => ?_
  cases hop : next.bind unaryOp? with
  | none =>
    have hcall : Moves 0 3 (LoxLang.Parser.primary n >>= LoxLang.Parser.callTail n start) :=
      ih.primary.bind (fun callee => (ih.callTail start callee).more 3) (by decide)
    exact hcall next
  | some op =>
    obtain ⟨token, rfl, htoken⟩ := Option.bind_eq_some_iff.mp hop
    refine movesAt_advance (closer_of_unaryOp htoken) ?_
    refine (ih.unary.more 3).bind (fun operand => ?_) (by decide)
    exact (moves_finish 6 start _).less (by decide)

private theorem moves_callTail (start : Nat) (callee : Expr) :
    Moves 0 0 (callTail (n + 1) start callee) := by
  rw [LoxLang.Parser.callTail]
  refine moves_ifEat rfl ?_ (moves_ifEat rfl ?_ (moves_pure 0 callee))
  · have hargs := moves_before (.symbol .rightParen) ((ih.arguments 0).less (Nat.zero_le 3))
    refine (hargs.more 3).bind (fun args => ?_) (by decide)
    refine ((moves_expect _ rfl).more 3).bind (fun _ => ?_) (by decide)
    refine moves_spanFrom start fun span => ?_
    exact ((ih.callTail start _).more 6).less (by decide)
  · refine ((moves_expectName _).more 3).bind (fun name => ?_) (by decide)
    refine moves_spanFrom start fun span => ?_
    exact ((ih.callTail start _).more 6).less (by decide)

private theorem moves_arguments (count : Nat) : Moves 0 3 (arguments (n + 1) count) := by
  rw [LoxLang.Parser.arguments]
  refine moves_limit rfl ?_
  refine ih.expression.bind (fun first => ?_) (by decide)
  have hothers := moves_after (.symbol .comma) rfl
    (((ih.arguments (count + 1)).more 3).less (by decide))
  exact (hothers.more 3).andThen fun _ _ => ⟨_, rfl⟩

private theorem moves_primary : Moves 0 3 (primary (n + 1)) := by
  rw [LoxLang.Parser.primary]
  refine moves_fromStart fun start => moves_peek fun next => ?_
  split
  · exact movesAt_advance rfl (moves_finish 3 start _)
  · exact movesAt_advance rfl (moves_finish 3 start _)
  · refine movesAt_advance rfl ?_
    refine (ih.expression.more 3).bind (fun inner => ?_) (by decide)
    refine ((moves_expect _ rfl).more 6).bind (fun _ => ?_) (by decide)
    exact (moves_finish 9 start _).less (by decide)
  · refine movesAt_advance rfl ?_
    refine ((moves_expect _ rfl).more 3).bind (fun _ => ?_) (by decide)
    refine ((moves_expectName _).more 6).bind (fun method => ?_) (by decide)
    exact (moves_finish 9 start _).less (by decide)
  · cases hvalue : next.bind literal? with
    | none => exact moves_fail 0 3 _ next
    | some value =>
      obtain ⟨token, rfl, htoken⟩ := Option.bind_eq_some_iff.mp hvalue
      exact movesAt_advance (closer_of_literal htoken) (moves_finish 3 start _)

end

private theorem expressionsMove (n : Nat) : ExpressionsMove n := by
  induction n with
  | zero => exact expressionsMove_zero
  | succ n ih =>
    exact ⟨moves_expression ih, moves_operation ih, moves_operationTail ih, moves_unary ih,
      moves_callTail ih, moves_arguments ih, moves_primary ih⟩

/-! ## Skipping ahead -/

private theorem closer_not_start {token : Token} (h : closer token = true) :
    Grammar.startsDeclaration token = false := by
  cases token with
  | symbol s => cases s <;> revert h <;> decide
  | _ => exact Bool.noConfusion h

/-- In the row no declaration begins. The reader notes this and skips. -/
theorem recover_row {r : Reader} {s : Symbol} (n : Nat) (hrow : Row s r.rest) (hne : r.rest ≠ [])
    (hfinal : r.Final) : ∃ r', recover (declaration n) r = .ok none r' ∧
      r'.rest = r.synchronize.rest ∧ r'.Final := by
  obtain ⟨l, ls, hrest⟩ := List.exists_cons_of_ne_nil hne
  have hlacks : Lacks Grammar.startsDeclaration r := by
    intro token htoken
    have hl : l.token = token := by simpa [Reader.tokens, hrest] using htoken
    rw [hrest] at hrow
    exact closer_not_start (hl ▸ hrow.closer)
  refine ⟨_, by rw [recover, declaration_stuck n hlacks], ?_, ?_⟩
  · rw [synchronize_cons hrest]
    exact synchronize_cons hrest
  · exact (hfinal.push (Reader.final_expected hne _)).synchronize

/-- Before the row, reading a declaration and skipping if it fails costs nothing on the whole. -/
theorem recover_front {r : Reader} {l : Lexeme} {ls : List Lexeme} {n c : Nat}
    (hmoves : Moves 0 1 (declaration n)) (hrest : r.rest = l :: ls) (hroom : Room (c + 1 + 3) ls)
    (hfinal : r.Final) : ∃ first r', recover (declaration n) r = .ok first r' ∧
      Room (c + 1) r'.rest ∧ r'.Final := by
  have hstart : Room (c + 1 + 0) r.rest := by
    rw [hrest]
    exact hroom.cons l
  have hleaves := hmoves.apply hstart hfinal
  unfold recover
  cases hread : declaration n r with
  | ok stmt r' =>
    rw [hread] at hleaves
    exact ⟨some stmt, r', rfl, hleaves.1.mono (by omega), hleaves.2⟩
  | error e r' =>
    rw [hread] at hleaves
    obtain ⟨hstuck | hmoved, hfinal', he⟩ := hleaves
    · refine ⟨none, _, rfl, ?_, (hfinal'.push he).synchronize⟩
      exact Room.synchronize_front hroom (hstuck.trans hrest)
    · refine ⟨none, _, rfl, ?_, (hfinal'.push he).synchronize⟩
      exact Room.synchronize hmoved

private theorem declarations_closed (n : Nat) {r : Reader}
    (h : r.tokens.head? = some (.symbol .rightBrace)) : declarations n r = .ok [] r := by
  cases n with
  | zero => rfl
  | succ n =>
    rw [declarations, bind_apply, closes_apply, h]
    rfl

/-! ## Statements and declarations -/

private theorem moves_parameters (n count : Nat) : Moves 0 3 (parameters n count) := by
  induction n generalizing count with
  | zero => exact moves_fail _ _ _
  | succ n ih =>
    rw [parameters]
    refine moves_limit rfl ?_
    refine (moves_expectName _).bind (fun first => ?_) (by decide)
    have hothers := moves_after (.symbol .comma) rfl (((ih (count + 1)).more 3).less (by decide))
    exact (hothers.more 3).andThen fun _ _ => ⟨_, rfl⟩

private theorem moves_optional (token : Token) (n : Nat) :
    Moves 0 0 (before token (expression n)) :=
  moves_before token ((expressionsMove n).expression.less (Nat.zero_le 3))

private theorem moves_semicolon (k : Nat) {what : String} {start : Nat} {stmt : Span → Stmt} :
    Moves (k + 3) (k + 2) (do
      expect (.symbol .semicolon) what
      return stmt (← spanFrom start)) :=
  ((moves_expectAny _ _).more (k + 2)).mono (by omega) (by omega) |>.bind
    (fun _ => moves_finish (k + 2) start stmt) (by omega)

private theorem moves_exprStmt (n : Nat) : Moves 0 2 (exprStmt n) := by
  refine moves_fromStart fun start => ?_
  exact (expressionsMove n).expression.bind (fun value => moves_semicolon 0) (by decide)

private theorem moves_varDecl (n start : Nat) : Moves 0 2 (varDecl n start) := by
  refine (moves_expectName _).bind (fun name => ?_) (by decide)
  have hvalue := moves_after (.symbol .equal) rfl
    (((expressionsMove n).expression.more 3).less (by decide))
  exact (hvalue.more 3).bind (fun value => moves_semicolon 0) (by decide)

private theorem moves_superclassRef : Moves 0 3 superclassRef :=
  fun _ => movesAt_fromSpan fun _ => (moves_expectName _).andThen (fun _ _ => ⟨_, rfl⟩) _

private theorem moves_forInit (n : Nat) : Moves 1 0 (forInit n) := by
  refine moves_fromStart fun start => moves_ifEatAny ?_
  refine moves_ifEat rfl ?_ ?_
  · exact (((moves_varDecl n start).map).more 4).less (by decide)
  · exact (((moves_exprStmt n).map).more 1).less (by decide)

/-- Lists of declarations are always read, and take one lexeme of the row at most. -/
def Lists (n : Nat) : Prop :=
  ∀ c r, Room (c + 2) r.rest → r.Final →
    ∃ body r', declarations n r = .ok body r' ∧ Room (c + 1) r'.rest ∧ r'.Final

private theorem Lists.moves {n : Nat} (h : Lists n) : Moves 1 0 (declarations n) := by
  intro next c r _ hroom hfinal
  obtain ⟨body, r', hread, hroom', hfinal'⟩ := h c r hroom hfinal
  rw [hread]
  exact ⟨hroom', hfinal'⟩

/-- Statements take less of the row than they make room for. -/
structure StatementsMove (n : Nat) : Prop where
  declaration : Moves 0 1 (declaration n)
  declarations : Lists n
  block : Moves 3 1 (block n)
  function : ∀ kind start, Moves 0 2 (function n kind start)
  methods : Moves 0 0 (methods n)
  classDecl : ∀ start, Moves 0 1 (classDecl n start)
  statement : Moves 0 1 (statement n)

private theorem statementsMove_zero : StatementsMove 0 where
  declaration := moves_fail _ _ _
  declarations _ r hroom hfinal := ⟨[], r, rfl, hroom.mono (by omega), hfinal⟩
  block := moves_fail _ _ _
  function _ _ := moves_fail _ _ _
  methods := moves_fail _ _ _
  classDecl _ := moves_fail _ _ _
  statement := moves_fail _ _ _

section
variable {n : Nat} (ih : StatementsMove n)
include ih

private theorem moves_declaration : Moves 0 1 (declaration (n + 1)) := by
  rw [LoxLang.Parser.declaration]
  refine moves_fromStart fun start => ?_
  refine moves_ifEat rfl (((ih.classDecl start).more 3).less (by decide)) ?_
  refine moves_ifEat rfl ((((ih.function _ start).map).more 3).less (by decide)) ?_
  exact moves_ifEat rfl (((moves_varDecl n start).more 3).less (by decide)) ih.statement

/-- A semicolon of the row is skipped, and the brace after it ends the list. -/
theorem lists_declarations : Lists (n + 1) := by
  intro c r hroom hfinal
  have hstep {first : Option Stmt} {others : List Stmt} {r₁ r₂ : Reader}
      (hopen : r.tokens.head?.all (· = .symbol .rightBrace) = false)
      (hfirst : recover (LoxLang.Parser.declaration n) r = .ok first r₁)
      (hothers : LoxLang.Parser.declarations n r₁ = .ok others r₂) :
      LoxLang.Parser.declarations (n + 1) r = .ok (first.toList ++ others) r₂ := by
    rw [LoxLang.Parser.declarations, bind_apply, closes_apply, hopen]
    simp only [Bool.false_eq_true, if_false]
    simp only [bind_apply, hfirst, hothers]
    rfl
  by_cases hclosed : r.tokens.head? = some (.symbol .rightBrace)
  · exact ⟨[], r, declarations_closed _ hclosed, hroom.mono (by omega), hfinal⟩
  obtain ⟨l, ls, hrest⟩ := List.exists_cons_of_ne_nil hroom.ne_nil
  have hopen : r.tokens.head?.all (· = .symbol .rightBrace) = false := by
    simpa [Reader.tokens, hrest] using hclosed
  rcases hroom.cases with ⟨s, hrow, hlength⟩ | ⟨f, fs, hfront, hfs⟩
  · obtain ⟨r₁, hfirst, hskip, hfinal₁⟩ := recover_row n hrow hroom.ne_nil hfinal
    rw [hrest] at hrow hlength
    cases hrow with
    | rightBrace hl => exact absurd (by simp [Reader.tokens, hrest, hl]) hclosed
    | semicolon hl hls =>
      rw [synchronize_cons hrest, skipFrom_semicolon hl] at hskip
      rw [List.length_cons] at hlength
      have hroom₁ : Room (c + 1) r₁.rest := by
        rw [hskip]
        exact hls.room (by omega)
      have hbrace : r₁.tokens.head? = some (.symbol .rightBrace) := by
        cases hls with
        | nil => simp at hlength
        | rightBrace hl' _ => simp [Reader.tokens, hskip, hl']
      exact ⟨_, r₁, hstep hopen hfirst (declarations_closed n hbrace), hroom₁, hfinal₁⟩
  · obtain ⟨first, r₁, hfirst, hroom₁, hfinal₁⟩ := recover_front ih.declaration hfront hfs hfinal
    obtain ⟨others, r₂, hothers, hroom₂, hfinal₂⟩ := ih.declarations c r₁ hroom₁ hfinal₁
    exact ⟨_, r₂, hstep hopen hfirst hothers, hroom₂, hfinal₂⟩

private theorem moves_block : Moves 3 1 (block (n + 1)) := by
  rw [LoxLang.Parser.block]
  refine (ih.declarations.moves.more 2).bind (fun body => ?_) (by decide)
  exact ((moves_expectAny _ _).more 1).andThen fun _ _ => ⟨_, rfl⟩

private theorem moves_function (kind : String) (start : Nat) :
    Moves 0 2 (function (n + 1) kind start) := by
  have hparams := moves_before (.symbol .rightParen) ((moves_parameters n 0).less (Nat.zero_le 3))
  rw [LoxLang.Parser.function]
  refine (moves_expectName _).bind (fun name => ?_) (by decide)
  refine ((moves_expect _ rfl).more 3).bind (fun _ => ?_) (by decide)
  refine (hparams.more 6).bind (fun params => ?_) (by decide)
  refine ((moves_expect _ rfl).more 6).bind (fun _ => ?_) (by decide)
  refine ((moves_expect _ rfl).more 9).bind (fun _ => ?_) (by decide)
  refine (ih.block.more 9).bind (fun body => ?_) (by decide)
  exact (moves_finish 10 start _).less (by decide)

private theorem moves_methods : Moves 0 0 (methods (n + 1)) := by
  rw [LoxLang.Parser.methods]
  refine moves_ifCloses (moves_pure 0 []) ?_
  refine moves_fromStart fun start => ?_
  refine (ih.function _ start).bind (fun first => ?_) (by decide)
  exact ((ih.methods.more 2).less (by decide)).andThen fun _ _ => ⟨_, rfl⟩

private theorem moves_classDecl (start : Nat) : Moves 0 1 (classDecl (n + 1) start) := by
  have hsuper := moves_after (.symbol .less) rfl ((moves_superclassRef.more 3).less (by decide))
  rw [LoxLang.Parser.classDecl]
  refine (moves_expectName _).bind (fun name => ?_) (by decide)
  refine (hsuper.more 3).bind (fun superclass => ?_) (by decide)
  refine ((moves_expect _ rfl).more 3).bind (fun _ => ?_) (by decide)
  refine (ih.methods.more 6).bind (fun methods => ?_) (by decide)
  refine ((moves_expectAny _ _).more 5).bind (fun _ => ?_) (by decide)
  exact (moves_finish 5 start _).less (by decide)

private theorem moves_counting (start : Nat) : Moves 3 1 (do
    expect (.symbol .leftParen) "'(' after 'for'"
    let init ← forInit n
    let condition ← before (.symbol .semicolon) (expression n)
    expect (.symbol .semicolon) "';' after loop condition"
    let increment ← before (.symbol .rightParen) (expression n)
    expect (.symbol .rightParen) "')' after for clauses"
    let body ← LoxLang.Parser.statement n
    return forLoop (← spanFrom start) init condition increment body) := by
  refine ((moves_expect _ rfl).more 3).bind (fun _ => ?_) (by decide)
  refine ((moves_forInit n).more 5).bind (fun init => ?_) (by decide)
  refine ((moves_optional _ n).more 5).bind (fun condition => ?_) (by decide)
  refine ((moves_expectAny _ _).more 4).bind (fun _ => ?_) (by decide)
  refine ((moves_optional _ n).more 4).bind (fun increment => ?_) (by decide)
  refine ((moves_expect _ rfl).more 4).bind (fun _ => ?_) (by decide)
  refine (ih.statement.more 7).bind (fun body => ?_) (by decide)
  exact (moves_finish 8 start _).less (by decide)

private theorem moves_branch (start : Nat) : Moves 3 1 (do
    expect (.symbol .leftParen) "'(' after 'if'"
    let condition ← expression n
    expect (.symbol .rightParen) "')' after if condition"
    let yes ← LoxLang.Parser.statement n
    let no ← after (.keyword .kwElse) (LoxLang.Parser.statement n)
    return Stmt.branch (← spanFrom start) condition yes no) := by
  have helse := moves_after (.keyword .kwElse) rfl ((ih.statement.more 3).less (by decide))
  refine ((moves_expect _ rfl).more 3).bind (fun _ => ?_) (by decide)
  refine ((expressionsMove n).expression.more 6).bind (fun condition => ?_) (by decide)
  refine ((moves_expect _ rfl).more 9).bind (fun _ => ?_) (by decide)
  refine (ih.statement.more 12).bind (fun yes => ?_) (by decide)
  refine (helse.more 13).bind (fun no => ?_) (by decide)
  exact (moves_finish 13 start _).less (by decide)

private theorem moves_loop (start : Nat) : Moves 3 1 (do
    expect (.symbol .leftParen) "'(' after 'while'"
    let condition ← expression n
    expect (.symbol .rightParen) "')' after condition"
    let body ← LoxLang.Parser.statement n
    return Stmt.loop (← spanFrom start) condition body) := by
  refine ((moves_expect _ rfl).more 3).bind (fun _ => ?_) (by decide)
  refine ((expressionsMove n).expression.more 6).bind (fun condition => ?_) (by decide)
  refine ((moves_expect _ rfl).more 9).bind (fun _ => ?_) (by decide)
  refine (ih.statement.more 12).bind (fun body => ?_) (by decide)
  exact (moves_finish 13 start _).less (by decide)

private theorem moves_statement : Moves 0 1 (statement (n + 1)) := by
  rw [LoxLang.Parser.statement]
  refine moves_fromStart fun start => ?_
  refine moves_ifEat rfl (moves_counting ih start) ?_
  refine moves_ifEat rfl (moves_branch ih start) ?_
  refine moves_ifEat rfl ?_ ?_
  · refine ((expressionsMove n).expression.more 3).bind (fun value => ?_) (by decide)
    exact (moves_semicolon 3).less (by decide)
  refine moves_ifEat rfl ?_ ?_
  · refine ((moves_optional _ n).more 3).bind (fun value => ?_) (by decide)
    exact (moves_semicolon 0).less (by decide)
  refine moves_ifEat rfl (moves_loop ih start) ?_
  refine moves_ifEat rfl ?_ ((moves_exprStmt n).less (by decide))
  exact ih.block.andThen fun _ _ => ⟨_, rfl⟩

end

private theorem statementsMove (n : Nat) : StatementsMove n := by
  induction n with
  | zero => exact statementsMove_zero
  | succ n ih =>
    exact ⟨moves_declaration ih, lists_declarations ih, moves_block ih, moves_function ih,
      moves_methods ih, moves_classDecl ih, moves_statement ih⟩

/-- A program that ends in a row with enough room has no error that more input could mend. What is
left of the row is skipped. -/
theorem final_program (n : Nat) {r r' : Reader} {stmts : List Stmt}
    (hrest : Room 1 r.rest ∨ ∃ s, Row s r.rest) (hfinal : r.Final)
    (hread : program n r = .ok stmts r') : r'.Final := by
  induction n generalizing r stmts with
  | zero =>
    cases hread
    exact hfinal
  | succ n ih =>
    by_cases hnil : r.rest = []
    · have hend : r.tokens.isEmpty = true := by simp [Reader.tokens, hnil]
      rw [program, bind_apply, atEnd_apply, hend] at hread
      cases hread
      exact hfinal
    -- One declaration is read or skipped, and what is ahead then is as before.
    obtain ⟨first, r₁, hfirst, hrest₁, hfinal₁⟩ : ∃ first r₁,
        recover (declaration n) r = .ok first r₁ ∧
          (Room 1 r₁.rest ∨ ∃ s, Row s r₁.rest) ∧ r₁.Final := by
      have hcases : (∃ s, Row s r.rest) ∨ ∃ l ls, r.rest = l :: ls ∧ Room (0 + 1 + 3) ls := by
        rcases hrest with hroom | hrow
        · rcases hroom.cases with ⟨s, hrow, -⟩ | hfront
          · exact .inl ⟨s, hrow⟩
          · exact .inr hfront
        · exact .inl hrow
      rcases hcases with ⟨s, hrow⟩ | ⟨l, ls, hl, hls⟩
      · obtain ⟨r₁, hfirst, hskip, hfinal₁⟩ := recover_row n hrow hnil hfinal
        refine ⟨none, r₁, hfirst, .inr ?_, hfinal₁⟩
        rw [hskip]
        exact (remains_synchronize hrow).1
      · obtain ⟨first, r₁, hfirst, hroom₁, hfinal₁⟩ :=
          recover_front (statementsMove n).declaration hl hls hfinal
        exact ⟨first, r₁, hfirst, .inl hroom₁, hfinal₁⟩
    obtain ⟨others, r₂, hothers⟩ := program_ok n r₁
    have hend : r.tokens.isEmpty = false := by simp [Reader.tokens, hnil]
    rw [program, bind_apply, atEnd_apply, hend] at hread
    simp only [Bool.false_eq_true, if_false] at hread
    simp only [bind_apply, hfirst, hothers] at hread
    obtain ⟨-, rfl⟩ := EStateM.Result.ok.inj hread
    exact ih hrest₁ hfinal₁ hothers

end Parser

/-! ## Sources -/

namespace Lexeme

private theorem isOpenString_of_closed {content : List Char} (h : '"' ∉ content) {start : Nat}
    (l : Lexeme)
    (hl : l ∈ lexemesFrom start ('"' :: content ++ '\n' :: ['"'])) : l.isOpenString = false := by
  have hpass : ∀ c ∈ content, decide (c ≠ '"') = true := by
    intro c hc
    exact decide_eq_true fun heq => h (heq ▸ hc)
  have hrest : (content ++ '\n' :: ['"']).dropWhile (· ≠ '"') = ['"'] := by
    rw [List.dropWhile_append_of_pos hpass]
    rfl
  rw [List.cons_append, lexemesFrom_cons] at hl
  change l ∈ ((cutString _).lexeme? start).toList ++
    lexemesFrom (start + byteSize (cutString _).taken) (cutString _).rest at hl
  simp only [cutString, hrest, lexemesFrom_nil, List.append_nil, Cut.lexeme?, Option.map_some,
    Option.toList_some, List.mem_singleton] at hl
  rw [hl]
  rfl

/-- A text that is in the middle of a string can be continued so that it is not. -/
theorem exists_closed (text : List Char) : ∃ more,
    (∀ l ∈ lexemesFrom 0 (text ++ more), l.isOpenString = false) ∧
    ∀ rest, lexemesFrom 0 (text ++ more ++ '\n' :: rest) =
      lexemesFrom 0 (text ++ more) ++ lexemesFrom (byteSize (text ++ more) + 1) rest := by
  cases ending 0 text with
  | closed hall hline =>
    refine ⟨[], by rwa [List.append_nil], fun rest => ?_⟩
    rw [List.append_nil, hline, Nat.zero_add]
  | inString front last quote content _ _ hfront hcontent hline =>
    have hopen (l : Lexeme) (h : l ∈ lexemesFrom 0 (text ++ '\n' :: ['"'])) :
        l.isOpenString = false := by
      rw [hline, List.mem_append] at h
      exact h.elim (hfront l) (isOpenString_of_closed hcontent l)
    cases hend : ending 0 (text ++ '\n' :: ['"']) with
    | closed hall hline' =>
      refine ⟨'\n' :: ['"'], hall, fun rest => ?_⟩
      rw [hline', Nat.zero_add]
    | inString _ last' _ _ hlexemes hlast _ _ _ =>
      rw [hopen last' (by simp [hlexemes])] at hlast
      exact Bool.noConfusion hlast

end Lexeme

def closers : Nat → List Char
  | 0 => []
  | k + 1 => ';' :: '\x7d' :: closers k

private theorem row_closers (start k : Nat) :
    Parser.Row .semicolon (Lexeme.lexemesFrom start (closers k)) ∧
      (Lexeme.lexemesFrom start (closers k)).length = 2 * k := by
  induction k generalizing start with
  | zero => exact ⟨.nil _, rfl⟩
  | succ k ih =>
    have hrow : Lexeme.lexemesFrom start (closers (k + 1)) =
        ⟨.symbol .semicolon, ";", ⟨start, start + 1⟩⟩ ::
          ⟨.symbol .rightBrace, "\x7d", ⟨start + 1, start + 1 + 1⟩⟩ ::
            Lexeme.lexemesFrom (start + 1 + 1) (closers k) := by
      rw [closers, Lexeme.lexemesFrom_cons]
      change _ :: Lexeme.lexemesFrom (start + 1) ('\x7d' :: closers k) = _
      rw [Lexeme.lexemesFrom_cons]
      rfl
    obtain ⟨hk, hlength⟩ := ih (start + 1 + 1)
    rw [hrow]
    exact ⟨.semicolon rfl (.rightBrace rfl hk), by simp only [List.length_cons]; omega⟩

/-- Items that hand on all of a row after at most `n` other lexemes, with errors that no more input
could mend. -/
structure Handed (row : List Lexeme) (n : Nat) (items : List Item) : Prop where
  lexemes : ∃ front, Item.lexemes items = front ++ row ∧ front.length ≤ n
  errors : ∀ e ∈ Item.errors items, e.value.isOpenEnded = false

namespace Handed

variable {row : List Lexeme} {n : Nat} {items : List Item}

theorem mono {m : Nat} (h : Handed row n items) (hm : n ≤ m) : Handed row m items := by
  obtain ⟨⟨front, hlexemes, hlength⟩, herrors⟩ := h
  exact ⟨⟨front, hlexemes, by omega⟩, herrors⟩

theorem ok (l : Lexeme) (h : Handed row n items) : Handed row (n + 1) (.ok l :: items) := by
  obtain ⟨⟨front, hlexemes, hlength⟩, herrors⟩ := h
  refine ⟨⟨l :: front, ?_, by rw [List.length_cons]; omega⟩, herrors⟩
  exact congrArg (l :: ·) hlexemes

theorem error {e : Located Error} (he : e.value.isOpenEnded = false) (h : Handed row n items) :
    Handed row n (.error e :: items) := by
  refine ⟨h.lexemes, fun x hx => ?_⟩
  rcases List.mem_cons.mp hx with rfl | hx
  · exact he
  · exact h.errors x hx

theorem valid (h : .invalid ∉ row.map (·.token)) : Handed row 0 (itemsFrom none row) where
  lexemes := ⟨[], lexemes_itemsFrom h, Nat.le_refl 0⟩
  errors e he := by
    rw [errors_itemsFrom_eq_nil.mpr h] at he
    exact absurd he List.not_mem_nil

end Handed

/-- Valid lexemes after a gap are handed on, and what is before the gap gives no error that more
input could mend if no string is open there. -/
theorem handed_itemsFrom {gap : Nat} {front row : List Lexeme} (run : Option (Located String))
    (hrun : ∀ found ∈ run, found.span.stop < gap) (hfront : ∀ l ∈ front, l.span.stop < gap)
    (hclosed : ∀ l ∈ front, l.isOpenString = false) (hrow : ∀ l ∈ row, gap ≤ l.span.start)
    (hvalid : .invalid ∉ row.map (·.token)) :
    Handed row front.length (itemsFrom run (front ++ row)) := by
  induction front generalizing run with
  | nil =>
    rw [List.nil_append]
    cases run with
    | none => exact .valid hvalid
    | some found =>
      cases row with
      | nil =>
        have hnone : Handed [] 0 (itemsFrom none []) := .valid hvalid
        exact .error rfl hnone
      | cons l ls =>
        have hgap : found.span.stop ≠ l.span.start := by
          have hstop := hrun found rfl
          have hstart := hrow l List.mem_cons_self
          omega
        rw [itemsFrom, if_neg hgap]
        have hitems : itemsFrom none (l :: ls) = .ok l :: itemsFrom none ls := by
          rw [itemsFrom, if_pos fun h => hvalid (by simp [h])]
        rw [← hitems]
        exact .error rfl (.valid hvalid)
  | cons l front ih =>
    have hl := hfront l List.mem_cons_self
    have ih (run : Option (Located String)) (hrun : ∀ found ∈ run, found.span.stop < gap) :=
      ih run hrun (fun l' hl' => hfront l' (List.mem_cons_of_mem l hl'))
        fun l' hl' => hclosed l' (List.mem_cons_of_mem l hl')
    have hnone := ih none (by simp)
    rw [List.length_cons, List.cons_append]
    cases run with
    | none =>
      rw [itemsFrom]
      split
      · exact hnone.ok l
      · rw [if_neg (by simp [hclosed l List.mem_cons_self])]
        exact (ih _ (by simpa using hl)).mono (Nat.le_succ _)
    | some found =>
      rw [itemsFrom]
      split
      · exact (ih _ (by simpa using hl)).mono (Nat.le_succ _)
      · exact .error rfl (hnone.ok l)

theorem Parser.Row.valid {s : Symbol} {row : List Lexeme} (h : Parser.Row s row) :
    .invalid ∉ row.map (·.token) := by
  induction h with
  | nil => exact List.not_mem_nil
  | semicolon hl _ ih => simp only [List.map_cons, hl, List.mem_cons, reduceCtorEq, ih, or_self,
      not_false_eq_true]
  | rightBrace hl _ ih => simp only [List.map_cons, hl, List.mem_cons, reduceCtorEq, ih, or_self,
      not_false_eq_true]

/-- A text that does not end in a string, then a line of closing tokens: with enough of them, the
reader begins with room and without an error that more input could mend. -/
theorem opening_closed {source : String} {front : List Lexeme} {gap k : Nat}
    (hlexemes : lexemes source = front ++ Lexeme.lexemesFrom gap (closers k))
    (hfront : ∀ l ∈ front, l.span.stop < gap) (hclosed : ∀ l ∈ front, l.isOpenString = false)
    (hk : 3 * front.length + 1 ≤ 2 * k) :
    Parser.Room 1 (Reader.opening source).rest ∧ (Reader.opening source).Final := by
  obtain ⟨hrow, hlength⟩ := row_closers gap k
  have hgap : ∀ l ∈ Lexeme.lexemesFrom gap (closers k), gap ≤ l.span.start :=
    fun l hl => (Lexeme.span_mem_lexemesFrom hl).1
  have hitems : Handed (Lexeme.lexemesFrom gap (closers k)) front.length (items source) := by
    rw [items, hlexemes]
    exact handed_itemsFrom none (by simp) hfront hclosed hgap hrow.valid
  obtain ⟨before, hbefore, hle⟩ := hitems.lexemes
  refine ⟨⟨before, .semicolon, _, hbefore, hrow, by omega⟩, fun e he => ?_⟩
  exact hitems.errors e (by simpa [Reader.opening] using he)

/-- Every source is complete after some more text. -/
theorem exists_complete (source : String) : ∃ more, isComplete (source ++ more) = true := by
  obtain ⟨close, hclosed, hline⟩ := Lexeme.exists_closed source.toList
  let front := Lexeme.lexemesFrom 0 (source.toList ++ close)
  let gap := byteSize (source.toList ++ close) + 1
  let k := 3 * front.length + 1
  refine ⟨String.ofList (close ++ '\n' :: closers k), ?_⟩
  have htext : (source ++ String.ofList (close ++ '\n' :: closers k)).toList =
      source.toList ++ close ++ '\n' :: closers k := by
    rw [String.toList_append, String.toList_ofList, List.append_assoc]
  have hlexemes : lexemes (source ++ String.ofList (close ++ '\n' :: closers k)) =
      front ++ Lexeme.lexemesFrom gap (closers k) := by
    rw [lexemes_eq, htext, hline]
  have hfront : ∀ l ∈ front, l.span.stop < gap := by
    intro l hl
    have hspan := (Lexeme.span_mem_lexemesFrom hl).2.2
    omega
  obtain ⟨hroom, hfinal⟩ := opening_closed hlexemes hfront hclosed (by omega)
  obtain ⟨r, hread, herrors⟩ := program_opening (Nat.le_refl (Parser.depth
    (Reader.opening (source ++ String.ofList (close ++ '\n' :: closers k))).rest))
  have hdone := Parser.final_program _ (.inl hroom) hfinal hread
  rw [isComplete, ← herrors, Bool.not_eq_true', List.any_eq_false]
  intro e he
  simpa using hdone e (Array.mem_toList_iff.mp he)

end LoxLang
