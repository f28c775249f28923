import LoxLang.Proofs.Grammar.Depth
import LoxLang.Proofs.Lexemes
import LoxLang.Proofs.Prompt.RunningOut
/-!
# Sources that can go on

If some continuation makes a source readable without errors, then all that the
reader finds wrong with the source itself is that it is not finished. So a prompt
that waits for more lines as long as a source is incomplete never takes it away
too early.
-/
namespace LoxLang
open Token

namespace Parser

/-! ## Expressions -/

structure ExpressionsFollow (more : List Lexeme) (n : Nat) : Prop where
  expression : Follows more (expression n)
  operation : ∀ levels, Follows more (operation n levels)
  operationTail : ∀ level tighter start left,
    Follows more (operationTail n level tighter start left)
  unary : Follows more (unary n)
  callTail : ∀ start callee, Follows more (callTail n start callee)
  arguments : ∀ count, Follows more (arguments n count)
  primary : Follows more (primary n)

variable {more : List Lexeme}

private theorem expressionsFollow_zero : ExpressionsFollow more 0 where
  expression := follows_fail _
  operation _ := follows_fail _
  operationTail _ _ _ _ := follows_fail _
  unary := follows_fail _
  callTail _ _ := follows_fail _
  arguments _ := follows_fail _
  primary := follows_fail _

section
variable {n : Nat} (ih : ExpressionsFollow more n)
include ih

private theorem reads_invalidAssignment (start : Nat) (target : Expr) :
    Reads (do
      let sign ← nextSpan
      advance
      let _ ← LoxLang.Parser.expression n
      let _ ← spanFrom start
      report .invalidAssignTarget sign
      return target) fun _ _ _ => False := by
  refine reads_fromSpan fun sign => reads_anyAdvance.bind fun _ => ?_
  refine ih.expression.reads.bind fun value => reads_spanFrom start fun span => ?_
  exact (reads_report (P := fun _ _ _ => False) _ _).bind fun _ =>
    .pure fun _ _ hfalse => hfalse.elim

private theorem follows_expression : Follows more (expression (n + 1)) := by
  rw [LoxLang.Parser.expression]
  refine follows_fromStart (fun start => ((starved_operation n levels).bind _).quiet)
    fun start => ?_
  refine (ih.operation levels).bind (fun target => ?_) fun target => quiet_ifCheck (.pure target)
  refine follows_ifCheck ?_ (.pure target) (.pure target)
  have hassign (f : Span → Expr → Parser Expr) (hquiet : ∀ span value, Quiet (f span value))
      (hf : ∀ span value, Follows more (f span value)) : Follows more (do
        let _ ← nextSpan
        advance
        let value ← LoxLang.Parser.expression n
        let span ← spanFrom start
        f span value) := by
    refine follows_fromSpan (fun _ => quiet_advance ((starved_expression n).bind _).quiet)
      fun _ => follows_advance ((starved_expression n).bind _).quiet ?_
    exact ih.expression.bind
      (fun value => follows_spanFrom start fun span => hf span value)
      fun value => quiet_spanFrom start fun span => hquiet span value
  cases target with
  | var _ ref => exact hassign _ (fun _ _ => .pure _) fun _ _ => .pure _
  | get _ object name => exact hassign _ (fun _ _ => .pure _) fun _ _ => .pure _
  | _ => exact .ofNoisy (reads_invalidAssignment ih start _)

private theorem follows_operation (levels : List Level) :
    Follows more (operation (n + 1) levels) := by
  cases levels with
  | nil =>
    rw [LoxLang.Parser.operation]
    exact ih.unary
  | cons level tighter =>
    rw [LoxLang.Parser.operation]
    refine follows_fromStart (fun start => ((starved_operation n tighter).bind _).quiet)
      fun start => ?_
    exact (ih.operation tighter).bind (ih.operationTail level tighter start)
      (quiet_operationTail n level tighter start)

private theorem follows_operationTail (level : Level) (tighter : List Level) (start : Nat)
    (left : Expr) :
    Follows more (operationTail (n + 1) level tighter start left) := by
  rw [LoxLang.Parser.operationTail]
  refine follows_peek (.pure left) fun next => ?_
  cases next.bind level with
  | none => exact .pure left
  | some op =>
    refine follows_advance ((starved_operation n tighter).bind _).quiet ?_
    refine (ih.operation tighter).bind (fun right => ?_) fun right => ?_
    · exact follows_spanFrom start fun span => ih.operationTail level tighter start _
    · exact quiet_spanFrom start fun span => quiet_operationTail n level tighter start _

private theorem follows_unary : Follows more (unary (n + 1)) := by
  have hcall (start : Nat) :
      Follows more (LoxLang.Parser.primary n >>= LoxLang.Parser.callTail n start) :=
    ih.primary.bind (ih.callTail start) (quiet_callTail n start)
  have hquiet (start : Nat) :
      Quiet (LoxLang.Parser.primary n >>= LoxLang.Parser.callTail n start) :=
    ((starved_primary n).bind _).quiet
  rw [LoxLang.Parser.unary]
  refine follows_fromStart (fun start => quiet_peek (hquiet start)) fun start => ?_
  refine follows_peek (hquiet start) fun next => ?_
  cases next.bind unaryOp? with
  | none => exact hcall start
  | some op =>
    refine follows_advance ((starved_unary n).bind _).quiet ?_
    exact ih.unary.bind (fun operand => follows_spanFrom start fun span => .pure _)
      fun operand => quiet_spanFrom start fun span => .pure _

private theorem follows_callTail (start : Nat) (callee : Expr) :
    Follows more (callTail (n + 1) start callee) := by
  have hargs : Starved (LoxLang.Parser.arguments n 0) := starved_arguments n (by decide)
  rw [LoxLang.Parser.callTail]
  refine follows_ifEat ?_ (follows_ifEat ?_ (.pure callee) (.pure callee))
    (quiet_ifEat (.pure callee))
  · refine (follows_before (ih.arguments 0) hargs.quiet).bind (fun args => ?_)
      fun args => ((starved_expect _ _).bind _).quiet
    refine (follows_expect _ _).bind (fun _ => ?_) fun _ => ?_
    · exact follows_spanFrom start fun span => ih.callTail start _
    · exact quiet_spanFrom start fun span => quiet_callTail n start _
  · refine (follows_expectName _).bind (fun name => ?_) fun name => ?_
    · exact follows_spanFrom start fun span => ih.callTail start _
    · exact quiet_spanFrom start fun span => quiet_callTail n start _

private theorem follows_arguments (count : Nat) : Follows more (arguments (n + 1) count) := by
  rw [LoxLang.Parser.arguments]
  refine follows_limit ?_
  refine ih.expression.bind (fun first => ?_) fun first => quiet_after.bind fun _ => .pure _
  exact (follows_after (ih.arguments (count + 1))).bind (fun others => .pure _)
    fun others => .pure _

private theorem follows_primary : Follows more (primary (n + 1)) := by
  rw [LoxLang.Parser.primary]
  refine follows_fromStart (fun start => quiet_peek (starved_fail _).quiet) fun start => ?_
  refine follows_peek (starved_fail _).quiet fun next => ?_
  have hdone (e : Span → Expr) : Follows more (do return e (← spanFrom start)) :=
    follows_spanFrom start fun span => .pure _
  have hquiet (e : Span → Expr) : Quiet (do return e (← spanFrom start)) :=
    quiet_spanFrom start fun span => .pure _
  split
  · exact follows_advance (hquiet _) (hdone _)
  · exact follows_advance (hquiet _) (hdone _)
  · refine follows_advance ((starved_expression n).bind _).quiet ?_
    refine ih.expression.bind (fun inner => ?_) fun inner => ((starved_expect _ _).bind _).quiet
    exact (follows_expect _ _).bind (fun _ => hdone _) fun _ => hquiet _
  · refine follows_advance ((starved_expect _ _).bind _).quiet ?_
    refine (follows_expect _ _).bind (fun _ => ?_) fun _ => ((starved_expectName _).bind _).quiet
    exact (follows_expectName _).bind (fun method => hdone _) fun method => hquiet _
  · split
    · exact follows_advance (hquiet _) (hdone _)
    · exact follows_fail _

end

private theorem expressionsFollow (more : List Lexeme) (n : Nat) : ExpressionsFollow more n := by
  induction n with
  | zero => exact expressionsFollow_zero
  | succ n ih =>
    exact ⟨follows_expression ih, follows_operation ih, follows_operationTail ih,
      follows_unary ih, follows_callTail ih, follows_arguments ih, follows_primary ih⟩

/-! ## Statements and declarations -/

private theorem follows_parameters (n count : Nat) : Follows more (parameters n count) := by
  induction n generalizing count with
  | zero => exact follows_fail _
  | succ n ih =>
    rw [parameters]
    refine follows_limit ?_
    refine (follows_expectName _).bind (fun first => ?_)
      fun first => quiet_after.bind fun _ => .pure _
    exact (follows_after (ih (count + 1))).bind (fun others => .pure _) fun others => .pure _

private theorem follows_semicolon {what : String} {start : Nat} {stmt : Span → Stmt} :
    Follows more (do
      expect (.symbol .semicolon) what
      return stmt (← spanFrom start)) :=
  (follows_expect _ _).bind (fun _ => follows_spanFrom start fun _ => .pure _)
    fun _ => quiet_spanFrom start fun _ => .pure _

private theorem starved_semicolon {what : String} {start : Nat} {stmt : Span → Stmt} :
    Starved (do
      expect (.symbol .semicolon) what
      return stmt (← spanFrom start)) :=
  (starved_expect _ _).bind _

private theorem follows_exprStmt (n : Nat) : Follows more (exprStmt n) := by
  refine follows_fromStart (fun start => ((starved_expression n).bind _).quiet) fun start => ?_
  exact (expressionsFollow more n).expression.bind (fun value => follows_semicolon)
    fun value => starved_semicolon.quiet

private theorem follows_varDecl (n start : Nat) : Follows more (varDecl n start) := by
  have hexpr := (expressionsFollow more n).expression
  refine (follows_expectName _).bind (fun name => ?_)
    fun name => quiet_after.bind fun _ => starved_semicolon.quiet
  exact (follows_after hexpr).bind (fun value => follows_semicolon)
    fun value => starved_semicolon.quiet

private theorem follows_superclassRef : Follows more superclassRef :=
  follows_fromSpan (fun _ => ((starved_expectName _).bind _).quiet) fun _ =>
    (follows_expectName _).bind (fun _ => .pure _) fun _ => .pure _

private theorem follows_optional (n : Nat) (token : Token) :
    Follows more (before token (expression n)) :=
  follows_before (expressionsFollow more n).expression (starved_expression n).quiet

private theorem follows_forInit (n : Nat) : Follows more (forInit n) := by
  have hstmt : Quiet (some <$> exprStmt n) := (starved_exprStmt n).quiet.map
  refine follows_fromStart (fun start => quiet_ifEat (quiet_ifEat hstmt)) fun start => ?_
  refine follows_ifEat (.pure none) ?_ (quiet_ifEat hstmt)
  exact follows_ifEat (follows_varDecl n start).map (follows_exprStmt n).map hstmt

structure StatementsFollow (more : List Lexeme) (n : Nat) : Prop where
  declaration : Follows more (declaration n)
  declarations : Follows more (declarations n)
  block : Follows more (block n)
  function : ∀ kind start, Follows more (function n kind start)
  methods : Follows more (methods n)
  classDecl : ∀ start, Follows more (classDecl n start)
  statement : Follows more (statement n)

private theorem statementsFollow_zero : StatementsFollow more 0 where
  declaration := follows_fail _
  declarations := .pure []
  block := follows_fail _
  function _ _ := follows_fail _
  methods := follows_fail _
  classDecl _ := follows_fail _
  statement := follows_fail _

section
variable {n : Nat} (ih : StatementsFollow more n)
include ih

private theorem follows_declaration : Follows more (declaration (n + 1)) := by
  have hquiet := (starved_statement n).quiet
  rw [LoxLang.Parser.declaration]
  refine follows_fromStart (fun start => quiet_ifEat (quiet_ifEat (quiet_ifEat hquiet)))
    fun start => ?_
  refine follows_ifEat (ih.classDecl start) ?_ (quiet_ifEat (quiet_ifEat hquiet))
  refine follows_ifEat (ih.function _ start).map ?_ (quiet_ifEat hquiet)
  exact follows_ifEat (follows_varDecl n start) ih.statement hquiet

private theorem follows_declarations : Follows more (declarations (n + 1)) := by
  rw [LoxLang.Parser.declarations]
  refine follows_ifCloses (.pure []) ?_ (.pure [])
  refine (follows_recover ih.declaration).bind (fun first => ?_)
    fun first => (quiet_declarations n).bind fun others => .pure _
  exact ih.declarations.bind (fun others => .pure _) fun others => .pure _

private theorem follows_block : Follows more (block (n + 1)) := by
  rw [LoxLang.Parser.block]
  refine ih.declarations.bind (fun body => ?_) fun body => ((starved_expect _ _).bind _).quiet
  exact (follows_expect _ _).bind (fun _ => .pure body) fun _ => .pure body

private theorem follows_function (kind : String) (start : Nat) :
    Follows more (function (n + 1) kind start) := by
  have hparams : Starved (parameters n 0) := starved_parameters n (by decide)
  rw [LoxLang.Parser.function]
  refine (follows_expectName _).bind (fun name => ?_)
    fun name => ((starved_expect _ _).bind _).quiet
  refine (follows_expect _ _).bind (fun _ => ?_)
    fun _ => (quiet_before hparams.quiet).bind fun _ => ((starved_expect _ _).bind _).quiet
  refine (follows_before (follows_parameters n 0) hparams.quiet).bind (fun params => ?_)
    fun params => ((starved_expect _ _).bind _).quiet
  refine (follows_expect _ _).bind (fun _ => ?_) fun _ => ((starved_expect _ _).bind _).quiet
  refine (follows_expect _ _).bind (fun _ => ?_)
    fun _ => (quiet_block n).bind fun body => quiet_spanFrom start fun span => .pure _
  exact ih.block.bind (fun body => follows_spanFrom start fun span => .pure _)
    fun body => quiet_spanFrom start fun span => .pure _

private theorem follows_methods : Follows more (methods (n + 1)) := by
  rw [LoxLang.Parser.methods]
  refine follows_ifCloses (.pure []) ?_ (.pure [])
  refine follows_fromStart (fun start => ((starved_function n _ start).bind _).quiet)
    fun start => ?_
  refine (ih.function _ start).bind (fun first => ?_)
    fun first => (quiet_methods n).bind fun others => .pure _
  exact ih.methods.bind (fun others => .pure _) fun others => .pure _

private theorem follows_classDecl (start : Nat) : Follows more (classDecl (n + 1) start) := by
  rw [LoxLang.Parser.classDecl]
  refine (follows_expectName _).bind (fun name => ?_)
    fun name => quiet_after.bind fun _ => ((starved_expect _ _).bind _).quiet
  refine (follows_after follows_superclassRef).bind (fun superclass => ?_)
    fun superclass => ((starved_expect _ _).bind _).quiet
  refine (follows_expect _ _).bind (fun _ => ?_)
    fun _ => (quiet_methods n).bind fun _ => ((starved_expect _ _).bind _).quiet
  refine ih.methods.bind (fun methods => ?_) fun methods => ((starved_expect _ _).bind _).quiet
  exact (follows_expect _ _).bind (fun _ => follows_spanFrom start fun span => .pure _)
    fun _ => quiet_spanFrom start fun span => .pure _

private theorem follows_counting (start : Nat) : Follows more (do
    expect (.symbol .leftParen) "'(' after 'for'"
    let init ← forInit n
    let condition ← before (.symbol .semicolon) (expression n)
    expect (.symbol .semicolon) "';' after loop condition"
    let increment ← before (.symbol .rightParen) (expression n)
    expect (.symbol .rightParen) "')' after for clauses"
    let body ← LoxLang.Parser.statement n
    return forLoop (← spanFrom start) init condition increment body) := by
  have hexpr (token : Token) : Quiet (before token (expression n)) :=
    quiet_before (starved_expression n).quiet
  refine (follows_expect _ _).bind (fun _ => ?_) fun _ => (quiet_forInit n).bind fun _ =>
    (hexpr _).bind fun _ => ((starved_expect _ _).bind _).quiet
  refine (follows_forInit n).bind (fun init => ?_) fun init =>
    (hexpr _).bind fun _ => ((starved_expect _ _).bind _).quiet
  refine (follows_optional n _).bind (fun condition => ?_) fun condition =>
    ((starved_expect _ _).bind _).quiet
  refine (follows_expect _ _).bind (fun _ => ?_) fun _ =>
    (hexpr _).bind fun _ => ((starved_expect _ _).bind _).quiet
  refine (follows_optional n _).bind (fun increment => ?_) fun increment =>
    ((starved_expect _ _).bind _).quiet
  refine (follows_expect _ _).bind (fun _ => ?_) fun _ => ((starved_statement n).bind _).quiet
  exact ih.statement.bind (fun body => follows_spanFrom start fun span => .pure _)
    fun body => quiet_spanFrom start fun span => .pure _

private theorem follows_branch (start : Nat) : Follows more (do
    expect (.symbol .leftParen) "'(' after 'if'"
    let condition ← expression n
    expect (.symbol .rightParen) "')' after if condition"
    let yes ← LoxLang.Parser.statement n
    let no ← after (.keyword .kwElse) (LoxLang.Parser.statement n)
    return Stmt.branch (← spanFrom start) condition yes no) := by
  refine (follows_expect _ _).bind (fun _ => ?_) fun _ => ((starved_expression n).bind _).quiet
  refine (expressionsFollow more n).expression.bind (fun condition => ?_)
    fun condition => ((starved_expect _ _).bind _).quiet
  refine (follows_expect _ _).bind (fun _ => ?_) fun _ => ((starved_statement n).bind _).quiet
  refine ih.statement.bind (fun yes => ?_)
    fun yes => quiet_after.bind fun _ => quiet_spanFrom start fun span => .pure _
  exact (follows_after ih.statement).bind
    (fun no => follows_spanFrom start fun span => .pure _)
    fun no => quiet_spanFrom start fun span => .pure _

private theorem follows_loop (start : Nat) : Follows more (do
    expect (.symbol .leftParen) "'(' after 'while'"
    let condition ← expression n
    expect (.symbol .rightParen) "')' after condition"
    let body ← LoxLang.Parser.statement n
    return Stmt.loop (← spanFrom start) condition body) := by
  refine (follows_expect _ _).bind (fun _ => ?_) fun _ => ((starved_expression n).bind _).quiet
  refine (expressionsFollow more n).expression.bind (fun condition => ?_)
    fun condition => ((starved_expect _ _).bind _).quiet
  refine (follows_expect _ _).bind (fun _ => ?_) fun _ => ((starved_statement n).bind _).quiet
  exact ih.statement.bind (fun body => follows_spanFrom start fun span => .pure _)
    fun body => quiet_spanFrom start fun span => .pure _

private theorem follows_statement : Follows more (statement (n + 1)) := by
  rw [LoxLang.Parser.statement]
  refine follows_fromStart (fun start => ?_) fun start => ?_
  · iterate 6 refine quiet_ifEat ?_
    exact (starved_exprStmt n).quiet
  -- Every branch but the last one needs its word to be there.
  apply follows_ifEat (follows_counting ih start)
  · apply follows_ifEat (follows_branch ih start)
    · apply follows_ifEat
      · exact (expressionsFollow more n).expression.bind (fun value => follows_semicolon)
          fun value => starved_semicolon.quiet
      · apply follows_ifEat
        · exact (follows_optional n _).bind (fun value => follows_semicolon)
            fun value => starved_semicolon.quiet
        · apply follows_ifEat (follows_loop ih start)
          · apply follows_ifEat
            · exact ih.block.bind (fun body => follows_spanFrom start fun span => .pure _)
                fun body => quiet_spanFrom start fun span => .pure _
            · exact follows_exprStmt n
            · exact (starved_exprStmt n).quiet
          · exact quiet_ifEat (starved_exprStmt n).quiet
        · exact quiet_ifEat (quiet_ifEat (starved_exprStmt n).quiet)
      · exact quiet_ifEat (quiet_ifEat (quiet_ifEat (starved_exprStmt n).quiet))
    · iterate 4 refine quiet_ifEat ?_
      exact (starved_exprStmt n).quiet
  · iterate 5 refine quiet_ifEat ?_
    exact (starved_exprStmt n).quiet

end

private theorem statementsFollow (more : List Lexeme) (n : Nat) : StatementsFollow more n := by
  induction n with
  | zero => exact statementsFollow_zero
  | succ n ih =>
    exact ⟨follows_declaration ih, follows_declarations ih, follows_block ih,
      follows_function ih, follows_methods ih, follows_classDecl ih, follows_statement ih⟩

private theorem quiet_program (n : Nat) : Quiet (program n) := by
  cases n with
  | zero => exact .pure []
  | succ n =>
    rw [program]
    exact quiet_ifAtEnd (.pure [])

private theorem follows_program (more : List Lexeme) (n : Nat) : Follows more (program n) := by
  induction n with
  | zero => exact .pure []
  | succ n ih =>
    rw [program]
    refine follows_ifAtEnd (.pure []) ?_ (.pure [])
    refine (follows_recover (statementsFollow more n).declaration).bind (fun first => ?_)
      fun first => (quiet_program n).bind fun others => .pure _
    exact ih.bind (fun others => .pure _) fun others => .pure _

end Parser

/-! ## Sources -/

private theorem Error.isOpenEnded_iff {e : Error} :
    e.isOpenEnded = true ↔ (∃ expected, e = .unexpectedEnd expected) ∨ e = .unterminatedString := by
  cases e <;> simp [isOpenEnded]

theorem itemsFrom_append {front : List Lexeme} (h : .invalid ∉ front.map (·.token))
    (ls : List Lexeme) : itemsFrom none (front ++ ls) = front.map .ok ++ itemsFrom none ls := by
  induction front with
  | nil => rfl
  | cons l front ih =>
    rw [List.map_cons, List.mem_cons, not_or] at h
    rw [List.cons_append, itemsFrom, if_pos (Ne.symm h.1), ih h.2]
    rfl

private theorem itemsFrom_openString {l : Lexeme} (h : l.isOpenString = true) :
    itemsFrom none [l] = [.error ⟨.unterminatedString, l.span⟩] := by
  have hinvalid : l.token = .invalid := by
    unfold Lexeme.isOpenString at h
    simp only [Bool.and_eq_true, decide_eq_true_eq] at h
    exact h.1
  rw [itemsFrom, if_neg (by simpa using hinvalid), if_pos h, itemsFrom]

private theorem lexemes_ok_append (front : List Lexeme) (e : Located Error) :
    Item.lexemes (front.map .ok ++ [.error e]) = front := by
  induction front with
  | nil => rfl
  | cons l front ih => exact congrArg (l :: ·) ih

/-- A text whose continuation has no lexical error is its front part for a reader, and has itself
none but a string that is cut off. -/
theorem extends_opening {source more : String}
    (h : Item.errors (items (source ++ "\n" ++ more)) = []) :
    ∃ rest, Parser.Extends rest (.opening source) (.opening (source ++ "\n" ++ more)) ∧
      (Reader.opening source).OpenEnded := by
  have htext : (source ++ "\n" ++ more).toList = source.toList ++ '\n' :: more.toList := by
    simp [String.toList_append]
  rw [items, lexemes_eq, htext] at h
  have hvalid := errors_itemsFrom_eq_nil.mp h
  have hwhole : (Reader.opening (source ++ "\n" ++ more)).rest =
      Lexeme.lexemesFrom 0 (source.toList ++ '\n' :: more.toList) := by
    simp only [Reader.opening, items, lexemes_eq, htext]
    exact lexemes_itemsFrom hvalid
  cases Lexeme.ending 0 source.toList with
  | closed _ hline =>
    rw [hline] at hvalid hwhole
    have hfront : .invalid ∉ (lexemes source).map (·.token) := by
      rw [lexemes_eq]
      exact fun hmem => hvalid (by simp [hmem])
    have hrest : (Reader.opening source).rest = Lexeme.lexemesFrom 0 source.toList := by
      rw [← lexemes_eq]
      exact lexemes_itemsFrom hfront
    rw [← hrest] at hwhole
    refine ⟨_, ⟨hwhole, rfl⟩, ?_⟩
    simp [Reader.OpenEnded, Reader.opening, items, errors_itemsFrom_eq_nil.mpr hfront]
  | inString front last quote content hlexemes hlast _ _ hline =>
    rw [hline] at hvalid hwhole
    have hfront : .invalid ∉ front.map (·.token) := fun hmem => hvalid (by simp [hmem])
    have hitems : items source = front.map .ok ++ [.error ⟨.unterminatedString, last.span⟩] := by
      rw [items, lexemes_eq, hlexemes, itemsFrom_append hfront, itemsFrom_openString hlast]
    have hrest : (Reader.opening source).rest = front := by
      simp only [Reader.opening, hitems]
      exact lexemes_ok_append front _
    rw [← hrest] at hwhole
    refine ⟨_, ⟨hwhole, rfl⟩, ?_⟩
    intro e he
    have hlexical : e ∈ Item.errors (items source) := by simpa [Reader.opening] using he
    have hcut : e = ⟨.unterminatedString, last.span⟩ := by
      simpa [hitems, Item.errors, List.filterMap_map] using hlexical
    rw [hcut]
    rfl

/-- If more lines can make a source sound, then every error of the source says that something is
missing at its end, so that it is either sound as it is or not complete. -/
theorem errors_open_of_continuation (source more : String)
    (h : (parse (source ++ "\n" ++ more)).errors = []) :
    (∀ e ∈ (parse source).errors,
      (∃ expected, e.value = .unexpectedEnd expected) ∨ e.value = .unterminatedString) ∧
    ((parse source).errors = [] ∨ isComplete source = false) := by
  obtain ⟨rest, hext, hopen⟩ := extends_opening (Grammar.parse_sound h).1
  have hlonger : Parser.depth (Reader.opening source).rest ≤
      Parser.depth (Reader.opening (source ++ "\n" ++ more)).rest := by
    rw [hext.rest, Parser.depth, Parser.depth, List.length_append]
    omega
  obtain ⟨R, hwhole, herrors⟩ := program_opening (Nat.le_refl
    (Parser.depth (Reader.opening (source ++ "\n" ++ more)).rest))
  obtain ⟨r, hpart, hsource⟩ := program_opening hlonger
  have hsound : R.errors.size = (Reader.opening (source ++ "\n" ++ more)).errors.size := by
    rw [← Array.length_toList, herrors, h]
    simp [Reader.opening, (Grammar.parse_sound h).1]
  have hall : r.OpenEnded := by
    rcases (Parser.follows_program rest _).pace hext hopen hwhole hsound with
      ⟨r', hr, -, hopen'⟩ | hout
    · obtain ⟨-, rfl⟩ := EStateM.Result.ok.inj (hpart.symm.trans hr)
      exact hopen'
    · rw [hpart] at hout
      exact hout.2
  have hends : ∀ e ∈ (parse source).errors, e.value.isOpenEnded = true := by
    intro e he
    rw [← hsource] at he
    exact hall e (Array.mem_toList_iff.mp he)
  refine ⟨fun e he => Error.isOpenEnded_iff.mp (hends e he), ?_⟩
  cases herrs : (parse source).errors with
  | nil => exact .inl rfl
  | cons e es =>
    refine .inr ?_
    rw [isComplete, herrs, List.any_cons, hends e (by simp [herrs])]
    rfl

/-- A function whose body is cut off in the middle of a string. -/
theorem errors_open_of_body :
    isComplete "fun f() \x7b print \"a" = false ∧
      (parse "fun f() \x7b print \"a\nb\"; \x7d").errors = [] :=
  ⟨((errors_open_of_continuation "fun f() \x7b print \"a" "b\"; \x7d"
    (by decide +kernel)).2).resolve_left (by decide +kernel), by decide +kernel⟩

end LoxLang
