import LoxLang.Proofs.Grammar.Depth
import LoxLang.Proofs.Places.Basic
import LoxLang.Proofs.Relabel
/-!
# Reading without spans

A reader copies the spans of lexemes into trees and errors, but nothing that it does
depends on them, nor on the errors that it has found before. So from lexemes without
spans it reads the same program and finds the same errors, up to spans, and those
come after the errors of the lexemes.
-/
namespace LoxLang

def Lexeme.withoutSpan (l : Lexeme) : Lexeme :=
  { l with span := ⟨0, 0⟩ }

def Located.withoutSpan {α : Type} (found : Located α) : Located α :=
  { found with span := ⟨0, 0⟩ }

/-- Errors of the text itself, which are found before anything is read from the lexemes. -/
def Error.isLexical : Error → Bool
  | unexpectedInput _ | unterminatedString => true
  | _ => false

namespace Reader

def after (earlier : Array (Located Error)) (r : Reader) : Reader where
  rest := r.rest.map Lexeme.withoutSpan
  last := r.last.map Lexeme.withoutSpan
  errors := earlier ++ r.errors.map Located.withoutSpan
  sourceEnd := 0

def OwnErrors (r : Reader) : Prop :=
  ∀ e ∈ r.errors, e.value.isLexical = false

variable (earlier : Array (Located Error)) (r : Reader)

@[simp] theorem tokens_after : (r.after earlier).tokens = r.tokens := by
  simp [tokens, after, Lexeme.withoutSpan, Function.comp_def]

@[simp] theorem nextSpan_after : (r.after earlier).nextSpan = ⟨0, 0⟩ := by
  unfold nextSpan after
  cases r.rest <;> rfl

@[simp] theorem spanFrom_after : (r.after earlier).spanFrom 0 = ⟨0, 0⟩ := by
  unfold spanFrom after
  cases r.last <;> rfl

private theorem expected_after (what : String) :
    (r.after earlier).expected what = (r.expected what).withoutSpan := by
  unfold expected nextSpan after
  cases r.rest <;> rfl

private theorem isLexical_expected (what : String) : (r.expected what).value.isLexical = false := by
  unfold expected
  cases r.rest <;> rfl

private theorem advance_after : (r.after earlier).advance = r.advance.after earlier := by
  obtain ⟨rest, last, errors, sourceEnd⟩ := r
  cases rest <;> rfl

private theorem skipFrom_withoutSpan (last : Lexeme) (ls : List Lexeme) :
    skipFrom last.withoutSpan (ls.map Lexeme.withoutSpan) =
      ((skipFrom last ls).1.withoutSpan, (skipFrom last ls).2.map Lexeme.withoutSpan) := by
  induction ls generalizing last with
  | nil => rfl
  | cons l ls ih =>
    have htoken (l : Lexeme) : l.withoutSpan.token = l.token := rfl
    rw [List.map_cons, skipFrom, skipFrom, htoken, htoken, ih]
    split <;> rfl

private theorem synchronize_after :
    (r.after earlier).synchronize = r.synchronize.after earlier := by
  obtain ⟨rest, last, errors, sourceEnd⟩ := r
  cases rest with
  | nil => rfl
  | cons l ls =>
    simp only [synchronize, after, List.map_cons, skipFrom_withoutSpan]
    rfl

private theorem push_after (e : Located Error) :
    { r.after earlier with errors := (r.after earlier).errors.push e.withoutSpan } =
      Reader.after earlier { r with errors := r.errors.push e } := by
  simp [after]

variable {r}

theorem OwnErrors.push (h : r.OwnErrors) {e : Located Error} (he : e.value.isLexical = false) :
    { r with errors := r.errors.push e }.OwnErrors := by
  intro found hfound
  rcases Array.mem_push.mp hfound with hfound | rfl
  · exact h found hfound
  · exact he

theorem OwnErrors.advance (h : r.OwnErrors) : r.advance.OwnErrors := by
  simpa [OwnErrors] using h

theorem OwnErrors.synchronize (h : r.OwnErrors) : r.synchronize.OwnErrors := by
  simpa [OwnErrors] using h

end Reader

namespace Parser

variable {α β γ δ : Type}

def endAfter (earlier : Array (Located Error)) (g : α → β) :
    EStateM.Result (Located Error) Reader α → EStateM.Result (Located Error) Reader β
  | .ok a r => .ok (g a) (r.after earlier)
  | .error e r => .error e.withoutSpan (r.after earlier)

/-- The second step does without spans what the first does with them, after whatever was found
earlier, and the errors that are found are no lexical ones. -/
structure Repeats (p : Parser α) (q : Parser β) (g : α → β) : Prop where
  alike : ∀ earlier r, q (r.after earlier) = endAfter earlier g (p r)
  own : Keeps Reader.OwnErrors (fun e => e.value.isLexical = false) p fun _ => True

namespace Repeats

variable {p : Parser α} {q : Parser β} {g : α → β}

theorem pure {a : α} {b : β} (h : g a = b) : Repeats (Pure.pure a) (Pure.pure b) g where
  alike earlier r := by
    rw [← h]
    rfl
  own := .pure trivial

theorem bind {f : α → Parser γ} {f' : β → Parser δ} {g' : γ → δ} (hp : Repeats p q g)
    (hf : ∀ a, Repeats (f a) (f' (g a)) g') : Repeats (p >>= f) (q >>= f') g' where
  alike earlier r := by
    rw [bind_apply, bind_apply, hp.alike]
    cases p r with
    | ok a r' => exact (hf a).alike earlier r'
    | error e r' => rfl
  own := hp.own.bind fun a _ => (hf a).own

theorem map {f : α → γ} {f' : β → δ} {g' : γ → δ} (hp : Repeats p q g)
    (hf : ∀ a, g' (f a) = f' (g a)) : Repeats (f <$> p) (f' <$> q) g' := by
  have h : Repeats (p >>= fun a => Pure.pure (f a)) (q >>= fun b => Pure.pure (f' b)) g' :=
    hp.bind fun a => .pure (hf a)
  exact h

end Repeats

section
variable {p p' : Parser α} {q q' : Parser β} {g : α → β}

private theorem repeats_fail (what : String) :
    Repeats (failExpecting what) (failExpecting what) g where
  alike earlier r := by
    change EStateM.Result.error ((r.after earlier).expected what) (r.after earlier) = _
    rw [Reader.expected_after]
    rfl
  own _ h := ⟨h, Reader.isLexical_expected _ what⟩

private theorem repeats_fromStart {f : Nat → Parser α} {f' : Nat → Parser β}
    (h : ∀ start, Repeats (f start) (f' 0) g) : Repeats (nextStart >>= f) (nextStart >>= f') g where
  alike earlier r := by
    have hstart : (r.after earlier).nextSpan.start = 0 := by simp
    change f' (r.after earlier).nextSpan.start (r.after earlier) = _
    rw [hstart]
    exact (h _).alike earlier r
  own r := (h r.nextSpan.start).own r

private theorem repeats_fromSpan {f : Span → Parser α} {f' : Span → Parser β}
    (h : ∀ span, Repeats (f span) (f' ⟨0, 0⟩) g) :
    Repeats (nextSpan >>= f) (nextSpan >>= f') g where
  alike earlier r := by
    change f' (r.after earlier).nextSpan (r.after earlier) = _
    rw [Reader.nextSpan_after]
    exact (h _).alike earlier r
  own r := (h r.nextSpan).own r

private theorem repeats_spanFrom {f : Span → Parser α} {f' : Span → Parser β} (start : Nat)
    (h : ∀ span, Repeats (f span) (f' ⟨0, 0⟩) g) :
    Repeats (spanFrom start >>= f) (spanFrom 0 >>= f') g where
  alike earlier r := by
    change f' ((r.after earlier).spanFrom 0) (r.after earlier) = _
    rw [Reader.spanFrom_after]
    exact (h _).alike earlier r
  own r := (h (r.spanFrom start)).own r

private theorem repeats_peek {f : Option Token → Parser α} {f' : Option Token → Parser β}
    (h : ∀ next, Repeats (f next) (f' next) g) : Repeats (peek >>= f) (peek >>= f') g where
  alike earlier r := by
    rw [bind_apply, bind_apply, peek_apply, peek_apply, Reader.tokens_after]
    exact (h _).alike earlier r
  own r hr := by
    rw [bind_apply, peek_apply]
    exact (h _).own r hr

private theorem repeats_advance {f : Unit → Parser α} {f' : Unit → Parser β}
    (h : Repeats (f ()) (f' ()) g) : Repeats (advance >>= f) (advance >>= f') g where
  alike earlier r := by
    change f' () (r.after earlier).advance = _
    rw [Reader.advance_after]
    exact h.alike earlier r.advance
  own r hr := h.own r.advance hr.advance

private theorem repeats_ifSeen {look : Parser Bool} (seen : List Token → Bool)
    (hlook : ∀ r, look r = .ok (seen r.tokens) r) (hp : Repeats p q g) (hp' : Repeats p' q' g) :
    Repeats (do if ← look then p else p') (do if ← look then q else q') g where
  alike earlier r := by
    rw [bind_apply, bind_apply, hlook, hlook, Reader.tokens_after]
    cases seen r.tokens with
    | true => exact hp.alike earlier r
    | false => exact hp'.alike earlier r
  own r hr := by
    rw [bind_apply, hlook]
    cases seen r.tokens with
    | true => exact hp.own r hr
    | false => exact hp'.own r hr

private theorem repeats_ifCheck {token : Token} (hp : Repeats p q g) (hp' : Repeats p' q' g) :
    Repeats (do if ← check token then p else p') (do if ← check token then q else q') g :=
  repeats_ifSeen (fun tokens => tokens.head? = some token) (check_apply token) hp hp'

private theorem repeats_ifCloses (hp : Repeats p q g) (hp' : Repeats p' q' g) :
    Repeats (do if ← closes then p else p') (do if ← closes then q else q') g :=
  repeats_ifSeen (fun tokens => tokens.head?.all (· = .symbol .rightBrace)) closes_apply hp hp'

private theorem repeats_ifAtEnd (hp : Repeats p q g) (hp' : Repeats p' q' g) :
    Repeats (do if ← atEnd then p else p') (do if ← atEnd then q else q') g :=
  repeats_ifSeen List.isEmpty atEnd_apply hp hp'

private theorem repeats_eat (token : Token) : Repeats (eat token) (eat token) id :=
  repeats_ifCheck (repeats_advance (.pure rfl)) (.pure rfl)

private theorem repeats_ifEat {token : Token} (hp : Repeats p q g) (hp' : Repeats p' q' g) :
    Repeats (do if ← eat token then p else p') (do if ← eat token then q else q') g := by
  apply (repeats_eat token).bind
  intro seen
  cases seen with
  | true => exact hp
  | false => exact hp'

private theorem repeats_expect (token : Token) (what : String) :
    Repeats (expect token what) (expect token what) id :=
  repeats_ifEat (.pure rfl) (repeats_fail what)

private theorem repeats_expectName (what : String) :
    Repeats (expectName what) (expectName what) id := by
  apply repeats_peek
  intro next
  split
  · exact repeats_advance (.pure rfl)
  · exact repeats_fail what

private theorem repeats_after {token : Token} (hp : Repeats p q g) :
    Repeats (after token p) (after token q) (Option.map g) :=
  repeats_ifEat (hp.map fun _ => rfl) (.pure rfl)

private theorem repeats_before {token : Token} (hp : Repeats p q g) :
    Repeats (before token p) (before token q) (Option.map g) :=
  repeats_ifCheck (.pure rfl) (hp.map fun _ => rfl)

end

private theorem repeats_report {error : Error} (h : error.isLexical = false) (span : Span) :
    Repeats (report error span) (report error ⟨0, 0⟩) id where
  alike earlier r := congrArg (EStateM.Result.ok ()) (r.push_after earlier ⟨error, span⟩)
  own _ hr := ⟨hr.push h, trivial⟩

private theorem repeats_limit (count : Nat) {error : Error} (h : error.isLexical = false) :
    Repeats (limit count error) (limit count error) id := by
  unfold limit
  split
  · exact .pure rfl
  · apply repeats_fromSpan
    intro span
    exact repeats_report h span

private theorem repeats_recover {p q : Parser Stmt} {g : Stmt → Stmt} (hp : Repeats p q g) :
    Repeats (recover p) (recover q) (Option.map g) where
  alike earlier r := by
    unfold recover
    rw [hp.alike]
    cases p r with
    | ok s r' => rfl
    | error e r' =>
      simp only [endAfter, Reader.push_after, Reader.synchronize_after]
      rfl
  own r hr := by
    have hown := hp.own r hr
    unfold recover
    cases hresult : p r with
    | ok s r' =>
      rw [hresult] at hown
      exact hown
    | error e r' =>
      rw [hresult] at hown
      exact ⟨(hown.1.push hown.2).synchronize, trivial⟩

/-! ## Expressions -/

private theorem Operator.noSpans_apply (op : Operator) (span : Span) (left right : Expr) :
    (op.apply span left right).relabel .noSpans =
      op.apply ⟨0, 0⟩ (left.relabel .noSpans) (right.relabel .noSpans) := by
  cases op <;> simp [Operator.apply, Expr.relabel]

private theorem map_getD (f : Relabel) (args : Option (List Expr)) :
    (args.getD []).map (·.relabel f) = (args.map (List.map (·.relabel f))).getD [] := by
  cases args <;> rfl

structure ExpressionsRepeat (n : Nat) : Prop where
  expression : Repeats (expression n) (expression n) (·.relabel .noSpans)
  operation : ∀ levels, Repeats (operation n levels) (operation n levels) (·.relabel .noSpans)
  operationTail : ∀ level tighter start left,
    Repeats (operationTail n level tighter start left)
      (operationTail n level tighter 0 (left.relabel .noSpans)) (·.relabel .noSpans)
  unary : Repeats (unary n) (unary n) (·.relabel .noSpans)
  callTail : ∀ start callee,
    Repeats (callTail n start callee) (callTail n 0 (callee.relabel .noSpans))
      (·.relabel .noSpans)
  arguments : ∀ count,
    Repeats (arguments n count) (arguments n count) (List.map (·.relabel .noSpans))
  primary : Repeats (primary n) (primary n) (·.relabel .noSpans)

private theorem expressionsRepeat_zero : ExpressionsRepeat 0 := by
  constructor <;> intros <;> exact repeats_fail _

section
variable {n : Nat} (ih : ExpressionsRepeat n)
include ih

private theorem repeats_expression :
    Repeats (expression (n + 1)) (expression (n + 1)) (·.relabel .noSpans) := by
  rw [expression]
  apply repeats_fromStart
  intro start
  apply (ih.operation levels).bind
  intro target
  apply repeats_ifCheck
  · apply repeats_fromSpan
    intro sign
    apply repeats_advance
    apply ih.expression.bind
    intro value
    apply repeats_spanFrom start
    intro span
    -- Whether something can be assigned to shows in the tree without spans.
    cases target with
    | var => exact .pure (by simp [Expr.relabel, Ref.relabel])
    | get => exact .pure (by simp [Expr.relabel])
    | _ => exact (repeats_report rfl sign).bind fun _ => .pure rfl
  · exact .pure rfl

private theorem repeats_operation (levels : List Level) :
    Repeats (operation (n + 1) levels) (operation (n + 1) levels) (·.relabel .noSpans) := by
  cases levels with
  | nil =>
    rw [operation]
    exact ih.unary
  | cons level tighter =>
    rw [operation]
    apply repeats_fromStart
    intro start
    apply (ih.operation tighter).bind
    intro left
    exact ih.operationTail level tighter start left

private theorem repeats_operationTail (level : Level) (tighter : List Level) (start : Nat)
    (left : Expr) :
    Repeats (operationTail (n + 1) level tighter start left)
      (operationTail (n + 1) level tighter 0 (left.relabel .noSpans)) (·.relabel .noSpans) := by
  rw [operationTail, operationTail]
  apply repeats_peek
  intro next
  cases next.bind level with
  | none => exact .pure rfl
  | some op =>
    apply repeats_advance
    apply (ih.operation tighter).bind
    intro right
    apply repeats_spanFrom start
    intro span
    rw [← op.noSpans_apply span]
    exact ih.operationTail level tighter start _

private theorem repeats_unary : Repeats (unary (n + 1)) (unary (n + 1)) (·.relabel .noSpans) := by
  rw [unary]
  apply repeats_fromStart
  intro start
  apply repeats_peek
  intro next
  cases next.bind unaryOp? with
  | none => exact ih.primary.bind fun callee => ih.callTail start callee
  | some op =>
    apply repeats_advance
    apply ih.unary.bind
    intro operand
    apply repeats_spanFrom start
    intro span
    exact .pure (by simp [Expr.relabel])

private theorem repeats_callTail (start : Nat) (callee : Expr) :
    Repeats (callTail (n + 1) start callee) (callTail (n + 1) 0 (callee.relabel .noSpans))
      (·.relabel .noSpans) := by
  rw [callTail, callTail]
  apply repeats_ifEat
  · apply (repeats_before (ih.arguments 0)).bind
    intro args
    apply (repeats_expect _ _).bind
    intro _
    apply repeats_spanFrom start
    intro span
    have hcall : (Expr.call span callee (args.getD [])).relabel .noSpans =
        .call ⟨0, 0⟩ (callee.relabel .noSpans)
          ((args.map (List.map (·.relabel .noSpans))).getD []) := by
      simp [Expr.relabel, map_getD]
    rw [← hcall]
    exact ih.callTail start _
  · apply repeats_ifEat
    · apply (repeats_expectName _).bind
      intro name
      apply repeats_spanFrom start
      intro span
      have hget : (Expr.get span callee name).relabel .noSpans =
          .get ⟨0, 0⟩ (callee.relabel .noSpans) name := by simp [Expr.relabel]
      rw [id, ← hget]
      exact ih.callTail start _
    · exact .pure rfl

private theorem repeats_arguments (count : Nat) :
    Repeats (arguments (n + 1) count) (arguments (n + 1) count)
      (List.map (·.relabel .noSpans)) := by
  rw [arguments]
  apply (repeats_limit count rfl).bind
  intro _
  apply ih.expression.bind
  intro first
  apply (repeats_after (ih.arguments (count + 1))).bind
  intro others
  exact .pure (by simp [map_getD])

private theorem repeats_primary :
    Repeats (primary (n + 1)) (primary (n + 1)) (·.relabel .noSpans) := by
  rw [primary]
  apply repeats_fromStart
  intro start
  have hleaf (e : Span → Expr) (he : ∀ span, (e span).relabel .noSpans = e ⟨0, 0⟩) :
      Repeats (do return e (← spanFrom start)) (do return e (← spanFrom 0))
        (·.relabel .noSpans) :=
    repeats_spanFrom start fun span => .pure (he span)
  apply repeats_peek
  intro next
  split
  · exact repeats_advance (hleaf _ fun _ => by simp [Expr.relabel])
  · exact repeats_advance (hleaf _ fun _ => by simp [Expr.relabel, Ref.relabel])
  · apply repeats_advance
    apply ih.expression.bind
    intro inner
    apply (repeats_expect _ _).bind
    intro _
    apply repeats_spanFrom start
    intro span
    exact .pure (by simp [Expr.relabel])
  · apply repeats_advance
    apply (repeats_expect _ _).bind
    intro _
    apply (repeats_expectName _).bind
    intro method
    exact hleaf _ fun _ => by simp [Expr.relabel]
  · split
    · exact repeats_advance (hleaf _ fun _ => by simp [Expr.relabel])
    · exact repeats_fail _

end

private theorem expressionsRepeat (n : Nat) : ExpressionsRepeat n := by
  induction n with
  | zero => exact expressionsRepeat_zero
  | succ n ih =>
    exact ⟨repeats_expression ih, repeats_operation ih, repeats_operationTail ih,
      repeats_unary ih, repeats_callTail ih, repeats_arguments ih, repeats_primary ih⟩

/-! ## Statements and declarations -/

private theorem repeats_parameters (n count : Nat) :
    Repeats (parameters n count) (parameters n count) id := by
  induction n generalizing count with
  | zero => exact repeats_fail _
  | succ n ih =>
    rw [parameters]
    apply (repeats_limit count rfl).bind
    intro _
    apply (repeats_expectName _).bind
    intro first
    apply (repeats_after (ih (count + 1))).bind
    intro others
    exact .pure (by simp)

private theorem repeats_exprStmt (n : Nat) :
    Repeats (exprStmt n) (exprStmt n) (·.relabel .noSpans) := by
  apply repeats_fromStart
  intro start
  apply (expressionsRepeat n).expression.bind
  intro value
  apply (repeats_expect _ _).bind
  intro _
  apply repeats_spanFrom start
  intro span
  exact .pure (by simp [Stmt.relabel])

private theorem repeats_varDecl (n start : Nat) :
    Repeats (varDecl n start) (varDecl n 0) (·.relabel .noSpans) := by
  apply (repeats_expectName _).bind
  intro name
  apply (repeats_after (expressionsRepeat n).expression).bind
  intro value
  apply (repeats_expect _ _).bind
  intro _
  apply repeats_spanFrom start
  intro span
  exact .pure (by simp [Stmt.relabel])

private theorem repeats_superclassRef :
    Repeats superclassRef superclassRef Relabel.noSpans.superclass := by
  apply repeats_fromSpan
  intro span
  apply (repeats_expectName _).bind
  intro name
  exact .pure rfl

private theorem repeats_forInit (n : Nat) :
    Repeats (forInit n) (forInit n) (Option.map (·.relabel .noSpans)) := by
  apply repeats_fromStart
  intro start
  apply repeats_ifEat
  · exact .pure rfl
  apply repeats_ifEat
  · exact (repeats_varDecl n start).map fun _ => rfl
  · exact (repeats_exprStmt n).map fun _ => rfl

private theorem span_relabel (f : Relabel) (e : Expr) : (e.relabel f).span = f.span e.span := by
  cases e <;> simp [Expr.relabel, Expr.span]

private theorem forLoop_noSpans (span : Span) (init : Option Stmt)
    (condition increment : Option Expr) (body : Stmt) :
    (forLoop span init condition increment body).relabel .noSpans =
      forLoop ⟨0, 0⟩ (init.map (·.relabel .noSpans)) (condition.map (·.relabel .noSpans))
        (increment.map (·.relabel .noSpans)) (body.relabel .noSpans) := by
  cases init <;> cases condition <;> cases increment <;>
    simp [forLoop, forRound, Stmt.relabel, Expr.relabel, span_relabel]

structure StatementsRepeat (n : Nat) : Prop where
  declaration : Repeats (declaration n) (declaration n) (·.relabel .noSpans)
  declarations : Repeats (declarations n) (declarations n) (List.map (·.relabel .noSpans))
  block : Repeats (block n) (block n) (List.map (·.relabel .noSpans))
  function : ∀ kind start,
    Repeats (function n kind start) (function n kind 0) (·.relabel .noSpans)
  methods : Repeats (methods n) (methods n) (List.map (·.relabel .noSpans))
  classDecl : ∀ start, Repeats (classDecl n start) (classDecl n 0) (·.relabel .noSpans)
  statement : Repeats (statement n) (statement n) (·.relabel .noSpans)

private theorem statementsRepeat_zero : StatementsRepeat 0 where
  declaration := repeats_fail _
  declarations := .pure rfl
  block := repeats_fail _
  function _ _ := repeats_fail _
  methods := repeats_fail _
  classDecl _ := repeats_fail _
  statement := repeats_fail _

section
variable {n : Nat} (ih : StatementsRepeat n)
include ih

private theorem repeats_declaration :
    Repeats (declaration (n + 1)) (declaration (n + 1)) (·.relabel .noSpans) := by
  rw [declaration]
  apply repeats_fromStart
  intro start
  apply repeats_ifEat (ih.classDecl start)
  apply repeats_ifEat
  · exact (ih.function _ start).map fun decl => by simp [Stmt.relabel]
  · exact repeats_ifEat (repeats_varDecl n start) ih.statement

private theorem repeats_declarations :
    Repeats (declarations (n + 1)) (declarations (n + 1)) (List.map (·.relabel .noSpans)) := by
  rw [declarations]
  apply repeats_ifCloses
  · exact .pure rfl
  apply (repeats_recover ih.declaration).bind
  intro first
  apply ih.declarations.bind
  intro others
  cases first <;> exact .pure (by simp)

private theorem repeats_block :
    Repeats (block (n + 1)) (block (n + 1)) (List.map (·.relabel .noSpans)) := by
  rw [block]
  apply ih.declarations.bind
  intro body
  apply (repeats_expect _ _).bind
  intro _
  exact .pure rfl

private theorem repeats_function (kind : String) (start : Nat) :
    Repeats (function (n + 1) kind start) (function (n + 1) kind 0) (·.relabel .noSpans) := by
  rw [function, function]
  apply (repeats_expectName _).bind
  intro name
  apply (repeats_expect _ _).bind
  intro _
  apply (repeats_before (repeats_parameters n 0)).bind
  intro params
  apply (repeats_expect _ _).bind
  intro _
  apply (repeats_expect _ _).bind
  intro _
  apply ih.block.bind
  intro body
  apply repeats_spanFrom start
  intro span
  exact .pure (by simp [FunDecl.relabel])

private theorem repeats_methods :
    Repeats (methods (n + 1)) (methods (n + 1)) (List.map (·.relabel .noSpans)) := by
  rw [methods]
  apply repeats_ifCloses
  · exact .pure rfl
  apply repeats_fromStart
  intro start
  apply (ih.function _ start).bind
  intro first
  apply ih.methods.bind
  intro others
  exact .pure rfl

private theorem repeats_classDecl (start : Nat) :
    Repeats (classDecl (n + 1) start) (classDecl (n + 1) 0) (·.relabel .noSpans) := by
  rw [classDecl, classDecl]
  apply (repeats_expectName _).bind
  intro name
  apply (repeats_after repeats_superclassRef).bind
  intro superclass
  apply (repeats_expect _ _).bind
  intro _
  apply ih.methods.bind
  intro methods
  apply (repeats_expect _ _).bind
  intro _
  apply repeats_spanFrom start
  intro span
  exact .pure (by simp [Stmt.relabel])

private theorem repeats_statement :
    Repeats (statement (n + 1)) (statement (n + 1)) (·.relabel .noSpans) := by
  have hexpr := (expressionsRepeat n).expression
  rw [statement]
  apply repeats_fromStart
  intro start
  -- The words in the order in which they are looked for.
  apply repeats_ifEat
  · apply (repeats_expect _ _).bind
    intro _
    apply (repeats_forInit n).bind
    intro init
    apply (repeats_before hexpr).bind
    intro condition
    apply (repeats_expect _ _).bind
    intro _
    apply (repeats_before hexpr).bind
    intro increment
    apply (repeats_expect _ _).bind
    intro _
    apply ih.statement.bind
    intro body
    apply repeats_spanFrom start
    intro span
    exact .pure (forLoop_noSpans span init condition increment body)
  apply repeats_ifEat
  · apply (repeats_expect _ _).bind
    intro _
    apply hexpr.bind
    intro condition
    apply (repeats_expect _ _).bind
    intro _
    apply ih.statement.bind
    intro yes
    apply (repeats_after ih.statement).bind
    intro no
    apply repeats_spanFrom start
    intro span
    exact .pure (by simp [Stmt.relabel])
  apply repeats_ifEat
  · apply hexpr.bind
    intro value
    apply (repeats_expect _ _).bind
    intro _
    apply repeats_spanFrom start
    intro span
    exact .pure (by simp [Stmt.relabel])
  apply repeats_ifEat
  · apply (repeats_before hexpr).bind
    intro value
    apply (repeats_expect _ _).bind
    intro _
    apply repeats_spanFrom start
    intro span
    exact .pure (by simp [Stmt.relabel])
  apply repeats_ifEat
  · apply (repeats_expect _ _).bind
    intro _
    apply hexpr.bind
    intro condition
    apply (repeats_expect _ _).bind
    intro _
    apply ih.statement.bind
    intro body
    apply repeats_spanFrom start
    intro span
    exact .pure (by simp [Stmt.relabel])
  apply repeats_ifEat
  · apply ih.block.bind
    intro body
    apply repeats_spanFrom start
    intro span
    exact .pure (by simp [Stmt.relabel])
  · exact repeats_exprStmt n

end

private theorem statementsRepeat (n : Nat) : StatementsRepeat n := by
  induction n with
  | zero => exact statementsRepeat_zero
  | succ n ih =>
    exact ⟨repeats_declaration ih, repeats_declarations ih, repeats_block ih, repeats_function ih,
      repeats_methods ih, repeats_classDecl ih, repeats_statement ih⟩

private theorem repeats_program (n : Nat) :
    Repeats (program n) (program n) (List.map (·.relabel .noSpans)) := by
  induction n with
  | zero => exact .pure rfl
  | succ n ih =>
    rw [program]
    apply repeats_ifAtEnd
    · exact .pure rfl
    apply (repeats_recover (statementsRepeat n).declaration).bind
    intro first
    apply ih.bind
    intro others
    cases first <;> exact .pure (by simp)

end Parser

/-! ## Sources -/

/-- The errors of a source are those of its lexemes and then those of reading them, which are none
of the text itself. -/
theorem parse_errors_split (source : String) :
    ∃ own : List Error, (parse source).errors.map (·.value) =
        (Item.errors (items source)).map (·.value) ++ own ∧
      ∀ e ∈ own, e.isLexical = false := by
  let bound := Parser.depth (Reader.opening source).rest
  let lexical := (Reader.opening source).errors.map Located.withoutSpan
  let clean : Reader := { Reader.opening source with errors := #[] }
  have hafter : clean.after lexical = (Reader.opening source).after #[] := by
    simp [Reader.after, clean, lexical]
  obtain ⟨r, hread, herrors⟩ := program_opening (Nat.le_refl bound)
  obtain ⟨stmts, r', hread'⟩ := Parser.program_ok bound clean
  have hrepeats := Parser.repeats_program bound
  have hwhole := hrepeats.alike #[] (Reader.opening source)
  have hclean := hrepeats.alike lexical clean
  have hown := hrepeats.own clean (by simp [Reader.OwnErrors, clean])
  rw [hread'] at hclean hown
  rw [hread, ← hafter, hclean] at hwhole
  obtain ⟨-, hreaders⟩ := EStateM.Result.ok.inj hwhole
  have hvalues := congrArg (fun r : Reader => r.errors.toList.map (·.value)) hreaders
  refine ⟨r'.errors.toList.map (·.value), ?_, ?_⟩
  · simpa [Reader.after, Reader.opening, Located.withoutSpan, Function.comp_def, lexical,
      ← herrors, eq_comm] using hvalues
  · intro e he
    obtain ⟨found, hfound, rfl⟩ := List.mem_map.mp he
    exact hown.1 found (Array.mem_toList_iff.mp hfound)

end LoxLang
