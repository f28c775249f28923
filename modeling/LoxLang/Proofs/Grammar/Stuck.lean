import LoxLang.Proofs.Grammar.Soundness
/-!
# Where nothing can be read

Where no phrase begins, because nothing is ahead or because the next token cannot
begin one, the reader fails on the spot: it takes no lexeme, records no error and
says what it expected.
-/
namespace LoxLang.Parser
open Grammar (startsExpression startsStatement startsDeclaration)

def Lacks (starts : Token → Bool) (r : Reader) : Prop :=
  ∀ token ∈ r.tokens.head?, starts token = false

theorem Lacks.mono {p q : Token → Bool} {r : Reader} (h : Lacks q r)
    (hpq : ∀ token, p token = true → q token = true) : Lacks p r := by
  intro token htoken
  have hq := h token htoken
  cases hp : p token with
  | false => rfl
  | true => rw [hpq token hp] at hq; exact hq

theorem Lacks.head?_ne {starts : Token → Bool} {r : Reader} (h : Lacks starts r) {token : Token}
    (ht : starts token = true) : r.tokens.head? ≠ some token := by
  intro heq
  have hf := h token heq
  rw [ht] at hf
  exact Bool.noConfusion hf

theorem lacks_of_nil {starts : Token → Bool} {r : Reader} (h : r.rest = []) : Lacks starts r := by
  intro token htoken
  simp [Reader.tokens, h] at htoken

variable {α : Type} {r : Reader}

private theorem nextStart_bind (f : Nat → Parser α) (r : Reader) :
    (nextStart >>= f) r = f r.nextSpan.start r := rfl

private theorem Lacks.ifEat {starts : Token → Bool} (h : Lacks starts r) (token : Token)
    (ht : starts token = true) {p q : Parser α} : (do if ← eat token then p else q) r = q r := by
  rw [bind_apply, eat_apply, if_neg (h.head?_ne ht)]
  rfl

theorem primary_stuck (n : Nat) (h : Lacks startsExpression r) :
    primary n r = .error (r.expected "expression") r := by
  cases n with
  | zero => rfl
  | succ n =>
    rw [primary, nextStart_bind, bind_apply, peek_apply]
    cases hhead : r.tokens.head? with
    | none => rfl
    | some token =>
      have htoken := h token hhead
      cases token with
      | identifier name | string content | number value => exact Bool.noConfusion htoken
      | invalid => rfl
      | symbol s => cases s <;> simp [startsExpression] at htoken <;> rfl
      | keyword k => cases k <;> simp [startsExpression] at htoken <;> rfl

theorem unary_stuck (n : Nat) (h : Lacks startsExpression r) :
    unary n r = .error (r.expected "expression") r := by
  cases n with
  | zero => rfl
  | succ n =>
    have hop : r.tokens.head?.bind unaryOp? = none := by
      rw [Option.bind_eq_none_iff]
      intro token htoken
      cases hunary : unaryOp? token with
      | none => rfl
      | some op =>
        have hstart := (Grammar.prefix_of_unaryOp hunary).startsExpression
        rw [h token htoken] at hstart
        exact Bool.noConfusion hstart
    rw [unary, nextStart_bind, bind_apply, peek_apply]
    simp only [hop]
    rw [bind_apply, primary_stuck n h]

theorem operation_stuck (n : Nat) (levels : List Level) (h : Lacks startsExpression r) :
    operation n levels r = .error (r.expected "expression") r := by
  induction n generalizing levels with
  | zero => rfl
  | succ n ih =>
    cases levels with
    | nil =>
      rw [operation]
      exact unary_stuck n h
    | cons level tighter =>
      rw [operation, nextStart_bind, bind_apply, ih]

theorem expression_stuck (n : Nat) (h : Lacks startsExpression r) :
    expression n r = .error (r.expected "expression") r := by
  cases n with
  | zero => rfl
  | succ n =>
    rw [expression, nextStart_bind, bind_apply, operation_stuck n levels h]

theorem exprStmt_stuck (n : Nat) (h : Lacks startsExpression r) :
    exprStmt n r = .error (r.expected "expression") r := by
  rw [exprStmt, nextStart_bind, bind_apply, expression_stuck n h]

theorem statement_stuck (n : Nat) (h : Lacks startsStatement r) :
    statement n r = .error (r.expected "expression") r := by
  cases n with
  | zero => rfl
  | succ n =>
    rw [statement, nextStart_bind, h.ifEat (.keyword .kwFor) rfl, h.ifEat (.keyword .kwIf) rfl,
      h.ifEat (.keyword .kwPrint) rfl, h.ifEat (.keyword .kwReturn) rfl,
      h.ifEat (.keyword .kwWhile) rfl, h.ifEat (.symbol .leftBrace) rfl]
    exact exprStmt_stuck n (h.mono fun token ht => by simp [startsStatement, ht])

theorem declaration_stuck (n : Nat) (h : Lacks startsDeclaration r) :
    declaration n r = .error (r.expected "expression") r := by
  cases n with
  | zero => rfl
  | succ n =>
    rw [declaration, nextStart_bind, h.ifEat (.keyword .kwClass) rfl,
      h.ifEat (.keyword .kwFun) rfl, h.ifEat (.keyword .kwVar) rfl]
    exact statement_stuck n (h.mono fun token ht => by simp [startsDeclaration, ht])

end LoxLang.Parser
