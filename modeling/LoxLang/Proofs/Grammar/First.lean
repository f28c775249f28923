import LoxLang.Proofs.Grammar.Basic

namespace LoxLang.Grammar
open Token

def startsExpression : Token → Bool
  | identifier _ | string _ | number _ => true
  | keyword k => k = .kwFalse || k = .kwTrue || k = .kwNil || k = .kwThis || k = .kwSuper
  | symbol s => s = .leftParen || s = .bang || s = .minus
  | invalid => false

def startsStatement (token : Token) : Bool :=
  startsExpression token || token = keyword .kwFor || token = keyword .kwIf ||
    token = keyword .kwPrint || token = keyword .kwReturn || token = keyword .kwWhile ||
    token = symbol .leftBrace

def startsDeclaration (token : Token) : Bool :=
  startsStatement token || token = keyword .kwClass || token = keyword .kwFun ||
    token = keyword .kwVar

def Starts (p : Token → Bool) (ts : List Token) : Prop :=
  ∃ token rest, ts = token :: rest ∧ p token = true

namespace Starts

variable {p q : Token → Bool} {ts : List Token}

theorem cons {token : Token} {rest : List Token} (h : p token = true) : Starts p (token :: rest) :=
  ⟨token, rest, rfl, h⟩

theorem append (h : Starts p ts) (us : List Token) : Starts p (ts ++ us) := by
  obtain ⟨token, rest, rfl, ht⟩ := h
  exact ⟨token, rest ++ us, rfl, ht⟩

theorem mono (h : Starts p ts) (hpq : ∀ token, p token = true → q token = true) : Starts q ts := by
  obtain ⟨token, rest, rfl, ht⟩ := h
  exact ⟨token, rest, rfl, hpq token ht⟩

theorem length_pos (h : Starts p ts) : 0 < ts.length := by
  obtain ⟨token, rest, rfl, -⟩ := h
  exact Nat.zero_lt_succ _

theorem head?_ne (h : Starts p ts) {token : Token} (hp : p token = false) :
    ts.head? ≠ some token := by
  obtain ⟨first, rest, rfl, ht⟩ := h
  intro he
  obtain rfl : first = token := by simpa using he
  rw [ht] at hp
  exact Bool.noConfusion hp

end Starts

def First : Phrase → List Token → Prop
  | .expression, ts | .operation _, ts | .unary, ts | .call, ts | .primary, ts | .arguments, ts =>
    Starts startsExpression ts
  | .optional, ts => ts = [] ∨ Starts startsExpression ts
  | .statement _, ts => Starts startsStatement ts
  | .declaration, ts => Starts startsDeclaration ts
  | .declarations, ts => ts = [] ∨ Starts startsDeclaration ts
  | .binding, ts | .initializer, ts => 0 < ts.length
  | .function, ts => ∃ name rest, ts = identifier name :: rest
  | .methods, ts => ts = [] ∨ ∃ name rest, ts = identifier name :: rest

theorem Prefix.startsExpression {token : Token} {op : UnaryOp} (h : Prefix token op) :
    Grammar.startsExpression token = true := by
  cases h <;> rfl

theorem Constant.startsExpression {token : Token} {value : Literal} (h : Constant token value) :
    Grammar.startsExpression token = true := by
  cases h <;> rfl

theorem first_of_derives {phrase : Phrase} {ts : List Token} {t : phrase.Tree}
    (h : Derives phrase ts t) : First phrase ts := by
  induction h with
  | assignVariable | this | name | grouping | super => exact .cons rfl
  | assignProperty _ _ ih | binary _ _ _ ih | logical _ _ _ ih | callEmpty _ ih | get _ ih =>
    exact ih.append _
  | moreArguments _ _ ih => exact ih.append _
  | call _ _ _ ih => exact (ih.append _).append _
  | operation _ ih | tighter _ ih | operand _ ih | chain _ ih | primary _ ih | lastArgument _ ih =>
    exact ih
  | unary hop => exact .cons hop.startsExpression
  | constant hc => exact .cons hc.startsExpression
  | absent => exact .inl rfl
  | present _ ih => exact .inr ih
  | exprStmt _ ih => exact (ih.append _).mono fun token h => by simp [startsStatement, h]
  | print | ret | block | branch | branchElse | loop | counting => exact .cons rfl
  | noInitializer | bindingInitializer | bindEmpty | bind => exact Nat.zero_lt_succ _
  | exprInitializer => simp [First]
  | function => exact ⟨_, _, rfl⟩
  | noMethods | noDeclarations => exact .inl rfl
  | moreMethods _ _ ih =>
    obtain ⟨name, rest, rfl⟩ := ih
    exact .inr ⟨name, _, rfl⟩
  | varDecl | funDecl | baseClass | derivedClass => exact .cons rfl
  | statement _ ih => exact ih.mono fun token h => by simp [startsDeclaration, h]
  | moreDeclarations _ _ ih => exact .inr (ih.append _)

end LoxLang.Grammar
