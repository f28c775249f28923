import LoxLang.Tree.Parser
/-!
# Steps of reading

What a step of a reader does to the tokens ahead, said in two ways. `Reads`
describes what is known after a step that recorded no error; `Succeeds` promises
that there is such a step. Both go through a sequence of steps, so that a function
that reads can be followed step by step.
-/
namespace LoxLang

def Reader.tokens (r : Reader) : List Token :=
  r.rest.map (·.token)

theorem bind_apply {ε σ α β : Type} (p : EStateM ε σ α) (f : α → EStateM ε σ β) (r : σ) :
    (p >>= f) r = match p r with
      | .ok a r' => f a r'
      | .error e r' => .error e r' := by
  change EStateM.bind p f r = _
  unfold EStateM.bind
  cases p r <;> rfl

theorem get_bind {ε σ α : Type} (f : σ → EStateM ε σ α) (r : σ) : (get >>= f) r = f r r := rfl

namespace Reader

@[simp] theorem tokens_advance (r : Reader) : r.advance.tokens = r.tokens.tail := by
  unfold advance tokens
  split <;> simp_all

@[simp] theorem errors_advance (r : Reader) : r.advance.errors = r.errors := by
  unfold advance
  split <;> rfl

@[simp] theorem errors_synchronize (r : Reader) : r.synchronize.errors = r.errors := by
  unfold synchronize
  split <;> rfl

theorem head?_tokens (r : Reader) : r.rest.head?.map (·.token) = r.tokens.head? := by
  simp [tokens]

end Reader

namespace Parser

variable {α β : Type}

theorem peek_apply (r : Reader) : peek r = .ok r.tokens.head? r := by
  rw [← r.head?_tokens]
  rfl

theorem check_apply (token : Token) (r : Reader) :
    check token r = .ok (decide (r.tokens.head? = some token)) r := by
  rw [check, bind_apply, peek_apply]
  rfl

theorem eat_apply (token : Token) (r : Reader) :
    eat token r = if r.tokens.head? = some token then .ok true r.advance else .ok false r := by
  rw [eat, bind_apply, check_apply]
  by_cases h : r.tokens.head? = some token
  · simp only [h, decide_true, if_true]
    rfl
  · simp only [h, decide_false, if_false]
    rfl

theorem atEnd_apply (r : Reader) : atEnd r = .ok r.tokens.isEmpty r := by
  have h : r.rest.isEmpty = r.tokens.isEmpty := by simp [Reader.tokens]
  rw [← h]
  rfl

theorem closes_apply (r : Reader) :
    closes r = .ok (r.tokens.head?.all (· = .symbol .rightBrace)) r := by
  have h : r.rest.head?.all (·.token = .symbol .rightBrace) =
      r.tokens.head?.all (· = .symbol .rightBrace) := by
    rw [← r.head?_tokens]
    cases r.rest.head? <;> rfl
  rw [← h]
  rfl

/-- Whenever the step gives a result, it has lost none of the errors, and if there are no more of
them than before, then `P` relates the tokens ahead before, the result and the tokens ahead after. -/
def Reads (p : Parser α) (P : List Token → α → List Token → Prop) : Prop :=
  ∀ r, match p r with
    | .ok a r' => r.errors.size ≤ r'.errors.size ∧
        (r'.errors.size = r.errors.size → P r.tokens a r'.tokens)
    | .error _ r' => r.errors.size ≤ r'.errors.size

namespace Reads

variable {p : Parser α} {P Q : List Token → α → List Token → Prop}

theorem mono (h : Reads p P) (hPQ : ∀ s a t, P s a t → Q s a t) : Reads p Q := by
  intro r
  have hr := h r
  cases hp : p r with
  | ok a r' =>
    rw [hp] at hr
    exact ⟨hr.1, fun he => hPQ _ _ _ (hr.2 he)⟩
  | error e r' =>
    rw [hp] at hr
    exact hr

theorem pure {a : α} (h : ∀ s, P s a s) : Reads (Pure.pure a) P :=
  fun r => ⟨Nat.le_refl _, fun _ => h r.tokens⟩

/-- What is known after the first step is a premise for the steps after it. -/
theorem bind {f : α → Parser β} {Q : List Token → β → List Token → Prop} (hp : Reads p P)
    (hf : ∀ a, Reads (f a) (fun m b t => ∀ s, P s a m → Q s b t)) : Reads (p >>= f) Q := by
  intro r
  have hr := hp r
  rw [bind_apply]
  cases hpr : p r with
  | error e r' =>
    rw [hpr] at hr
    exact hr
  | ok a r' =>
    rw [hpr] at hr
    have hfa := hf a r'
    cases hfr : f a r' with
    | error e r'' =>
      simp only [hfr] at hfa ⊢
      omega
    | ok b r'' =>
      simp only [hfr] at hfa ⊢
      exact ⟨by omega, fun he => hfa.2 (by omega) r.tokens (hr.2 (by omega))⟩

theorem map {f : α → β} {Q : List Token → β → List Token → Prop}
    (hp : Reads p (fun s a t => Q s (f a) t)) : Reads (f <$> p) Q := by
  have h : Reads (p >>= fun a => Pure.pure (f a)) Q := hp.bind fun a => pure fun _ _ hQ => hQ
  exact h

end Reads

variable {P : List Token → α → List Token → Prop}

theorem reads_fail (what : String) : Reads (failExpecting what : Parser α) P :=
  fun _ => Nat.le_refl _

/-- After an error nothing has to be known of the tokens any more. -/
theorem reads_report {P : List Token → Unit → List Token → Prop} (error : Error) (span : Span) :
    Reads (report error span) P := by
  intro r
  have h : report error span r = .ok () { r with errors := r.errors.push ⟨error, span⟩ } := rfl
  rw [h]
  simp

theorem reads_fromStart {f : Nat → Parser α} (hf : ∀ start, Reads (f start) P) :
    Reads (nextStart >>= f) P :=
  fun r => hf r.nextSpan.start r

theorem reads_fromSpan {f : Span → Parser α} (hf : ∀ span, Reads (f span) P) :
    Reads (nextSpan >>= f) P :=
  fun r => hf r.nextSpan r

theorem reads_spanFrom {f : Span → Parser α} (start : Nat) (hf : ∀ span, Reads (f span) P) :
    Reads (spanFrom start >>= f) P :=
  fun r => hf (r.spanFrom start) r

theorem reads_peek {f : Option Token → Parser α}
    (hf : ∀ next, Reads (f next) (fun s a t => s.head? = next → P s a t)) :
    Reads (peek >>= f) P := by
  have hpeek : Reads peek (fun s next t => s.head? = next ∧ t = s) := by
    intro r
    rw [peek_apply]
    exact ⟨Nat.le_refl _, fun _ => ⟨rfl, rfl⟩⟩
  apply hpeek.bind
  intro next
  apply (hf next).mono
  intro m a t h s hs
  obtain ⟨hnext, rfl⟩ := hs
  exact h hnext

theorem reads_advance {f : Unit → Parser α} {token : Token}
    (hf : Reads (f ()) (fun m a t => P (token :: m) a t)) :
    Reads (advance >>= f) (fun s a t => s.head? = some token → P s a t) := by
  have hadvance : Reads advance (fun s _ t => t = s.tail) := by
    intro r
    have h : advance r = .ok () r.advance := rfl
    rw [h]
    simp
  apply hadvance.bind
  intro _
  apply hf.mono
  intro m a t h s hm htoken
  obtain ⟨rest, rfl⟩ := List.head?_eq_some_iff.mp htoken
  rw [hm] at h
  exact h

private theorem reads_check (token : Token) :
    Reads (check token) (fun s b t => b = decide (s.head? = some token) ∧ t = s) := by
  intro r
  rw [check_apply]
  exact ⟨Nat.le_refl _, fun _ => ⟨rfl, rfl⟩⟩

theorem reads_ifCheck {token : Token} {p q : Parser α}
    (hp : Reads p (fun s a t => s.head? = some token → P s a t)) (hq : Reads q P) :
    Reads (do if ← check token then p else q) P := by
  apply (reads_check token).bind
  intro b
  cases b with
  | true =>
    apply hp.mono
    intro m a t h s hs
    obtain ⟨hb, rfl⟩ := hs
    exact h (of_decide_eq_true hb.symm)
  | false =>
    apply hq.mono
    intro m a t h s hs
    obtain ⟨-, rfl⟩ := hs
    exact h

theorem reads_ifAtEnd {p q : Parser α} (hp : Reads p (fun s a t => s = [] → P s a t))
    (hq : Reads q P) : Reads (do if ← atEnd then p else q) P := by
  have hatEnd : Reads atEnd (fun s b t => b = s.isEmpty ∧ t = s) := by
    intro r
    rw [atEnd_apply]
    exact ⟨Nat.le_refl _, fun _ => ⟨rfl, rfl⟩⟩
  apply hatEnd.bind
  intro b
  cases b with
  | true =>
    apply hp.mono
    intro m a t h s hs
    obtain ⟨hb, rfl⟩ := hs
    exact h (List.isEmpty_iff.mp hb.symm)
  | false =>
    apply hq.mono
    intro m a t h s hs
    obtain ⟨-, rfl⟩ := hs
    exact h

theorem reads_ifCloses {p q : Parser α} (hp : Reads p P) (hq : Reads q P) :
    Reads (do if ← closes then p else q) P := by
  intro r
  rw [bind_apply, closes_apply]
  cases r.tokens.head?.all (· = .symbol .rightBrace) with
  | true => exact hp r
  | false => exact hq r

private theorem reads_eat (token : Token) :
    Reads (eat token) (fun s b t =>
      (b = true ∧ s = token :: t) ∨ (b = false ∧ s.head? ≠ some token ∧ t = s)) := by
  intro r
  rw [eat_apply]
  by_cases h : r.tokens.head? = some token
  · rw [if_pos h]
    refine ⟨Nat.le_of_eq (by rw [Reader.errors_advance]), fun _ => .inl ⟨rfl, ?_⟩⟩
    obtain ⟨rest, hr⟩ := List.head?_eq_some_iff.mp h
    simp [hr]
  · rw [if_neg h]
    exact ⟨Nat.le_refl _, fun _ => .inr ⟨rfl, h, rfl⟩⟩

theorem reads_ifEat {token : Token} {p q : Parser α}
    (hp : Reads p (fun m a t => P (token :: m) a t)) (hq : Reads q P) :
    Reads (do if ← eat token then p else q) P := by
  apply (reads_eat token).bind
  intro b
  cases b with
  | true =>
    apply hp.mono
    intro m a t h s hs
    obtain rfl : s = token :: m := by simpa using hs
    exact h
  | false =>
    apply hq.mono
    intro m a t h s hs
    obtain ⟨-, rfl⟩ : s.head? ≠ some token ∧ m = s := by simpa using hs
    exact h

theorem reads_expect {token : Token} {what : String} {f : Unit → Parser α}
    (hf : Reads (f ()) (fun m a t => P (token :: m) a t)) :
    Reads (expect token what >>= f) P := by
  have hexpect : Reads (expect token what) (fun s _ t => s = token :: t) :=
    reads_ifEat (.pure fun _ => rfl) (reads_fail what)
  apply hexpect.bind
  intro _
  apply hf.mono
  intro m a t h s hs
  rw [hs]
  exact h

theorem reads_expectName {what : String} {f : String → Parser α}
    (hf : ∀ name, Reads (f name) (fun m a t => P (.identifier name :: m) a t)) :
    Reads (expectName what >>= f) P := by
  have hexpect : Reads (expectName what) (fun s name t => s = .identifier name :: t) := by
    apply reads_peek
    intro next
    split
    · exact reads_advance (.pure fun _ => rfl)
    · exact reads_fail what
  apply hexpect.bind
  intro name
  apply (hf name).mono
  intro m a t h s hs
  rw [hs]
  exact h

theorem reads_after (token : Token) {p : Parser α} (hp : Reads p P) :
    Reads (after token p) (fun s a t =>
      (∃ m b, s = token :: m ∧ a = some b ∧ P m b t) ∨
        (s.head? ≠ some token ∧ a = none ∧ t = s)) := by
  apply (reads_eat token).bind
  intro b
  cases b with
  | true =>
    apply Reads.map
    apply hp.mono
    intro m c t h s hs
    obtain rfl : s = token :: m := by simpa using hs
    exact .inl ⟨m, c, rfl, rfl, h⟩
  | false =>
    apply Reads.pure
    intro m s hs
    obtain ⟨hne, rfl⟩ : s.head? ≠ some token ∧ m = s := by simpa using hs
    exact .inr ⟨hne, rfl, rfl⟩

theorem reads_before (token : Token) {p : Parser α} (hp : Reads p P) :
    Reads (before token p) (fun s a t =>
      (a = none ∧ t = s) ∨ (∃ b, a = some b ∧ P s b t)) := by
  apply reads_ifCheck
  · exact .pure fun s _ => .inl ⟨rfl, rfl⟩
  · apply Reads.map
    exact hp.mono fun s b t h => .inr ⟨b, rfl, h⟩

theorem reads_limit {count : Nat} {error : Error} {f : Unit → Parser α}
    (hf : Reads (f ()) (fun s a t => count < maxArguments → P s a t)) :
    Reads (limit count error >>= f) P := by
  have hlimit : Reads (limit count error) (fun s _ t => count < maxArguments ∧ t = s) := by
    unfold limit
    split
    · rename_i hlt
      exact .pure fun _ => ⟨hlt, rfl⟩
    · exact reads_fromSpan fun span => reads_report error span
  apply hlimit.bind
  intro _
  apply hf.mono
  intro m a t h s hs
  obtain ⟨hlt, rfl⟩ := hs
  exact h hlt

theorem reads_recover {p : Parser Stmt} {P : List Token → Stmt → List Token → Prop}
    (hp : Reads p P) :
    Reads (recover p) (fun s a t => ∃ b, a = some b ∧ P s b t) := by
  intro r
  have hr := hp r
  unfold recover
  cases hpr : p r with
  | ok s r' =>
    rw [hpr] at hr
    exact ⟨hr.1, fun he => ⟨s, rfl, hr.2 he⟩⟩
  | error e r' =>
    rw [hpr] at hr
    simp only [Reader.errors_synchronize, Array.size_push]
    exact ⟨by omega, fun he => by omega⟩

/-- With the given tokens ahead the step gives a result and records no error, and `Q` holds of the
result and the tokens ahead after it. -/
def Succeeds (ahead : List Token) (p : Parser α) (Q : α → List Token → Prop) : Prop :=
  ∀ r, r.tokens = ahead → ∃ a r', p r = .ok a r' ∧ r'.errors = r.errors ∧ Q a r'.tokens

namespace Succeeds

variable {ahead rest : List Token} {p : Parser α} {P Q : α → List Token → Prop}

theorem mono (h : Succeeds ahead p P) (hPQ : ∀ a t, P a t → Q a t) : Succeeds ahead p Q := by
  intro r hr
  obtain ⟨a, r', hp, he, hP⟩ := h r hr
  exact ⟨a, r', hp, he, hPQ _ _ hP⟩

theorem pure {a : α} (h : Q a ahead) : Succeeds ahead (Pure.pure a) Q :=
  fun r hr => ⟨a, r, rfl, rfl, hr ▸ h⟩

theorem bind {f : α → Parser β} {Q : β → List Token → Prop} (hp : Succeeds ahead p P)
    (hf : ∀ a t, P a t → Succeeds t (f a) Q) : Succeeds ahead (p >>= f) Q := by
  intro r hr
  obtain ⟨a, r', hpr, he, hP⟩ := hp r hr
  obtain ⟨b, r'', hfr, he', hQ⟩ := hf a _ hP r' rfl
  refine ⟨b, r'', ?_, he'.trans he, hQ⟩
  rw [bind_apply, hpr]
  exact hfr

theorem map {f : α → β} {Q : β → List Token → Prop}
    (hp : Succeeds ahead p (fun a t => Q (f a) t)) : Succeeds ahead (f <$> p) Q := by
  have h : Succeeds ahead (p >>= fun a => Pure.pure (f a)) Q := hp.bind fun a t hQ => pure hQ
  exact h

end Succeeds

variable {ahead rest : List Token} {Q : α → List Token → Prop}

theorem succeeds_peekThen {f : Option Token → Parser α} (h : Succeeds ahead (f ahead.head?) Q) :
    Succeeds ahead (peek >>= f) Q := by
  intro r hr
  obtain ⟨a, r', hf, he, hQ⟩ := h r hr
  refine ⟨a, r', ?_, he, hQ⟩
  rw [bind_apply, peek_apply, hr]
  exact hf

theorem succeeds_fromStart {f : Nat → Parser α} (h : ∀ start, Succeeds ahead (f start) Q) :
    Succeeds ahead (nextStart >>= f) Q :=
  fun r hr => h r.nextSpan.start r hr

theorem succeeds_fromSpan {f : Span → Parser α} (h : ∀ span, Succeeds ahead (f span) Q) :
    Succeeds ahead (nextSpan >>= f) Q :=
  fun r hr => h r.nextSpan r hr

theorem succeeds_spanFrom {f : Span → Parser α} (start : Nat)
    (h : ∀ span, Succeeds ahead (f span) Q) : Succeeds ahead (spanFrom start >>= f) Q :=
  fun r hr => h (r.spanFrom start) r hr

theorem succeeds_advance {f : Unit → Parser α} {token : Token} (h : Succeeds rest (f ()) Q) :
    Succeeds (token :: rest) (advance >>= f) Q := by
  intro r hr
  obtain ⟨a, r', hf, he, hQ⟩ := h r.advance (by simp [hr])
  exact ⟨a, r', hf, by rw [he, Reader.errors_advance], hQ⟩

theorem succeeds_check (token : Token) :
    Succeeds ahead (check token) (fun b t => b = decide (ahead.head? = some token) ∧ t = ahead) := by
  intro r hr
  exact ⟨_, r, check_apply token r, rfl, by rw [hr], hr⟩

theorem succeeds_ifAtEnd {p q : Parser α} (h : Succeeds [] p Q) :
    Succeeds [] (do if ← atEnd then p else q) Q := by
  intro r hr
  rw [bind_apply, atEnd_apply, hr]
  exact h r hr

theorem succeeds_ifAtEnd_other {p q : Parser α} (hne : ahead ≠ []) (h : Succeeds ahead q Q) :
    Succeeds ahead (do if ← atEnd then p else q) Q := by
  intro r hr
  rw [bind_apply, atEnd_apply, hr, List.isEmpty_eq_false_iff.mpr hne]
  exact h r hr

theorem succeeds_ifCloses {p q : Parser α} (h : Succeeds (.symbol .rightBrace :: rest) p Q) :
    Succeeds (.symbol .rightBrace :: rest) (do if ← closes then p else q) Q := by
  intro r hr
  rw [bind_apply, closes_apply, hr]
  exact h r hr

theorem succeeds_ifCloses_other {p q : Parser α} {token : Token}
    (hne : token ≠ .symbol .rightBrace) (h : Succeeds (token :: rest) q Q) :
    Succeeds (token :: rest) (do if ← closes then p else q) Q := by
  intro r hr
  rw [bind_apply, closes_apply, hr, List.head?_cons, Option.all_some, decide_eq_false hne]
  exact h r hr

private theorem succeeds_eat {token : Token} :
    Succeeds (token :: rest) (eat token) (fun b t => b = true ∧ t = rest) := by
  intro r hr
  refine ⟨true, r.advance, ?_, r.errors_advance, rfl, by simp [hr]⟩
  rw [eat_apply, hr, List.head?_cons, if_pos rfl]

private theorem succeeds_eat_other {token : Token} (h : ahead.head? ≠ some token) :
    Succeeds ahead (eat token) (fun b t => b = false ∧ t = ahead) := by
  intro r hr
  refine ⟨false, r, ?_, rfl, rfl, hr⟩
  rw [eat_apply, hr, if_neg h]

theorem succeeds_ifEat {token : Token} {p q : Parser α} (h : Succeeds rest p Q) :
    Succeeds (token :: rest) (do if ← eat token then p else q) Q := by
  apply succeeds_eat.bind
  intro b t ht
  obtain ⟨rfl, rfl⟩ := ht
  exact h

theorem succeeds_ifEat_other {token : Token} {p q : Parser α} (hne : ahead.head? ≠ some token)
    (h : Succeeds ahead q Q) : Succeeds ahead (do if ← eat token then p else q) Q := by
  apply (succeeds_eat_other hne).bind
  intro b t ht
  obtain ⟨rfl, rfl⟩ := ht
  exact h

theorem succeeds_expect {token : Token} {f : Unit → Parser α} (what : String)
    (h : Succeeds rest (f ()) Q) : Succeeds (token :: rest) (expect token what >>= f) Q := by
  have hexpect : Succeeds (token :: rest) (expect token what) (fun _ t => t = rest) :=
    succeeds_ifEat (.pure rfl)
  apply hexpect.bind
  intro _ t ht
  rw [ht]
  exact h

theorem succeeds_expectName {name : String} {f : String → Parser α} (what : String)
    (h : Succeeds rest (f name) Q) :
    Succeeds (.identifier name :: rest) (expectName what >>= f) Q := by
  have hname : Succeeds (.identifier name :: rest) (expectName what)
      (fun a t => a = name ∧ t = rest) :=
    succeeds_peekThen (succeeds_advance (Succeeds.pure ⟨rfl, rfl⟩))
  apply hname.bind
  intro _ t ht
  obtain ⟨rfl, rfl⟩ := ht
  exact h

theorem succeeds_after {token : Token} {p : Parser α} (h : Succeeds rest p Q) :
    Succeeds (token :: rest) (after token p) (fun a t => ∃ b, a = some b ∧ Q b t) :=
  succeeds_ifEat (Succeeds.map (h.mono fun b _ hQ => ⟨b, rfl, hQ⟩))

theorem succeeds_after_other {token : Token} {p : Parser α} (h : ahead.head? ≠ some token) :
    Succeeds ahead (after token p) (fun a t => a = none ∧ t = ahead) :=
  succeeds_ifEat_other h (Succeeds.pure ⟨rfl, rfl⟩)

theorem succeeds_before {token : Token} {p : Parser α} (hne : ahead.head? ≠ some token)
    (h : Succeeds ahead p Q) :
    Succeeds ahead (before token p) (fun a t => ∃ b, a = some b ∧ Q b t) := by
  apply (succeeds_check token).bind
  intro b t ht
  obtain ⟨rfl, rfl⟩ := ht
  rw [decide_eq_false hne]
  exact Succeeds.map (h.mono fun b _ hQ => ⟨b, rfl, hQ⟩)

theorem succeeds_before_stop {token : Token} {p : Parser α} :
    Succeeds (token :: rest) (before token p) (fun a t => a = none ∧ t = token :: rest) := by
  apply (succeeds_check token).bind
  intro b t ht
  obtain ⟨rfl, rfl⟩ := ht
  rw [decide_eq_true List.head?_cons]
  exact Succeeds.pure ⟨rfl, rfl⟩

theorem succeeds_limit {count : Nat} {f : Unit → Parser α} (error : Error)
    (hlt : count < maxArguments) (h : Succeeds ahead (f ()) Q) :
    Succeeds ahead (limit count error >>= f) Q := by
  rw [limit, if_pos hlt]
  exact h

theorem succeeds_recover {p : Parser Stmt} {Q : Stmt → List Token → Prop}
    (h : Succeeds ahead p Q) :
    Succeeds ahead (recover p) (fun a t => ∃ b, a = some b ∧ Q b t) := by
  intro r hr
  obtain ⟨b, r', hp, he, hQ⟩ := h r hr
  refine ⟨some b, r', ?_, he, b, rfl, hQ⟩
  rw [recover, hp]

end Parser

end LoxLang
