import LoxLang.Proofs.Grammar.Stuck
/-!
# Running out of input

A reader that stands at the end of its source stays there, and all it can complain
of is that something is missing. A reader whose source is the front part of another
one does what the reader of the whole does, for as long as that one reads without
errors, or else it gets to its end.
-/
namespace LoxLang

def Reader.OpenEnded (r : Reader) : Prop :=
  ∀ e ∈ r.errors, e.value.isOpenEnded = true

theorem Reader.OpenEnded.push {r : Reader} {e : Located Error} (h : r.OpenEnded)
    (he : e.value.isOpenEnded = true) : { r with errors := r.errors.push e }.OpenEnded := by
  intro x hx
  rcases Array.mem_push.mp hx with hx | rfl
  · exact h x hx
  · exact he

theorem Reader.OpenEnded.advance {r : Reader} (h : r.OpenEnded) : r.advance.OpenEnded := by
  intro e he
  rw [errors_advance] at he
  exact h e he

private theorem Reader.advance_of_nil {r : Reader} (h : r.rest = []) : r.advance = r := by
  unfold advance
  rw [h]

private theorem Reader.synchronize_of_nil {r : Reader} (h : r.rest = []) : r.synchronize = r := by
  unfold synchronize
  rw [h]

private theorem Reader.isOpenEnded_expected {r : Reader} (h : r.rest = []) (what : String) :
    (r.expected what).value.isOpenEnded = true := by
  unfold expected
  rw [h]
  rfl

namespace Parser

variable {α β : Type}

/-- A step that has come to the end of the source, with errors that more input could mend. -/
def RunsOut : EStateM.Result (Located Error) Reader α → Prop
  | .ok _ r => r.rest = [] ∧ r.OpenEnded
  | .error e r => r.rest = [] ∧ r.OpenEnded ∧ e.value.isOpenEnded = true

/-- At the end of the source a step stays there and adds no error that more input could not mend. -/
def Quiet (p : Parser α) : Prop :=
  ∀ r, r.rest = [] → r.OpenEnded → RunsOut (p r)

theorem Quiet.pure (a : α) : Quiet (Pure.pure a : Parser α) :=
  fun _ hrest hopen => ⟨hrest, hopen⟩

theorem Quiet.bind {p : Parser α} {f : α → Parser β} (hp : Quiet p) (hf : ∀ a, Quiet (f a)) :
    Quiet (p >>= f) := by
  intro r hrest hopen
  have hr := hp r hrest hopen
  rw [bind_apply]
  cases hpr : p r with
  | ok a r' =>
    rw [hpr] at hr
    exact hf a r' hr.1 hr.2
  | error e r' =>
    rw [hpr] at hr
    exact hr

theorem Quiet.map {p : Parser α} {f : α → β} (hp : Quiet p) : Quiet (f <$> p) := by
  have h : Quiet (p >>= fun a => Pure.pure (f a)) := hp.bind fun a => .pure (f a)
  exact h

/-- At the end of the source a step fails on the spot. -/
def Starved (p : Parser α) : Prop :=
  ∃ what, ∀ r, r.rest = [] → p r = .error (r.expected what) r

theorem Starved.quiet {p : Parser α} (h : Starved p) : Quiet p := by
  intro r hrest hopen
  obtain ⟨what, hp⟩ := h
  rw [hp r hrest]
  exact ⟨hrest, hopen, Reader.isOpenEnded_expected hrest what⟩

theorem Starved.bind {p : Parser α} (h : Starved p) (f : α → Parser β) : Starved (p >>= f) := by
  obtain ⟨what, hp⟩ := h
  refine ⟨what, fun r hrest => ?_⟩
  rw [bind_apply, hp r hrest]

theorem starved_fail (what : String) : Starved (failExpecting what : Parser α) :=
  ⟨what, fun _ _ => rfl⟩

theorem starved_expect (token : Token) (what : String) : Starved (expect token what) := by
  refine ⟨what, fun r hrest => ?_⟩
  have hhead : r.tokens.head? ≠ some token := by simp [Reader.tokens, hrest]
  rw [expect, bind_apply, eat_apply, if_neg hhead]
  rfl

theorem starved_expectName (what : String) : Starved (expectName what) := by
  refine ⟨what, fun r hrest => ?_⟩
  have hhead : r.tokens.head? = none := by simp [Reader.tokens, hrest]
  rw [expectName, bind_apply, peek_apply, hhead]
  rfl

theorem starved_primary (n : Nat) : Starved (primary n) :=
  ⟨_, fun _ hrest => primary_stuck n (lacks_of_nil hrest)⟩

theorem starved_unary (n : Nat) : Starved (unary n) :=
  ⟨_, fun _ hrest => unary_stuck n (lacks_of_nil hrest)⟩

theorem starved_operation (n : Nat) (levels : List Level) : Starved (operation n levels) :=
  ⟨_, fun _ hrest => operation_stuck n levels (lacks_of_nil hrest)⟩

theorem starved_expression (n : Nat) : Starved (expression n) :=
  ⟨_, fun _ hrest => expression_stuck n (lacks_of_nil hrest)⟩

theorem starved_exprStmt (n : Nat) : Starved (exprStmt n) :=
  ⟨_, fun _ hrest => exprStmt_stuck n (lacks_of_nil hrest)⟩

theorem starved_statement (n : Nat) : Starved (statement n) :=
  ⟨_, fun _ hrest => statement_stuck n (lacks_of_nil hrest)⟩

private theorem quiet_fromStart {f : Nat → Parser α} (h : ∀ start, Quiet (f start)) :
    Quiet (nextStart >>= f) :=
  fun r => h r.nextSpan.start r

private theorem quiet_fromSpan {f : Span → Parser α} (h : ∀ span, Quiet (f span)) :
    Quiet (nextSpan >>= f) :=
  fun r => h r.nextSpan r

theorem quiet_spanFrom {f : Span → Parser α} (start : Nat) (h : ∀ span, Quiet (f span)) :
    Quiet (spanFrom start >>= f) :=
  fun r => h (r.spanFrom start) r

theorem quiet_advance {f : Unit → Parser α} (h : Quiet (f ())) : Quiet (advance >>= f) := by
  intro r hrest hopen
  change RunsOut (f () r.advance)
  rw [Reader.advance_of_nil hrest]
  exact h r hrest hopen

theorem quiet_peek {f : Option Token → Parser α} (h : Quiet (f none)) : Quiet (peek >>= f) := by
  intro r hrest hopen
  have hhead : r.tokens.head? = none := by simp [Reader.tokens, hrest]
  rw [bind_apply, peek_apply, hhead]
  exact h r hrest hopen

theorem quiet_ifCheck {token : Token} {p q : Parser α} (hq : Quiet q) :
    Quiet (do if ← check token then p else q) := by
  intro r hrest hopen
  have hhead : r.tokens.head? ≠ some token := by simp [Reader.tokens, hrest]
  rw [bind_apply, check_apply, decide_eq_false hhead]
  exact hq r hrest hopen

theorem quiet_ifEat {token : Token} {p q : Parser α} (hq : Quiet q) :
    Quiet (do if ← eat token then p else q) := by
  intro r hrest hopen
  have hhead : r.tokens.head? ≠ some token := by simp [Reader.tokens, hrest]
  rw [bind_apply, eat_apply, if_neg hhead]
  exact hq r hrest hopen

private theorem quiet_ifCloses {p q : Parser α} (hp : Quiet p) :
    Quiet (do if ← closes then p else q) := by
  intro r hrest hopen
  have hhead : r.tokens.head? = none := by simp [Reader.tokens, hrest]
  rw [bind_apply, closes_apply, hhead]
  exact hp r hrest hopen

theorem quiet_ifAtEnd {p q : Parser α} (hp : Quiet p) :
    Quiet (do if ← atEnd then p else q) := by
  intro r hrest hopen
  have hend : r.tokens.isEmpty = true := by simp [Reader.tokens, hrest]
  rw [bind_apply, atEnd_apply, hend]
  exact hp r hrest hopen

theorem quiet_after {token : Token} {p : Parser α} : Quiet (after token p) :=
  quiet_ifEat (.pure none)

theorem quiet_before {token : Token} {p : Parser α} (hp : Quiet p) : Quiet (before token p) :=
  quiet_ifCheck hp.map

private theorem runsOut_recover {p : Parser Stmt} {r : Reader} (h : RunsOut (p r)) :
    RunsOut (recover p r) := by
  unfold recover
  cases hp : p r with
  | ok s r' =>
    rw [hp] at h
    exact h
  | error e r' =>
    rw [hp] at h
    obtain ⟨hrest, hopen, he⟩ := h
    have hnil : { r' with errors := r'.errors.push e }.rest = [] := hrest
    simp only [Reader.synchronize_of_nil hnil]
    exact ⟨hrest, hopen.push he⟩

theorem starved_function (n : Nat) (kind : String) (start : Nat) :
    Starved (function n kind start) := by
  cases n with
  | zero => exact starved_fail _
  | succ n =>
    rw [function]
    exact (starved_expectName _).bind _

theorem quiet_operationTail (n : Nat) (level : Level) (tighter : List Level) (start : Nat)
    (left : Expr) : Quiet (operationTail n level tighter start left) := by
  cases n with
  | zero => exact (starved_fail _).quiet
  | succ n =>
    rw [operationTail]
    exact quiet_peek (.pure left)

theorem quiet_callTail (n start : Nat) (callee : Expr) : Quiet (callTail n start callee) := by
  cases n with
  | zero => exact (starved_fail _).quiet
  | succ n =>
    rw [callTail]
    exact quiet_ifEat (quiet_ifEat (.pure callee))

/-- An argument that is missing is not one too many, as long as there may be another one. -/
theorem starved_arguments (n : Nat) {count : Nat} (h : count < maxArguments) :
    Starved (arguments n count) := by
  cases n with
  | zero => exact starved_fail _
  | succ n =>
    rw [arguments, limit, if_pos h]
    exact (starved_expression n).bind _

theorem starved_parameters (n : Nat) {count : Nat} (h : count < maxArguments) :
    Starved (parameters n count) := by
  cases n with
  | zero => exact starved_fail _
  | succ n =>
    rw [parameters, limit, if_pos h]
    exact (starved_expectName _).bind _

theorem quiet_forInit (n : Nat) : Quiet (forInit n) :=
  quiet_fromStart fun _ => quiet_ifEat (quiet_ifEat (starved_exprStmt n).quiet.map)

theorem quiet_declarations (n : Nat) : Quiet (declarations n) := by
  cases n with
  | zero => exact .pure []
  | succ n =>
    rw [declarations]
    exact quiet_ifCloses (.pure [])

theorem quiet_block (n : Nat) : Quiet (block n) := by
  cases n with
  | zero => exact (starved_fail _).quiet
  | succ n =>
    rw [block]
    exact (quiet_declarations n).bind fun _ => ((starved_expect _ _).bind _).quiet

theorem quiet_methods (n : Nat) : Quiet (methods n) := by
  cases n with
  | zero => exact (starved_fail _).quiet
  | succ n =>
    rw [methods]
    exact quiet_ifCloses (.pure [])

/-! ## The front part of a source -/

structure Extends (more : List Lexeme) (r R : Reader) : Prop where
  rest : R.rest = r.rest ++ more
  last : R.last = r.last

/-- A step on the whole source loses no error. If it has a result and no new error, then the same
step on the front part does the same or runs out of input. -/
structure Follows (more : List Lexeme) (p : Parser α) : Prop where
  reads : Reads p fun _ _ _ => True
  pace : ∀ {r R a R'}, Extends more r R → r.OpenEnded → p R = .ok a R' →
    R'.errors.size = R.errors.size →
    (∃ r', p r = .ok a r' ∧ Extends more r' R' ∧ r'.OpenEnded) ∨ RunsOut (p r)

variable {more : List Lexeme}

theorem Extends.nextSpan {r R : Reader} (h : Extends more r R) (hne : r.rest ≠ []) :
    R.nextSpan = r.nextSpan := by
  obtain ⟨l, ls, hl⟩ := List.exists_cons_of_ne_nil hne
  unfold Reader.nextSpan
  rw [h.rest, hl]
  rfl

theorem Extends.head? {r R : Reader} (h : Extends more r R) (hne : r.rest ≠ []) :
    R.tokens.head? = r.tokens.head? := by
  obtain ⟨l, ls, hl⟩ := List.exists_cons_of_ne_nil hne
  simp [Reader.tokens, h.rest, hl]

theorem Extends.advance {r R : Reader} (h : Extends more r R) (hne : r.rest ≠ []) :
    Extends more r.advance R.advance := by
  obtain ⟨l, ls, hl⟩ := List.exists_cons_of_ne_nil hne
  unfold Reader.advance
  rw [h.rest, hl]
  exact ⟨rfl, rfl⟩

namespace Follows

theorem pure (a : α) : Follows more (Pure.pure a : Parser α) where
  reads := .pure fun _ => trivial
  pace hext hopen hp _ := by
    cases hp
    exact .inl ⟨_, rfl, hext, hopen⟩

theorem bind {p : Parser α} {f : α → Parser β} (hp : Follows more p)
    (hf : ∀ a, Follows more (f a)) (hquiet : ∀ a, Quiet (f a)) : Follows more (p >>= f) where
  reads := hp.reads.bind fun a => (hf a).reads.mono fun _ _ _ _ _ _ => trivial
  pace := by
    intro r R b R'' hext hopen hb hsize
    rw [bind_apply] at hb
    cases hpR : p R with
    | error e R' => simp [hpR] at hb
    | ok a R' =>
      rw [hpR] at hb
      have hle := hp.reads R
      have hle' := (hf a).reads R'
      rw [hpR] at hle
      rw [show f a R' = .ok b R'' from hb] at hle'
      have hfirst := hp.pace hext hopen hpR (by have := hle.1; have := hle'.1; omega)
      rcases hfirst with ⟨r', hpr, hext', hopen'⟩ | hout
      · rw [bind_apply, hpr]
        exact (hf a).pace hext' hopen' hb (by have := hle.1; have := hle'.1; omega)
      · refine .inr ?_
        rw [bind_apply]
        cases hpr : p r with
        | error e r' =>
          rw [hpr] at hout
          exact hout
        | ok c r' =>
          rw [hpr] at hout
          exact hquiet c r' hout.1 hout.2

theorem map {p : Parser α} {f : α → β} (hp : Follows more p) : Follows more (f <$> p) := by
  have h : Follows more (p >>= fun a => Pure.pure (f a)) :=
    hp.bind (fun a => .pure (f a)) fun a => .pure (f a)
  exact h

/-- A step that is quiet at the end has to be followed only where something is ahead. -/
theorem ofAhead {p : Parser α} (hreads : Reads p fun _ _ _ => True) (hquiet : Quiet p)
    (hpace : ∀ {r R a R'}, r.rest ≠ [] → Extends more r R → r.OpenEnded → p R = .ok a R' →
      R'.errors.size = R.errors.size →
      (∃ r', p r = .ok a r' ∧ Extends more r' R' ∧ r'.OpenEnded) ∨ RunsOut (p r)) :
    Follows more p where
  reads := hreads
  pace {r} _ _ _ hext hopen hp hsize := by
    by_cases hrest : r.rest = []
    · exact .inr (hquiet r hrest hopen)
    · exact hpace hrest hext hopen hp hsize

/-- Where the whole source gives an error anyway, there is nothing to follow. -/
theorem ofNoisy {p : Parser α} (h : Reads p fun _ _ _ => False) : Follows more p where
  reads := h.mono fun _ _ _ => False.elim
  pace {_ R _ _} _ _ hp hsize := by
    have hR := h R
    rw [hp] at hR
    exact (hR.2 hsize).elim

end Follows

theorem follows_fail (what : String) : Follows more (failExpecting what : Parser α) :=
  .ofNoisy (reads_fail what)

theorem follows_fromStart {f : Nat → Parser α} (hquiet : ∀ start, Quiet (f start))
    (hf : ∀ start, Follows more (f start)) : Follows more (nextStart >>= f) := by
  refine .ofAhead (reads_fromStart fun start => (hf start).reads) (quiet_fromStart hquiet) ?_
  intro r R a R' hne hext hopen hp hsize
  have hstart : R.nextSpan.start = r.nextSpan.start := by rw [hext.nextSpan hne]
  change f R.nextSpan.start R = _ at hp
  rw [hstart] at hp
  exact (hf r.nextSpan.start).pace hext hopen hp hsize

theorem follows_fromSpan {f : Span → Parser α} (hquiet : ∀ span, Quiet (f span))
    (hf : ∀ span, Follows more (f span)) : Follows more (nextSpan >>= f) := by
  refine .ofAhead (reads_fromSpan fun span => (hf span).reads) (quiet_fromSpan hquiet) ?_
  intro r R a R' hne hext hopen hp hsize
  change f R.nextSpan R = _ at hp
  rw [hext.nextSpan hne] at hp
  exact (hf r.nextSpan).pace hext hopen hp hsize

theorem follows_spanFrom {f : Span → Parser α} (start : Nat) (hf : ∀ span, Follows more (f span)) :
    Follows more (spanFrom start >>= f) where
  reads := reads_spanFrom start fun span => (hf span).reads
  pace {r R _ _} hext hopen hp hsize := by
    have hspan : R.spanFrom start = r.spanFrom start := by
      unfold Reader.spanFrom
      rw [hext.last]
    change f (R.spanFrom start) R = _ at hp
    rw [hspan] at hp
    exact (hf (r.spanFrom start)).pace hext hopen hp hsize

theorem follows_peek {f : Option Token → Parser α} (hquiet : Quiet (f none))
    (hf : ∀ next, Follows more (f next)) : Follows more (peek >>= f) := by
  refine .ofAhead (reads_peek fun next => (hf next).reads.mono fun _ _ _ _ _ => trivial)
    (quiet_peek hquiet) ?_
  intro r R a R' hne hext hopen hp hsize
  rw [bind_apply, peek_apply, hext.head? hne] at hp
  rw [bind_apply, peek_apply]
  exact (hf _).pace hext hopen hp hsize

theorem reads_anyAdvance : Reads advance fun _ _ _ => True := by
  intro r
  have h : advance r = .ok () r.advance := rfl
  rw [h]
  simp

theorem follows_advance {f : Unit → Parser α} (hquiet : Quiet (f ())) (hf : Follows more (f ())) :
    Follows more (advance >>= f) := by
  have hreads : Reads (advance >>= f) fun _ _ _ => True :=
    reads_anyAdvance.bind fun _ => hf.reads.mono fun _ _ _ _ _ _ => trivial
  refine .ofAhead hreads (quiet_advance hquiet) ?_
  intro r R a R' hne hext hopen hp hsize
  exact hf.pace (hext.advance hne) hopen.advance hp (by rw [hsize, Reader.errors_advance])

theorem follows_ifCheck {token : Token} {p q : Parser α} (hp : Follows more p)
    (hq : Follows more q) (hquiet : Quiet q) :
    Follows more (do if ← check token then p else q) := by
  refine .ofAhead (reads_ifCheck (hp.reads.mono fun _ _ _ _ _ => trivial) hq.reads)
    (quiet_ifCheck hquiet) ?_
  intro r R a R' hne hext hopen hpR hsize
  rw [bind_apply, check_apply, hext.head? hne] at hpR
  rw [bind_apply, check_apply]
  cases hb : decide (r.tokens.head? = some token) with
  | true =>
    rw [hb] at hpR
    exact hp.pace hext hopen hpR hsize
  | false =>
    rw [hb] at hpR
    exact hq.pace hext hopen hpR hsize

theorem follows_ifEat {token : Token} {p q : Parser α} (hp : Follows more p)
    (hq : Follows more q) (hquiet : Quiet q) :
    Follows more (do if ← eat token then p else q) := by
  refine .ofAhead (reads_ifEat hp.reads hq.reads) (quiet_ifEat hquiet) ?_
  intro r R a R' hne hext hopen hpR hsize
  rw [bind_apply, eat_apply, hext.head? hne] at hpR
  rw [bind_apply, eat_apply]
  by_cases h : r.tokens.head? = some token
  · rw [if_pos h] at hpR ⊢
    exact hp.pace (hext.advance hne) hopen.advance hpR (by rw [hsize, Reader.errors_advance])
  · rw [if_neg h] at hpR ⊢
    exact hq.pace hext hopen hpR hsize

theorem follows_ifCloses {p q : Parser α} (hp : Follows more p) (hq : Follows more q)
    (hquiet : Quiet p) : Follows more (do if ← closes then p else q) := by
  refine .ofAhead (reads_ifCloses hp.reads hq.reads) (quiet_ifCloses hquiet) ?_
  intro r R a R' hne hext hopen hpR hsize
  rw [bind_apply, closes_apply, hext.head? hne] at hpR
  rw [bind_apply, closes_apply]
  cases hb : r.tokens.head?.all (· = .symbol .rightBrace) with
  | true =>
    rw [hb] at hpR
    exact hp.pace hext hopen hpR hsize
  | false =>
    rw [hb] at hpR
    exact hq.pace hext hopen hpR hsize

theorem follows_ifAtEnd {p q : Parser α} (hp : Follows more p) (hq : Follows more q)
    (hquiet : Quiet p) : Follows more (do if ← atEnd then p else q) := by
  refine .ofAhead (reads_ifAtEnd (hp.reads.mono fun _ _ _ _ _ => trivial) hq.reads)
    (quiet_ifAtEnd hquiet) ?_
  intro r R a R' hne hext hopen hpR hsize
  have hend : r.tokens.isEmpty = false := by simp [Reader.tokens, hne]
  have hend' : R.tokens.isEmpty = false := by simp [Reader.tokens, hext.rest, hne]
  rw [bind_apply, atEnd_apply, hend'] at hpR
  rw [bind_apply, atEnd_apply, hend]
  exact hq.pace hext hopen hpR hsize

theorem follows_expect (token : Token) (what : String) : Follows more (expect token what) :=
  follows_ifEat (.pure ()) (follows_fail what) (starved_fail what).quiet

theorem follows_expectName (what : String) : Follows more (expectName what) := by
  refine follows_peek (starved_fail what).quiet fun next => ?_
  split
  · exact follows_advance (.pure _) (.pure _)
  · exact follows_fail what

theorem follows_after {token : Token} {p : Parser α} (hp : Follows more p) :
    Follows more (after token p) :=
  follows_ifEat hp.map (.pure none) (.pure none)

theorem follows_before {token : Token} {p : Parser α} (hp : Follows more p) (hquiet : Quiet p) :
    Follows more (before token p) :=
  follows_ifCheck (.pure none) hp.map hquiet.map

theorem follows_limit {count : Nat} {error : Error} {f : Unit → Parser α}
    (hf : Follows more (f ())) : Follows more (limit count error >>= f) := by
  unfold limit
  split
  · exact hf
  · have hreport : Reads (nextSpan >>= report error) fun _ _ _ => False :=
      reads_fromSpan fun span => reads_report error span
    exact .ofNoisy (hreport.bind fun _ => hf.reads.mono fun _ _ _ _ _ hfalse => hfalse)

theorem follows_recover {p : Parser Stmt} (hp : Follows more p) : Follows more (recover p) where
  reads := (reads_recover hp.reads).mono fun _ _ _ _ => trivial
  pace {r R a R'} hext hopen hpR hsize := by
    have hle := hp.reads R
    unfold recover at hpR
    cases hR : p R with
    | error e R₁ =>
      rw [hR] at hpR hle
      cases hpR
      simp only [Reader.errors_synchronize, Array.size_push] at hsize
      omega
    | ok s R₁ =>
      rw [hR] at hpR
      cases hpR
      rcases hp.pace hext hopen hR hsize with ⟨r', hr, hext', hopen'⟩ | hout
      · refine .inl ⟨r', ?_, hext', hopen'⟩
        rw [recover, hr]
      · exact .inr (runsOut_recover hout)

end Parser

end LoxLang
