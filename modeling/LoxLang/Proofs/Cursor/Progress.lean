import LoxLang.Proofs.Cursor.Reading
import LoxLang.Proofs.Grammar.Depth
/-!
# Reading comes to an end

A declaration that is read before the end takes a lexeme, whether it is well
formed or not. So the loops that read declarations and methods come to an end
by their own conditions, and a program is read up to the end of its lexemes.
-/
namespace LoxLang.Parser

variable {α : Type}

/-- A function that reads, with a bound that depends on what is ahead and is never reached. -/
def unbounded (p : Nat → Parser α) : Parser α :=
  fun r => p (depth r.rest) r

def prepend (first : List α) :
    EStateM.Result (Located Error) Reader (List α) → EStateM.Result (Located Error) Reader (List α)
  | .ok others r => .ok (first ++ others) r
  | .error e r => .error e r

/-- A loop that comes to an end: every round but the last takes a lexeme, and the last one finds
that the loop is over, or it fails. -/
inductive Loops (stops : Parser Bool) (round : Parser (List α)) :
    Reader → EStateM.Result (Located Error) Reader (List α) → Prop
  | done {r : Reader} (ended : stops r = .ok true r) : Loops stops round r (.ok [] r)
  | on {r r' : Reader} {first : List α} {result : EStateM.Result (Located Error) Reader (List α)}
      (goesOn : stops r = .ok false r) (reads : round r = .ok first r')
      (takes : r'.rest.length < r.rest.length) (later : Loops stops round r' result) :
      Loops stops round r (prepend first result)
  | fails {r r' : Reader} {e : Located Error} (goesOn : stops r = .ok false r)
      (reads : round r = .error e r') : Loops stops round r (.error e r')

/-- A round of a list of declarations: a declaration that fails adds nothing. -/
def declarationRound (n : Nat) : Parser (List Stmt) :=
  Option.toList <$> recover (declaration n)

def methodRound (n : Nat) : Parser (List FunDecl) := do
  let start ← nextStart
  let first ← function n "method" start
  return [first]

/-! ## Bounds that are large enough -/

/-- Bounds from `20 * k + b` on, where `k` lexemes are ahead, are all alike. -/
theorem eq_unbounded {p : Nat → Parser α} {r : Reader} {b j n : Nat} (hb : b ≤ 20)
    (h : ∀ n, 20 * r.rest.length + b ≤ n → Alike r.rest.length j (p n) (p (n + 1)))
    (hn : 20 * r.rest.length + b ≤ n) : p n r = unbounded p r := by
  have hsame (d : Nat) :
      p (20 * r.rest.length + b + d) r = p (20 * r.rest.length + b) r := by
    induction d with
    | zero => rfl
    | succ d ih => exact ((h _ (Nat.le_add_right _ d) r rfl).1).symm.trans ih
  obtain ⟨d, rfl⟩ := Nat.exists_eq_add_of_le hn
  obtain ⟨d', hd'⟩ : ∃ d', depth r.rest = 20 * r.rest.length + b + d' :=
    Nat.exists_eq_add_of_le (by unfold depth; omega)
  rw [unbounded, hd', hsame d, hsame d']

private theorem declaration_eq_unbounded {n : Nat} {r : Reader} (h : depth r.rest ≤ n) :
    declaration n r = unbounded declaration r :=
  eq_unbounded (b := 12) (by omega) (fun n hn => (statementsSettled n).declaration _ hn)
    (by unfold depth at h; omega)

private theorem alike_declarationRound {n k : Nat} (hpos : 0 < k) (hn : 20 * k + 12 ≤ n) :
    Alike k 1 (declarationRound n) (declarationRound (n + 1)) :=
  (alike_recover ((statementsSettled n).declaration k hn) hpos).map

private theorem alike_methodRound {n k : Nat} (hn : 20 * k + 12 ≤ n) :
    Alike k 1 (methodRound n) (methodRound (n + 1)) := by
  refine alike_fromStart fun start => ?_
  exact ((statementsSettled n).function k _ start (by omega)).bind fun first _ _ => .pure

/-! ## Loops -/

private theorem prepend_bind (p q : Parser (List α)) (r : Reader) :
    (do let first ← p; let others ← q; return first ++ others : Parser (List α)) r =
      match p r with
      | .ok first r' => prepend first (q r')
      | .error e r' => .error e r' := by
  rw [bind_apply]
  cases p r with
  | error e r' => rfl
  | ok first r' =>
    simp only [bind_apply]
    cases q r' <;> rfl

/-- A function that reads in rounds is a loop, and the bound is no part of it. -/
theorem loops_unbounded {stops : Parser Bool} {p round : Nat → Parser (List α)}
    (hstops : ∀ r, stops r = .ok true r ∨ stops r = .ok false r ∧ 0 < r.rest.length)
    (hp : ∀ n, p (n + 1) =
      do if ← stops then return [] else
          let first ← round n
          let others ← p n
          return first ++ others)
    (hsettled : ∀ n k, 20 * k + 13 ≤ n → Alike k 0 (p n) (p (n + 1)))
    (hround : ∀ n k, 0 < k → 20 * k + 12 ≤ n → Alike k 1 (round n) (round (n + 1))) (r : Reader) :
    Loops stops (unbounded round) r (unbounded p r) := by
  induction hk : r.rest.length using Nat.strongRecOn generalizing r with
  | ind k ih =>
    have hunfold : unbounded p r = p (20 * r.rest.length + 19 + 1) r := rfl
    rw [hunfold, hp, bind_apply]
    rcases hstops r with hended | ⟨hgoes, hpos⟩
    · rw [hended]
      exact .done hended
    · rw [hgoes]
      simp only [Bool.false_eq_true, if_false]
      rw [prepend_bind]
      have hreads : round (20 * r.rest.length + 19) r = unbounded round r :=
        eq_unbounded (b := 12) (by omega) (fun n hn => hround n _ hpos hn) (by omega)
      have htakes := (hround (20 * r.rest.length + 19) _ hpos (by omega) r rfl).2
      rw [hreads] at htakes ⊢
      cases hresult : unbounded round r with
      | error e r' => exact .fails hgoes hresult
      | ok first r' =>
        simp only [hresult] at htakes ⊢
        have hlater : p (20 * r.rest.length + 19) r' = unbounded p r' :=
          eq_unbounded (b := 13) (by omega) (fun n hn => hsettled n _ hn) (by omega)
        rw [hlater]
        exact .on hgoes hresult (by omega) (ih r'.rest.length (by omega) r' rfl)

private theorem closes_or (r : Reader) :
    closes r = .ok true r ∨ closes r = .ok false r ∧ 0 < r.rest.length := by
  rw [closes_apply]
  cases hc : r.tokens.head?.all (· = .symbol .rightBrace) with
  | true => exact .inl rfl
  | false =>
    refine .inr ⟨rfl, List.length_pos_iff.mpr fun hnil => ?_⟩
    simp [Reader.tokens, hnil] at hc

private theorem atEnd_or (r : Reader) :
    atEnd r = .ok true r ∨ atEnd r = .ok false r ∧ 0 < r.rest.length := by
  rw [atEnd_apply]
  cases hc : r.tokens.isEmpty with
  | true => exact .inl rfl
  | false =>
    refine .inr ⟨rfl, List.length_pos_iff.mpr fun hnil => ?_⟩
    simp [Reader.tokens, hnil] at hc

private theorem loops_declarations (r : Reader) :
    Loops closes (unbounded declarationRound) r (unbounded declarations r) := by
  refine loops_unbounded closes_or (fun n => ?_) (fun n k => (statementsSettled n).declarations k)
    (fun n k => alike_declarationRound) r
  rw [declarations]
  simp only [declarationRound, bind_map_left]

private theorem loops_methods (r : Reader) :
    Loops closes (unbounded methodRound) r (unbounded methods r) := by
  refine loops_unbounded closes_or (fun n => ?_)
    (fun n k hn => (statementsSettled n).methods k (by omega))
    (fun n k _ => alike_methodRound) r
  rw [methods]
  simp only [methodRound, bind_assoc, pure_bind, List.singleton_append]

private theorem loops_program (r : Reader) :
    Loops atEnd (unbounded declarationRound) r (unbounded program r) := by
  refine loops_unbounded atEnd_or (fun n => ?_) alike_program
    (fun n k => alike_declarationRound) r
  rw [program]
  simp only [declarationRound, bind_map_left]

/-! ## Whole runs -/

variable {input : Input} {cursor : Nat} {r : Reader}

/-- Before the end a declaration moves on. Of itself it records at most the error that it failed
with, and then it skips once. -/
theorem recover_declaration (h : r.Stands input cursor) (hlt : cursor < input.lexemes.length)
    (n : Nat) :
    ∃ found r' cursor', recover (declaration n) r = .ok found r' ∧ r'.Stands input cursor' ∧
      cursor < cursor' ∧ cursor' ≤ input.lexemes.length ∧
      ((∃ s, found = some s ∧ declaration n r = .ok s r') ∨
        ∃ e failed i, found = none ∧ declaration n r = .error e failed ∧
          failed.Stands input i ∧ input.Raises i e ∧
          r' = { failed with errors := failed.errors.push e }.synchronize) := by
  have hinner := (statementsStep input n).declaration cursor
  have houter := steps_recover hinner hlt r h
  have hinner := hinner r h
  cases hresult : declaration n r with
  | ok s r' =>
    have hrecover : recover (declaration n) r = .ok (some s) r' := by
      unfold recover
      rw [hresult]
    rw [hrecover] at houter
    obtain ⟨cursor', -, hr', hmoved, -⟩ := houter
    exact ⟨some s, r', cursor', hrecover, hr', hmoved, hr'.inside, .inl ⟨s, rfl, rfl⟩⟩
  | error e failed =>
    have hrecover : recover (declaration n) r =
        .ok none { failed with errors := failed.errors.push e }.synchronize := by
      unfold recover
      rw [hresult]
    rw [hrecover] at houter
    rw [hresult] at hinner
    obtain ⟨cursor', -, hr', hmoved, -⟩ := houter
    obtain ⟨i, -, hfailed, hraises⟩ := hinner
    exact ⟨none, _, cursor', hrecover, hr', hmoved, hr'.inside,
      .inr ⟨e, failed, i, rfl, rfl, hfailed, hraises, rfl⟩⟩

/-- A program is read up to the end, however malformed it is. -/
theorem program_reaches_end (input : Input) :
    ∃ stmts r, unbounded program input.opening = .ok stmts r ∧
      r.Stands input input.lexemes.length ∧
      ∀ s ∈ stmts, (Tree.stmt s).Spread input 0 input.lexemes.length := by
  obtain ⟨stmts, r, hread⟩ := program_ok (depth input.lexemes) input.opening
  have h := steps_program (depth input.lexemes) 0 input.opening input.stands_opening
  rw [hread] at h
  obtain ⟨cursor', -, hr, hend, hspread⟩ := h
  obtain rfl := hend (by unfold depth; omega)
  exact ⟨stmts, r, hread, hr, hspread⟩

/-- Reading makes progress on every sequence of lexemes. A declaration that is read before the end
moves the cursor on, with whatever bound, and a bound that is large enough does not count. The loops
of blocks, classes and programs come to an end, skipping only reads lexemes that exist, and the
cursor ends behind the last lexeme. -/
theorem reading_progresses (input : Input) :
    (∀ (cursor : Nat) (r : Reader), r.Stands input cursor → cursor < input.lexemes.length → ∀ n,
      ∃ found r' cursor', recover (declaration n) r = .ok found r' ∧ r'.Stands input cursor' ∧
        cursor < cursor' ∧ cursor' ≤ input.lexemes.length ∧
        ((∃ s, found = some s ∧ declaration n r = .ok s r') ∨
          ∃ e failed i, found = none ∧ declaration n r = .error e failed ∧
            failed.Stands input i ∧ input.Raises i e ∧
            r' = { failed with errors := failed.errors.push e }.synchronize)) ∧
    (∀ r n, depth r.rest ≤ n → declaration n r = unbounded declaration r) ∧
    (∀ r, Loops closes (unbounded declarationRound) r (unbounded declarations r) ∧
      Loops closes (unbounded methodRound) r (unbounded methods r) ∧
      Loops atEnd (unbounded declarationRound) r (unbounded program r)) ∧
    (∀ (cursor : Nat) (r : Reader), r.Stands input cursor →
      (cursor = input.lexemes.length → r.synchronize = r) ∧
      (cursor < input.lexemes.length → ∃ cursor', cursor < cursor' ∧
        cursor' ≤ input.lexemes.length ∧ input.SkipsTo (cursor + 1) cursor' ∧
        r.synchronize.Stands input cursor')) ∧
    ∃ stmts r, unbounded program input.opening = .ok stmts r ∧
      r.Stands input input.lexemes.length ∧ r.rest = [] := by
  refine ⟨fun cursor r => recover_declaration, fun r n => declaration_eq_unbounded,
    fun r => ⟨loops_declarations r, loops_methods r, loops_program r⟩,
    fun cursor r hr => ⟨hr.synchronize_atEnd, hr.synchronize⟩, ?_⟩
  obtain ⟨stmts, r, hread, hr, -⟩ := program_reaches_end input
  exact ⟨stmts, r, hread, hr, hr.rest_eq_nil_iff.mpr rfl⟩

/-- A closing brace that belongs to nothing is stepped over. -/
theorem reading_progresses_stray_brace :
    ∃ input : Input, input.lexemes.map (·.token) = [.symbol .rightBrace, .keyword .kwVar] ∧
      input.opening.Stands input 0 ∧ 0 < input.lexemes.length ∧
      ∃ found r' cursor', recover (declaration 60) input.opening = .ok found r' ∧
        r'.Stands input cursor' ∧ 0 < cursor' ∧ cursor' ≤ input.lexemes.length := by
  let input : Input :=
    ⟨[⟨.symbol .rightBrace, "\x7d", ⟨0, 1⟩⟩, ⟨.keyword .kwVar, "var", ⟨1, 4⟩⟩], [], 4⟩
  have hstands : input.opening.Stands input 0 := input.stands_opening
  have hlt : 0 < input.lexemes.length := by decide
  obtain ⟨found, r', cursor', hread, hr', hmoved, hinside, -⟩ :=
    (reading_progresses input).1 0 input.opening hstands hlt 60
  exact ⟨input, rfl, hstands, hlt, found, r', cursor', hread, hr', hmoved, hinside⟩

end LoxLang.Parser
