import LoxLang.Proofs.Grammar.Reading
/-!
# Cursors

A reader keeps the lexemes ahead, but it can also be seen as a place in a fixed
sequence of lexemes: a cursor that only moves forwards. This says where a reader
stands, which errors can be raised there, and how skipping moves the cursor.
-/
namespace LoxLang

/-- What a reader is given: the lexemes of a source, the errors found among them, and where the
source ends. Nothing is assumed of the order or the places of the lexemes. -/
structure Input where
  lexemes : List Lexeme
  errors : List (Located Error)
  sourceEnd : Nat

namespace Input

def opening (input : Input) : Reader :=
  ⟨input.lexemes, none, input.errors.toArray, input.sourceEnd⟩

/-- The place of a lexeme, or the empty span at the end of the source. -/
def spanAt (input : Input) (cursor : Nat) : Span :=
  match input.lexemes[cursor]? with
  | some l => l.span
  | none => ⟨input.sourceEnd, input.sourceEnd⟩

theorem spanAt_of_getElem? {input : Input} {cursor : Nat} {l : Lexeme}
    (h : input.lexemes[cursor]? = some l) : input.spanAt cursor = l.span := by
  simp only [spanAt, h]

theorem spanAt_length (input : Input) :
    input.spanAt input.lexemes.length = ⟨input.sourceEnd, input.sourceEnd⟩ := by
  simp only [spanAt, List.getElem?_eq_none (Nat.le_refl _)]

/-- The errors that can be raised at a cursor. -/
inductive Raises (input : Input) (cursor : Nat) : Located Error → Prop
  | unexpectedToken (l : Lexeme) (what : String) (found : input.lexemes[cursor]? = some l) :
    Raises input cursor ⟨.unexpectedToken l.text what, l.span⟩
  | unexpectedEnd (what : String) (atEnd : cursor = input.lexemes.length) :
    Raises input cursor ⟨.unexpectedEnd what, ⟨input.sourceEnd, input.sourceEnd⟩⟩
  | tooManyArguments (inside : cursor ≤ input.lexemes.length) :
    Raises input cursor ⟨.tooManyArguments Parser.maxArguments, input.spanAt cursor⟩
  | tooManyParameters (inside : cursor ≤ input.lexemes.length) :
    Raises input cursor ⟨.tooManyParameters Parser.maxArguments, input.spanAt cursor⟩
  | invalidAssignTarget (l : Lexeme) (found : input.lexemes[cursor]? = some l)
      (sign : l.token = .symbol .equal) :
    Raises input cursor ⟨.invalidAssignTarget, l.span⟩

/-- The loop of skipping, on indices. Each of its rounds reads the lexeme before the cursor and the
one at the cursor; `cursor'` is where it ends. -/
inductive SkipsTo (input : Input) : Nat → Nat → Prop
  | atEnd {cursor : Nat} (ended : cursor = input.lexemes.length) : SkipsTo input cursor cursor
  | afterSemicolon {cursor : Nat} {before next : Lexeme}
      (hbefore : input.lexemes[cursor]? = some before)
      (hnext : input.lexemes[cursor + 1]? = some next)
      (semicolon : before.token = .symbol .semicolon) : SkipsTo input (cursor + 1) (cursor + 1)
  | beforeStatement {cursor : Nat} {before next : Lexeme}
      (hbefore : input.lexemes[cursor]? = some before)
      (hnext : input.lexemes[cursor + 1]? = some next)
      (other : before.token ≠ .symbol .semicolon)
      (starts : Reader.startsStatement next.token = true) : SkipsTo input (cursor + 1) (cursor + 1)
  | on {cursor cursor' : Nat} {before next : Lexeme}
      (hbefore : input.lexemes[cursor]? = some before)
      (hnext : input.lexemes[cursor + 1]? = some next)
      (other : before.token ≠ .symbol .semicolon)
      (goesOn : Reader.startsStatement next.token = false)
      (rest : SkipsTo input (cursor + 2) cursor') : SkipsTo input (cursor + 1) cursor'

end Input

/-- A reader stands at a cursor of its input. Apart from the errors of the input, its errors were
raised at some cursor. -/
structure Reader.Stands (input : Input) (cursor : Nat) (r : Reader) : Prop where
  inside : cursor ≤ input.lexemes.length
  rest : r.rest = input.lexemes.drop cursor
  last : r.last = (input.lexemes.take cursor).getLast?
  errors : ∀ e ∈ r.errors.toList, e ∈ input.errors ∨ ∃ i, input.Raises i e
  sourceEnd : r.sourceEnd = input.sourceEnd

theorem Input.stands_opening (input : Input) : input.opening.Stands input 0 where
  inside := Nat.zero_le _
  rest := rfl
  last := rfl
  errors _ he := .inl he
  sourceEnd := rfl

namespace Reader.Stands

variable {input : Input} {cursor : Nat} {r : Reader}

private theorem length_rest (h : r.Stands input cursor) :
    r.rest.length = input.lexemes.length - cursor := by
  rw [h.rest, List.length_drop]

theorem getElem? (h : r.Stands input cursor) : input.lexemes[cursor]? = r.rest.head? := by
  rw [h.rest, List.head?_drop]

theorem next (h : r.Stands input cursor) {token : Token} (hnext : r.tokens.head? = some token) :
    ∃ l, input.lexemes[cursor]? = some l ∧ l.token = token := by
  rw [← r.head?_tokens, ← h.getElem?] at hnext
  simpa using hnext

theorem nextSpan (h : r.Stands input cursor) : r.nextSpan = input.spanAt cursor := by
  unfold Reader.nextSpan Input.spanAt
  rw [h.getElem?]
  cases r.rest with
  | nil => rw [h.sourceEnd]; rfl
  | cons l ls => rfl

theorem rest_eq_nil_iff (h : r.Stands input cursor) :
    r.rest = [] ↔ cursor = input.lexemes.length := by
  have hinside := h.inside
  rw [← List.length_eq_zero_iff, h.length_rest]
  omega

private theorem of_cons (h : r.Stands input cursor) {l : Lexeme} {ls : List Lexeme}
    (hrest : r.rest = l :: ls) :
    input.lexemes[cursor]? = some l ∧ cursor < input.lexemes.length ∧
      ls = input.lexemes.drop (cursor + 1) := by
  have hl : input.lexemes[cursor]? = some l := by rw [h.getElem?, hrest, List.head?_cons]
  refine ⟨hl, (List.getElem?_eq_some_iff.mp hl).1, ?_⟩
  rw [← List.tail_drop, ← h.rest, hrest, List.tail_cons]

theorem raises_expected (h : r.Stands input cursor) (what : String) :
    input.Raises cursor (r.expected what) := by
  unfold Reader.expected
  cases hrest : r.rest with
  | nil =>
    have hend := h.rest_eq_nil_iff.mp hrest
    have hspan : r.nextSpan = ⟨input.sourceEnd, input.sourceEnd⟩ := by
      unfold Reader.nextSpan
      simp only [hrest, h.sourceEnd]
    simp only [hspan]
    exact .unexpectedEnd what hend
  | cons l ls => exact .unexpectedToken l what (h.of_cons hrest).1

theorem take_succ {l : Lexeme} (hl : input.lexemes[cursor]? = some l) :
    some l = (input.lexemes.take (cursor + 1)).getLast? := by
  rw [List.take_add_one, hl, Option.toList_some, List.getLast?_concat]

theorem advance (h : r.Stands input cursor) (hlt : cursor < input.lexemes.length) :
    r.advance.Stands input (cursor + 1) := by
  unfold Reader.advance
  cases hrest : r.rest with
  | nil => exact absurd (h.rest_eq_nil_iff.mp hrest) (Nat.ne_of_lt hlt)
  | cons l ls =>
    obtain ⟨hl, -, hls⟩ := h.of_cons hrest
    exact ⟨hlt, hls, take_succ hl, h.errors, h.sourceEnd⟩

theorem push (h : r.Stands input cursor) {e : Located Error} {i : Nat} (he : input.Raises i e) :
    { r with errors := r.errors.push e }.Stands input cursor := by
  refine ⟨h.inside, h.rest, h.last, fun e' he' => ?_, h.sourceEnd⟩
  rw [Array.toList_push, List.mem_append, List.mem_singleton] at he'
  rcases he' with he' | rfl
  · exact h.errors e' he'
  · exact .inr ⟨i, he⟩

theorem skipFrom {last : Lexeme} {ls : List Lexeme} (hlast : input.lexemes[cursor]? = some last)
    (hls : ls = input.lexemes.drop (cursor + 1)) :
    ∃ cursor', cursor < cursor' ∧ cursor' ≤ input.lexemes.length ∧
      input.SkipsTo (cursor + 1) cursor' ∧
      (Reader.skipFrom last ls).2 = input.lexemes.drop cursor' ∧
      some (Reader.skipFrom last ls).1 = (input.lexemes.take cursor').getLast? := by
  induction ls generalizing last cursor with
  | nil =>
    have hlt := (List.getElem?_eq_some_iff.mp hlast).1
    have hle := List.drop_eq_nil_iff.mp hls.symm
    exact ⟨cursor + 1, Nat.lt_succ_self _, hlt, .atEnd (by omega), hls, take_succ hlast⟩
  | cons l ls ih =>
    have hnext : input.lexemes[cursor + 1]? = some l := by
      rw [← List.head?_drop, ← hls, List.head?_cons]
    have htail : ls = input.lexemes.drop (cursor + 2) := by
      rw [← List.tail_drop, ← hls, List.tail_cons]
    have hlt := (List.getElem?_eq_some_iff.mp hnext).1
    have hstop (skips : input.SkipsTo (cursor + 1) (cursor + 1)) :
        ∃ cursor', cursor < cursor' ∧ cursor' ≤ input.lexemes.length ∧
          input.SkipsTo (cursor + 1) cursor' ∧ l :: ls = input.lexemes.drop cursor' ∧
          some last = (input.lexemes.take cursor').getLast? :=
      ⟨cursor + 1, Nat.lt_succ_self _, Nat.le_of_lt hlt, skips, hls, take_succ hlast⟩
    rw [Reader.skipFrom]
    split
    · rename_i hstops
      by_cases hsemi : last.token = .symbol .semicolon
      · exact hstop (.afterSemicolon hlast hnext hsemi)
      · refine hstop (.beforeStatement hlast hnext hsemi ?_)
        simpa [hsemi] using hstops
    · rename_i hon
      obtain ⟨cursor', hlt', hinside, hskips, hrest⟩ := ih hnext htail
      obtain ⟨hsemi, hstarts⟩ : last.token ≠ .symbol .semicolon ∧
          Reader.startsStatement l.token = false := by simpa using hon
      exact ⟨cursor', by omega, hinside, .on hlast hnext hsemi hstarts hskips, hrest⟩

/-- Skipping steps over the lexeme at the cursor and stops at the end at the latest. -/
theorem synchronize (h : r.Stands input cursor) (hlt : cursor < input.lexemes.length) :
    ∃ cursor', cursor < cursor' ∧ cursor' ≤ input.lexemes.length ∧
      input.SkipsTo (cursor + 1) cursor' ∧ r.synchronize.Stands input cursor' := by
  unfold Reader.synchronize
  cases hrest : r.rest with
  | nil => exact absurd (h.rest_eq_nil_iff.mp hrest) (Nat.ne_of_lt hlt)
  | cons l ls =>
    obtain ⟨hl, -, hls⟩ := h.of_cons hrest
    obtain ⟨cursor', hmoved, hinside, hskips, hdrop, hlast⟩ := skipFrom hl hls
    exact ⟨cursor', hmoved, hinside, hskips, ⟨hinside, hdrop, hlast, h.errors, h.sourceEnd⟩⟩

theorem synchronize_atEnd (h : r.Stands input cursor) (hend : cursor = input.lexemes.length) :
    r.synchronize = r := by
  unfold Reader.synchronize
  rw [h.rest_eq_nil_iff.mpr hend]

end Reader.Stands

end LoxLang
