import LoxLang.Proofs.Grammar.Stuck
/-!
# Enough to close everything

A source that ends in a long row of `;` and `}` in turn is never cut off in the
middle of something. Each lexeme before the row lets a reader take three of the
row at most, and expressions take none, so as long as the row is more than three
times as long as what is before it, the reader never gets to the end while it
still waits for something.
-/
namespace LoxLang

/-- None of the errors so far could be mended by more input. -/
def Reader.Final (r : Reader) : Prop :=
  ∀ e ∈ r.errors, e.value.isOpenEnded = false

theorem Reader.Final.push {r : Reader} {e : Located Error} (h : r.Final)
    (he : e.value.isOpenEnded = false) : { r with errors := r.errors.push e }.Final := by
  intro x hx
  rcases Array.mem_push.mp hx with hx | rfl
  · exact h x hx
  · exact he

theorem Reader.Final.advance {r : Reader} (h : r.Final) : r.advance.Final := by
  intro e he
  rw [errors_advance] at he
  exact h e he

theorem Reader.Final.synchronize {r : Reader} (h : r.Final) : r.synchronize.Final := by
  intro e he
  rw [errors_synchronize] at he
  exact h e he

theorem Reader.final_expected {r : Reader} (h : r.rest ≠ []) (what : String) :
    (r.expected what).value.isOpenEnded = false := by
  obtain ⟨l, ls, hl⟩ := List.exists_cons_of_ne_nil h
  unfold expected
  rw [hl]
  rfl

namespace Parser

def closer : Token → Bool
  | .symbol s => s = .semicolon || s = .rightBrace
  | _ => false

/-- A row of semicolons and closing braces in turn, by the symbol that it begins with. -/
inductive Row : Symbol → List Lexeme → Prop
  | nil (s : Symbol) : Row s []
  | semicolon {l : Lexeme} {ls : List Lexeme} (hl : l.token = .symbol .semicolon)
      (hls : Row .rightBrace ls) : Row .semicolon (l :: ls)
  | rightBrace {l : Lexeme} {ls : List Lexeme} (hl : l.token = .symbol .rightBrace)
      (hls : Row .semicolon ls) : Row .rightBrace (l :: ls)

/-- The lexemes ahead end in a row that has three for each one before it, and `c` more. -/
def Room (c : Nat) (rest : List Lexeme) : Prop :=
  ∃ front s row, rest = front ++ row ∧ Row s row ∧ 3 * front.length + c ≤ row.length

theorem Row.closer {s : Symbol} {l : Lexeme} {ls : List Lexeme} (h : Row s (l :: ls)) :
    Parser.closer l.token = true := by
  cases h with
  | semicolon hl _ => rw [hl]; rfl
  | rightBrace hl _ => rw [hl]; rfl

theorem Row.tail {s : Symbol} {l : Lexeme} {ls : List Lexeme} (h : Row s (l :: ls)) :
    ∃ s', Row s' ls := by
  cases h with
  | semicolon _ hls => exact ⟨_, hls⟩
  | rightBrace _ hls => exact ⟨_, hls⟩

theorem Room.mono {c d : Nat} {rest : List Lexeme} (h : Room c rest) (hd : d ≤ c) :
    Room d rest := by
  obtain ⟨front, s, row, hrest, hrow, hlength⟩ := h
  exact ⟨front, s, row, hrest, hrow, by omega⟩

theorem Room.ne_nil {c : Nat} {rest : List Lexeme} (h : Room (c + 1) rest) : rest ≠ [] := by
  obtain ⟨front, s, row, rfl, -, hlength⟩ := h
  intro hnil
  rw [(List.append_eq_nil_iff.mp hnil).2, List.length_nil] at hlength
  omega

/-- Where there is room, the next lexeme is one of the row, or it makes room for three of them. -/
theorem Room.cases {c : Nat} {rest : List Lexeme} (h : Room c rest) :
    (∃ s, Row s rest ∧ c ≤ rest.length) ∨ ∃ l ls, rest = l :: ls ∧ Room (c + 3) ls := by
  obtain ⟨front, s, row, rfl, hrow, hlength⟩ := h
  cases front with
  | nil =>
    rw [List.length_nil] at hlength
    exact .inl ⟨s, hrow, by rw [List.nil_append]; omega⟩
  | cons l front =>
    rw [List.length_cons] at hlength
    exact .inr ⟨l, front ++ row, rfl, front, s, row, rfl, hrow, by omega⟩

theorem Row.room {c : Nat} {s : Symbol} {row : List Lexeme} (h : Row s row) (hc : c ≤ row.length) :
    Room c row :=
  ⟨[], s, row, rfl, h, by rw [List.length_nil]; omega⟩

theorem Room.cons {c : Nat} {ls : List Lexeme} (h : Room (c + 3) ls) (l : Lexeme) :
    Room c (l :: ls) := by
  obtain ⟨front, s, row, rfl, hrow, hlength⟩ := h
  exact ⟨l :: front, s, row, rfl, hrow, by rw [List.length_cons]; omega⟩

theorem Room.take {c : Nat} {l : Lexeme} {ls : List Lexeme} (h : Room c (l :: ls))
    (hl : Parser.closer l.token = false) : Room (c + 3) ls := by
  rcases h.cases with ⟨s, hrow, -⟩ | ⟨_, _, hrest, hls⟩
  · rw [hrow.closer] at hl
    exact Bool.noConfusion hl
  · obtain ⟨rfl, rfl⟩ := List.cons.inj hrest
    exact hls

private theorem Room.takeAny {c : Nat} {l : Lexeme} {ls : List Lexeme}
    (h : Room (c + 1) (l :: ls)) :
    Room c ls := by
  rcases h.cases with ⟨s, hrow, hlength⟩ | ⟨_, _, hrest, hls⟩
  · obtain ⟨s', htail⟩ := hrow.tail
    rw [List.length_cons] at hlength
    exact htail.room (by omega)
  · obtain ⟨rfl, rfl⟩ := List.cons.inj hrest
    exact hls.mono (by omega)

/-! ## Skipping -/

private theorem not_startsStatement {token : Token} (h : closer token = true) :
    Reader.startsStatement token = false := by
  cases token with
  | symbol s => rfl
  | _ => exact Bool.noConfusion h

theorem skipFrom_semicolon {last : Lexeme} (h : last.token = .symbol .semicolon)
    (ls : List Lexeme) : (Reader.skipFrom last ls).2 = ls := by
  cases ls with
  | nil => rfl
  | cons l ls => rw [Reader.skipFrom, if_pos (by simp [h])]

private theorem skipFrom_closer {last l : Lexeme} {ls : List Lexeme}
    (hlast : last.token ≠ .symbol .semicolon) (hl : closer l.token = true) :
    Reader.skipFrom last (l :: ls) = Reader.skipFrom l ls := by
  rw [Reader.skipFrom, if_neg (by simp [hlast, not_startsStatement hl])]

def Remains (cost : Nat) (row rest : List Lexeme) : Prop :=
  (∃ s, Row s rest) ∧ row.length ≤ rest.length + cost

private theorem remains_skipFrom_semicolons {row : List Lexeme} (h : Row .semicolon row)
    (last : Lexeme) :
    Remains 1 row (Reader.skipFrom last row).2 := by
  by_cases hlast : last.token = .symbol .semicolon
  · rw [skipFrom_semicolon hlast]
    exact ⟨⟨_, h⟩, Nat.le_succ _⟩
  cases h with
  | nil => exact ⟨⟨_, .nil .semicolon⟩, Nat.zero_le _⟩
  | semicolon hl hls =>
    rw [skipFrom_closer hlast (by rw [hl]; rfl), skipFrom_semicolon hl]
    exact ⟨⟨_, hls⟩, Nat.le_refl _⟩

/-- Once it is in the row, skipping stops after the next semicolon. -/
theorem remains_skipFrom {s : Symbol} {row : List Lexeme} (h : Row s row) (last : Lexeme) :
    Remains 2 row (Reader.skipFrom last row).2 := by
  by_cases hlast : last.token = .symbol .semicolon
  · rw [skipFrom_semicolon hlast]
    exact ⟨⟨_, h⟩, Nat.le_add_right _ _⟩
  cases h with
  | nil s => exact ⟨⟨_, .nil s⟩, Nat.zero_le _⟩
  | semicolon hl hls =>
    obtain ⟨hrow, hle⟩ := remains_skipFrom_semicolons (.semicolon hl hls) last
    exact ⟨hrow, by omega⟩
  | rightBrace hl hls =>
    rw [skipFrom_closer hlast (by rw [hl]; rfl)]
    obtain ⟨hrow, hle⟩ := remains_skipFrom_semicolons hls _
    exact ⟨hrow, by rw [List.length_cons]; omega⟩

theorem synchronize_cons {r : Reader} {l : Lexeme} {ls : List Lexeme} (h : r.rest = l :: ls) :
    r.synchronize.rest = (Reader.skipFrom l ls).2 := by
  unfold Reader.synchronize
  rw [h]

theorem remains_synchronize {r : Reader} {s : Symbol} (h : Row s r.rest) :
    Remains 2 r.rest r.synchronize.rest := by
  cases hrest : r.rest with
  | nil =>
    have hstay : r.synchronize.rest = [] := by
      unfold Reader.synchronize
      rw [hrest]
      exact hrest
    rw [hstay]
    exact ⟨⟨s, .nil s⟩, Nat.zero_le _⟩
  | cons l ls =>
    rw [synchronize_cons hrest]
    rw [hrest] at h
    cases h with
    | semicolon hl hls =>
      rw [skipFrom_semicolon hl]
      exact ⟨⟨_, hls⟩, by simp⟩
    | rightBrace _ hls =>
      obtain ⟨hrow, hle⟩ := remains_skipFrom_semicolons hls l
      exact ⟨hrow, by rw [List.length_cons]; omega⟩

theorem Remains.room {c cost : Nat} {row rest : List Lexeme} (h : Remains cost row rest)
    (hlength : c + cost ≤ row.length) : Room c rest := by
  obtain ⟨⟨s, hrow⟩, hle⟩ := h
  exact hrow.room (by omega)

theorem Room.skipFrom {c : Nat} {rest : List Lexeme} (h : Room (c + 2) rest) (last : Lexeme) :
    Room c (Reader.skipFrom last rest).2 := by
  induction rest generalizing last with
  | nil => exact h.mono (Nat.le_add_right c 2)
  | cons l ls ih =>
    rcases h.cases with ⟨s, hrow, hlength⟩ | ⟨_, _, hrest, hls⟩
    · exact (remains_skipFrom hrow last).room hlength
    · obtain ⟨rfl, rfl⟩ := List.cons.inj hrest
      rw [Reader.skipFrom]
      split
      · exact h.mono (Nat.le_add_right c 2)
      · exact ih (hls.mono (Nat.le_add_right (c + 2) 3)) l

/-- If a lexeme before the row is skipped first, then that makes up for the others. -/
theorem Room.synchronize_front {c : Nat} {r : Reader} {l : Lexeme} {ls : List Lexeme}
    (h : Room (c + 3) ls) (hrest : r.rest = l :: ls) : Room c r.synchronize.rest := by
  rw [synchronize_cons hrest]
  exact Room.skipFrom (h.mono (Nat.le_succ (c + 2))) l

theorem Room.synchronize {c : Nat} {r : Reader} (h : Room (c + 2) r.rest) :
    Room c r.synchronize.rest := by
  rcases h.cases with ⟨s, hrow, hlength⟩ | ⟨l, ls, hrest, hls⟩
  · exact (remains_synchronize hrow).room hlength
  · exact Room.synchronize_front (hls.mono (by omega)) hrest

/-! ## Steps that find and leave room -/

variable {α β : Type}

/-- A step ends with room for `g` besides what is kept for others. Or it fails: on the spot, or with
room to skip ahead. -/
def Leaves (c g : Nat) (start : List Lexeme) : EStateM.Result (Located Error) Reader α → Prop
  | .ok _ r => Room (c + 1 + g) r.rest ∧ r.Final
  | .error e r => (r.rest = start ∨ Room (c + 3) r.rest) ∧ r.Final ∧ e.value.isOpenEnded = false

def MovesAt (next : Option Token) (k g : Nat) (p : Parser α) : Prop :=
  ∀ c r, r.tokens.head? = next → Room (c + 1 + k) r.rest → r.Final → Leaves c g r.rest (p r)

def Moves (k g : Nat) (p : Parser α) : Prop :=
  ∀ next, MovesAt next k g p

theorem Moves.apply {k g c : Nat} {p : Parser α} {r : Reader} (h : Moves k g p)
    (hroom : Room (c + 1 + k) r.rest) (hfinal : r.Final) : Leaves c g r.rest (p r) :=
  h _ c r rfl hroom hfinal

private theorem Leaves.moved {c k g : Nat} {start start' : List Lexeme}
    {result : EStateM.Result (Located Error) Reader α} (h : Leaves c g start result)
    (hroom : Room (c + 1 + k) start) (hk : 2 ≤ k) : Leaves c g start' result := by
  cases result with
  | ok a r => exact h
  | error e r =>
    obtain ⟨hrest, hfinal, he⟩ := h
    refine ⟨.inr ?_, hfinal, he⟩
    rcases hrest with hrest | hrest
    · rw [hrest]
      exact hroom.mono (by omega)
    · exact hrest

theorem Moves.mono {k g k' g' : Nat} {p : Parser α} (h : Moves k g p) (hk : k ≤ k')
    (hg : g' + k ≤ g + k') : Moves k' g' p := by
  intro next c r _ hroom hfinal
  have hleaves := h.apply (c := c + (k' - k)) (hroom.mono (by omega)) hfinal
  cases hp : p r with
  | ok a r' =>
    rw [hp] at hleaves
    exact ⟨hleaves.1.mono (by omega), hleaves.2⟩
  | error e r' =>
    rw [hp] at hleaves
    obtain ⟨hrest, hfinal', he⟩ := hleaves
    exact ⟨hrest.imp_right fun hroom' => hroom'.mono (by omega), hfinal', he⟩

theorem Moves.more {k g : Nat} {p : Parser α} (h : Moves k g p) (j : Nat) :
    Moves (k + j) (g + j) p :=
  h.mono (Nat.le_add_right k j) (by omega)

theorem Moves.less {k g g' : Nat} {p : Parser α} (h : Moves k g p) (hg : g' ≤ g) : Moves k g' p :=
  h.mono (Nat.le_refl k) (by omega)

theorem moves_pure (k : Nat) (a : α) : Moves k k (pure a : Parser α) :=
  fun _ _ _ _ hroom hfinal => ⟨hroom, hfinal⟩

/-- If the second step fails on the spot, there must be room to skip. -/
theorem Moves.bind {k m g : Nat} {p : Parser α} {f : α → Parser β} (hp : Moves k m p)
    (hf : ∀ a, Moves m g (f a)) (hm : 2 ≤ m) : Moves k g (p >>= f) := by
  intro next c r _ hroom hfinal
  have hfirst := hp.apply hroom hfinal
  rw [bind_apply]
  cases hpr : p r with
  | ok a r' =>
    rw [hpr] at hfirst
    exact ((hf a).apply hfirst.1 hfirst.2).moved hfirst.1 hm
  | error e r' =>
    rw [hpr] at hfirst
    exact hfirst

theorem Moves.andThen {k g : Nat} {p : Parser α} {f : α → Parser β} (hp : Moves k g p)
    (hf : ∀ a r, ∃ b, f a r = .ok b r) : Moves k g (p >>= f) := by
  intro next c r _ hroom hfinal
  have hleaves := hp.apply hroom hfinal
  rw [bind_apply]
  cases hpr : p r with
  | ok a r' =>
    rw [hpr] at hleaves
    obtain ⟨b, hb⟩ := hf a r'
    simp only [hb]
    exact hleaves
  | error e r' =>
    rw [hpr] at hleaves
    exact hleaves

theorem Moves.map {k g : Nat} {p : Parser α} {f : α → β} (hp : Moves k g p) :
    Moves k g (f <$> p) :=
  hp.andThen fun a _ => ⟨f a, rfl⟩

theorem moves_fail (k g : Nat) (what : String) : Moves k g (failExpecting what : Parser α) := by
  intro next c r _ hroom hfinal
  have hne : r.rest ≠ [] := (hroom.mono (by omega : c + 1 ≤ c + 1 + k)).ne_nil
  exact ⟨.inl rfl, hfinal, Reader.final_expected hne what⟩

theorem moves_fromStart {k g : Nat} {f : Nat → Parser α} (h : ∀ start, Moves k g (f start)) :
    Moves k g (nextStart >>= f) :=
  fun next c r => h r.nextSpan.start next c r

theorem movesAt_fromSpan {next : Option Token} {k g : Nat} {f : Span → Parser α}
    (h : ∀ span, MovesAt next k g (f span)) : MovesAt next k g (nextSpan >>= f) :=
  fun c r => h r.nextSpan c r

theorem moves_spanFrom {k g : Nat} {f : Span → Parser α} (start : Nat)
    (h : ∀ span, Moves k g (f span)) : Moves k g (spanFrom start >>= f) :=
  fun next c r => h (r.spanFrom start) next c r

theorem moves_report {k g : Nat} {error : Error} (span : Span) {f : Unit → Parser α}
    (herror : error.isOpenEnded = false) (h : Moves k g (f ())) :
    Moves k g (report error span >>= f) := by
  intro next c r _ hroom hfinal
  exact h.apply (r := { r with errors := r.errors.push ⟨error, span⟩ }) hroom (hfinal.push herror)

theorem moves_limit {k g count : Nat} {error : Error} {f : Unit → Parser α}
    (herror : error.isOpenEnded = false) (h : Moves k g (f ())) :
    Moves k g (limit count error >>= f) := by
  unfold limit
  split
  · exact h
  · exact fun next c r => moves_report r.nextSpan herror h next c r

theorem moves_peek {k g : Nat} {f : Option Token → Parser α}
    (h : ∀ next, MovesAt next k g (f next)) : Moves k g (peek >>= f) := by
  intro next c r hnext hroom hfinal
  rw [bind_apply, peek_apply]
  exact h _ c r rfl hroom hfinal

private theorem rest_of_head? {r : Reader} {token : Token} (h : r.tokens.head? = some token) :
    ∃ l, r.rest = l :: r.advance.rest ∧ l.token = token := by
  cases hrest : r.rest with
  | nil => simp [Reader.tokens, hrest] at h
  | cons l ls =>
    refine ⟨l, ?_, by simpa [Reader.tokens, hrest] using h⟩
    unfold Reader.advance
    rw [hrest]

theorem Room.advance {c : Nat} {r : Reader} {token : Token} (h : Room c r.rest)
    (hhead : r.tokens.head? = some token) (htoken : Parser.closer token = false) :
    Room (c + 3) r.advance.rest := by
  obtain ⟨l, hrest, rfl⟩ := rest_of_head? hhead
  rw [hrest] at h
  exact h.take htoken

theorem movesAt_advance {k g : Nat} {token : Token} {f : Unit → Parser α}
    (htoken : closer token = false) (h : Moves (k + 3) g (f ())) :
    MovesAt (some token) k g (advance >>= f) := by
  intro c r hhead hroom hfinal
  have hroom' : Room (c + 1 + (k + 3)) r.advance.rest :=
    (hroom.advance hhead htoken).mono (by omega)
  exact (h.apply hroom' hfinal.advance).moved hroom' (by omega)

theorem moves_ifCheck {k g : Nat} {token : Token} {p q : Parser α}
    (hp : MovesAt (some token) k g p) (hq : Moves k g q) :
    Moves k g (do if ← check token then p else q) := by
  intro next c r _ hroom hfinal
  rw [bind_apply, check_apply]
  by_cases hhead : r.tokens.head? = some token
  · rw [decide_eq_true hhead]
    exact hp c r hhead hroom hfinal
  · rw [decide_eq_false hhead]
    exact hq.apply hroom hfinal

theorem moves_ifEat {k g : Nat} {token : Token} {p q : Parser α} (htoken : closer token = false)
    (hp : Moves (k + 3) g p) (hq : Moves k g q) :
    Moves k g (do if ← eat token then p else q) := by
  intro next c r _ hroom hfinal
  rw [bind_apply, eat_apply]
  by_cases hhead : r.tokens.head? = some token
  · have hroom' : Room (c + 1 + (k + 3)) r.advance.rest :=
      (hroom.advance hhead htoken).mono (by omega)
    rw [if_pos hhead]
    exact (hp.apply hroom' hfinal.advance).moved hroom' (by omega)
  · rw [if_neg hhead]
    exact hq.apply hroom hfinal

theorem moves_ifEatAny {token : Token} {a : α} {q : Parser α} (hq : Moves 1 0 q) :
    Moves 1 0 (do if ← eat token then pure a else q) := by
  intro next c r _ hroom hfinal
  rw [bind_apply, eat_apply]
  by_cases hhead : r.tokens.head? = some token
  · rw [if_pos hhead]
    obtain ⟨l, hrest, -⟩ := rest_of_head? hhead
    rw [hrest] at hroom
    exact ⟨hroom.takeAny, hfinal.advance⟩
  · rw [if_neg hhead]
    exact hq.apply hroom hfinal

theorem moves_ifCloses {k g : Nat} {p q : Parser α} (hp : Moves k g p) (hq : Moves k g q) :
    Moves k g (do if ← closes then p else q) := by
  intro next c r _ hroom hfinal
  rw [bind_apply, closes_apply]
  cases r.tokens.head?.all (· = .symbol .rightBrace) with
  | true => exact hp.apply hroom hfinal
  | false => exact hq.apply hroom hfinal

theorem moves_expect {token : Token} (what : String) (h : closer token = false) :
    Moves 0 3 (expect token what) :=
  moves_ifEat h (moves_pure 3 ()) (moves_fail 0 3 what)

theorem moves_expectAny (token : Token) (what : String) : Moves 1 0 (expect token what) :=
  moves_ifEatAny (moves_fail 1 0 what)

theorem moves_expectName (what : String) : Moves 0 3 (expectName what) := by
  refine moves_peek fun next => ?_
  split
  · exact movesAt_advance rfl (moves_pure 3 _)
  · exact moves_fail 0 3 what _

theorem moves_after (token : Token) {p : Parser α} (htoken : closer token = false)
    (hp : Moves 3 0 p) : Moves 0 0 (after token p) :=
  moves_ifEat htoken hp.map (moves_pure 0 none)

theorem moves_before (token : Token) {p : Parser α} (hp : Moves 0 0 p) :
    Moves 0 0 (before token p) :=
  moves_ifCheck (moves_pure 0 none _) hp.map

end Parser

end LoxLang
