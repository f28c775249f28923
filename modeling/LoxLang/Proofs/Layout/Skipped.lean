import LoxLang.Proofs.Lexemes
/-!
# Text between lexemes

Blanks and comments belong to no lexeme, and nothing else stands between lexemes.
A comment ends with its line, so only one at the end of a source can be without a
line break. `Covers` lists the spans of a text with such gaps around them.
-/
namespace LoxLang

namespace Lexeme

/-- Blanks and comments, each comment with the line break that ends it. -/
inductive Skipped : List Char → Prop
  | nil : Skipped []
  | blank {c : Char} {text : List Char} (hc : isBlank c = true) (htext : Skipped text) :
      Skipped (c :: text)
  | comment {body text : List Char} (hbody : '\n' ∉ body) (htext : Skipped text) :
      Skipped ('/' :: '/' :: (body ++ '\n' :: text))

/-- What may stand after the last lexeme: the line of the last comment need not end. -/
inductive Trailing : List Char → Prop
  | skipped {text : List Char} (h : Skipped text) : Trailing text
  | comment {text body : List Char} (h : Skipped text) (hbody : '\n' ∉ body) :
      Trailing (text ++ '/' :: '/' :: body)

theorem Skipped.append {front back : List Char} (hfront : Skipped front) (hback : Skipped back) :
    Skipped (front ++ back) := by
  induction hfront with
  | nil => exact hback
  | blank hc _ ih => exact .blank hc ih
  | comment hbody _ ih =>
    simp only [List.cons_append, List.append_assoc]
    exact .comment hbody ih

theorem Trailing.append {front back : List Char} (hfront : Skipped front) (hback : Trailing back) :
    Trailing (front ++ back) := by
  cases hback with
  | skipped h => exact .skipped (hfront.append h)
  | comment h hbody =>
    rw [← List.append_assoc]
    exact .comment (hfront.append h) hbody

/-! ## Lexemes after a gap -/

section
variable {p : Char → Bool} {body rest : List Char}

theorem takeWhile_stops (hbody : ∀ c ∈ body, p c = true) (hrest : ∀ c ∈ rest.head?, p c = false) :
    (body ++ rest).takeWhile p = body := by
  rw [List.takeWhile_append_of_pos hbody]
  cases rest with
  | nil => simp
  | cons c cs => simp [hrest c rfl]

theorem dropWhile_stops (hbody : ∀ c ∈ body, p c = true) (hrest : ∀ c ∈ rest.head?, p c = false) :
    (body ++ rest).dropWhile p = rest := by
  rw [List.dropWhile_append_of_pos hbody]
  cases rest with
  | nil => rfl
  | cons c cs => simp [hrest c rfl]

end

theorem forall_ne_of_notMem {stop : Char} {body : List Char} (h : stop ∉ body) :
    ∀ c ∈ body, decide (c ≠ stop) = true := by
  intro c hc
  simpa using fun heq : c = stop => h (heq ▸ hc)

theorem cut_comment (cs : List Char) :
    cut '/' ('/' :: cs) =
      ⟨none, '/' :: '/' :: cs.takeWhile (· ≠ '\n'), cs.dropWhile (· ≠ '\n')⟩ := rfl

private theorem lexemesFrom_comment (start : Nat) {body : List Char} (hbody : '\n' ∉ body)
    (rest : List Char) :
    lexemesFrom start ('/' :: '/' :: (body ++ '\n' :: rest)) =
      lexemesFrom (start + byteSize ('/' :: '/' :: (body ++ ['\n']))) rest := by
  have hstop : ∀ c ∈ ('\n' :: rest).head?, decide (c ≠ '\n') = false := by simp
  have htake := takeWhile_stops (forall_ne_of_notMem hbody) hstop
  have hdrop := dropWhile_stops (forall_ne_of_notMem hbody) hstop
  have hsize : start + byteSize ('/' :: '/' :: body) + Char.utf8Size '\n' =
      start + byteSize ('/' :: '/' :: (body ++ ['\n'])) := by
    simp [Nat.add_assoc]
  rw [lexemesFrom_cons, cut_comment, htake, hdrop]
  change lexemesFrom (start + byteSize ('/' :: '/' :: body)) ('\n' :: rest) = _
  rw [lexemesFrom_blank _ rest rfl, hsize]

/-- A text that begins at byte `start` is made of stretches that the spans cover, one after the
other, with gaps around them. -/
inductive Covers : Nat → List Char → List Span → Prop
  | last {start : Nat} {tail : List Char} (htail : Trailing tail) : Covers start tail []
  | next {start : Nat} {gap text rest : List Char} {spans : List Span} (hgap : Skipped gap)
      (htext : text ≠ [])
      (hrest : Covers (start + byteSize gap + byteSize text) rest spans) :
      Covers start (gap ++ (text ++ rest))
        (⟨start + byteSize gap, start + byteSize gap + byteSize text⟩ :: spans)

private theorem Covers.skip {front : List Char} (hfront : Skipped front) {start : Nat}
    {text : List Char} {spans : List Span} (h : Covers (start + byteSize front) text spans) :
    Covers start (front ++ text) spans := by
  cases h with
  | last htail => exact .last (htail.append hfront)
  | @next _ gap text rest spans hgap htext hrest =>
    have hsize : start + byteSize front + byteSize gap = start + byteSize (front ++ gap) := by
      rw [byteSize_append, Nat.add_assoc]
    rw [hsize] at hrest ⊢
    rw [← List.append_assoc]
    exact .next (hfront.append hgap) htext hrest

theorem exists_token {c : Char} {cs : List Char} (hblank : isBlank c = false)
    (hcomment : ¬ (c = '/' ∧ cs.head? = some '/')) : ∃ token, (cut c cs).token? = some token := by
  unfold cut
  simp only [hblank, Bool.false_eq_true, if_false]
  split
  · exact ⟨_, rfl⟩
  split
  · unfold cutNumber
    split
    · split <;> exact ⟨_, rfl⟩
    · exact ⟨_, rfl⟩
  split
  · unfold cutString
    split <;> exact ⟨_, rfl⟩
  split <;> exact ⟨_, rfl⟩

/-- A line comment goes to a line break or to the end of the text. -/
theorem comment_cases (text : List Char) :
    '\n' ∉ text ∨ ∃ body more, '\n' ∉ body ∧ text = body ++ '\n' :: more := by
  by_cases h : '\n' ∈ text
  · obtain ⟨body, more, rfl, hbody⟩ := List.eq_append_cons_of_mem h
    exact .inr ⟨body, more, hbody, rfl⟩
  · exact .inl h

private theorem lexemesFrom_lastComment (start : Nat) {body : List Char} (hbody : '\n' ∉ body) :
    lexemesFrom start ('/' :: '/' :: body) = [] := by
  have hdrop : body.dropWhile (· ≠ '\n') = [] :=
    List.dropWhile_eq_nil_iff.mpr (forall_ne_of_notMem hbody)
  rw [lexemesFrom_cons, cut_comment, hdrop]
  rfl

/-- The lexemes of a text cover all of it but blanks and comments. -/
theorem covers_lexemesFrom (start : Nat) (text : List Char) :
    Covers start text ((lexemesFrom start text).map (·.span)) := by
  induction hn : text.length using Nat.strongRecOn generalizing start text with
  | ind n ih =>
    cases text with
    | nil => exact .last (.skipped .nil)
    | cons c cs =>
      by_cases hblank : isBlank c = true
      · have hrest := ih cs.length (by simp [← hn]) (start + byteSize [c]) cs rfl
        rw [lexemesFrom_blank start cs hblank]
        exact hrest.skip (.blank hblank .nil)
      by_cases hcomment : c = '/' ∧ cs.head? = some '/'
      · obtain ⟨rfl, hslash⟩ := hcomment
        obtain ⟨text, rfl⟩ := List.head?_eq_some_iff.mp hslash
        rcases comment_cases text with hbody | ⟨body, more, hbody, rfl⟩
        · rw [lexemesFrom_lastComment start hbody]
          exact .last (.comment .nil hbody)
        · have hlength : more.length < n := by
            simp only [← hn, List.length_cons, List.length_append]
            omega
          have hrest := ih more.length hlength
            (start + byteSize ('/' :: '/' :: (body ++ ['\n']))) more rfl
          rw [lexemesFrom_comment start hbody more]
          have htext : '/' :: '/' :: (body ++ '\n' :: more) =
              '/' :: '/' :: (body ++ ['\n']) ++ more := by simp
          rw [htext]
          exact hrest.skip (.comment hbody .nil)
      · obtain ⟨token, htoken⟩ := exists_token (by simpa using hblank) hcomment
        have hlength := length_cut_rest c cs
        have hrest := ih _ (by rw [← hn, List.length_cons]; omega)
          (start + byteSize (cut c cs).taken) (cut c cs).rest rfl
        have hnext : Covers start ([] ++ ((cut c cs).taken ++ (cut c cs).rest)) _ :=
          .next .nil (cut_taken_ne_nil c cs) hrest
        rw [List.nil_append, cut_append] at hnext
        rw [lexemesFrom_cons, Cut.lexeme?, htoken]
        exact hnext

end Lexeme

end LoxLang
