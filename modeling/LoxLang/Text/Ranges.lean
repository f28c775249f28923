/-!
# Sets of code points

A set of code points is a list of closed ranges in ascending order. The order
lets a search stop early: it finds what a search through all ranges would find.
-/
namespace LoxLang.Text

/-- Whether an ascending list of closed ranges covers `n`. -/
def covers : List (Nat × Nat) → Nat → Bool
  | [], _ => false
  | (low, high) :: rest, n => low ≤ n && (n ≤ high || covers rest n)

/-- Each range is non-empty and ends before the next one starts. -/
def Ascending : List (Nat × Nat) → Bool
  | [] => true
  | [(low, high)] => low ≤ high
  | (low, high) :: (next, stop) :: rest =>
    low ≤ high && high < next && Ascending ((next, stop) :: rest)

private theorem ascending_tail {r : Nat × Nat} {rest : List (Nat × Nat)}
    (h : Ascending (r :: rest)) :
    Ascending rest := by
  cases rest with
  | nil => rfl
  | cons s rest =>
    simp only [Ascending, Bool.and_eq_true] at h
    exact h.2

private theorem low_le_of_ascending {r : Nat × Nat} {rest : List (Nat × Nat)}
    (h : Ascending (r :: rest)) :
    ∀ s ∈ rest, r.1 ≤ s.1 := by
  induction rest generalizing r with
  | nil => simp
  | cons next rest ih =>
    have hnext : r.1 ≤ next.1 := by
      simp only [Ascending, Bool.and_eq_true, decide_eq_true_eq] at h
      omega
    intro s hs
    rcases List.mem_cons.mp hs with rfl | hs
    · exact hnext
    · exact Nat.le_trans hnext (ih (ascending_tail h) s hs)

/-- In an ascending list a code point is covered exactly if some range holds it. -/
theorem covers_iff {ranges : List (Nat × Nat)} (h : Ascending ranges) (n : Nat) :
    covers ranges n ↔ ∃ r ∈ ranges, r.1 ≤ n ∧ n ≤ r.2 := by
  induction ranges with
  | nil => simp [covers]
  | cons r rest ih =>
    have hlow := low_le_of_ascending h
    simp only [covers, Bool.and_eq_true, Bool.or_eq_true, decide_eq_true_eq, ih (ascending_tail h),
      List.mem_cons, exists_eq_or_imp]
    constructor
    · intro hn
      rcases hn.2 with hr | hr
      · exact Or.inl ⟨hn.1, hr⟩
      · exact Or.inr hr
    · intro hn
      rcases hn with hr | ⟨s, hs, hsn⟩
      · exact ⟨hr.1, Or.inl hr.2⟩
      · exact ⟨Nat.le_trans (hlow s hs) hsn.1, Or.inr ⟨s, hs, hsn⟩⟩

end LoxLang.Text
