import LoxLang.Token.Lexeme

namespace LoxLang

namespace Lexeme

private theorem symbol?_eq_some {text rest : List Char} {s : Symbol}
    (h : symbol? text = some (s, rest)) :
    s.spelling.toList ++ rest = text := by
  unfold symbol? at h
  split at h <;> simp only [Option.some.injEq, Prod.mk.injEq, reduceCtorEq] at h <;>
    obtain ⟨rfl, rfl⟩ := h <;> rfl

private theorem cutNumber_append (text : List Char) :
    (cutNumber text).taken ++ (cutNumber text).rest = text := by
  have h := List.takeWhile_append_dropWhile (p := Char.isDigit) (l := text)
  unfold cutNumber
  split
  · rename_i d rest hd
    rw [hd] at h
    split
    · have hr := List.takeWhile_append_dropWhile (p := Char.isDigit) (l := rest)
      simp only [List.append_assoc, List.cons_append, hr, h]
    · exact h
  · exact h

private theorem cutString_append (text : List Char) :
    (cutString text).taken ++ (cutString text).rest = '"' :: text := by
  have h := List.takeWhile_append_dropWhile (p := (· ≠ '"')) (l := text)
  unfold cutString
  split
  · rename_i quote rest hq
    rw [hq] at h
    simp only [List.cons_append, List.append_assoc, List.nil_append, h]
  · simp only [List.append_nil]

theorem cut_append (c : Char) (cs : List Char) : (cut c cs).taken ++ (cut c cs).rest = c :: cs := by
  unfold cut
  split
  · simp
  split
  · simp
  split
  · exact cutNumber_append _
  split
  · rename_i h
    subst h
    exact cutString_append cs
  split
  · simp
  split
  · rename_i h
    exact symbol?_eq_some h
  · rfl

theorem cut_taken_ne_nil (c : Char) (cs : List Char) : (cut c cs).taken ≠ [] := by
  unfold cut
  split
  · simp
  split
  · simp
  split
  · rename_i hd
    unfold cutNumber
    split
    · split <;> simp [hd]
    · simp [hd]
  split
  · unfold cutString
    split <;> simp
  split
  · simp
  split
  · exact Symbol.spelling_ne_nil _
  · simp

theorem length_cut_rest (c : Char) (cs : List Char) : (cut c cs).rest.length ≤ cs.length := by
  have h := congrArg List.length (cut_append c cs)
  have hpos := List.length_pos_iff.mpr (cut_taken_ne_nil c cs)
  simp only [List.length_append, List.length_cons] at h
  omega

@[simp] theorem text_piece (start : Nat) (k : Cut) :
    (k.piece start).text = String.ofList k.taken := by
  unfold Cut.piece
  split <;> rfl

theorem text_piecesFrom {bound : Nat} (start : Nat) {text : List Char} (h : text.length ≤ bound) :
    (piecesFrom bound start text).flatMap (·.text.toList) = text := by
  induction bound generalizing start text with
  | zero => simp_all [piecesFrom]
  | succ bound ih =>
    cases text with
    | nil => rfl
    | cons c cs =>
      have hr : (cut c cs).rest.length ≤ bound := by
        have := length_cut_rest c cs
        simp only [List.length_cons] at h
        omega
      simp [piecesFrom, ih _ hr, cut_append]

end Lexeme

/-- The pieces of a source spell it. -/
theorem text_pieces (source : String) : (pieces source).flatMap (·.text.toList) = source.toList :=
  Lexeme.text_piecesFrom 0 (Nat.le_refl _)

end LoxLang
