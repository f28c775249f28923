import LoxLang.Proofs.Grammar.Acceptance
import LoxLang.Token.Lemmas
/-!
# Tokens of joined sources

A line break belongs to no token and ends a comment. So if no string is left open,
the tokens of two sources with a line break between them are the tokens of the one
and then those of the other, and the programs follow each other in the same way.
-/
namespace LoxLang

def Piece.token? : Piece → Option Token
  | lexeme l => some l.token
  | skipped _ => none

namespace Lexeme

def scan (text : List Char) : List Token :=
  (piecesFrom text.length 0 text).filterMap Piece.token?

@[simp] theorem token?_piece (start : Nat) (k : Cut) : (k.piece start).token? = k.token? := by
  unfold Cut.piece
  split
  · rename_i h
    rw [h, Piece.token?]
  · rename_i h
    rw [h, Piece.token?]

private theorem tokens_piecesFrom {bound bound' : Nat} (start start' : Nat) {text : List Char}
    (h : text.length ≤ bound) (h' : text.length ≤ bound') :
    (piecesFrom bound start text).filterMap Piece.token? =
      (piecesFrom bound' start' text).filterMap Piece.token? := by
  induction bound generalizing bound' start start' text with
  | zero =>
    obtain rfl := List.eq_nil_of_length_eq_zero (Nat.le_zero.mp h)
    cases bound' <;> rfl
  | succ bound ih =>
    cases text with
    | nil => cases bound' <;> rfl
    | cons c cs =>
      cases bound' with
      | zero => exact absurd h' (by simp)
      | succ bound' =>
        have hrest := length_cut_rest c cs
        rw [List.length_cons, Nat.succ_le_succ_iff] at h h'
        simp only [piecesFrom, List.filterMap_cons, token?_piece]
        rw [ih _ _ (Nat.le_trans hrest h) (Nat.le_trans hrest h')]

private theorem scan_cons (c : Char) (cs : List Char) :
    scan (c :: cs) = (cut c cs).token?.toList ++ scan (cut c cs).rest := by
  have hrest := tokens_piecesFrom (0 + byteSize (cut c cs).taken) 0 (length_cut_rest c cs)
    (Nat.le_refl _)
  rw [scan, scan, List.length_cons, piecesFrom, List.filterMap_cons, token?_piece, hrest]
  cases (cut c cs).token? <;> rfl

theorem cut_blank {c : Char} (cs : List Char) (h : isBlank c = true) :
    cut c cs = ⟨none, c :: cs.takeWhile isBlank, cs.dropWhile isBlank⟩ :=
  if_pos h

private theorem scan_blank {c : Char} (cs : List Char) (h : isBlank c = true) :
    scan (c :: cs) = scan cs := by
  rw [scan_cons, cut_blank cs h]
  cases cs with
  | nil => rfl
  | cons d ds =>
    by_cases hd : isBlank d = true
    · rw [scan_cons, cut_blank ds hd, List.dropWhile_cons, if_pos hd]
    · rw [List.dropWhile_cons, if_neg hd, Option.toList_none, List.nil_append]

section
variable {p : Char → Bool} {stop : Char}

private theorem takeWhile_append_stop (h : p stop = false) (text more : List Char) :
    (text ++ stop :: more).takeWhile p = text.takeWhile p := by
  induction text with
  | nil => simp [h]
  | cons c cs ih => simp [List.takeWhile_cons, ih]

private theorem dropWhile_append_stop (h : p stop = false) (text more : List Char) :
    (text ++ stop :: more).dropWhile p = text.dropWhile p ++ stop :: more := by
  induction text with
  | nil => simp [h]
  | cons c cs ih =>
    by_cases hc : p c = true
    · simp [hc, ih]
    · simp [hc]

end

private theorem append_ne_cons {first : Char} {text : List Char} (more : List Char)
    (hfirst : first ≠ '\n') (h : ∀ tail, text = first :: tail → False) (tail : List Char) :
    text ++ '\n' :: more = first :: tail → False := by
  intro heq
  cases text with
  | nil => exact hfirst (List.cons.inj heq).1.symm
  | cons c cs =>
    obtain ⟨rfl, -⟩ := List.cons.inj heq
    exact h cs rfl

private theorem symbol?_append (text more : List Char) :
    symbol? (text ++ '\n' :: more) =
      (symbol? text).map fun found => (found.1, found.2 ++ '\n' :: more) := by
  -- A symbol of one character must not become one of two; text without a symbol must not get one.
  fun_cases symbol? text with
  | case5 rest h => exact symbol?.eq_5 _ (append_ne_cons more (by decide) h)
  | case6 rest h => exact symbol?.eq_6 _ (append_ne_cons more (by decide) h)
  | case7 rest h => exact symbol?.eq_7 _ (append_ne_cons more (by decide) h)
  | case8 rest h => exact symbol?.eq_8 _ (append_ne_cons more (by decide) h)
  | case20 =>
    apply symbol?.eq_20 <;>
      exact fun _ heq => append_ne_cons more (by decide) (by assumption) _ heq
  | _ => rfl

def Cut.before (k : Cut) (more : List Char) : Cut :=
  ⟨k.token?, k.taken, k.rest ++ more⟩

private theorem cutNumber_append_line (text more : List Char) :
    cutNumber (text ++ '\n' :: more) =
      (cutNumber text).before ('\n' :: more) := by
  have hstop : Char.isDigit '\n' = false := by decide
  unfold cutNumber
  rw [takeWhile_append_stop hstop, dropWhile_append_stop hstop]
  generalize text.takeWhile Char.isDigit = whole
  generalize text.dropWhile Char.isDigit = rest
  cases rest with
  | nil => rfl
  | cons point rest =>
    by_cases hpoint : point = '.'
    · subst hpoint
      cases rest with
      | nil => rfl
      | cons d rest =>
        by_cases hd : d.isDigit = true
        · simp [hd, takeWhile_append_stop hstop, dropWhile_append_stop hstop, Cut.before]
        · simp [hd, Cut.before]
    · simp [hpoint, Cut.before]

private theorem cutString_append_line {text : List Char} (more : List Char)
    (h : (cutString text).token? ≠ some .invalid) :
    cutString (text ++ '\n' :: more) =
      (cutString text).before ('\n' :: more) := by
  have hsplit := List.takeWhile_append_dropWhile (p := (· ≠ '"')) (l := text)
  unfold cutString at h ⊢
  rw [List.takeWhile_append, List.dropWhile_append]
  cases hquote : text.dropWhile (· ≠ '"') with
  | nil =>
    rw [hquote] at h
    exact absurd rfl h
  | cons quote rest =>
    have hlength : (text.takeWhile (· ≠ '"')).length ≠ text.length := by
      intro heq
      rw [hquote] at hsplit
      have hlong := congrArg List.length hsplit
      simp only [List.length_append, List.length_cons] at hlong
      omega
    rw [if_neg hlength]
    rfl

/-- A line break after a text does not change its first piece, unless that is blank or an open
string. -/
theorem cut_append_line {c : Char} {cs : List Char} (more : List Char) (hc : isBlank c = false)
    (h : c = '"' → (cut c cs).token? ≠ some .invalid) :
    cut c (cs ++ '\n' :: more) =
      (cut c cs).before ('\n' :: more) := by
  unfold cut at h ⊢
  simp only [hc, Bool.false_eq_true, if_false] at h ⊢
  by_cases hname : isNameStart c = true
  · simp only [hname, if_true]
    rw [takeWhile_append_stop rfl, dropWhile_append_stop rfl]
    rfl
  simp only [hname, Bool.false_eq_true, if_false] at h ⊢
  by_cases hdigit : c.isDigit = true
  · simp only [hdigit, if_true]
    exact cutNumber_append_line (c :: cs) more
  simp only [hdigit, Bool.false_eq_true, if_false] at h ⊢
  by_cases hquote : c = '"'
  · simp only [hquote, if_true, forall_const] at h ⊢
    exact cutString_append_line more h
  rw [if_neg hquote, if_neg hquote]
  have hnext : (cs ++ '\n' :: more).head? = some '/' ↔ cs.head? = some '/' := by
    cases cs <;> simp
  simp only [hnext]
  by_cases hcomment : c = '/' ∧ cs.head? = some '/'
  · rw [if_pos hcomment, if_pos hcomment, takeWhile_append_stop rfl, dropWhile_append_stop rfl]
    rfl
  rw [if_neg hcomment, if_neg hcomment, ← List.cons_append, symbol?_append]
  cases symbol? (c :: cs) <;> rfl

private theorem scan_append_line {text : List Char} (more : List Char) (h : .invalid ∉ scan text) :
    scan (text ++ '\n' :: more) = scan text ++ scan more := by
  induction hn : text.length using Nat.strongRecOn generalizing text with
  | ind n ih =>
    cases text with
    | nil => exact scan_blank more rfl
    | cons c cs =>
      by_cases hc : isBlank c = true
      · rw [scan_blank _ hc] at h
        rw [List.cons_append, scan_blank _ hc, scan_blank _ hc]
        exact ih cs.length (by simp [← hn]) h rfl
      · have hlength := length_cut_rest c cs
        rw [scan_cons, List.mem_append, not_or] at h
        have hvalid : (cut c cs).token? ≠ some .invalid := by
          intro heq
          rw [heq] at h
          exact h.1 (by simp)
        rw [List.cons_append, scan_cons, scan_cons,
          cut_append_line more (by simpa using hc) fun _ => hvalid]
        rw [Cut.before, ih _ (by rw [← hn, List.length_cons]; omega) h.2 rfl, List.append_assoc]

end Lexeme

/-! ## Items -/

private theorem errors_itemsFrom_some (run : Located String) (ls : List Lexeme) :
    Item.errors (itemsFrom (some run) ls) ≠ [] := by
  induction ls generalizing run with
  | nil => simp [itemsFrom, Item.errors]
  | cons l ls ih =>
    rw [itemsFrom]
    split
    · exact ih _
    · simp [Item.errors]

theorem errors_itemsFrom_eq_nil {ls : List Lexeme} :
    Item.errors (itemsFrom none ls) = [] ↔ .invalid ∉ ls.map (·.token) := by
  induction ls with
  | nil => simp [itemsFrom, Item.errors]
  | cons l ls ih =>
    rw [List.map_cons, List.mem_cons, not_or, ← ih, itemsFrom]
    by_cases hl : l.token = .invalid
    · rw [if_neg (by simpa using hl)]
      split
      · simp [Item.errors, hl]
      · simp [errors_itemsFrom_some, hl]
    · rw [if_pos hl]
      simp [Item.errors, Ne.symm hl]

theorem lexemes_itemsFrom {ls : List Lexeme} (h : .invalid ∉ ls.map (·.token)) :
    Item.lexemes (itemsFrom none ls) = ls := by
  induction ls with
  | nil => rfl
  | cons l ls ih =>
    rw [List.map_cons, List.mem_cons, not_or] at h
    rw [itemsFrom, if_pos (Ne.symm h.1)]
    exact congrArg (l :: ·) (ih h.2)

private theorem map_token_lexemes (source : String) :
    (lexemes source).map (·.token) = Lexeme.scan source.toList := by
  rw [lexemes, Lexeme.scan, List.map_filterMap]
  congr 1
  funext piece
  cases piece <;> rfl

private theorem errors_items_eq_nil {source : String} :
    Item.errors (items source) = [] ↔ .invalid ∉ Lexeme.scan source.toList := by
  rw [items, errors_itemsFrom_eq_nil, map_token_lexemes]

private theorem tokens_eq_scan {source : String} (h : Item.errors (items source) = []) :
    tokens source = Lexeme.scan source.toList := by
  rw [items, errors_itemsFrom_eq_nil] at h
  rw [tokens, items, lexemes_itemsFrom h, map_token_lexemes]

private theorem scan_join {first : String} (second : String) (h : Item.errors (items first) = []) :
    Lexeme.scan (first ++ "\n" ++ second).toList =
      Lexeme.scan first.toList ++ Lexeme.scan second.toList := by
  have htext : (first ++ "\n" ++ second).toList = first.toList ++ '\n' :: second.toList := by
    simp [String.toList_append]
  rw [htext, Lexeme.scan_append_line _ (errors_items_eq_nil.mp h)]

/-! ## Programs -/

namespace Grammar

private theorem derives_append {ts us : List Token} {p q : List Stmt}
    (hp : Derives .declarations ts p)
    (hq : Derives .declarations us q) : Derives .declarations (ts ++ us) (p ++ q) := by
  induction p generalizing ts with
  | nil =>
    cases hp
    exact hq
  | cons s ss ih =>
    cases hp with
    | moreDeclarations hfirst hrest =>
      rw [List.append_assoc]
      exact .moreDeclarations hfirst (ih hrest)

end Grammar

/-- Two sources that can be read can be read as one, and its program is theirs one after the
other. -/
theorem parse_join {first second : String} (hfirst : (parse first).errors = [])
    (hsecond : (parse second).errors = []) :
    (parse (first ++ "\n" ++ second)).errors = [] ∧
      SameUpToSpans (parse (first ++ "\n" ++ second)).program
        ((parse first).program ++ (parse second).program) := by
  obtain ⟨hlex₁, hd₁⟩ := Grammar.parse_sound hfirst
  obtain ⟨hlex₂, hd₂⟩ := Grammar.parse_sound hsecond
  have hscan := scan_join second hlex₁
  have hlex : Item.errors (items (first ++ "\n" ++ second)) = [] := by
    rw [errors_items_eq_nil, hscan, List.mem_append, not_or]
    exact ⟨errors_items_eq_nil.mp hlex₁, errors_items_eq_nil.mp hlex₂⟩
  have htokens : tokens (first ++ "\n" ++ second) = tokens first ++ tokens second := by
    rw [tokens_eq_scan hlex, hscan, tokens_eq_scan hlex₁, tokens_eq_scan hlex₂]
  apply Grammar.parse_complete hlex
  rw [htokens]
  exact Grammar.derives_append hd₁ hd₂

end LoxLang
