import LoxLang.Proofs.Concatenation.Tokens
import Mathlib.Data.List.TakeWhile
/-!
# Where lexemes stand

The lexemes of a text with their places. Each of them spells a stretch of the text
that begins at its span. A line break after a text leaves its lexemes as they are,
unless the text ends inside a string; then it leaves all but the last one.
-/
namespace LoxLang

def Piece.lexeme? : Piece → Option Lexeme
  | lexeme l => some l
  | skipped _ => none

namespace Lexeme

def lexemesFrom (start : Nat) (text : List Char) : List Lexeme :=
  (piecesFrom text.length start text).filterMap Piece.lexeme?

def Cut.lexeme? (start : Nat) (k : Cut) : Option Lexeme :=
  k.token?.map fun token => ⟨token, String.ofList k.taken, ⟨start, start + byteSize k.taken⟩⟩

private theorem lexeme?_piece (start : Nat) (k : Cut) :
    (k.piece start).lexeme? = k.lexeme? start := by
  unfold Cut.piece Cut.lexeme?
  cases k.token? <;> rfl

private theorem piecesFrom_bound {bound bound' : Nat} (start : Nat) {text : List Char}
    (h : text.length ≤ bound) (h' : text.length ≤ bound') :
    piecesFrom bound start text = piecesFrom bound' start text := by
  induction bound generalizing bound' start text with
  | zero =>
    obtain rfl := List.eq_nil_of_length_eq_zero (Nat.le_zero.mp h)
    cases bound' <;> rfl
  | succ bound ih =>
    cases text with
    | nil => cases bound' <;> rfl
    | cons c cs =>
      cases bound' with
      | zero => exact absurd h' (by simp)
      | succ bound' =>
        have hrest := length_cut_rest c cs
        rw [List.length_cons, Nat.succ_le_succ_iff] at h h'
        rw [piecesFrom, piecesFrom, ih _ (Nat.le_trans hrest h) (Nat.le_trans hrest h')]

theorem lexemesFrom_nil (start : Nat) : lexemesFrom start [] = [] := rfl

theorem lexemesFrom_cons (start : Nat) (c : Char) (cs : List Char) :
    lexemesFrom start (c :: cs) = ((cut c cs).lexeme? start).toList ++
      lexemesFrom (start + byteSize (cut c cs).taken) (cut c cs).rest := by
  rw [lexemesFrom, lexemesFrom, List.length_cons, piecesFrom, List.filterMap_cons, lexeme?_piece,
    piecesFrom_bound _ (length_cut_rest c cs) (Nat.le_refl _)]
  cases (cut c cs).lexeme? start <;> rfl

theorem mem_lexemesFrom {start : Nat} {text : List Char} {l : Lexeme}
    (h : l ∈ lexemesFrom start text) :
    ∃ front rest, text = front ++ (l.text.toList ++ rest) ∧
      l.span = ⟨start + byteSize front, start + byteSize front + byteSize l.text.toList⟩ := by
  induction hn : text.length using Nat.strongRecOn generalizing start text with
  | ind n ih =>
    cases text with
    | nil => exact absurd h List.not_mem_nil
    | cons c cs =>
      have hsplit := cut_append c cs
      rw [lexemesFrom_cons] at h
      rcases List.mem_append.mp h with h | h
      · obtain ⟨token, -, rfl⟩ := Option.map_eq_some_iff.mp (Option.mem_toList.mp h)
        refine ⟨[], (cut c cs).rest, ?_, ?_⟩
        · rw [List.nil_append, String.toList_ofList, hsplit]
        · rw [String.toList_ofList, byteSize_nil, Nat.add_zero]
      · have hlength := length_cut_rest c cs
        obtain ⟨front, rest, htext, hspan⟩ :=
          ih _ (by rw [← hn, List.length_cons]; omega) h rfl
        refine ⟨(cut c cs).taken ++ front, rest, ?_, ?_⟩
        · rw [List.append_assoc, ← htext, hsplit]
        · rw [hspan, byteSize_append, Nat.add_assoc]

theorem span_mem_lexemesFrom {start : Nat} {text : List Char} {l : Lexeme}
    (h : l ∈ lexemesFrom start text) :
    start ≤ l.span.start ∧ l.span.start ≤ l.span.stop ∧ l.span.stop ≤ start + byteSize text := by
  obtain ⟨front, rest, rfl, hspan⟩ := mem_lexemesFrom h
  rw [hspan]
  simp only [byteSize_append]
  omega

theorem lexemesFrom_blank (start : Nat) {c : Char} (cs : List Char) (h : isBlank c = true) :
    lexemesFrom start (c :: cs) = lexemesFrom (start + c.utf8Size) cs := by
  rw [lexemesFrom_cons, cut_blank cs h, byteSize_cons]
  cases cs with
  | nil => rfl
  | cons d ds =>
    by_cases hd : isBlank d = true
    · rw [lexemesFrom_cons, cut_blank ds hd, List.takeWhile_cons, List.dropWhile_cons, if_pos hd,
        if_pos hd, Nat.add_assoc]
      rfl
    · rw [List.takeWhile_cons, List.dropWhile_cons, if_neg hd, if_neg hd]
      rfl

/-! ## Text that goes on after a line break -/

/-- How a text ends: after its last lexeme, or inside a string that is not closed. -/
inductive Ending (start : Nat) (text : List Char) : Prop
  | closed (hall : ∀ l ∈ lexemesFrom start text, l.isOpenString = false)
      (hline : ∀ more, lexemesFrom start (text ++ '\n' :: more) =
        lexemesFrom start text ++ lexemesFrom (start + byteSize text + 1) more)
  | inString (front : List Lexeme) (last : Lexeme) (quote : Nat) (content : List Char)
      (hlexemes : lexemesFrom start text = front ++ [last]) (hlast : last.isOpenString = true)
      (hfront : ∀ l ∈ front, l.isOpenString = false) (hcontent : '"' ∉ content)
      (hline : ∀ more, lexemesFrom start (text ++ '\n' :: more) =
        front ++ lexemesFrom quote ('"' :: content ++ '\n' :: more))

theorem Ending.after {start start' : Nat} {text rest : List Char} (first : List Lexeme)
    (hfirst : ∀ l ∈ first, l.isOpenString = false)
    (hsize : start + byteSize text = start' + byteSize rest)
    (htext : lexemesFrom start text = first ++ lexemesFrom start' rest)
    (hmore : ∀ more, lexemesFrom start (text ++ '\n' :: more) =
      first ++ lexemesFrom start' (rest ++ '\n' :: more))
    (h : Ending start' rest) : Ending start text := by
  cases h with
  | closed hall hline =>
    refine .closed (fun l hl => ?_) fun more => ?_
    · rw [htext] at hl
      exact (List.mem_append.mp hl).elim (hfirst l) (hall l)
    · rw [hmore, hline, htext, hsize, List.append_assoc]
  | inString front last quote content hlexemes hlast hfront hcontent hline =>
    refine .inString (first ++ front) last quote content ?_ hlast (fun l hl => ?_) hcontent
      fun more => ?_
    · rw [htext, hlexemes, List.append_assoc]
    · exact (List.mem_append.mp hl).elim (hfirst l) (hfront l)
    · rw [hmore, hline, List.append_assoc]

private theorem head?_cut_taken (c : Char) (cs : List Char) : (cut c cs).taken.head? = some c := by
  have hsplit := cut_append c cs
  obtain ⟨d, ds, htaken⟩ := List.exists_cons_of_ne_nil (cut_taken_ne_nil c cs)
  rw [htaken] at hsplit ⊢
  rw [List.head?_cons, (List.cons.inj hsplit).1]

/-- A quote that is never closed takes all of the text. -/
theorem cut_openString {cs : List Char} (h : (cut '"' cs).token? = some .invalid) :
    cut '"' cs = ⟨some .invalid, '"' :: cs, []⟩ ∧ '"' ∉ cs := by
  have hcut : cut '"' cs = cutString cs := rfl
  rw [hcut] at h ⊢
  unfold cutString at h ⊢
  cases hrest : cs.dropWhile (· ≠ '"') with
  | cons quote rest =>
    rw [hrest] at h
    exact Token.noConfusion (Option.some.inj h)
  | nil =>
    refine ⟨rfl, fun hmem => ?_⟩
    have hall := List.dropWhile_eq_nil_iff.mp hrest
    simpa using hall '"' hmem

theorem ending (start : Nat) (text : List Char) : Ending start text := by
  induction hn : text.length using Nat.strongRecOn generalizing start text with
  | ind n ih =>
    cases text with
    | nil => exact .closed (fun l hl => absurd hl List.not_mem_nil) fun more =>
        lexemesFrom_blank start more rfl
    | cons c cs =>
      by_cases hblank : isBlank c = true
      · refine .after [] (fun l hl => absurd hl List.not_mem_nil) ?_
          (lexemesFrom_blank start cs hblank) (fun more => lexemesFrom_blank start _ hblank)
          (ih cs.length (by simp [← hn]) (start + c.utf8Size) cs rfl)
        rw [byteSize_cons, Nat.add_assoc]
      by_cases hopen : c = '"' ∧ (cut c cs).token? = some .invalid
      · obtain ⟨rfl, hinvalid⟩ := hopen
        obtain ⟨hcut, hcontent⟩ := cut_openString hinvalid
        refine .inString [] ⟨.invalid, String.ofList ('"' :: cs),
          ⟨start, start + byteSize ('"' :: cs)⟩⟩ start cs ?_ ?_
          (fun l hl => absurd hl List.not_mem_nil) hcontent fun more => rfl
        · rw [lexemesFrom_cons, hcut]
          rfl
        · simp [isOpenString]
      · have hline (more : List Char) : cut c (cs ++ '\n' :: more) =
            (cut c cs).before ('\n' :: more) :=
          cut_append_line more (by simpa using hblank) fun hc hinvalid => hopen ⟨hc, hinvalid⟩
        have hlength := length_cut_rest c cs
        refine .after ((cut c cs).lexeme? start).toList (fun l hl => ?_) ?_
          (lexemesFrom_cons start c cs) (fun more => ?_)
          (ih _ (by rw [← hn, List.length_cons]; omega) (start + byteSize (cut c cs).taken)
            (cut c cs).rest rfl)
        · obtain ⟨token, htoken, rfl⟩ := Option.map_eq_some_iff.mp (Option.mem_toList.mp hl)
          simp only [isOpenString, String.toList_ofList, head?_cut_taken]
          grind
        · rw [← cut_append c cs, byteSize_append, Nat.add_assoc]
        · rw [List.cons_append, lexemesFrom_cons, hline]
          rfl

end Lexeme

theorem lexemes_eq (source : String) : lexemes source = Lexeme.lexemesFrom 0 source.toList := by
  rw [lexemes, Lexeme.lexemesFrom]
  congr 1

end LoxLang
