import LoxLang.Highlight
import LoxLang.Proofs.Layout.Skipped
import Mathlib.Data.List.Forall2
/-!
# Colours of comments

Each character of a source belongs to one piece, and the mark of that piece says what
the character is a part of. The highlighter sees only gaps, in which it looks for the
first comment. Blank text before that comment keeps the plain colour, and the rest of
the gap has the colour of comments, so the colours and the marks of a source can be
compared character by character.
-/
namespace LoxLang

open Lexeme

/-- What a character of a source is a part of. -/
inductive Mark
  | blank
  | comment
  | lexeme (token : Token)

/-- A stretch of a source with some text behind it is one that the mark describes. A comment goes
to the end of its line, and a lexeme is what the front of the text is cut into. -/
def Mark.Describes (text rest : List Char) : Mark → Prop
  | blank => ∀ c ∈ text, isBlank c = true
  | comment => ∃ body, text = '/' :: '/' :: body ∧ '\n' ∉ body ∧ ∀ c ∈ rest.head?, c = '\n'
  | lexeme token => ∃ c cs, text ++ rest = c :: cs ∧ cut c cs = ⟨some token, text, rest⟩

/-- A colour is right for a character with a mark: a comment has the colour of comments, and only
blank text may share it. -/
structure Mark.Shows (marked : Char × Mark) (colored : Char × Color) : Prop where
  char : colored.1 = marked.1
  comment : marked.2 = .comment → colored.2 = .comment
  only : colored.2 = .comment → marked.2 = .comment ∨ marked.2 = .blank

namespace Piece

def mark : Piece → Mark
  | lexeme l => .lexeme l.token
  | skipped text => if text.toList.take 2 = ['/', '/'] then .comment else .blank

def marks (p : Piece) : List (Char × Mark) :=
  p.text.toList.map (·, p.mark)

def Described : List Piece → Prop
  | [] => True
  | p :: rest => p.mark.Describes p.text.toList (rest.flatMap (·.text.toList)) ∧ Described rest

end Piece

def Styled.colors (s : Styled) : List (Char × Color) :=
  s.text.toList.map (·, s.color)

/-- The characters of a source, each with the mark of its piece. -/
def marks (source : String) : List (Char × Mark) :=
  (pieces source).flatMap Piece.marks

/-- The characters of a source as the highlighter colours them. -/
def colors (source : String) : List (Char × Color) :=
  (highlight source).flatMap Styled.colors

/-! ## Marks of pieces -/

private theorem not_isBlank_slash : isBlank '/' = false := rfl

private theorem Lexeme.describes_skipped {c : Char} {cs : List Char} (start : Nat)
    (h : (cut c cs).token? = none) :
    ((cut c cs).piece start).mark.Describes (cut c cs).taken (cut c cs).rest := by
  by_cases hblank : isBlank c = true
  · have hslash : c ≠ '/' := by
      rintro rfl
      exact absurd hblank (by simp [not_isBlank_slash])
    have hmark : ((cut c cs).piece start).mark = .blank := by
      simp [cut_blank cs hblank, Cut.piece, Piece.mark, hslash]
    rw [hmark, cut_blank cs hblank]
    intro d hd
    rcases List.mem_cons.mp hd with rfl | hd
    · exact hblank
    · exact List.mem_takeWhile_imp hd
  by_cases hcomment : c = '/' ∧ cs.head? = some '/'
  · obtain ⟨rfl, hslash⟩ := hcomment
    obtain ⟨body, rfl⟩ := List.head?_eq_some_iff.mp hslash
    have hmark : ((cut '/' ('/' :: body)).piece start).mark = .comment := by
      simp [cut_comment, Cut.piece, Piece.mark]
    rw [hmark, cut_comment]
    refine ⟨_, rfl, fun hmem => ?_, fun d hd => ?_⟩
    · simpa using List.mem_takeWhile_imp hmem
    · have hstop := List.head?_dropWhile_not (· ≠ '\n') body
      rw [Option.mem_def.mp hd] at hstop
      simpa using hstop
  · obtain ⟨token, htoken⟩ := exists_token (by simpa using hblank) hcomment
    rw [htoken] at h
    cases h

private theorem Lexeme.describes_piece (start : Nat) (c : Char) (cs : List Char) :
    ((cut c cs).piece start).mark.Describes (cut c cs).taken (cut c cs).rest := by
  cases h : (cut c cs).token? with
  | none => exact describes_skipped start h
  | some token =>
    have hmark : ((cut c cs).piece start).mark = .lexeme token := by
      simp [Cut.piece, h, Piece.mark]
    rw [hmark]
    exact ⟨c, cs, cut_append c cs, by rw [← h]⟩

private theorem Lexeme.described_piecesFrom {bound : Nat} (start : Nat) {text : List Char}
    (h : text.length ≤ bound) : Piece.Described (piecesFrom bound start text) := by
  induction bound generalizing start text with
  | zero => trivial
  | succ bound ih =>
    cases text with
    | nil => trivial
    | cons c cs =>
      have hrest : (cut c cs).rest.length ≤ bound :=
        Nat.le_trans (length_cut_rest c cs) (Nat.le_of_succ_le_succ h)
      refine ⟨?_, ih _ hrest⟩
      rw [text_piecesFrom _ hrest, text_piece, String.toList_ofList]
      exact describes_piece start c cs

private theorem described_pieces (source : String) : Piece.Described (pieces source) :=
  described_piecesFrom 0 (Nat.le_refl _)

private theorem map_fst_marks (source : String) : (marks source).map Prod.fst = source.toList := by
  rw [← text_pieces source, marks, List.map_flatMap]
  simp [Piece.marks, Function.comp_def]

/-! ## Colours of gaps -/

namespace Highlight

/-- Blank text is not searched for comments. -/
theorem splitComment_blank {front : List Char} (hfront : ∀ c ∈ front, isBlank c = true)
    (rest : List Char) :
    splitComment (front ++ rest) = (front ++ (splitComment rest).1, (splitComment rest).2) := by
  induction front with
  | nil => rfl
  | cons c cs ih =>
    have hc : c ≠ '/' := by
      rintro rfl
      exact absurd (hfront '/' List.mem_cons_self) (by simp [not_isBlank_slash])
    have hrest := ih fun d hd => hfront d (List.mem_cons_of_mem c hd)
    rw [List.cons_append, splitComment, hrest]
    · rfl
    · exact fun _ hslash => absurd hslash hc

private theorem colors_gap (text : List Char) :
    (gap text).flatMap Styled.colors = (splitComment text).1.map (·, .plain) ++
      ((splitComment text).2.getD []).map (·, .comment) := by
  unfold gap
  rcases splitComment text with ⟨before, _ | comment⟩
  · cases before <;> simp [Styled.colors]
  · simp [Styled.colors]

private theorem shows_map (text : List Char) {mark : Mark} {color : Color}
    (hcomment : mark = .comment → color = .comment)
    (honly : color = .comment → mark = .comment ∨ mark = .blank) :
    List.Forall₂ Mark.Shows (text.map (·, mark)) (text.map (·, color)) := by
  rw [List.forall₂_map_left_iff, List.forall₂_map_right_iff, List.forall₂_same]
  exact fun c _ => ⟨rfl, hcomment, honly⟩

/-- Everything in a gap may have the colour of comments. -/
theorem shows_comment (texts : List String) :
    List.Forall₂ Mark.Shows (texts.flatMap fun text => (Piece.skipped text).marks)
      ((texts.flatMap String.toList).map (·, .comment)) := by
  induction texts with
  | nil => exact .nil
  | cons text texts ih =>
    have hmark : (Piece.skipped text).mark = .comment ∨ (Piece.skipped text).mark = .blank := by
      simp only [Piece.mark]
      split <;> simp
    rw [List.flatMap_cons, List.flatMap_cons, List.map_append]
    exact List.rel_append (shows_map text.toList (fun _ => rfl) fun _ => hmark) ih

def Proper (p : Piece) : Prop :=
  p.mark = .blank → ∀ c ∈ p.text.toList, isBlank c = true

private theorem shows_gap {texts : List String} (h : ∀ text ∈ texts, Proper (.skipped text)) :
    List.Forall₂ Mark.Shows (texts.flatMap fun text => (Piece.skipped text).marks)
      ((gap (texts.flatMap String.toList)).flatMap Styled.colors) := by
  rw [colors_gap]
  induction texts with
  | nil => exact .nil
  | cons text texts ih =>
    by_cases hcomment : text.toList.take 2 = ['/', '/']
    · -- the first comment of the gap: all that follows is coloured with it
      have htext : text.toList = '/' :: '/' :: text.toList.drop 2 := by
        conv_lhs => rw [← List.take_append_drop 2 text.toList, hcomment]
        rfl
      have hsplit : splitComment ((text :: texts).flatMap String.toList) =
          ([], some ((text :: texts).flatMap String.toList)) := by
        rw [List.flatMap_cons, htext]
        rfl
      rw [hsplit]
      exact shows_comment (text :: texts)
    · have hmark : (Piece.skipped text).mark = .blank := if_neg hcomment
      have hblank : ∀ c ∈ text.toList, isBlank c = true := h text List.mem_cons_self hmark
      have hrest := ih fun other hother => h other (List.mem_cons_of_mem text hother)
      rw [List.flatMap_cons, List.flatMap_cons, splitComment_blank hblank, List.map_append,
        List.append_assoc]
      refine List.rel_append ?_ hrest
      rw [Piece.marks, hmark]
      exact shows_map _ (by simp) fun _ => .inr rfl

private theorem ofToken_ne_comment (token : Token) : Color.ofToken token ≠ .comment := by
  cases token with
  | keyword k => cases k <;> decide
  | _ => simp [Color.ofToken, Color.comment, Color.plain]

private theorem shows_paint {texts : List String} {ps : List Piece}
    (htexts : ∀ text ∈ texts, Proper (.skipped text)) (hps : ∀ p ∈ ps, Proper p) :
    List.Forall₂ Mark.Shows
      ((texts.flatMap fun text => (Piece.skipped text).marks) ++ ps.flatMap Piece.marks)
      ((paint (texts.flatMap String.toList) ps).flatMap Styled.colors) := by
  induction ps generalizing texts with
  | nil => simpa [paint] using shows_gap htexts
  | cons p ps ih =>
    obtain ⟨hp, hrest⟩ := List.forall_mem_cons.mp hps
    cases p with
    | skipped text =>
      have hpending : ∀ other ∈ texts ++ [text], Proper (.skipped other) := by
        intro other hother
        rcases List.mem_append.mp hother with hother | hother
        · exact htexts other hother
        · exact List.mem_singleton.mp hother ▸ hp
      simpa [paint] using ih hpending hrest
    | lexeme l =>
      have hlexeme : List.Forall₂ Mark.Shows (Piece.lexeme l).marks
          (Styled.colors ⟨.ofToken l.token, l.text⟩) :=
        shows_map _ (by simp [Piece.mark]) fun h => absurd h (ofToken_ne_comment l.token)
      have hafter : List.Forall₂ Mark.Shows (ps.flatMap Piece.marks)
          ((paint [] ps).flatMap Styled.colors) :=
        ih (List.forall_mem_nil _) hrest
      simp only [paint, List.flatMap_append, List.flatMap_cons]
      exact List.rel_append (shows_gap htexts) (List.rel_append hlexeme hafter)

end Highlight

theorem Piece.Described.proper {ps : List Piece} (h : Piece.Described ps) :
    ∀ p ∈ ps, Highlight.Proper p := by
  induction ps with
  | nil => exact fun p hp => absurd hp List.not_mem_nil
  | cons p ps ih =>
    obtain ⟨hp, hrest⟩ := h
    refine List.forall_mem_cons.mpr ⟨fun hmark => ?_, ih hrest⟩
    rw [hmark] at hp
    exact hp

/-- The colours of a source are right for its characters, one by one. -/
theorem shows_highlight (source : String) :
    List.Forall₂ Mark.Shows (marks source) (colors source) := by
  have hpaint := Highlight.shows_paint (List.forall_mem_nil _) (described_pieces source).proper
  simpa [marks, colors, highlight] using hpaint

private theorem map_fst_colors (source : String) :
    (colors source).map Prod.fst = (highlight source).flatMap (·.text.toList) := by
  rw [colors, List.map_flatMap]
  simp [Styled.colors, Function.comp_def]

/-- Highlighting loses no text and colours comments: the marks are those of the characters of the
source, in order, and each character has a colour that is right for its mark. -/
theorem highlight_colors_comments (source : String) :
    String.join ((highlight source).map (·.text)) = source ∧
      (marks source).map Prod.fst = source.toList ∧ Piece.Described (pieces source) ∧
      List.Forall₂ Mark.Shows (marks source) (colors source) := by
  have hshows := shows_highlight source
  refine ⟨?_, map_fst_marks source, described_pieces source, hshows⟩
  have hsame : (colors source).map Prod.fst = (marks source).map Prod.fst := by
    rw [← List.forall₂_eq_eq_eq, List.forall₂_map_left_iff, List.forall₂_map_right_iff]
    exact hshows.flip.imp fun _ _ hchar => hchar.char
  rw [← String.toList_inj, String.toList_join, List.flatMap_map, ← map_fst_colors, hsame,
    map_fst_marks]

end LoxLang
