import LoxLang.Proofs.Grammar.Completeness
/-!
# The reader accepts exactly the grammar

A source is read without errors if and only if it has no lexical errors and the
grammar derives its tokens, and then the program that was read is the tree of the
derivation.
-/
namespace LoxLang

/-- The tokens of a source that are handed on to the reader. -/
def tokens (source : String) : List Token :=
  (Item.lexemes (items source)).map (·.token)

namespace Grammar
open Token LoxLang.Parser

theorem Infix.valid {k : Nat} {token : Token} {op : Operator} (h : Infix k token op) :
    invalid ≠ token := by
  cases h <;> simp

theorem Prefix.valid {token : Token} {op : UnaryOp} (h : Prefix token op) : invalid ≠ token := by
  cases h <;> simp

theorem Constant.valid {token : Token} {value : Literal} (h : Constant token value) :
    invalid ≠ token := by
  cases h <;> simp

private theorem valid_of_derives {phrase : Phrase} {ts : List Token} {t : phrase.Tree}
    (h : Derives phrase ts t) : invalid ∉ ts := by
  induction h with
  | binary _ hop _ ihleft ihright | logical _ hop _ ihleft ihright =>
    simp [hop.valid, ihleft, ihright]
  | unary hop _ ih => simp [hop.valid, ih]
  | constant hc => simp [hc.valid]
  | function _ _ ih => simp [invalid_notMem_names, ih]
  | _ => simp_all

theorem parse_sound {source : String} (h : (parse source).errors = []) :
    Item.errors (items source) = [] ∧ Derives .declarations (tokens source) (parse source).program := by
  unfold parse at h ⊢
  have hreads := reads_program (depth (Item.lexemes (items source)))
    ⟨Item.lexemes (items source), none, (Item.errors (items source)).toArray, source.utf8ByteSize⟩
  cases hp : program (depth (Item.lexemes (items source)))
      ⟨Item.lexemes (items source), none, (Item.errors (items source)).toArray,
        source.utf8ByteSize⟩ with
  | ok p r =>
    rw [hp] at hreads
    simp only [hp] at h ⊢
    obtain ⟨hle, hfront⟩ := hreads
    have hsize : r.errors.size = 0 := by rw [← Array.length_toList, h, List.length_nil]
    simp only [List.size_toArray] at hle hfront
    have hnil : Item.errors (items source) = [] := List.eq_nil_of_length_eq_zero (by omega)
    obtain ⟨⟨ts, hts, hd⟩, hend⟩ := hfront (by omega)
    have hdone : r.tokens = [] := hend (by simp only [Reader.tokens, List.length_map, depth]; omega)
    refine ⟨hnil, ?_⟩
    rw [hdone, List.append_nil] at hts
    rw [← hts] at hd
    exact hd
  | error e r =>
    simp only [hp] at h
    simp at h

theorem parse_complete {source : String} {program : List Stmt}
    (hlexical : Item.errors (items source) = []) (h : Derives .declarations (tokens source) program) :
    (parse source).errors = [] ∧ SameUpToSpans (parse source).program program := by
  have hdepth : 20 * (tokens source).length + 13 ≤ depth (Item.lexemes (items source)) := by
    simp only [tokens, List.length_map, depth]
    omega
  obtain ⟨p, r, hp, herrors, hsame, -⟩ := (completes_of_derives h _ hdepth).2
    ⟨Item.lexemes (items source), none, (Item.errors (items source)).toArray, source.utf8ByteSize⟩
    rfl
  unfold parse
  simp only [hp]
  exact ⟨by rw [herrors, hlexical], hsame⟩

/-- A source is read without an error exactly if it is lexically sound and derivable. Then what is
read is derived from the source, and is up to spans the only tree that is. -/
theorem parse_accepts_iff_derives (source : String) :
    ((parse source).errors = [] ↔
      Item.errors (items source) = [] ∧ invalid ∉ tokens source ∧
        ∃ program, Derives .declarations (tokens source) program) ∧
    ((parse source).errors = [] →
      Derives .declarations (tokens source) (parse source).program ∧
        ∀ program, Derives .declarations (tokens source) program →
          SameUpToSpans (parse source).program program) := by
  refine ⟨⟨fun h => ?_, fun h => ?_⟩, fun h => ?_⟩
  · obtain ⟨hlexical, hd⟩ := parse_sound h
    exact ⟨hlexical, valid_of_derives hd, _, hd⟩
  · obtain ⟨hlexical, -, program, hd⟩ := h
    exact (parse_complete hlexical hd).1
  · obtain ⟨hlexical, hd⟩ := parse_sound h
    exact ⟨hd, fun program hp => (parse_complete hlexical hp).2⟩

/-! ### A source with operators of many levels, a call, a loop and two conditions -/

def sampleSource : String :=
  "for (var i = 0; a or b and 1 - 2 * i - c < !d; i = i + 1) if (a) if (b) c = d(i); else e.f = -g;"

def sampleTest : Expr :=
  .logical ⟨0, 0⟩ .or (.var ⟨0, 0⟩ ⟨"a", none⟩)
    (.logical ⟨0, 0⟩ .and (.var ⟨0, 0⟩ ⟨"b", none⟩)
      (.binary ⟨0, 0⟩ .less
        (.binary ⟨0, 0⟩ .subtract
          (.binary ⟨0, 0⟩ .subtract (.literal ⟨0, 0⟩ (.number 1))
            (.binary ⟨0, 0⟩ .multiply (.literal ⟨0, 0⟩ (.number 2)) (.var ⟨0, 0⟩ ⟨"i", none⟩)))
          (.var ⟨0, 0⟩ ⟨"c", none⟩))
        (.unary ⟨0, 0⟩ .not (.var ⟨0, 0⟩ ⟨"d", none⟩))))

def sampleIncrement : Expr :=
  .assign ⟨0, 0⟩ ⟨"i", none⟩
    (.binary ⟨0, 0⟩ .add (.var ⟨0, 0⟩ ⟨"i", none⟩) (.literal ⟨0, 0⟩ (.number 1)))

/-- The `else` goes with the nearer of the two conditions. -/
def sampleBody : Stmt :=
  .branch ⟨0, 0⟩ (.var ⟨0, 0⟩ ⟨"a", none⟩)
    (.branch ⟨0, 0⟩ (.var ⟨0, 0⟩ ⟨"b", none⟩)
      (.expr ⟨0, 0⟩ (.assign ⟨0, 0⟩ ⟨"c", none⟩
        (.call ⟨0, 0⟩ (.var ⟨0, 0⟩ ⟨"d", none⟩) [.var ⟨0, 0⟩ ⟨"i", none⟩])))
      (some (.expr ⟨0, 0⟩ (.set ⟨0, 0⟩ (.var ⟨0, 0⟩ ⟨"e", none⟩) "f"
        (.unary ⟨0, 0⟩ .negate (.var ⟨0, 0⟩ ⟨"g", none⟩))))))
    none

def sampleTree : Stmt :=
  .block ⟨0, 0⟩ [.varDecl ⟨0, 0⟩ "i" (some (.literal ⟨0, 0⟩ (.number 0))),
    .loop ⟨0, 0⟩ sampleTest (.block ⟨0, 0⟩ [sampleBody, .expr ⟨0, 0⟩ sampleIncrement])]

private theorem derives_sampleTest : Derives .expression
    [identifier "a", keyword .kwOr, identifier "b", keyword .kwAnd, number 1, symbol .minus,
      number 2, symbol .star, identifier "i", symbol .minus, identifier "c", symbol .less,
      symbol .bang, identifier "d"] sampleTest := by
  have hproduct {span : Span} : Derives (.operation 5) [number 2, symbol .star, identifier "i"]
      (.binary span .multiply (.literal span (.number 2)) (.var span ⟨"i", none⟩)) :=
    .binary (.of_constant .number (by decide)) .multiply (.of_name (by decide))
  have hnot {span : Span} : Derives .unary [symbol .bang, identifier "d"]
      (.unary span .not (.var span ⟨"d", none⟩)) :=
    .unary .not (.chain (.primary .name))
  exact .operation (.logical (.of_name (by decide)) .or
    (.logical (.of_name (by decide)) .and (.looser
      (.binary (.looser (.binary (.binary (.of_constant .number (by decide)) .subtract hproduct)
          .subtract (.of_name (by decide))) (Nat.le_succ 3))
        .less (hnot.alone (by decide)))
      (Nat.le_succ 2))))

private theorem derives_sampleIncrement : Derives .expression
    [identifier "i", symbol .equal, identifier "i", symbol .plus, number 1] sampleIncrement :=
  .assignVariable (.operation (.looser
    (.binary (.of_name (by decide)) .add (.of_constant .number (by decide))) (Nat.zero_le 4)))

private theorem derives_sampleBody : Derives (.statement true)
    [keyword .kwIf, symbol .leftParen, identifier "a", symbol .rightParen,
      keyword .kwIf, symbol .leftParen, identifier "b", symbol .rightParen,
      identifier "c", symbol .equal, identifier "d", symbol .leftParen, identifier "i",
      symbol .rightParen, symbol .semicolon, keyword .kwElse, identifier "e", symbol .dot,
      identifier "f", symbol .equal, symbol .minus, identifier "g", symbol .semicolon]
    sampleBody := by
  have hcall : Derives .call
      [identifier "d", symbol .leftParen, identifier "i", symbol .rightParen]
      (.call ⟨0, 0⟩ (.var ⟨0, 0⟩ ⟨"d", none⟩) [.var ⟨0, 0⟩ ⟨"i", none⟩]) :=
    .call (.primary .name) (.lastArgument .expression_of_name) (by decide)
  have hnegative : Derives .unary [symbol .minus, identifier "g"]
      (.unary ⟨0, 0⟩ .negate (.var ⟨0, 0⟩ ⟨"g", none⟩)) :=
    .unary .negate (.chain (.primary .name))
  exact .branch .expression_of_name (.branchElse .expression_of_name
    (.exprStmt (.assignVariable (.operation (.alone (.chain hcall) (by decide)))))
    (.exprStmt (.assignProperty (.primary .name) (.operation (hnegative.alone (by decide))))))

private theorem derives_sampleTree : Derives .declarations (tokens sampleSource) [sampleTree] := by
  have htokens : tokens sampleSource =
      [keyword .kwFor, symbol .leftParen, keyword .kwVar, identifier "i", symbol .equal, number 0,
        symbol .semicolon, identifier "a", keyword .kwOr, identifier "b", keyword .kwAnd, number 1,
        symbol .minus, number 2, symbol .star, identifier "i", symbol .minus, identifier "c",
        symbol .less, symbol .bang, identifier "d", symbol .semicolon, identifier "i",
        symbol .equal, identifier "i", symbol .plus, number 1, symbol .rightParen,
        keyword .kwIf, symbol .leftParen, identifier "a", symbol .rightParen,
        keyword .kwIf, symbol .leftParen, identifier "b", symbol .rightParen,
        identifier "c", symbol .equal, identifier "d", symbol .leftParen, identifier "i",
        symbol .rightParen, symbol .semicolon, keyword .kwElse, identifier "e", symbol .dot,
        identifier "f", symbol .equal, symbol .minus, identifier "g", symbol .semicolon] := by
    decide +kernel
  rw [htokens]
  exact .moreDeclarations (.statement (.counting
    (.bindingInitializer (.bind (.expression_of_constant .number)))
    (.present derives_sampleTest) (.present derives_sampleIncrement) derives_sampleBody
    .given .increment .initialized)) .noDeclarations

theorem parse_accepts_sample :
    (parse sampleSource).errors = [] ∧
    SameUpToSpans (parse sampleSource).program [sampleTree] ∧
    Derives .declarations (tokens sampleSource) (parse sampleSource).program ∧
    ∀ program, Derives .declarations (tokens sampleSource) program →
      SameUpToSpans (parse sampleSource).program program := by
  obtain ⟨hiff, htree⟩ := parse_accepts_iff_derives sampleSource
  have hlexical : Item.errors (items sampleSource) = [] := by decide +kernel
  have herrors : (parse sampleSource).errors = [] :=
    hiff.mpr ⟨hlexical, valid_of_derives derives_sampleTree, _, derives_sampleTree⟩
  obtain ⟨hderives, hunique⟩ := htree herrors
  exact ⟨herrors, hunique _ derives_sampleTree, hderives, hunique⟩

end Grammar

end LoxLang
