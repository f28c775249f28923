import LoxLang.Proofs.Printing.Forms
import LoxLang.Proofs.Printing.Origins

namespace LoxLang

/-! ## Tokens of a source -/

/-- A token that can stand in a source. -/
def Token.Genuine : Token → Prop
  | identifier name => IsName name
  | number x => x.isNaN = false
  | _ => True

namespace Lexeme

private theorem nameToken_genuine {first : Char} {others : List Char}
    (hfirst : isNameStart first = true) (hothers : ∀ c ∈ others, isNamePart c = true) :
    (nameToken (String.ofList (first :: others))).Genuine := by
  unfold nameToken
  split
  · trivial
  · rename_i hfree
    exact ⟨⟨first, others, String.toList_ofList, hfirst, hothers⟩, hfree⟩

private theorem cut_genuine {c : Char} {cs : List Char} {token : Token}
    (h : (cut c cs).token? = some token) : token.Genuine := by
  unfold cut at h
  split at h
  · cases h
  split at h
  · rename_i hstart
    obtain rfl := Option.some.inj h
    exact nameToken_genuine hstart fun d hd => List.mem_takeWhile_imp hd
  split at h
  · unfold cutNumber at h
    split at h
    · split at h <;> (obtain rfl := Option.some.inj h; exact isNaN_numberValue _ _)
    · obtain rfl := Option.some.inj h
      exact isNaN_numberValue _ _
  split at h
  · unfold cutString at h
    split at h <;> (obtain rfl := Option.some.inj h; trivial)
  split at h
  · cases h
  split at h <;> (obtain rfl := Option.some.inj h; trivial)

private theorem genuine_of_mem_lexemesFrom {start : Nat} {text : List Char} {l : Lexeme}
    (h : l ∈ lexemesFrom start text) : l.token.Genuine := by
  induction hn : text.length using Nat.strongRecOn generalizing start text with
  | ind n ih =>
    cases text with
    | nil => exact absurd h List.not_mem_nil
    | cons c cs =>
      rw [lexemesFrom_cons] at h
      rcases List.mem_append.mp h with h | h
      · obtain ⟨token, htoken, rfl⟩ := Option.map_eq_some_iff.mp (Option.mem_toList.mp h)
        exact cut_genuine htoken
      · have hlength := length_cut_rest c cs
        exact ih _ (by rw [← hn, List.length_cons]; omega) h rfl

end Lexeme

private theorem Reader.ahead_opening (source : String) :
    (Reader.opening source).Ahead Token.Genuine := by
  intro l hl
  have hmem : l ∈ lexemes source := mem_of_mem_lexemes hl
  rw [lexemes_eq] at hmem
  exact Lexeme.genuine_of_mem_lexemesFrom hmem

/-- All names and constants that are read from a source are those of genuine tokens. -/
theorem parse_genuine (source : String) :
    ∀ s ∈ (parse source).program, (Tree.stmt s).From Token.Genuine := by
  obtain ⟨r, hread, -⟩ := program_opening (Nat.le_refl _)
  have h := Parser.takes_program (Parser.depth (Reader.opening source).rest) _
    (Reader.ahead_opening source)
  rw [hread] at h
  exact h.2

/-! ## Expressions of a source -/

/-- An expression stands somewhere in the program that a source is read as. -/
def Expr.OccursIn (source : String) (e : Expr) : Prop :=
  ∃ s ∈ (parse source).program, (Tree.stmt s).Has (.expr e)

/-- No number in an expression was too large for a float. -/
def Expr.Finite (e : Expr) : Prop :=
  (Tree.expr e).Every fun node => ∀ span x, node = .literal span (.number x) → x.isInf = false

theorem Tree.Has.trans {t node below : Tree} (h : t.Has node) (hbelow : node.Has below) :
    t.Has below := by
  induction h with
  | root => exact hbelow
  | under hmem _ ih => exact .under hmem (ih hbelow)

def Expr.Readable : Expr → Prop
  | .literal _ value => (Atom.literal value).Proper
  | .var _ ref => IsName ref.name
  | .super _ _ method => IsName method
  | .assign _ target _ => IsName target.name
  | .get _ _ name | .set _ _ name _ => IsName name
  | _ => True

private theorem Parser.eq_number_of_literal? {token : Token} {x : Float}
    (h : Parser.literal? token = some (.number x)) : token = .number x := by
  unfold Parser.literal? at h
  split at h <;> simp_all

/-- What comes from a genuine token is readable, unless it is an infinite number. -/
theorem Expr.From.readable {e : Expr} (h : e.From Token.Genuine)
    (hfinite : ∀ span x, e = .literal span (.number x) → x.isInf = false) : e.Readable := by
  cases e with
  | literal span value =>
    cases value with
    | number x =>
      rcases h with h | ⟨token, htoken, hliteral⟩
      · cases h
      · rw [Parser.eq_number_of_literal? hliteral] at htoken
        exact Magnitude.exists_finite htoken (hfinite span x rfl)
    | _ => trivial
  | _ => exact h

theorem Form.Proper.one {head : Head} {f : Form} (harity : head.arity = some 1) (hf : f.Proper) :
    (Form.node head [f]).Proper := by
  refine ⟨fun n hn => ?_, hf, trivial⟩
  rw [harity] at hn
  exact Option.some.inj hn

theorem Form.Proper.two {head : Head} {f g : Form} (harity : head.arity = some 2) (hf : f.Proper)
    (hg : g.Proper) : (Form.node head [f, g]).Proper := by
  refine ⟨fun n hn => ?_, hf, hg, trivial⟩
  rw [harity] at hn
  exact Option.some.inj hn

mutual

private theorem Expr.proper_form {e : Expr} (h : (Tree.expr e).Every Expr.Readable) :
    e.form.Proper := by
  have hroot := h.root
  have hchild : ∀ child ∈ e.children, (Tree.expr child).Every Expr.Readable :=
    fun child hmem => h.child (List.mem_map_of_mem hmem)
  match e with
  | .literal .. | .var .. => exact hroot
  | .this .. => trivial
  | .super .. => exact .two rfl trivial hroot
  | .grouping _ inner =>
    exact .one rfl (Expr.proper_form (hchild inner (by simp [Expr.children])))
  | .unary _ _ operand =>
    exact .one rfl (Expr.proper_form (hchild operand (by simp [Expr.children])))
  | .binary _ _ left right =>
    exact .two rfl (Expr.proper_form (hchild left (by simp [Expr.children])))
      (Expr.proper_form (hchild right (by simp [Expr.children])))
  | .logical _ _ left right =>
    exact .two rfl (Expr.proper_form (hchild left (by simp [Expr.children])))
      (Expr.proper_form (hchild right (by simp [Expr.children])))
  | .assign _ _ value =>
    exact .two rfl hroot (Expr.proper_form (hchild value (by simp [Expr.children])))
  | .call _ callee args =>
    refine ⟨fun n hn => absurd hn (Option.not_mem_none n), ?_, ?_⟩
    · exact Expr.proper_form (hchild callee (by simp [Expr.children]))
    · exact proper_formArguments fun arg harg => hchild arg (by simp [Expr.children, harg])
  | .get _ object _ =>
    exact .two rfl (Expr.proper_form (hchild object (by simp [Expr.children]))) hroot
  | .set _ object _ value =>
    refine .two rfl (.two rfl ?_ hroot) ?_
    · exact Expr.proper_form (hchild object (by simp [Expr.children]))
    · exact Expr.proper_form (hchild value (by simp [Expr.children]))

private theorem proper_formArguments {args : List Expr}
    (h : ∀ arg ∈ args, (Tree.expr arg).Every Expr.Readable) : properParts (formArguments args) := by
  match args with
  | [] => trivial
  | first :: others =>
    obtain ⟨hfirst, hothers⟩ := List.forall_mem_cons.mp h
    exact ⟨Expr.proper_form hfirst, proper_formArguments hothers⟩

end

private theorem Expr.OccursIn.proper_form {source : String} {e : Expr} (h : e.OccursIn source)
    (hfinite : e.Finite) : e.form.Proper := by
  obtain ⟨s, hs, hhas⟩ := h
  refine Expr.proper_form fun node hnode => ?_
  exact (parse_genuine source s hs node (hhas.trans hnode)).readable (hfinite node hnode)

/-- Expressions that are read from sources and printed as the same text are the same up to their
labels, provided that no number in them is infinite. -/
theorem display_unambiguous {source source' : String} {e e' : Expr} (he : e.OccursIn source)
    (he' : e'.OccursIn source') (hfinite : e.Finite) (hfinite' : e'.Finite)
    (h : e.display = e'.display) : e.relabel .bare = e'.relabel .bare :=
  Expr.relabel_eq_of_display (he.proper_form hfinite) (he'.proper_form hfinite') h

/-- A string with a parenthesis in it, a call and a difference, with and without spaces. -/
theorem display_unambiguous_spaced :
    ∃ e e' : Expr, e.OccursIn "a(\"(\")-1;" ∧ e'.OccursIn "a( \"(\" ) - 1;" ∧
      e.Finite ∧ e'.Finite ∧ e.display = e'.display ∧ e ≠ e' ∧
      e.relabel .bare = e'.relabel .bare := by
  have hitems : items "a(\"(\")-1;" =
      [.ok ⟨.identifier "a", "a", ⟨0, 1⟩⟩, .ok ⟨.symbol .leftParen, "(", ⟨1, 2⟩⟩,
        .ok ⟨.string "(", "\"(\"", ⟨2, 5⟩⟩, .ok ⟨.symbol .rightParen, ")", ⟨5, 6⟩⟩,
        .ok ⟨.symbol .minus, "-", ⟨6, 7⟩⟩, .ok ⟨.number 1, "1", ⟨7, 8⟩⟩,
        .ok ⟨.symbol .semicolon, ";", ⟨8, 9⟩⟩] := by decide +kernel
  have hitems' : items "a( \"(\" ) - 1;" =
      [.ok ⟨.identifier "a", "a", ⟨0, 1⟩⟩, .ok ⟨.symbol .leftParen, "(", ⟨1, 2⟩⟩,
        .ok ⟨.string "(", "\"(\"", ⟨3, 6⟩⟩, .ok ⟨.symbol .rightParen, ")", ⟨7, 8⟩⟩,
        .ok ⟨.symbol .minus, "-", ⟨9, 10⟩⟩, .ok ⟨.number 1, "1", ⟨11, 12⟩⟩,
        .ok ⟨.symbol .semicolon, ";", ⟨12, 13⟩⟩] := by decide +kernel
  have he : (Expr.binary ⟨0, 8⟩ .subtract
      (.call ⟨0, 6⟩ (.var ⟨0, 1⟩ ⟨"a", none⟩) [.literal ⟨2, 5⟩ (.string "(")])
      (.literal ⟨7, 8⟩ (.number 1))).OccursIn "a(\"(\")-1;" := by
    refine ⟨.expr ⟨0, 9⟩ _, ?_, .under (List.mem_singleton_self _) (.root _)⟩
    rw [parse, hitems]
    exact List.mem_singleton_self _
  have he' : (Expr.binary ⟨0, 12⟩ .subtract
      (.call ⟨0, 8⟩ (.var ⟨0, 1⟩ ⟨"a", none⟩) [.literal ⟨3, 6⟩ (.string "(")])
      (.literal ⟨11, 12⟩ (.number 1))).OccursIn "a( \"(\" ) - 1;" := by
    refine ⟨.expr ⟨0, 13⟩ _, ?_, .under (List.mem_singleton_self _) (.root _)⟩
    rw [parse, hitems']
    exact List.mem_singleton_self _
  have hfinite (place inner name content digit : Span) : (Expr.binary place .subtract
      (.call inner (.var name ⟨"a", none⟩) [.literal content (.string "(")])
      (.literal digit (.number 1))).Finite := by
    have hone : (1 : Float).isInf = false := by decide +kernel
    refine .expr (by simp) (List.forall_mem_cons.mpr ⟨?_, List.forall_mem_singleton.mpr ?_⟩)
    · refine .expr (by simp) (List.forall_mem_cons.mpr ⟨?_, List.forall_mem_singleton.mpr ?_⟩) <;>
        exact .expr (by simp) (List.forall_mem_nil _)
    · exact .expr (by simp [hone]) (List.forall_mem_nil _)
  refine ⟨_, _, he, he', hfinite _ _ _ _ _, hfinite _ _ _ _ _, rfl, by simp, ?_⟩
  exact display_unambiguous he he' (hfinite _ _ _ _ _) (hfinite _ _ _ _ _) rfl

end LoxLang
