import LoxLang.Proofs.Grammar.Acceptance
/-!
# Proper trees

What the text of a program guarantees before any name is resolved: names that are
declared or assigned are not reserved, declarations stand only directly inside of
bodies, and no distance is known yet.
-/
namespace LoxLang
open Token

/-- Names that stand for something in every method and that no program declares. -/
def Reserved (name : String) : Prop :=
  name = "this" ∨ name = "super"

def Stmt.declared? : Stmt → Option String
  | .varDecl _ name _ => some name
  | .funDecl decl => some decl.name
  | .classDecl _ name _ _ => some name
  | _ => none

mutual

def Expr.Proper : Expr → Prop
  | .literal .. | .var .. | .this .. | .super .. => True
  | .grouping _ inner => inner.Proper
  | .unary _ _ operand => operand.Proper
  | .binary _ _ left right => left.Proper ∧ right.Proper
  | .logical _ _ left right => left.Proper ∧ right.Proper
  | .assign _ target value => ¬Reserved target.name ∧ value.Proper
  | .call _ callee args => callee.Proper ∧ properArguments args
  | .get _ object _ => object.Proper
  | .set _ object _ value => object.Proper ∧ value.Proper

def properArguments : List Expr → Prop
  | [] => True
  | first :: others => first.Proper ∧ properArguments others

end

mutual

def FunDecl.Proper : FunDecl → Prop
  | ⟨_, _, params, body⟩ => (∀ name ∈ params, ¬Reserved name) ∧ properBody body

/-- Reserved names are not declared or assigned, and declarations stand in bodies only. -/
def Stmt.Proper : Stmt → Prop
  | .expr _ value => value.Proper
  | .print _ value => value.Proper
  | .ret _ value => ∀ e ∈ value, e.Proper
  | .varDecl _ name value => ¬Reserved name ∧ ∀ e ∈ value, e.Proper
  | .funDecl decl => ¬Reserved decl.name ∧ decl.Proper
  | .classDecl _ name _ methods => ¬Reserved name ∧ properMethods methods
  | .block _ body => properBody body
  | .branch _ condition yes no =>
    condition.Proper ∧ (yes.Proper ∧ yes.declared? = none) ∧ properElse no
  | .loop _ condition body => condition.Proper ∧ body.Proper ∧ body.declared? = none

def properElse : Option Stmt → Prop
  | some s => s.Proper ∧ s.declared? = none
  | none => True

def properBody : List Stmt → Prop
  | [] => True
  | first :: others => first.Proper ∧ properBody others

def properMethods : List FunDecl → Prop
  | [] => True
  | first :: others => first.Proper ∧ properMethods others

end

namespace Grammar
open LoxLang.Parser

def ProperTree : (phrase : Phrase) → phrase.Tree → Prop
  | .expression, e | .operation _, e | .unary, e | .call, e | .primary, e => e.Proper
  | .arguments, es => properArguments es
  | .optional, e => ∀ x ∈ e, x.Proper
  | .binding, s | .declaration, s => s.Proper
  | .statement _, s => s.Proper ∧ s.declared? = none
  | .initializer, s => ∀ x ∈ s, x.Proper
  | .function, f => f.Proper ∧ ¬Reserved f.name
  | .methods, fs => properMethods fs
  | .declarations, ss => properBody ss

theorem Test.proper {c : Option Expr} {test : Expr} (h : Test c test) (hc : ∀ e ∈ c, e.Proper) :
    test.Proper := by
  cases h with
  | always => trivial
  | given => exact hc _ rfl

theorem Round.proper {i : Option Expr} {body round : Stmt} (h : Round i body round)
    (hi : ∀ e ∈ i, e.Proper) (hbody : body.Proper ∧ body.declared? = none) :
    round.Proper ∧ round.declared? = none := by
  cases h with
  | plain => exact hbody
  | increment => exact ⟨⟨hbody.1, hi _ rfl, trivial⟩, rfl⟩

theorem Counting.proper {init : Option Stmt} {inner loop : Stmt} (h : Counting init inner loop)
    (hinit : ∀ s ∈ init, s.Proper) (hinner : inner.Proper ∧ inner.declared? = none) :
    loop.Proper ∧ loop.declared? = none := by
  cases h with
  | plain => exact hinner
  | initialized => exact ⟨⟨hinit _ rfl, hinner.1, trivial⟩, rfl⟩

def Clean (ts : List Token) : Prop :=
  ∀ name, identifier name ∈ ts → ¬Reserved name

@[simp] theorem clean_nil : Clean [] := fun _ h => absurd h List.not_mem_nil

private theorem clean_cons_iff {token : Token} {ts : List Token} :
    Clean (token :: ts) ↔ Clean [token] ∧ Clean ts := by
  simp only [Clean, List.mem_cons, List.not_mem_nil, or_false]
  exact ⟨fun h => ⟨fun name hn => h name (.inl hn), fun name hn => h name (.inr hn)⟩,
    fun h name hn => hn.elim (h.1 name) (h.2 name)⟩

@[simp] theorem clean_append {ts us : List Token} : Clean (ts ++ us) ↔ Clean ts ∧ Clean us := by
  simp only [Clean, List.mem_append]
  exact ⟨fun h => ⟨fun name hn => h name (.inl hn), fun name hn => h name (.inr hn)⟩,
    fun h name hn => hn.elim (h.1 name) (h.2 name)⟩

@[simp] theorem clean_symbol {s : Symbol} {ts : List Token} :
    Clean (symbol s :: ts) ↔ Clean ts := by
  simp [Clean]

@[simp] theorem clean_keyword {k : Keyword} {ts : List Token} :
    Clean (keyword k :: ts) ↔ Clean ts := by
  simp [Clean]

@[simp] theorem clean_identifier {name : String} {ts : List Token} :
    Clean (identifier name :: ts) ↔ ¬Reserved name ∧ Clean ts := by
  simp [Clean]

private theorem clean_names {params : List String} :
    Clean (names params) ↔ ∀ name ∈ params, ¬Reserved name := by
  simp only [Clean, mem_names_iff]

private theorem proper_of_derives {phrase : Phrase} {ts : List Token} {t : phrase.Tree}
    (h : Derives phrase ts t) (hclean : Clean ts) : ProperTree phrase t := by
  induction h with
  | assignVariable _ ih =>
    simp only [clean_identifier, clean_symbol] at hclean
    exact ⟨hclean.1, ih hclean.2⟩
  | assignProperty _ _ iho ih =>
    simp only [clean_append, clean_identifier, clean_symbol] at hclean
    exact ⟨iho hclean.1, ih hclean.2.2⟩
  | operation _ ih | tighter _ ih | operand _ ih | chain _ ih | primary _ ih => exact ih hclean
  | binary _ _ _ ihleft ihright | logical _ _ _ ihleft ihright =>
    rw [clean_append, clean_cons_iff] at hclean
    exact ⟨ihleft hclean.1, ihright hclean.2.2⟩
  | unary _ _ ih =>
    rw [clean_cons_iff] at hclean
    exact ih hclean.2
  | callEmpty _ ih =>
    rw [clean_append] at hclean
    exact ⟨ih hclean.1, trivial⟩
  | call _ _ _ ih iha =>
    simp only [clean_append, clean_symbol] at hclean
    exact ⟨ih hclean.1.1, iha hclean.1.2⟩
  | get _ ih =>
    rw [clean_append] at hclean
    exact ih hclean.1
  | lastArgument _ ih => exact ⟨ih hclean, trivial⟩
  | moreArguments _ _ ih iho =>
    simp only [clean_append, clean_symbol] at hclean
    exact ⟨ih hclean.1, iho hclean.2⟩
  | constant | this | name | super | noMethods | noDeclarations => trivial
  | grouping _ ih =>
    simp only [List.cons_append, clean_append, clean_symbol] at hclean
    exact ih hclean.1
  | absent => exact fun x hx => absurd hx (Option.not_mem_none x)
  | present _ ih =>
    intro x hx
    obtain rfl := Option.mem_some.mp hx
    exact ih hclean
  | exprStmt _ ih =>
    rw [clean_append] at hclean
    exact ⟨ih hclean.1, rfl⟩
  | print _ ih | ret _ ih | block _ ih =>
    simp only [List.cons_append, clean_append, clean_symbol, clean_keyword] at hclean
    exact ⟨ih hclean.1, rfl⟩
  | branch _ _ ihc ihyes =>
    simp only [List.cons_append, clean_append, clean_symbol, clean_keyword] at hclean
    exact ⟨⟨ihc hclean.1, ihyes hclean.2, trivial⟩, rfl⟩
  | branchElse _ _ _ ihc ihyes ihno =>
    simp only [List.cons_append, clean_append, clean_symbol, clean_keyword] at hclean
    exact ⟨⟨ihc hclean.1.1, ihyes hclean.1.2, ihno hclean.2⟩, rfl⟩
  | loop _ _ ihc ihbody =>
    simp only [List.cons_append, clean_append, clean_symbol, clean_keyword] at hclean
    exact ⟨⟨ihc hclean.1, ihbody hclean.2⟩, rfl⟩
  | counting _ _ _ _ htest hround hloop ihinit ihc ihi ihbody =>
    simp only [List.cons_append, clean_append, clean_symbol, clean_keyword] at hclean
    have hcondition := htest.proper (ihc hclean.1.1.2)
    have hbody := hround.proper (ihi hclean.1.2) (ihbody hclean.2)
    exact hloop.proper (ihinit hclean.1.1.1) ⟨⟨hcondition, hbody⟩, rfl⟩
  | noInitializer => exact fun x hx => absurd hx (Option.not_mem_none x)
  | bindingInitializer _ ih =>
    intro x hx
    obtain rfl := Option.mem_some.mp hx
    exact ih (clean_keyword.mp hclean)
  | exprInitializer _ ih =>
    intro x hx
    obtain rfl := Option.mem_some.mp hx
    exact ih (clean_append.mp hclean).1
  | bindEmpty => exact ⟨(clean_identifier.mp hclean).1, fun x hx => absurd hx (Option.not_mem_none x)⟩
  | bind _ ih =>
    simp only [List.cons_append, clean_append, clean_symbol, clean_identifier] at hclean
    refine ⟨hclean.1, fun x hx => ?_⟩
    obtain rfl := Option.mem_some.mp hx
    exact ih hclean.2.1
  | function _ _ ih =>
    simp only [List.cons_append, clean_append, clean_symbol, clean_identifier, clean_names] at hclean
    exact ⟨⟨hclean.2.1.1, ih hclean.2.1.2⟩, hclean.1⟩
  | moreMethods _ _ ih iho =>
    exact ⟨(ih (clean_append.mp hclean).1).1, iho (clean_append.mp hclean).2⟩
  | varDecl _ ih => exact ih (clean_keyword.mp hclean)
  | funDecl _ ih =>
    have hf := ih (clean_keyword.mp hclean)
    exact ⟨hf.2, hf.1⟩
  | baseClass _ ih | derivedClass _ ih =>
    simp only [List.cons_append, clean_append, clean_symbol, clean_keyword, clean_identifier] at hclean
    simp_all [ProperTree, Stmt.Proper]
  | statement _ ih => exact (ih hclean).1
  | moreDeclarations _ _ ih iho =>
    exact ⟨ih (clean_append.mp hclean).1, iho (clean_append.mp hclean).2⟩

private theorem noDistances_of_derives {phrase : Phrase} {ts : List Token} {t : phrase.Tree}
    (h : Derives phrase ts t) : phrase.relabel .noDistances t = t := by
  induction h with
  | counting _ _ _ _ htest hround hloop ihinit ihc ihi ihbody =>
    cases htest <;> cases hround <;> cases hloop <;>
      simp_all [Phrase.relabel, Stmt.relabel, Expr.relabel]
  | _ =>
    simp_all [Phrase.relabel, Stmt.relabel, Expr.relabel, FunDecl.relabel, Ref.relabel,
      Relabel.superclass]

end Grammar

/-! ## Names in a source -/

namespace Lexeme

private theorem nameToken_identifier {word name : String} (h : nameToken word = identifier name) :
    ¬Reserved name := by
  unfold nameToken at h
  split at h
  · exact Token.noConfusion h
  · rename_i hnone
    obtain rfl : word = name := by simpa using h
    intro hr
    rcases hr with rfl | rfl
    · exact Option.some_ne_none _ ((Keyword.ofSpelling?_spelling .kwThis).symm.trans hnone)
    · exact Option.some_ne_none _ ((Keyword.ofSpelling?_spelling .kwSuper).symm.trans hnone)

private theorem cut_identifier {c : Char} {cs : List Char} {name : String}
    (h : (cut c cs).token? = some (identifier name)) : ¬Reserved name := by
  unfold cut at h
  split at h
  · simp at h
  split at h
  · exact nameToken_identifier (Option.some.inj h)
  split at h
  · unfold cutNumber at h
    split at h
    · split at h <;> simp at h
    · simp at h
  split at h
  · unfold cutString at h
    split at h <;> simp at h
  split at h
  · simp at h
  split at h <;> simp at h

private theorem piecesFrom_identifier {bound start : Nat} {text : List Char} {l : Lexeme}
    {name : String}
    (h : Piece.lexeme l ∈ piecesFrom bound start text) (hl : l.token = identifier name) :
    ¬Reserved name := by
  induction bound generalizing start text with
  | zero => exact absurd h (by simp [piecesFrom])
  | succ bound ih =>
    cases text with
    | nil => exact absurd h (by simp [piecesFrom])
    | cons c cs =>
      rw [piecesFrom] at h
      rcases List.mem_cons.mp h with h | h
      · unfold Cut.piece at h
        split at h
        · rename_i token htoken
          obtain rfl := Piece.lexeme.inj h
          exact cut_identifier (htoken.trans (congrArg some hl))
        · exact Piece.noConfusion h
      · exact ih h

end Lexeme

theorem mem_of_mem_lexemes {run : Option (Located String)} {ls : List Lexeme} {l : Lexeme}
    (h : l ∈ Item.lexemes (itemsFrom run ls)) : l ∈ ls := by
  induction ls generalizing run with
  | nil => cases run <;> simp [itemsFrom, Item.lexemes, Except.toOption] at h
  | cons first others ih =>
    have hmem : ∀ run, l ∈ Item.lexemes (itemsFrom run others) → l ∈ first :: others :=
      fun run h => List.mem_cons_of_mem _ (ih h)
    cases run with
    | none =>
      rw [itemsFrom] at h
      split at h
      · rcases List.mem_cons.mp h with rfl | h
        · exact List.mem_cons_self
        · exact hmem _ h
      split at h
      · exact hmem _ h
      · exact hmem _ h
    | some run =>
      rw [itemsFrom] at h
      split at h
      · exact hmem _ h
      · rcases List.mem_cons.mp h with rfl | h
        · exact List.mem_cons_self
        · exact hmem _ h

private theorem clean_tokens (source : String) : Grammar.Clean (tokens source) := by
  intro name h
  obtain ⟨l, hl, htoken⟩ := List.mem_map.mp h
  obtain ⟨piece, hpiece, hp⟩ := List.mem_filterMap.mp (mem_of_mem_lexemes hl)
  cases piece with
  | skipped text => simp at hp
  | lexeme l' =>
    obtain rfl := Option.some.inj hp
    exact Lexeme.piecesFrom_identifier hpiece htoken

/-- What was read without errors is proper, and all its distances are open. -/
theorem proper_of_parse {source : String} (h : (parse source).errors = []) :
    properBody (parse source).program ∧
      (parse source).program.map (·.relabel .noDistances) = (parse source).program := by
  have hd := (Grammar.parse_sound h).2
  exact ⟨Grammar.proper_of_derives hd (clean_tokens source), Grammar.noDistances_of_derives hd⟩

end LoxLang
