import LoxLang.Proofs.Lexemes
import LoxLang.Proofs.Scoping.Violations
/-!
# Places in a source

What it means for a span to point into a source: it covers a stretch of the text
from the beginning of one character to the beginning of another, or to the end.
The lexemes and the lexical errors of a source point into it, and the violations
of a program are at places that its tree has. `Keeps` is how steps are followed
that pass such places on.
-/
namespace LoxLang

/-- A character of a source begins at this byte, or the source ends there. -/
def Boundary (source : String) (offset : Nat) : Prop :=
  String.Pos.Raw.IsValid source ⟨offset⟩

/-- A span covers a stretch of whole characters of a source. -/
structure Span.PointsInto (source : String) (span : Span) : Prop where
  ordered : span.start ≤ span.stop
  inside : span.stop ≤ source.utf8ByteSize
  start : Boundary source span.start
  stop : Boundary source span.stop

theorem utf8ByteSize_ofList (text : List Char) :
    (String.ofList text).utf8ByteSize = byteSize text := by
  induction text with
  | nil => rfl
  | cons c cs ih =>
    rw [String.ofList_cons, String.utf8ByteSize_append, String.utf8ByteSize_singleton, ih,
      byteSize_cons]

theorem boundary_byteSize {source : String} {front rest : List Char}
    (h : source.toList = front ++ rest) : Boundary source (byteSize front) := by
  rw [Boundary, String.Pos.Raw.isValid_iff_exists_append]
  refine ⟨String.ofList front, String.ofList rest, ?_, ?_⟩
  · rw [← String.ofList_append, ← h, String.ofList_toList]
  · rw [← utf8ByteSize_ofList]
    rfl

theorem boundary_end (source : String) : Boundary source source.utf8ByteSize := by
  have h := boundary_byteSize (List.append_nil source.toList).symm
  rwa [← utf8ByteSize_ofList, String.ofList_toList] at h

theorem Span.pointsInto_of_boundaries {source : String} {span : Span}
    (h : span.start ≤ span.stop) (hstart : Boundary source span.start)
    (hstop : Boundary source span.stop) : span.PointsInto source :=
  ⟨h, hstop.le_utf8ByteSize, hstart, hstop⟩

/-! ## Lexemes -/

theorem Lexeme.pointsInto {source : String} {l : Lexeme} (h : l ∈ lexemes source) :
    l.span.PointsInto source := by
  rw [lexemes_eq] at h
  obtain ⟨front, rest, htext, hspan⟩ := mem_lexemesFrom h
  have hstop : source.toList = (front ++ l.text.toList) ++ rest := by
    rw [htext, List.append_assoc]
  apply Span.pointsInto_of_boundaries
  · rw [hspan]
    exact Nat.le_add_right _ _
  · rw [hspan, Nat.zero_add]
    exact boundary_byteSize htext
  · rw [hspan, Nat.zero_add, ← byteSize_append]
    exact boundary_byteSize hstop

/-- A stretch of invalid input begins and ends where lexemes do. -/
theorem pointsInto_itemsFrom {source : String} {ls : List Lexeme} {run : Option (Located String)}
    (hls : ∀ l ∈ ls, l.span.PointsInto source)
    (hrun : ∀ found ∈ run, found.span.PointsInto source) :
    ∀ e ∈ Item.errors (itemsFrom run ls), e.span.PointsInto source := by
  induction ls generalizing run with
  | nil =>
    cases run with
    | none => intro e he; exact absurd he List.not_mem_nil
    | some found =>
      intro e he
      obtain rfl := List.mem_singleton.mp he
      exact hrun found rfl
  | cons l ls ih =>
    have hl := hls l List.mem_cons_self
    have ih (run : Option (Located String)) :=
      @ih run fun l' hl' => hls l' (List.mem_cons_of_mem l hl')
    have hnone := ih none (by simp)
    cases run with
    | none =>
      rw [itemsFrom]
      split
      · exact hnone
      split
      · intro e he
        rcases List.mem_cons.mp he with rfl | he
        · exact hl
        · exact hnone e he
      · exact ih _ (by simpa using hl)
    | some found =>
      have hfound := hrun found rfl
      rw [itemsFrom]
      split
      -- The stretch goes on with this lexeme, which begins where the stretch has ended so far.
      · rename_i hnext
        refine ih _ ?_
        rintro _ ⟨⟩
        refine Span.pointsInto_of_boundaries ?_ hfound.start hl.stop
        exact Nat.le_trans hfound.ordered (hnext ▸ hl.ordered)
      · intro e he
        rcases List.mem_cons.mp he with rfl | he
        · exact hfound
        · exact hnone e he

/-! ## Trees -/

mutual

def Expr.Within (P : Span → Prop) : Expr → Prop
  | .literal span _ => P span
  | .var span _ => P span
  | .this span _ => P span
  | .super span _ _ => P span
  | .grouping span inner => P span ∧ inner.Within P
  | .unary span _ operand => P span ∧ operand.Within P
  | .binary span _ left right => P span ∧ left.Within P ∧ right.Within P
  | .logical span _ left right => P span ∧ left.Within P ∧ right.Within P
  | .assign span _ value => P span ∧ value.Within P
  | .call span callee args => P span ∧ callee.Within P ∧ withinArguments P args
  | .get span object _ => P span ∧ object.Within P
  | .set span object _ value => P span ∧ object.Within P ∧ value.Within P

def withinArguments (P : Span → Prop) : List Expr → Prop
  | [] => True
  | first :: others => first.Within P ∧ withinArguments P others

end

mutual

def FunDecl.Within (P : Span → Prop) : FunDecl → Prop
  | ⟨span, _, _, body⟩ => P span ∧ withinBody P body

def Stmt.Within (P : Span → Prop) : Stmt → Prop
  | .expr span value => P span ∧ value.Within P
  | .print span value => P span ∧ value.Within P
  | .ret span value => P span ∧ ∀ e ∈ value, e.Within P
  | .varDecl span _ value => P span ∧ ∀ e ∈ value, e.Within P
  | .funDecl decl => decl.Within P
  | .classDecl span _ superclass methods =>
    P span ∧ (∀ above ∈ superclass, P above.span) ∧ withinMethods P methods
  | .block span body => P span ∧ withinBody P body
  | .branch span condition yes no =>
    P span ∧ condition.Within P ∧ yes.Within P ∧ withinElse P no
  | .loop span condition body => P span ∧ condition.Within P ∧ body.Within P

def withinElse (P : Span → Prop) : Option Stmt → Prop
  | some s => s.Within P
  | none => True

def withinBody (P : Span → Prop) : List Stmt → Prop
  | [] => True
  | first :: others => first.Within P ∧ withinBody P others

def withinMethods (P : Span → Prop) : List FunDecl → Prop
  | [] => True
  | first :: others => first.Within P ∧ withinMethods P others

end

variable {P Q : Span → Prop}

theorem Expr.Within.span {e : Expr} (h : e.Within P) : P e.span := by
  cases e with
  | literal | var | this | super => exact h
  | _ => exact h.1

theorem FunDecl.Within.span {decl : FunDecl} (h : decl.Within P) : P decl.span := by
  cases decl
  exact h.1

theorem FunDecl.Within.body {decl : FunDecl} (h : decl.Within P) : withinBody P decl.body := by
  cases decl
  exact h.2

mutual

theorem Expr.Within.mono (hPQ : ∀ span, P span → Q span) {e : Expr} (h : e.Within P) :
    e.Within Q := by
  match e, h with
  | .literal .., h | .var .., h | .this .., h | .super .., h => exact hPQ _ h
  | .grouping _ inner, ⟨hspan, hinner⟩ => exact ⟨hPQ _ hspan, hinner.mono hPQ⟩
  | .unary _ _ operand, ⟨hspan, hoperand⟩ => exact ⟨hPQ _ hspan, hoperand.mono hPQ⟩
  | .binary _ _ left right, ⟨hspan, hleft, hright⟩ =>
    exact ⟨hPQ _ hspan, hleft.mono hPQ, hright.mono hPQ⟩
  | .logical _ _ left right, ⟨hspan, hleft, hright⟩ =>
    exact ⟨hPQ _ hspan, hleft.mono hPQ, hright.mono hPQ⟩
  | .assign _ _ value, ⟨hspan, hvalue⟩ => exact ⟨hPQ _ hspan, hvalue.mono hPQ⟩
  | .call _ callee args, ⟨hspan, hcallee, hargs⟩ =>
    exact ⟨hPQ _ hspan, hcallee.mono hPQ, withinArguments_mono hPQ hargs⟩
  | .get _ object _, ⟨hspan, hobject⟩ => exact ⟨hPQ _ hspan, hobject.mono hPQ⟩
  | .set _ object _ value, ⟨hspan, hobject, hvalue⟩ =>
    exact ⟨hPQ _ hspan, hobject.mono hPQ, hvalue.mono hPQ⟩

private theorem withinArguments_mono (hPQ : ∀ span, P span → Q span) {args : List Expr}
    (h : withinArguments P args) : withinArguments Q args := by
  match args, h with
  | [], _ => trivial
  | first :: others, ⟨hfirst, hothers⟩ => exact ⟨hfirst.mono hPQ, withinArguments_mono hPQ hothers⟩

end

mutual

theorem FunDecl.Within.mono (hPQ : ∀ span, P span → Q span) {decl : FunDecl} (h : decl.Within P) :
    decl.Within Q := by
  match decl, h with
  | ⟨_, _, _, body⟩, ⟨hspan, hbody⟩ => exact ⟨hPQ _ hspan, withinBody_mono hPQ hbody⟩

theorem Stmt.Within.mono (hPQ : ∀ span, P span → Q span) {s : Stmt} (h : s.Within P) :
    s.Within Q := by
  match s, h with
  | .expr _ value, ⟨hspan, hvalue⟩ => exact ⟨hPQ _ hspan, hvalue.mono hPQ⟩
  | .print _ value, ⟨hspan, hvalue⟩ => exact ⟨hPQ _ hspan, hvalue.mono hPQ⟩
  | .ret _ value, ⟨hspan, hvalue⟩ => exact ⟨hPQ _ hspan, fun e he => (hvalue e he).mono hPQ⟩
  | .varDecl _ _ value, ⟨hspan, hvalue⟩ =>
    exact ⟨hPQ _ hspan, fun e he => (hvalue e he).mono hPQ⟩
  | .funDecl decl, hdecl => exact FunDecl.Within.mono hPQ hdecl
  | .classDecl _ _ superclass methods, ⟨hspan, hsuper, hmethods⟩ =>
    exact ⟨hPQ _ hspan, fun above h => hPQ _ (hsuper above h), withinMethods_mono hPQ hmethods⟩
  | .block _ body, ⟨hspan, hbody⟩ => exact ⟨hPQ _ hspan, withinBody_mono hPQ hbody⟩
  | .branch _ condition yes no, ⟨hspan, hcondition, hyes, hno⟩ =>
    exact ⟨hPQ _ hspan, hcondition.mono hPQ, hyes.mono hPQ, withinElse_mono hPQ hno⟩
  | .loop _ condition body, ⟨hspan, hcondition, hbody⟩ =>
    exact ⟨hPQ _ hspan, hcondition.mono hPQ, hbody.mono hPQ⟩

private theorem withinElse_mono (hPQ : ∀ span, P span → Q span) {no : Option Stmt}
    (h : withinElse P no) :
    withinElse Q no := by
  match no, h with
  | none, _ => trivial
  | some s, hs => exact Stmt.Within.mono hPQ hs

theorem withinBody_mono (hPQ : ∀ span, P span → Q span) {body : List Stmt} (h : withinBody P body) :
    withinBody Q body := by
  match body, h with
  | [], _ => trivial
  | first :: others, ⟨hfirst, hothers⟩ => exact ⟨hfirst.mono hPQ, withinBody_mono hPQ hothers⟩

private theorem withinMethods_mono (hPQ : ∀ span, P span → Q span) {methods : List FunDecl}
    (h : withinMethods P methods) : withinMethods Q methods := by
  match methods, h with
  | [], _ => trivial
  | first :: others, ⟨hfirst, hothers⟩ => exact ⟨hfirst.mono hPQ, withinMethods_mono hPQ hothers⟩

end

mutual

private theorem Expr.within_noDistances (e : Expr) :
    (e.relabel .noDistances).Within P ↔ e.Within P := by
  match e with
  | .literal .. | .var .. | .this .. | .super .. => simp [Expr.relabel, Expr.Within]
  | .grouping _ inner => simp [Expr.relabel, Expr.Within, inner.within_noDistances]
  | .unary _ _ operand => simp [Expr.relabel, Expr.Within, operand.within_noDistances]
  | .binary _ _ left right =>
    simp [Expr.relabel, Expr.Within, left.within_noDistances, right.within_noDistances]
  | .logical _ _ left right =>
    simp [Expr.relabel, Expr.Within, left.within_noDistances, right.within_noDistances]
  | .assign _ _ value => simp [Expr.relabel, Expr.Within, value.within_noDistances]
  | .call _ callee args =>
    simp [Expr.relabel, Expr.Within, callee.within_noDistances, withinArguments_noDistances args]
  | .get _ object _ => simp [Expr.relabel, Expr.Within, object.within_noDistances]
  | .set _ object _ value =>
    simp [Expr.relabel, Expr.Within, object.within_noDistances, value.within_noDistances]

private theorem withinArguments_noDistances (args : List Expr) :
    withinArguments P (args.map (·.relabel .noDistances)) ↔ withinArguments P args := by
  match args with
  | [] => exact Iff.rfl
  | first :: others =>
    simp [withinArguments, first.within_noDistances, withinArguments_noDistances others]

end

mutual

private theorem FunDecl.within_noDistances (decl : FunDecl) :
    (decl.relabel .noDistances).Within P ↔ decl.Within P := by
  match decl with
  | ⟨_, _, _, body⟩ => simp [FunDecl.relabel, FunDecl.Within, withinBody_noDistances body]

private theorem Stmt.within_noDistances (s : Stmt) :
    (s.relabel .noDistances).Within P ↔ s.Within P := by
  match s with
  | .expr _ value => simp [Stmt.relabel, Stmt.Within, value.within_noDistances]
  | .print _ value => simp [Stmt.relabel, Stmt.Within, value.within_noDistances]
  | .ret _ value => cases value <;> simp [Stmt.relabel, Stmt.Within, Expr.within_noDistances]
  | .varDecl _ _ value => cases value <;> simp [Stmt.relabel, Stmt.Within, Expr.within_noDistances]
  | .funDecl decl => simp [Stmt.relabel, Stmt.Within, decl.within_noDistances]
  | .classDecl _ _ superclass methods =>
    cases superclass <;>
      simp [Stmt.relabel, Stmt.Within, Relabel.superclass, withinMethods_noDistances methods]
  | .block _ body => simp [Stmt.relabel, Stmt.Within, withinBody_noDistances body]
  | .branch _ condition yes no =>
    simp [Stmt.relabel, Stmt.Within, condition.within_noDistances, yes.within_noDistances,
      withinElse_noDistances no]
  | .loop _ condition body =>
    simp [Stmt.relabel, Stmt.Within, condition.within_noDistances, body.within_noDistances]

private theorem withinElse_noDistances (no : Option Stmt) :
    withinElse P (no.map (·.relabel .noDistances)) ↔ withinElse P no := by
  match no with
  | none => exact Iff.rfl
  | some s => exact s.within_noDistances

theorem withinBody_noDistances (body : List Stmt) :
    withinBody P (body.map (·.relabel .noDistances)) ↔ withinBody P body := by
  match body with
  | [] => exact Iff.rfl
  | first :: others => simp [withinBody, first.within_noDistances, withinBody_noDistances others]

private theorem withinMethods_noDistances (methods : List FunDecl) :
    withinMethods P (methods.map (·.relabel .noDistances)) ↔ withinMethods P methods := by
  match methods with
  | [] => exact Iff.rfl
  | first :: others =>
    simp [withinMethods, first.within_noDistances, withinMethods_noDistances others]

end

/-! ## Violations -/

def Node.Within (P : Span → Prop) : Node → Prop
  | expr e => e.Within P
  | stmt s => s.Within P
  | param _ span => P span

private theorem Path.within_redeclaration {path : Path} {name : String} {span : Span} (h : P span) :
    ∀ e ∈ path.redeclaration name span, P e.span := by
  unfold redeclaration
  split
  · simpa using h
  · simp

theorem Expr.within_violations {path : Path} {e : Expr} (h : e.Within P) :
    ∀ found ∈ e.violations path, P found.span := by
  cases e with
  | var span ref =>
    have hspan : P span := h
    simp only [Expr.violations]
    split
    · simpa using hspan
    · simp
  | this span distance =>
    have hspan : P span := h
    simp only [Expr.violations]
    split
    · simpa using hspan
    · simp
  | super span distance method =>
    have hspan : P span := h
    simp only [Expr.violations]
    split
    · simpa using hspan
    · simpa using hspan
    · simp
  | _ => simp [Expr.violations]

theorem Stmt.within_violations {path : Path} {s : Stmt} (h : s.Within P) :
    ∀ found ∈ s.violations path, P found.span := by
  cases s with
  | ret span value =>
    have hspan : P span := h.1
    simp only [Stmt.violations, returnViolations]
    split
    · simpa using hspan
    · split
      · simpa using hspan
      · simp
    · simp
  | varDecl span name value => exact Path.within_redeclaration h.1
  | funDecl decl => exact Path.within_redeclaration (FunDecl.Within.span h)
  | classDecl span name superclass methods =>
    obtain ⟨hspan, hsuper, -⟩ := h
    have hself : ∀ found ∈ inheritanceViolations name superclass, P found.span := by
      cases superclass with
      | none => simp [inheritanceViolations]
      | some above =>
        have habove : P above.span := hsuper above rfl
        simp only [inheritanceViolations]
        split
        · simpa using habove
        · simp
    intro found hfound
    exact (List.mem_append.mp hfound).elim (Path.within_redeclaration hspan found) (hself found)
  | _ => simp [Stmt.violations]

theorem Site.within_violations {site : Site} (h : site.node.Within P) :
    ∀ found ∈ site.violations, P found.span := by
  obtain ⟨path, node⟩ := site
  cases node with
  | expr e => exact Expr.within_violations h
  | stmt s => exact Stmt.within_violations h
  | param name span => exact Path.within_redeclaration h

def SitesWithin (P : Span → Prop) (sites : List Site) : Prop :=
  ∀ site ∈ sites, site.node.Within P

@[simp] theorem sitesWithin_nil : SitesWithin P [] := by simp [SitesWithin]

@[simp] theorem sitesWithin_cons {site : Site} {sites : List Site} :
    SitesWithin P (site :: sites) ↔ site.node.Within P ∧ SitesWithin P sites := by
  simp [SitesWithin]

@[simp] theorem sitesWithin_append {sites sites' : List Site} :
    SitesWithin P (sites ++ sites') ↔ SitesWithin P sites ∧ SitesWithin P sites' := by
  simp [SitesWithin, or_imp, forall_and]

mutual

private theorem Expr.sitesWithin (e : Expr) (path : Path) (h : e.Within P) :
    SitesWithin P (e.sites path) := by
  rw [Expr.sites.eq_def]
  refine sitesWithin_cons.mpr ⟨h, ?_⟩
  match e, h with
  | .literal .., _ | .var .., _ | .this .., _ | .super .., _ => exact sitesWithin_nil
  | .grouping _ inner, ⟨_, hinner⟩ => exact inner.sitesWithin path hinner
  | .unary _ _ operand, ⟨_, hoperand⟩ => exact operand.sitesWithin path hoperand
  | .binary _ _ left right, ⟨_, hleft, hright⟩ =>
    exact sitesWithin_append.mpr ⟨left.sitesWithin path hleft, right.sitesWithin path hright⟩
  | .logical _ _ left right, ⟨_, hleft, hright⟩ =>
    exact sitesWithin_append.mpr ⟨left.sitesWithin path hleft, right.sitesWithin path hright⟩
  | .assign _ _ value, ⟨_, hvalue⟩ => exact value.sitesWithin path hvalue
  | .call _ callee args, ⟨_, hcallee, hargs⟩ =>
    exact sitesWithin_append.mpr ⟨callee.sitesWithin path hcallee,
      sitesWithin_arguments args path hargs⟩
  | .get _ object _, ⟨_, hobject⟩ => exact object.sitesWithin path hobject
  | .set _ object _ value, ⟨_, hobject, hvalue⟩ =>
    exact sitesWithin_append.mpr ⟨value.sitesWithin path hvalue, object.sitesWithin path hobject⟩

private theorem sitesWithin_arguments (args : List Expr) (path : Path)
    (h : withinArguments P args) :
    SitesWithin P (argumentSites path args) := by
  match args, h with
  | [], _ => exact sitesWithin_nil
  | first :: others, ⟨hfirst, hothers⟩ =>
    exact sitesWithin_append.mpr ⟨first.sitesWithin path hfirst,
      sitesWithin_arguments others path hothers⟩

end

private theorem sitesWithin_option {value : Option Expr} (path : Path)
    (h : ∀ e ∈ value, e.Within P) :
    SitesWithin P (optionSites path value) := by
  cases value with
  | none => exact sitesWithin_nil
  | some e => exact e.sitesWithin path (h e rfl)

private theorem sitesWithin_params {span : Span} (h : P span) (path : List String → Path)
    (declared params : List String) : SitesWithin P (paramSites path span declared params) := by
  induction params generalizing declared with
  | nil => exact sitesWithin_nil
  | cons first others ih => exact sitesWithin_cons.mpr ⟨h, ih (declared ++ [first])⟩

mutual

private theorem FunDecl.sitesWithin (decl : FunDecl) (path : List String → Path)
    (h : decl.Within P) :
    SitesWithin P (decl.sites path) := by
  match decl, h with
  | ⟨_, _, params, body⟩, ⟨hspan, hbody⟩ =>
    exact sitesWithin_append.mpr ⟨sitesWithin_params hspan path [] params,
      sitesWithin_body body path params hbody⟩

private theorem Stmt.sitesWithin (s : Stmt) (path : Path) (h : s.Within P) :
    SitesWithin P (s.sites path) := by
  rw [Stmt.sites.eq_def]
  refine sitesWithin_cons.mpr ⟨h, ?_⟩
  match s, h with
  | .expr _ value, ⟨_, hvalue⟩ => exact value.sitesWithin path hvalue
  | .print _ value, ⟨_, hvalue⟩ => exact value.sitesWithin path hvalue
  | .ret _ value, ⟨_, hvalue⟩ => exact sitesWithin_option path hvalue
  | .varDecl _ name value, ⟨_, hvalue⟩ =>
    exact sitesWithin_option (.initializer name :: path) hvalue
  | .funDecl decl, hdecl => exact decl.sitesWithin _ hdecl
  | .classDecl _ _ superclass methods, ⟨_, _, hmethods⟩ =>
    exact sitesWithin_methods methods (.classBody superclass :: path) hmethods
  | .block _ body, ⟨_, hbody⟩ => exact sitesWithin_body body _ [] hbody
  | .branch _ condition yes no, ⟨_, hcondition, hyes, hno⟩ =>
    exact sitesWithin_append.mpr ⟨sitesWithin_append.mpr ⟨condition.sitesWithin path hcondition,
      yes.sitesWithin path hyes⟩, sitesWithin_else no path hno⟩
  | .loop _ condition body, ⟨_, hcondition, hbody⟩ =>
    exact sitesWithin_append.mpr ⟨condition.sitesWithin path hcondition,
      body.sitesWithin path hbody⟩

private theorem sitesWithin_else (no : Option Stmt) (path : Path) (h : withinElse P no) :
    SitesWithin P (elseSites path no) := by
  match no, h with
  | none, _ => exact sitesWithin_nil
  | some s, hs => exact s.sitesWithin path hs

private theorem sitesWithin_body (body : List Stmt) (path : List String → Path)
    (declared : List String)
    (h : withinBody P body) : SitesWithin P (bodySites path declared body) := by
  match body, h with
  | [], _ => exact sitesWithin_nil
  | first :: others, ⟨hfirst, hothers⟩ =>
    exact sitesWithin_append.mpr ⟨first.sitesWithin (path declared) hfirst,
      sitesWithin_body others path _ hothers⟩

private theorem sitesWithin_methods (methods : List FunDecl) (path : Path)
    (h : withinMethods P methods) :
    SitesWithin P (methodSites path methods) := by
  match methods, h with
  | [], _ => exact sitesWithin_nil
  | first :: others, ⟨hfirst, hothers⟩ =>
    exact sitesWithin_append.mpr ⟨first.sitesWithin _ hfirst,
      sitesWithin_methods others path hothers⟩

end

theorem within_violations {program : List Stmt} (h : withinBody P program) :
    ∀ found ∈ violations program, P found.span := by
  intro found hfound
  obtain ⟨site, hsite, hmem⟩ := List.mem_flatMap.mp hfound
  exact Site.within_violations (sitesWithin_body program _ [] h site hsite) found hmem

/-! ## Steps -/

section
variable {ε σ α β : Type} {I : σ → Prop} {E : ε → Prop} {p : EStateM ε σ α} {Q : α → Prop}
  {R : β → Prop}

/-- A step keeps an invariant `I` of the state; its result has `Q`, or its failure has `E`. -/
def Keeps (I : σ → Prop) (E : ε → Prop) (p : EStateM ε σ α) (Q : α → Prop) : Prop :=
  ∀ s, I s → match p s with
    | .ok a s' => I s' ∧ Q a
    | .error e s' => I s' ∧ E e

namespace Keeps

theorem pure {a : α} (h : Q a) : Keeps I E (Pure.pure a) Q :=
  fun _ hs => ⟨hs, h⟩

theorem throw {e : ε} (h : E e) : Keeps I E (MonadExcept.throw e) Q :=
  fun _ hs => ⟨hs, h⟩

theorem bind {f : α → EStateM ε σ β} (hp : Keeps I E p Q) (hf : ∀ a, Q a → Keeps I E (f a) R) :
    Keeps I E (p >>= f) R := by
  intro s hs
  have hends := hp s hs
  rw [bind_apply]
  cases hresult : p s with
  | ok a s' =>
    rw [hresult] at hends
    exact hf a hends.2 s' hends.1
  | error e s' =>
    rw [hresult] at hends
    exact hends

theorem map {f : α → β} (hp : Keeps I E p Q) (hf : ∀ a, Q a → R (f a)) :
    Keeps I E (f <$> p) R := by
  have h : Keeps I E (p >>= fun a => Pure.pure (f a)) R := hp.bind fun a ha => pure (hf a ha)
  exact h

theorem getThen {f : σ → EStateM ε σ α} (h : ∀ s, I s → Keeps I E (f s) Q) :
    Keeps I E (get >>= f) Q :=
  fun s hs => h s hs s hs

theorem modify {f : σ → σ} (h : ∀ s, I s → I (f s)) :
    Keeps I E (modify f : EStateM ε σ PUnit) fun _ => True :=
  fun s hs => ⟨h s hs, trivial⟩

theorem modifyGet {f : σ → α × σ} (h : ∀ s, I s → I (f s).2 ∧ Q (f s).1) :
    Keeps I E (modifyGet f : EStateM ε σ α) Q :=
  fun s hs => h s hs

end Keeps

end

end LoxLang
