import LoxLang.Proofs.Course.Provenance
import LoxLang.Proofs.Scoping.Reports
/-!
# Where values may be returned

Every `return` belongs to a body: that of the innermost function or method around
it, or the program itself. In a program without violations it fits the kind of that
body. So the functions that such a program makes, and the functions that these make
again, all return what their kind allows.
-/
namespace LoxLang

/-- What a `return` may have as its value in a body of some kind. -/
def BodyKind.Allows : BodyKind → Option Expr → Prop
  | .program, _ => False
  | .initializer, value => value = none
  | .function, _ | .method, _ => True

def FunDecl.methodKind (decl : FunDecl) : BodyKind :=
  if decl.isInitializer then .initializer else .method

mutual

def FunDecl.ReturnsAs (kind : BodyKind) : FunDecl → Prop
  | ⟨_, _, _, body⟩ => bodyReturnsAs kind body

/-- Every `return` in a statement fits its body, if the statement belongs to a body of some kind. -/
def Stmt.ReturnsAs (kind : BodyKind) : Stmt → Prop
  | .ret _ value => kind.Allows value
  | .funDecl decl => decl.ReturnsAs .function
  | .classDecl _ _ _ methods => methodsReturn methods
  | .block _ body => bodyReturnsAs kind body
  | .branch _ _ yes no => yes.ReturnsAs kind ∧ elseReturnsAs kind no
  | .loop _ _ body => body.ReturnsAs kind
  | .expr .. | .print .. | .varDecl .. => True

def elseReturnsAs (kind : BodyKind) : Option Stmt → Prop
  | some s => s.ReturnsAs kind
  | none => True

def bodyReturnsAs (kind : BodyKind) : List Stmt → Prop
  | [] => True
  | first :: others => first.ReturnsAs kind ∧ bodyReturnsAs kind others

def methodsReturn : List FunDecl → Prop
  | [] => True
  | first :: others => first.ReturnsAs first.methodKind ∧ methodsReturn others

end

theorem bodyReturnsAs_iff {kind : BodyKind} {body : List Stmt} :
    bodyReturnsAs kind body ↔ ∀ s ∈ body, s.ReturnsAs kind := by
  induction body with
  | nil => simp [bodyReturnsAs]
  | cons first others ih => simp [bodyReturnsAs, ih]

/-! ## Programs without violations -/

private theorem allows_of_returnViolations {path : Path} {span : Span} {value : Option Expr}
    (h : returnViolations path span value = []) : path.bodyKind.Allows value := by
  unfold Path.bodyKind
  unfold returnViolations at h
  cases hfunction : path.function? with
  | none => simp [hfunction] at h
  | some layer =>
    cases layer with
    | method name declared =>
      by_cases hname : name = initializerName
      · have hvalue : value.isSome = false := by simpa [hfunction, hname] using h
        simpa [hname, BodyKind.Allows] using hvalue
      · simp [hname, BodyKind.Allows]
    | _ => trivial

private theorem bodyKind_method (path : Path) (decl : FunDecl) (declared : List String) :
    Path.bodyKind (.method decl.name declared :: path) = decl.methodKind := by
  change (if decl.name = initializerName then BodyKind.initializer else .method) = _
  simp [FunDecl.methodKind, FunDecl.isInitializer]

mutual

private theorem FunDecl.returnsAs_of_sites (decl : FunDecl) {path : List String → Path}
    {kind : BodyKind} (hkind : ∀ declared, (path declared).bodyKind = kind)
    (h : siteViolations (decl.sites path) = []) : decl.ReturnsAs kind := by
  match decl with
  | ⟨span, name, params, body⟩ =>
    rw [FunDecl.sites, siteViolations_append, List.append_eq_nil_iff] at h
    exact returnsAs_of_bodySites body hkind h.2

private theorem Stmt.returnsAs_of_sites (s : Stmt) {path : Path}
    (h : siteViolations (s.sites path) = []) :
    s.ReturnsAs path.bodyKind := by
  rw [Stmt.sites.eq_def, siteViolations_cons, List.append_eq_nil_iff] at h
  match s, h with
  | .ret span value, h => exact allows_of_returnViolations h.1
  | .funDecl decl, h => exact decl.returnsAs_of_sites (uniform_function path).bodyKind h.2
  | .classDecl span name superclass methods, h => exact returns_of_methodSites methods h.2
  | .block span body, h => exact returnsAs_of_bodySites body (uniform_block path).bodyKind h.2
  | .branch span condition yes no, h =>
    have hparts := h.2
    simp only [siteViolations_append, List.append_eq_nil_iff] at hparts
    exact ⟨yes.returnsAs_of_sites hparts.1.2, returnsAs_of_elseSites no hparts.2⟩
  | .loop span condition body, h =>
    have hparts := h.2
    simp only [siteViolations_append, List.append_eq_nil_iff] at hparts
    exact body.returnsAs_of_sites hparts.2
  | .expr .., _ | .print .., _ | .varDecl .., _ => trivial

private theorem returnsAs_of_elseSites (no : Option Stmt) {path : Path}
    (h : siteViolations (elseSites path no) = []) : elseReturnsAs path.bodyKind no := by
  match no with
  | none => trivial
  | some s => exact s.returnsAs_of_sites h

private theorem returnsAs_of_bodySites (body : List Stmt) {path : List String → Path}
    {kind : BodyKind} {declared : List String} (hkind : ∀ declared, (path declared).bodyKind = kind)
    (h : siteViolations (bodySites path declared body) = []) : bodyReturnsAs kind body := by
  match body with
  | [] => trivial
  | first :: others =>
    rw [bodySites, siteViolations_append, List.append_eq_nil_iff] at h
    have hfirst := first.returnsAs_of_sites h.1
    rw [hkind] at hfirst
    exact ⟨hfirst, returnsAs_of_bodySites others hkind h.2⟩

private theorem returns_of_methodSites (methods : List FunDecl) {path : Path}
    (h : siteViolations (methodSites path methods) = []) : methodsReturn methods := by
  match methods with
  | [] => trivial
  | first :: others =>
    rw [methodSites, siteViolations_append, List.append_eq_nil_iff] at h
    exact ⟨first.returnsAs_of_sites (bodyKind_method path first) h.1,
      returns_of_methodSites others h.2⟩

end

/-! ## Distances do not matter -/

mutual

private theorem FunDecl.returnsAs_relabel (f : Relabel) (kind : BodyKind) (decl : FunDecl) :
    (decl.relabel f).ReturnsAs kind ↔ decl.ReturnsAs kind := by
  match decl with
  | ⟨span, name, params, body⟩ =>
    rw [FunDecl.relabel, FunDecl.ReturnsAs, FunDecl.ReturnsAs, bodyReturnsAs_relabel f kind body]

private theorem Stmt.returnsAs_relabel (f : Relabel) (kind : BodyKind) (s : Stmt) :
    (s.relabel f).ReturnsAs kind ↔ s.ReturnsAs kind := by
  match s with
  | .ret span none => rfl
  | .ret span (some value) => cases kind <;> simp [Stmt.relabel, Stmt.ReturnsAs, BodyKind.Allows]
  | .funDecl decl => exact decl.returnsAs_relabel f .function
  | .classDecl span name superclass methods => exact methodsReturn_relabel f methods
  | .block span body => exact bodyReturnsAs_relabel f kind body
  | .branch span condition yes no =>
    exact and_congr (yes.returnsAs_relabel f kind) (elseReturnsAs_relabel f kind no)
  | .loop span condition body => exact body.returnsAs_relabel f kind
  | .expr .. | .print .. | .varDecl .. => rfl

private theorem elseReturnsAs_relabel (f : Relabel) (kind : BodyKind) (no : Option Stmt) :
    elseReturnsAs kind (relabelElse f no) ↔ elseReturnsAs kind no := by
  match no with
  | none => rfl
  | some s => exact s.returnsAs_relabel f kind

private theorem bodyReturnsAs_relabel (f : Relabel) (kind : BodyKind) (body : List Stmt) :
    bodyReturnsAs kind (relabelBody f body) ↔ bodyReturnsAs kind body := by
  match body with
  | [] => rfl
  | first :: others =>
    exact and_congr (first.returnsAs_relabel f kind) (bodyReturnsAs_relabel f kind others)

private theorem methodsReturn_relabel (f : Relabel) (methods : List FunDecl) :
    methodsReturn (relabelMethods f methods) ↔ methodsReturn methods := by
  match methods with
  | [] => rfl
  | first :: others =>
    have hkind : (first.relabel f).methodKind = first.methodKind := by
      simp [FunDecl.methodKind]
    rw [relabelMethods, methodsReturn, methodsReturn, hkind]
    exact and_congr (first.returnsAs_relabel f first.methodKind) (methodsReturn_relabel f others)

end

/-- No statement of a program that is run returns anything, and all functions in it return what they
may. -/
theorem returnsAs_runnable (source : String) :
    bodyReturnsAs .program (Machine.runnable source) := by
  simp only [Machine.runnable]
  split
  · rename_i herrors
    obtain ⟨hparse, hresolve⟩ := herrors
    obtain ⟨hviolations, hsame⟩ := resolve_reports (proper_of_parse hparse).1
    rw [hresolve] at hviolations
    have hprogram : bodyReturnsAs .program (parse source).program :=
      returnsAs_of_bodySites _ (fun _ => rfl) hviolations.symm
    rw [← relabelBody_eq_map, ← relabelBody_eq_map] at hsame
    rw [← bodyReturnsAs_relabel .noDistances, hsame, bodyReturnsAs_relabel]
    exact hprogram
  · trivial

/-! ## The functions of a program -/

def returningOrigin : Origin := fun isInitializer decl =>
  ∃ kind, (isInitializer = true → kind = .initializer) ∧ decl.ReturnsAs kind

private theorem methods_returningOrigin {methods : List FunDecl} (h : methodsReturn methods) :
    ∀ decl ∈ methods, returningOrigin decl.isInitializer decl := by
  induction methods with
  | nil =>
    intro decl hdecl
    exact absurd hdecl List.not_mem_nil
  | cons first others ih =>
    intro decl hdecl
    rcases List.mem_cons.mp hdecl with rfl | hdecl
    · exact ⟨decl.methodKind, fun hinit => by simp [FunDecl.methodKind, hinit], h.1⟩
    · exact ih h.2 decl hdecl

mutual

private theorem Stmt.ReturnsAs.makes {kind : BodyKind} {s : Stmt} (h : s.ReturnsAs kind) :
    s.Makes returningOrigin := by
  match s, h with
  | .funDecl decl, h => exact ⟨.function, fun hfalse => absurd hfalse Bool.false_ne_true, h⟩
  | .classDecl span name superclass methods, h => exact methods_returningOrigin h
  | .block span body, h => exact bodyMakes_of_returnsAs h
  | .branch span condition yes (some no), h =>
    exact ⟨Stmt.ReturnsAs.makes h.1, Stmt.ReturnsAs.makes h.2⟩
  | .branch span condition yes none, h => exact ⟨Stmt.ReturnsAs.makes h.1, trivial⟩
  | .loop span condition body, h => exact Stmt.ReturnsAs.makes (s := body) h
  | .expr .., _ | .print .., _ | .varDecl .., _ | .ret .., _ => trivial

private theorem bodyMakes_of_returnsAs {kind : BodyKind} {body : List Stmt}
    (h : bodyReturnsAs kind body) :
    bodyMakes returningOrigin body := by
  match body, h with
  | [], _ => trivial
  | first :: others, h => exact ⟨Stmt.ReturnsAs.makes h.1, bodyMakes_of_returnsAs h.2⟩

end

theorem FunDecl.returnsAs_iff (kind : BodyKind) (decl : FunDecl) :
    decl.ReturnsAs kind ↔ bodyReturnsAs kind decl.body := by
  cases decl
  rfl

namespace Machine

/-- At no moment of a session there is a function that returns what it may not. -/
theorem returning_session (clock : Nat → Float) (fuel : Nat) (room : Option Nat)
    (sources : List String) :
    ∀ x ∈ sessionMoments clock fuel sources (Machine.initial room), x.From returningOrigin := by
  refine from_session ?_ fuel (fun source => bodyMakes_of_returnsAs (returnsAs_runnable source))
    sources (.initial room)
  rintro isInitializer decl ⟨kind, -, hreturns⟩
  exact bodyMakes_of_returnsAs ((decl.returnsAs_iff kind).mp hreturns)

end Machine

end LoxLang
