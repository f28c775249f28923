import LoxLang.Proofs.Cursor.Basic

namespace LoxLang

/-- The nodes of a program that have a place. -/
inductive Tree
  | expr (e : Expr)
  | stmt (s : Stmt)
  | method (decl : FunDecl)

def Expr.children : Expr → List Expr
  | .literal .. | .var .. | .this .. | .super .. => []
  | .grouping _ inner => [inner]
  | .unary _ _ operand => [operand]
  | .binary _ _ left right | .logical _ _ left right => [left, right]
  | .assign _ _ value => [value]
  | .call _ callee args => callee :: args
  | .get _ object _ => [object]
  | .set _ object _ value => [object, value]

/-- The nodes right below a statement. The name of a superclass is a use of a variable. -/
def Stmt.children : Stmt → List Tree
  | .expr _ value | .print _ value => [.expr value]
  | .ret _ value | .varDecl _ _ value => value.toList.map .expr
  | .funDecl decl => decl.body.map .stmt
  | .classDecl _ _ superclass methods =>
    superclass.toList.map (fun above => .expr (.var above.span above.value)) ++
      methods.map .method
  | .block _ body => body.map .stmt
  | .branch _ condition yes no => .expr condition :: .stmt yes :: no.toList.map .stmt
  | .loop _ condition body => [.expr condition, .stmt body]

namespace Tree

def span : Tree → Span
  | expr e => e.span
  | stmt s => s.span
  | method decl => decl.span

def children : Tree → List Tree
  | expr e => e.children.map expr
  | stmt s => s.children
  | method decl => decl.body.map stmt

inductive Has : Tree → Tree → Prop
  | root (t : Tree) : Has t t
  | under {t child node : Tree} (h : child ∈ t.children) (rest : Has child node) : Has t node

end Tree

/-- A span covers the lexemes from `i` up to, and not including, `k`: it starts where the first of
them starts, and stops where the last of them stops, unless that is before its start. -/
structure Input.Covers (input : Input) (i k : Nat) (span : Span) : Prop where
  nonempty : i < k
  inside : k ≤ input.lexemes.length
  start : span.start = (input.spanAt i).start
  stop : (input.spanAt i).start ≤ (input.spanAt (k - 1)).stop →
    span.stop = (input.spanAt (k - 1)).stop

theorem Reader.Stands.covers {input : Input} {cursor i : Nat} {r : Reader}
    (h : r.Stands input cursor) (hi : i < cursor) :
    input.Covers i cursor (r.spanFrom (input.spanAt i).start) := by
  have hlt : cursor - 1 < input.lexemes.length := by
    have := h.inside
    omega
  have hat : input.lexemes[cursor - 1]? = some input.lexemes[cursor - 1] :=
    List.getElem?_eq_getElem hlt
  have hlast : r.last = some input.lexemes[cursor - 1] := by
    rw [h.last, take_succ hat, Nat.sub_add_cancel (by omega)]
  unfold Reader.spanFrom
  rw [hlast]
  refine ⟨hi, h.inside, rfl, fun hle => ?_⟩
  rw [Input.spanAt_of_getElem? hat] at hle ⊢
  exact Nat.max_eq_left hle

theorem Input.covers_spanAt {input : Input} {cursor : Nat} (h : cursor < input.lexemes.length) :
    input.Covers cursor (cursor + 1) (input.spanAt cursor) :=
  ⟨Nat.lt_succ_self _, h, rfl, fun _ => rfl⟩

/-- The root of a tree covers a part of the stretch from `i` to `k`, and the children are spread
over that part. -/
inductive Tree.Spread (input : Input) : Nat → Nat → Tree → Prop
  | node {i k i' k' : Nat} {t : Tree} (left : i ≤ i') (right : k' ≤ k)
      (covers : input.Covers i' k' t.span)
      (children : ∀ child ∈ t.children, Spread input i' k' child) : Spread input i k t

namespace Tree.Spread

variable {input : Input} {i k i' k' : Nat} {t : Tree}

theorem whole (covers : input.Covers i k t.span)
    (children : ∀ child ∈ t.children, child.Spread input i k) : t.Spread input i k :=
  .node (Nat.le_refl _) (Nat.le_refl _) covers children

theorem mono (h : t.Spread input i k) (hi : i' ≤ i) (hk : k ≤ k') : t.Spread input i' k' := by
  obtain ⟨left, right, covers, children⟩ := h
  exact .node (Nat.le_trans hi left) (Nat.le_trans right hk) covers children

theorem lt (h : t.Spread input i k) : i < k := by
  obtain ⟨left, right, covers, -⟩ := h
  have := covers.nonempty
  omega

theorem child (h : t.Spread input i k) {child : Tree} (hmem : child ∈ t.children) :
    child.Spread input i k := by
  obtain ⟨left, right, -, children⟩ := h
  exact (children child hmem).mono left right

theorem leaf {e : Expr} (covers : input.Covers i k e.span) (hnone : e.children = []) :
    (Tree.expr e).Spread input i k := by
  refine whole covers fun child hmem => ?_
  simp [Tree.children, hnone] at hmem

theorem one {e operand : Expr} (covers : input.Covers i k e.span) (hone : e.children = [operand])
    (h : (Tree.expr operand).Spread input i k) : (Tree.expr e).Spread input i k := by
  refine whole covers fun child hmem => ?_
  obtain rfl : child = .expr operand := by simpa [Tree.children, hone] using hmem
  exact h

theorem two {e left right : Expr} (covers : input.Covers i k e.span)
    (htwo : e.children = [left, right]) (hleft : (Tree.expr left).Spread input i k)
    (hright : (Tree.expr right).Spread input i k) : (Tree.expr e).Spread input i k := by
  refine whole covers fun child hmem => ?_
  obtain rfl | rfl : child = .expr left ∨ child = .expr right := by
    simpa [Tree.children, htwo] using hmem
  · exact hleft
  · exact hright

theorem call {span : Span} {callee : Expr} {args : List Expr} (covers : input.Covers i k span)
    (hcallee : (Tree.expr callee).Spread input i k)
    (hargs : ∀ e ∈ args, (Tree.expr e).Spread input i k) :
    (Tree.expr (.call span callee args)).Spread input i k := by
  refine whole covers fun child hmem => ?_
  obtain rfl | ⟨e, he, rfl⟩ : child = .expr callee ∨ ∃ e ∈ args, Tree.expr e = child := by
    simpa [Tree.children, Expr.children] using hmem
  · exact hcallee
  · exact hargs e he

theorem optional {s : Stmt} (value : Option Expr) (covers : input.Covers i k s.span)
    (hs : s.children = value.toList.map .expr)
    (h : ∀ e ∈ value, (Tree.expr e).Spread input i k) : (Tree.stmt s).Spread input i k := by
  refine whole covers fun child hmem => ?_
  obtain ⟨e, he, rfl⟩ : ∃ e ∈ value, Tree.expr e = child := by
    simpa [Tree.children, hs] using hmem
  exact h e he

theorem body (body : List Stmt) (covers : input.Covers i k t.span)
    (ht : t.children = body.map .stmt) (h : ∀ s ∈ body, (Tree.stmt s).Spread input i k) :
    t.Spread input i k := by
  refine whole covers fun child hmem => ?_
  obtain ⟨s, hs, rfl⟩ := List.mem_map.mp (ht ▸ hmem)
  exact h s hs

theorem funDecl {decl : FunDecl} (h : (Tree.method decl).Spread input i k) :
    (Tree.stmt (.funDecl decl)).Spread input i k := by
  obtain ⟨left, right, covers, children⟩ := h
  exact .node left right covers children

theorem classDecl {span : Span} {name : String} {superclass : Option (Located Ref)}
    {methods : List FunDecl} (covers : input.Covers i k span)
    (hsuper : ∀ above ∈ superclass,
      (Tree.expr (.var above.span above.value)).Spread input i k)
    (hmethods : ∀ decl ∈ methods, (Tree.method decl).Spread input i k) :
    (Tree.stmt (.classDecl span name superclass methods)).Spread input i k := by
  refine whole covers fun child hmem => ?_
  rcases List.mem_append.mp hmem with hmem | hmem
  · obtain ⟨above, habove, rfl⟩ := List.mem_map.mp hmem
    exact hsuper above (Option.mem_toList.mp habove)
  · obtain ⟨decl, hdecl, rfl⟩ := List.mem_map.mp hmem
    exact hmethods decl hdecl

theorem branch {span : Span} {condition : Expr} {yes : Stmt} {no : Option Stmt}
    (covers : input.Covers i k span) (hcondition : (Tree.expr condition).Spread input i k)
    (hyes : (Tree.stmt yes).Spread input i k)
    (hno : ∀ s ∈ no, (Tree.stmt s).Spread input i k) :
    (Tree.stmt (.branch span condition yes no)).Spread input i k := by
  refine whole covers fun child hmem => ?_
  obtain rfl | rfl | ⟨s, hs, rfl⟩ :
      child = .expr condition ∨ child = .stmt yes ∨ ∃ s ∈ no, Tree.stmt s = child := by
    simpa [Tree.children, Stmt.children] using hmem
  · exact hcondition
  · exact hyes
  · exact hno s hs

theorem loop {span : Span} {condition : Expr} {body : Stmt} (covers : input.Covers i k span)
    (hcondition : (Tree.expr condition).Spread input i k)
    (hbody : (Tree.stmt body).Spread input i k) :
    (Tree.stmt (.loop span condition body)).Spread input i k := by
  refine whole covers fun child hmem => ?_
  obtain rfl | rfl : child = .expr condition ∨ child = .stmt body := by
    simpa [Tree.children, Stmt.children] using hmem
  · exact hcondition
  · exact hbody

/-- The increment of a counting loop is a statement at the place of its expression. -/
theorem increment {e : Expr} (h : (Tree.expr e).Spread input i k) :
    (Tree.stmt (.expr e.span e)).Spread input i k := by
  obtain ⟨left, right, covers, children⟩ := h
  refine .node left right covers fun child hmem => ?_
  obtain rfl := List.mem_singleton.mp hmem
  exact whole covers children

theorem pair {span : Span} {first second : Stmt} (covers : input.Covers i k span)
    (hfirst : (Tree.stmt first).Spread input i k) (hsecond : (Tree.stmt second).Spread input i k) :
    (Tree.stmt (.block span [first, second])).Spread input i k := by
  refine body [first, second] covers rfl fun s hs => ?_
  rcases List.mem_cons.mp hs with rfl | hs
  · exact hfirst
  · obtain rfl := List.mem_singleton.mp hs
    exact hsecond

theorem forRound {span : Span} {increment : Option Expr} {body : Stmt}
    (covers : input.Covers i k span)
    (hincrement : ∀ e ∈ increment, (Tree.expr e).Spread input i k)
    (hbody : (Tree.stmt body).Spread input i k) :
    (Tree.stmt (Parser.forRound span increment body)).Spread input i k := by
  cases increment with
  | none => exact hbody
  | some e => exact pair covers hbody (Spread.increment (hincrement e rfl))

/-- The statements that a counting loop stands for cover all of it, in whatever order they are. -/
theorem forLoop {span : Span} {init : Option Stmt} {condition increment : Option Expr}
    {body : Stmt} (covers : input.Covers i k span)
    (hinit : ∀ s ∈ init, (Tree.stmt s).Spread input i k)
    (hcondition : ∀ e ∈ condition, (Tree.expr e).Spread input i k)
    (hincrement : ∀ e ∈ increment, (Tree.expr e).Spread input i k)
    (hbody : (Tree.stmt body).Spread input i k) :
    (Tree.stmt (Parser.forLoop span init condition increment body)).Spread input i k := by
  have htest : (Tree.expr (condition.getD (.literal span (.bool true)))).Spread input i k := by
    cases condition with
    | none => exact leaf covers rfl
    | some e => exact hcondition e rfl
  have hloop := loop covers htest (forRound covers hincrement hbody)
  cases init with
  | none => exact hloop
  | some s => exact pair covers (hinit s rfl) hloop

end Tree.Spread

end LoxLang
