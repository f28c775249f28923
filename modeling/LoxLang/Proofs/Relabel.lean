import LoxLang.Tree.Basic
/-!
# Labels of trees

The spans and the distances of a tree are labels: they say where a node stands
and how far off a binding is, not what the program means. Relabelling keeps the
shape and the names of a tree and replaces its labels. Two trees are the same up
to spans if they agree once all spans are gone.
-/
namespace LoxLang

/-- What to put in the place of each span and of each distance. -/
structure Relabel where
  span : Span → Span
  distance : Option Nat → Option Nat

namespace Relabel

def noSpans : Relabel := ⟨fun _ => ⟨0, 0⟩, id⟩

def noDistances : Relabel := ⟨id, fun _ => none⟩

@[simp] theorem noSpans_span (span : Span) : noSpans.span span = ⟨0, 0⟩ := rfl

@[simp] theorem noSpans_distance (distance : Option Nat) : noSpans.distance distance = distance :=
  rfl

@[simp] theorem noDistances_span (span : Span) : noDistances.span span = span := rfl

@[simp] theorem noDistances_distance (distance : Option Nat) :
    noDistances.distance distance = none := rfl

end Relabel

def Ref.relabel (f : Relabel) (ref : Ref) : Ref :=
  ⟨ref.name, f.distance ref.distance⟩

mutual

def Expr.relabel (f : Relabel) : Expr → Expr
  | .literal span value => .literal (f.span span) value
  | .var span ref => .var (f.span span) (ref.relabel f)
  | .this span distance => .this (f.span span) (f.distance distance)
  | .super span distance method => .super (f.span span) (f.distance distance) method
  | .grouping span inner => .grouping (f.span span) (inner.relabel f)
  | .unary span op operand => .unary (f.span span) op (operand.relabel f)
  | .binary span op left right => .binary (f.span span) op (left.relabel f) (right.relabel f)
  | .logical span op left right => .logical (f.span span) op (left.relabel f) (right.relabel f)
  | .assign span target value => .assign (f.span span) (target.relabel f) (value.relabel f)
  | .call span callee args => .call (f.span span) (callee.relabel f) (relabelArguments f args)
  | .get span object name => .get (f.span span) (object.relabel f) name
  | .set span object name value =>
    .set (f.span span) (object.relabel f) name (value.relabel f)

def relabelArguments (f : Relabel) : List Expr → List Expr
  | [] => []
  | first :: others => first.relabel f :: relabelArguments f others

end

def Relabel.superclass (f : Relabel) (superclass : Located Ref) : Located Ref :=
  ⟨superclass.value.relabel f, f.span superclass.span⟩

mutual

def FunDecl.relabel (f : Relabel) : FunDecl → FunDecl
  | ⟨span, name, params, body⟩ => ⟨f.span span, name, params, relabelBody f body⟩

def Stmt.relabel (f : Relabel) : Stmt → Stmt
  | .expr span value => .expr (f.span span) (value.relabel f)
  | .print span value => .print (f.span span) (value.relabel f)
  | .ret span value => .ret (f.span span) (value.map (·.relabel f))
  | .varDecl span name value => .varDecl (f.span span) name (value.map (·.relabel f))
  | .funDecl decl => .funDecl (decl.relabel f)
  | .classDecl span name superclass methods =>
    .classDecl (f.span span) name (superclass.map f.superclass) (relabelMethods f methods)
  | .block span body => .block (f.span span) (relabelBody f body)
  | .branch span condition yes no =>
    .branch (f.span span) (condition.relabel f) (yes.relabel f) (relabelElse f no)
  | .loop span condition body => .loop (f.span span) (condition.relabel f) (body.relabel f)

def relabelElse (f : Relabel) : Option Stmt → Option Stmt
  | some s => some (s.relabel f)
  | none => none

def relabelBody (f : Relabel) : List Stmt → List Stmt
  | [] => []
  | first :: others => first.relabel f :: relabelBody f others

def relabelMethods (f : Relabel) : List FunDecl → List FunDecl
  | [] => []
  | first :: others => first.relabel f :: relabelMethods f others

end

@[simp] theorem relabelArguments_eq_map (f : Relabel) (args : List Expr) :
    relabelArguments f args = args.map (·.relabel f) := by
  induction args with
  | nil => rfl
  | cons first others ih => rw [relabelArguments, ih, List.map_cons]

@[simp] theorem relabelElse_eq_map (f : Relabel) (no : Option Stmt) :
    relabelElse f no = no.map (·.relabel f) := by
  cases no <;> rfl

@[simp] theorem relabelBody_eq_map (f : Relabel) (body : List Stmt) :
    relabelBody f body = body.map (·.relabel f) := by
  induction body with
  | nil => rfl
  | cons first others ih => rw [relabelBody, ih, List.map_cons]

@[simp] theorem relabelMethods_eq_map (f : Relabel) (methods : List FunDecl) :
    relabelMethods f methods = methods.map (·.relabel f) := by
  induction methods with
  | nil => rfl
  | cons first others ih => rw [relabelMethods, ih, List.map_cons]

@[simp] theorem name_relabel (f : Relabel) (decl : FunDecl) : (decl.relabel f).name = decl.name := by
  cases decl
  rw [FunDecl.relabel]

@[simp] theorem params_relabel (f : Relabel) (decl : FunDecl) :
    (decl.relabel f).params = decl.params := by
  cases decl
  rw [FunDecl.relabel]

@[simp] theorem body_relabel (f : Relabel) (decl : FunDecl) :
    (decl.relabel f).body = decl.body.map (·.relabel f) := by
  cases decl
  rw [FunDecl.relabel, relabelBody_eq_map]

@[simp] theorem isInitializer_relabel (f : Relabel) (decl : FunDecl) :
    (decl.relabel f).isInitializer = decl.isInitializer := by
  rw [FunDecl.isInitializer, FunDecl.isInitializer, name_relabel]

/-- Whether two programs differ in spans only. -/
def SameUpToSpans (p q : List Stmt) : Prop :=
  p.map (·.relabel .noSpans) = q.map (·.relabel .noSpans)

end LoxLang
