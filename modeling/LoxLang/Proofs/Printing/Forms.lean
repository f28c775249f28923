import LoxLang.Proofs.Printing.Words
import LoxLang.Proofs.Relabel
/-!
# Forms of printed expressions

A printed expression is a form: an atom, or a head with its parts in parentheses.
Different constructs share a spelling of their heads, but then they differ in the
number or in the kind of their parts. So a form can be told from its text, and an
expression from its form, up to its labels.
-/
namespace LoxLang

/-- What stands right after an opening parenthesis. -/
inductive Head
  | group
  | call
  | property
  | assign
  | unary (op : UnaryOp)
  | binary (op : BinaryOp)
  | logical (op : LogicalOp)
deriving DecidableEq

namespace Head

def spelling : Head → String
  | group => "group"
  | call => "call"
  | property => "."
  | assign => "="
  | unary op => op.spelling
  | binary op => op.spelling
  | logical op => op.spelling

/-- How many parts a head has; a call may have any number of arguments. -/
def arity : Head → Option Nat
  | group | unary _ => some 1
  | property | assign | binary _ | logical _ => some 2
  | call => none

def all : List Head :=
  [group, call, property, assign, unary .negate, unary .not, binary .add, binary .subtract,
    binary .multiply, binary .divide, binary .less, binary .lessEqual, binary .greater,
    binary .greaterEqual, binary .equal, binary .notEqual, logical .and, logical .or]

theorem mem_all (head : Head) : head ∈ all := by
  cases head with
  | unary op => cases op <;> decide
  | binary op => cases op <;> decide
  | logical op => cases op <;> decide
  | _ => decide

private theorem isSolid_spelling (head : Head) : ∀ c ∈ head.spelling.toList, isSolid c = true := by
  have h : ∀ head ∈ all, head.spelling.toList.all isSolid = true := by decide
  exact List.all_eq_true.mp (h head (mem_all head))

/-- Two heads with one spelling, such as a difference and a negation, have different numbers of
parts. -/
theorem eq_of_spelling {head head' : Head} (h : head.spelling = head'.spelling)
    (harity : head.arity = head'.arity ∨ head.arity = none ∨ head'.arity = none) :
    head = head' := by
  have hall : ∀ head ∈ all, ∀ head' ∈ all, head.spelling = head'.spelling →
      (head.arity = head'.arity ∨ head.arity = none ∨ head'.arity = none) → head = head' := by
    decide
  exact hall head (mem_all head) head' (mem_all head') h harity

end Head

inductive Form
  | atom (a : Atom)
  | node (head : Head) (parts : List Form)

mutual

def Form.print : Form → List Char
  | .atom a => a.text.toList
  | .node head parts => '(' :: (head.spelling.toList ++ (printParts parts ++ [')']))

def printParts : List Form → List Char
  | [] => []
  | first :: others => ' ' :: (first.print ++ printParts others)

end

mutual

def Form.Proper : Form → Prop
  | .atom a => a.Proper
  | .node head parts => (∀ n ∈ head.arity, parts.length = n) ∧ properParts parts

def properParts : List Form → Prop
  | [] => True
  | first :: others => first.Proper ∧ properParts others

end

private theorem stops_parts (parts : List Form) (rest : List Char) :
    Stops (printParts parts ++ ')' :: rest) := by
  cases parts with
  | nil => exact stops_paren rest
  | cons first others => exact stops_space _

private theorem Atom.Proper.ne_node {a : Atom} (h : a.Proper) (head : Head) (parts : List Form)
    (rest rest' : List Char) :
    (Form.atom a).print ++ rest ≠ (Form.node head parts).print ++ rest' := by
  intro heq
  obtain ⟨first, others, htext, hfirst⟩ := h.head
  rw [Form.print, Form.print, htext] at heq
  exact hfirst (List.cons.inj heq).1

private theorem Head.eq_of_parts {head head' : Head} {parts : List Form}
    (h : ∀ n ∈ head.arity, parts.length = n) (h' : ∀ n ∈ head'.arity, parts.length = n)
    (hspelling : head.spelling = head'.spelling) : head = head' := by
  refine eq_of_spelling hspelling ?_
  cases hn : head.arity with
  | none => exact .inr (.inl rfl)
  | some n =>
    cases hn' : head'.arity with
    | none => exact .inr (.inr rfl)
    | some n' => exact .inl (congrArg some ((h n hn).symm.trans (h' n' hn')))

mutual

/-- A text begins with at most one form. -/
theorem Form.print_inj {f g : Form} {rest rest' : List Char} (hf : f.Proper) (hg : g.Proper)
    (hrest : Stops rest) (hrest' : Stops rest') (h : f.print ++ rest = g.print ++ rest') :
    f = g ∧ rest = rest' := by
  match f, g, hf, hg with
  | .atom a, .atom b, ha, hb =>
    obtain ⟨rfl, hsame⟩ := Atom.text_inj ha hb hrest hrest' h
    exact ⟨rfl, hsame⟩
  | .atom a, .node head parts, ha, _ => exact absurd h (ha.ne_node head parts _ _)
  | .node head parts, .atom b, _, hb => exact absurd h.symm (hb.ne_node head parts _ _)
  | .node head parts, .node head' parts', ⟨hlength, hparts⟩, ⟨hlength', hparts'⟩ =>
    simp only [Form.print, List.cons_append, List.append_assoc, List.nil_append] at h
    obtain ⟨hspelling, htail⟩ := solid_inj head.isSolid_spelling head'.isSolid_spelling
      (stops_parts parts rest) (stops_parts parts' rest') (List.tail_eq_of_cons_eq h)
    obtain ⟨rfl, hsame⟩ := printParts_inj hparts hparts' htail
    rw [Head.eq_of_parts hlength hlength' (String.toList_inj.mp hspelling)]
    exact ⟨rfl, hsame⟩

private theorem printParts_inj {fs gs : List Form} {rest rest' : List Char} (hf : properParts fs)
    (hg : properParts gs) (h : printParts fs ++ ')' :: rest = printParts gs ++ ')' :: rest') :
    fs = gs ∧ rest = rest' := by
  match fs, gs, hf, hg with
  | [], [], _, _ => exact ⟨rfl, List.tail_eq_of_cons_eq h⟩
  | [], g :: gs, _, _ => exact absurd (List.cons.inj h).1 (by decide)
  | f :: fs, [], _, _ => exact absurd (List.cons.inj h).1 (by decide)
  | f :: fs, g :: gs, ⟨hfirst, hothers⟩, ⟨hfirst', hothers'⟩ =>
    simp only [printParts, List.cons_append, List.append_assoc] at h
    obtain ⟨rfl, htail⟩ := Form.print_inj hfirst hfirst' (stops_parts fs rest)
      (stops_parts gs rest') (List.tail_eq_of_cons_eq h)
    obtain ⟨rfl, hsame⟩ := printParts_inj hothers hothers' htail
    exact ⟨rfl, hsame⟩

end

/-! ## Forms of expressions -/

mutual

/-- What is printed of an expression. -/
def Expr.form : Expr → Form
  | .literal _ value => .atom (.literal value)
  | .var _ ref => .atom (.name ref.name)
  | .this .. => .atom .this
  | .super _ _ method => .node .property [.atom .super, .atom (.name method)]
  | .grouping _ inner => .node .group [inner.form]
  | .unary _ op operand => .node (.unary op) [operand.form]
  | .binary _ op left right => .node (.binary op) [left.form, right.form]
  | .logical _ op left right => .node (.logical op) [left.form, right.form]
  | .assign _ target value => .node .assign [.atom (.name target.name), value.form]
  | .call _ callee args => .node .call (callee.form :: formArguments args)
  | .get _ object name => .node .property [object.form, .atom (.name name)]
  | .set _ object name value =>
    .node .assign [.node .property [object.form, .atom (.name name)], value.form]

def formArguments : List Expr → List Form
  | [] => []
  | first :: others => first.form :: formArguments others

end

attribute [simp] Head.spelling Atom.text Form.print printParts

private theorem toString_eq (text : String) : toString text = text := rfl

mutual

private theorem Expr.toList_display (e : Expr) : e.display.toList = e.form.print := by
  match e with
  | .literal _ value => rfl
  | .var _ ref => rfl
  | .this .. => rfl
  | .super _ _ method => simp [Expr.display, Expr.form, toString_eq]
  | .grouping _ inner => simp [Expr.display, Expr.form, toString_eq, inner.toList_display]
  | .unary _ op operand => simp [Expr.display, Expr.form, toString_eq, operand.toList_display]
  | .binary _ op left right =>
    simp [Expr.display, Expr.form, toString_eq, left.toList_display, right.toList_display]
  | .logical _ op left right =>
    simp [Expr.display, Expr.form, toString_eq, left.toList_display, right.toList_display]
  | .assign _ target value => simp [Expr.display, Expr.form, toString_eq, value.toList_display]
  | .call _ callee args =>
    simp [Expr.display, Expr.form, toString_eq, callee.toList_display,
      toList_displayArguments args]
  | .get _ object name => simp [Expr.display, Expr.form, toString_eq, object.toList_display]
  | .set _ object name value =>
    simp [Expr.display, Expr.form, toString_eq, object.toList_display, value.toList_display]

private theorem toList_displayArguments (args : List Expr) :
    (displayArguments args).toList = printParts (formArguments args) := by
  match args with
  | [] => rfl
  | first :: others =>
    simp [displayArguments, formArguments, toString_eq, first.toList_display,
      toList_displayArguments others]

end

/-! ## Expressions of a form -/

namespace Relabel

/-- Forgets where nodes stand and how far off bindings are. -/
def bare : Relabel := ⟨fun _ => ⟨0, 0⟩, fun _ => none⟩

@[simp] theorem bare_span (span : Span) : bare.span span = ⟨0, 0⟩ := rfl

@[simp] theorem bare_distance (distance : Option Nat) : bare.distance distance = none := rfl

end Relabel

@[simp] theorem Ref.relabel_bare (ref : Ref) : ref.relabel .bare = ⟨ref.name, none⟩ := rfl

private theorem Expr.form_ne_super (e : Expr) : e.form ≠ .atom .super := by
  cases e <;> simp [Expr.form]

mutual

/-- Expressions with the same form differ in their labels only. -/
theorem Expr.relabel_eq_of_form {e e' : Expr} (h : e.form = e'.form) :
    e.relabel .bare = e'.relabel .bare := by
  match e with
  | .literal _ value =>
    cases e' with
    | literal _ value' =>
      obtain rfl : value = value' := by simpa [Expr.form] using h
      simp [Expr.relabel]
    | _ => simp [Expr.form] at h
  | .var _ ref =>
    cases e' with
    | var _ ref' =>
      have hname : ref.name = ref'.name := by simpa [Expr.form] using h
      simp [Expr.relabel, hname]
    | _ => simp [Expr.form] at h
  | .this _ _ =>
    cases e' with
    | this _ _ => simp [Expr.relabel]
    | _ => simp [Expr.form] at h
  | .super _ _ method =>
    cases e' with
    | super _ _ method' =>
      obtain rfl : method = method' := by simpa [Expr.form] using h
      simp [Expr.relabel]
    | get _ object name => simp [Expr.form, (Expr.form_ne_super object).symm] at h
    | _ => simp [Expr.form] at h
  | .grouping _ inner =>
    cases e' with
    | grouping _ inner' =>
      have hinner : inner.form = inner'.form := by simpa [Expr.form] using h
      simp [Expr.relabel, Expr.relabel_eq_of_form hinner]
    | _ => simp [Expr.form] at h
  | .unary _ op operand =>
    cases e' with
    | unary _ op' operand' =>
      obtain ⟨rfl, hoperand⟩ : op = op' ∧ operand.form = operand'.form := by
        simpa [Expr.form] using h
      simp [Expr.relabel, Expr.relabel_eq_of_form hoperand]
    | _ => simp [Expr.form] at h
  | .binary _ op left right =>
    cases e' with
    | binary _ op' left' right' =>
      obtain ⟨rfl, hleft, hright⟩ :
          op = op' ∧ left.form = left'.form ∧ right.form = right'.form := by
        simpa [Expr.form] using h
      simp [Expr.relabel, Expr.relabel_eq_of_form hleft, Expr.relabel_eq_of_form hright]
    | _ => simp [Expr.form] at h
  | .logical _ op left right =>
    cases e' with
    | logical _ op' left' right' =>
      obtain ⟨rfl, hleft, hright⟩ :
          op = op' ∧ left.form = left'.form ∧ right.form = right'.form := by
        simpa [Expr.form] using h
      simp [Expr.relabel, Expr.relabel_eq_of_form hleft, Expr.relabel_eq_of_form hright]
    | _ => simp [Expr.form] at h
  | .assign _ target value =>
    cases e' with
    | assign _ target' value' =>
      obtain ⟨hname, hvalue⟩ : target.name = target'.name ∧ value.form = value'.form := by
        simpa [Expr.form] using h
      simp [Expr.relabel, hname, Expr.relabel_eq_of_form hvalue]
    | _ => simp [Expr.form] at h
  | .call _ callee args =>
    cases e' with
    | call _ callee' args' =>
      obtain ⟨hcallee, hargs⟩ :
          callee.form = callee'.form ∧ formArguments args = formArguments args' := by
        simpa [Expr.form] using h
      simp [Expr.relabel, Expr.relabel_eq_of_form hcallee, map_relabel_eq_of_form hargs]
    | _ => simp [Expr.form] at h
  | .get _ object name =>
    cases e' with
    | get _ object' name' =>
      obtain ⟨hobject, rfl⟩ : object.form = object'.form ∧ name = name' := by
        simpa [Expr.form] using h
      simp [Expr.relabel, Expr.relabel_eq_of_form hobject]
    | super _ _ method => simp [Expr.form, Expr.form_ne_super object] at h
    | _ => simp [Expr.form] at h
  | .set _ object name value =>
    cases e' with
    | set _ object' name' value' =>
      obtain ⟨⟨hobject, rfl⟩, hvalue⟩ :
          (object.form = object'.form ∧ name = name') ∧ value.form = value'.form := by
        simpa [Expr.form] using h
      simp [Expr.relabel, Expr.relabel_eq_of_form hobject, Expr.relabel_eq_of_form hvalue]
    | _ => simp [Expr.form] at h

private theorem map_relabel_eq_of_form {args args' : List Expr}
    (h : formArguments args = formArguments args') :
    args.map (·.relabel .bare) = args'.map (·.relabel .bare) := by
  match args, args' with
  | [], [] => rfl
  | [], _ :: _ => simp [formArguments] at h
  | _ :: _, [] => simp [formArguments] at h
  | first :: others, first' :: others' =>
    obtain ⟨hfirst, hothers⟩ :
        first.form = first'.form ∧ formArguments others = formArguments others' := by
      simpa [formArguments] using h
    rw [List.map_cons, List.map_cons, Expr.relabel_eq_of_form hfirst,
      map_relabel_eq_of_form hothers]

end

theorem Expr.relabel_eq_of_display {e e' : Expr} (he : e.form.Proper) (he' : e'.form.Proper)
    (h : e.display = e'.display) : e.relabel .bare = e'.relabel .bare := by
  have htext := congrArg String.toList h
  rw [toList_display, toList_display] at htext
  refine relabel_eq_of_form (Form.print_inj he he' stops_nil stops_nil ?_).1
  rw [htext]

end LoxLang
