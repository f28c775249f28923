import LoxLang.Proofs.Scoping.Proper
import LoxLang.Tree.Resolve
/-!
# Scoped trees

When the distances of a tree are right for the scopes around it. A use has the
number of frames out to the innermost one that declares its name; a local name is
declared once in its frame and is not read before its initializer is over; and
around `this` and `super` stand the frames that a class puts there.
-/
namespace LoxLang

def distanceIn (frames : List Frame) (name : String) : Option Nat :=
  frames.findIdx? (·.declares name)

def putName (name : String) (ready : Bool) : List Frame → List Frame
  | [] => []
  | frame :: outer => ((name, ready) :: frame) :: outer

def declareName (name : String) (frames : List Frame) : List Frame :=
  putName name true (putName name false frames)

def thisFrame : Frame := [("this", true), ("this", false)]

def superFrame : Frame := [("super", true), ("super", false)]

def paramFrame (params : List String) : Frame :=
  params.foldl (fun frame name => (name, true) :: (name, false) :: frame) []

def Fresh (frames : List Frame) (name : String) : Prop :=
  ∀ frame ∈ frames.head?, frame.declares name = false

def Ref.Readable (frames : List Frame) (ref : Ref) : Prop :=
  ref.distance = distanceIn frames ref.name ∧ ∀ frame ∈ frames.head?, frame.isPending ref.name = false

mutual

def Expr.Scoped (frames : List Frame) : Expr → Prop
  | .literal .. => True
  | .var _ ref => ref.Readable frames
  | .this _ distance => ∃ k, distance = some k ∧ distanceIn frames "this" = some k
  | .super _ distance _ => ∃ k, distance = some (k + 1) ∧ distanceIn frames "this" = some k ∧
      distanceIn frames "super" = some (k + 1)
  | .grouping _ inner => inner.Scoped frames
  | .unary _ _ operand => operand.Scoped frames
  | .binary _ _ left right => left.Scoped frames ∧ right.Scoped frames
  | .logical _ _ left right => left.Scoped frames ∧ right.Scoped frames
  | .assign _ target value => target.distance = distanceIn frames target.name ∧
      ¬Reserved target.name ∧ value.Scoped frames
  | .call _ callee args => callee.Scoped frames ∧ scopedArguments frames args
  | .get _ object _ => object.Scoped frames
  | .set _ object _ value => object.Scoped frames ∧ value.Scoped frames

def scopedArguments (frames : List Frame) : List Expr → Prop
  | [] => True
  | first :: others => first.Scoped frames ∧ scopedArguments frames others

end

/-- The frames that the statements after a statement see. -/
def Stmt.framesAfter (s : Stmt) (frames : List Frame) : List Frame :=
  match s.declared? with
  | some name => declareName name frames
  | none => frames

mutual

def FunDecl.Scoped : List Frame → FunDecl → Prop
  | frames, ⟨_, _, params, body⟩ => params.Nodup ∧ (∀ name ∈ params, ¬Reserved name) ∧
      scopedBody (paramFrame params :: frames) body

def Stmt.Scoped : List Frame → Stmt → Prop
  | frames, .expr _ value => value.Scoped frames
  | frames, .print _ value => value.Scoped frames
  | frames, .ret _ value => ∀ e ∈ value, e.Scoped frames
  | frames, .varDecl _ name value => (¬Reserved name ∧ Fresh frames name) ∧
      ∀ e ∈ value, e.Scoped (putName name false frames)
  | frames, .funDecl decl => (¬Reserved decl.name ∧ Fresh frames decl.name) ∧
      decl.Scoped (declareName decl.name frames)
  | frames, .classDecl _ name none methods => (¬Reserved name ∧ Fresh frames name) ∧
      scopedMethods (thisFrame :: declareName name frames) methods
  | frames, .classDecl _ name (some superclass) methods => (¬Reserved name ∧ Fresh frames name) ∧
      superclass.value.Readable (declareName name frames) ∧
      scopedMethods (thisFrame :: superFrame :: declareName name frames) methods
  | frames, .block _ body => scopedBody ([] :: frames) body
  | frames, .branch _ condition yes no => condition.Scoped frames ∧
      (yes.Scoped frames ∧ yes.declared? = none) ∧ scopedElse frames no
  | frames, .loop _ condition body => condition.Scoped frames ∧
      body.Scoped frames ∧ body.declared? = none

def scopedElse : List Frame → Option Stmt → Prop
  | frames, some s => s.Scoped frames ∧ s.declared? = none
  | _, none => True

def scopedBody : List Frame → List Stmt → Prop
  | _, [] => True
  | frames, first :: others => first.Scoped frames ∧ scopedBody (first.framesAfter frames) others

def scopedMethods : List Frame → List FunDecl → Prop
  | _, [] => True
  | frames, first :: others => first.Scoped frames ∧ scopedMethods frames others

end

/-! ## Frames -/

@[simp] theorem Frame.declares_nil (name : String) : Frame.declares [] name = false := rfl

@[simp] theorem Frame.declares_cons (entry : String × Bool) (frame : Frame) (name : String) :
    Frame.declares (entry :: frame) name = (decide (entry.1 = name) || frame.declares name) := rfl

theorem distanceIn_nil (name : String) : distanceIn [] name = none := rfl

theorem distanceIn_cons (frame : Frame) (outer : List Frame) (name : String) :
    distanceIn (frame :: outer) name =
      if frame.declares name then some 0 else (distanceIn outer name).map (· + 1) := by
  rw [distanceIn, List.findIdx?_cons]
  rfl

theorem distanceIn_putName {name other : String} (ready : Bool) (frames : List Frame)
    (h : name ≠ other) : distanceIn (putName name ready frames) other = distanceIn frames other := by
  cases frames with
  | nil => rfl
  | cons frame outer =>
    rw [putName, distanceIn_cons, distanceIn_cons, Frame.declares_cons, decide_eq_false h,
      Bool.false_or]

theorem tail_putName (name : String) (ready : Bool) (frames : List Frame) :
    (putName name ready frames).tail = frames.tail := by
  cases frames <;> rfl

theorem length_putName (name : String) (ready : Bool) (frames : List Frame) :
    (putName name ready frames).length = frames.length := by
  cases frames <;> rfl

/-- Global names are in no frame. -/
theorem framesAfter_nil (s : Stmt) : s.framesAfter [] = [] := by
  unfold Stmt.framesAfter
  cases s.declared? <;> rfl

@[simp] theorem declared?_relabel (f : Relabel) (s : Stmt) :
    (s.relabel f).declared? = s.declared? := by
  cases s with
  | funDecl decl => cases decl; simp [Stmt.relabel, FunDecl.relabel, Stmt.declared?]
  | _ => simp [Stmt.relabel, Stmt.declared?]

def Inside : ClassKind → List Frame → Prop
  | .outside, _ => True
  | .base, frames => ∃ k, distanceIn frames "this" = some k
  | .derived, frames => ∃ k, distanceIn frames "this" = some k ∧
      distanceIn frames "super" = some (k + 1)

theorem Inside.putName {inside : ClassKind} {frames : List Frame} {name : String} {ready : Bool}
    (h : Inside inside frames) (hname : ¬Reserved name) :
    Inside inside (putName name ready frames) := by
  have hthis := distanceIn_putName ready frames (fun h => hname (.inl h))
  have hsuper := distanceIn_putName ready frames (fun h => hname (.inr h))
  cases inside with
  | outside => trivial
  | base => rwa [Inside, hthis]
  | derived => rwa [Inside, hthis, hsuper]

theorem Inside.declareName {inside : ClassKind} {frames : List Frame} {name : String}
    (h : Inside inside frames) (hname : ¬Reserved name) :
    Inside inside (declareName name frames) :=
  (h.putName hname).putName hname

theorem Inside.cons {inside : ClassKind} {frames : List Frame} {frame : Frame}
    (h : Inside inside frames) (hframe : ∀ name, Reserved name → frame.declares name = false) :
    Inside inside (frame :: frames) := by
  have hthis := hframe "this" (.inl rfl)
  have hsuper := hframe "super" (.inr rfl)
  cases inside with
  | outside => trivial
  | base =>
    obtain ⟨k, hk⟩ := h
    exact ⟨k + 1, by rw [distanceIn_cons, hthis, hk]; rfl⟩
  | derived =>
    obtain ⟨k, hk, hs⟩ := h
    exact ⟨k + 1, by rw [distanceIn_cons, hthis, hk]; rfl, by rw [distanceIn_cons, hsuper, hs]; rfl⟩

theorem inside_base (frames : List Frame) : Inside .base (thisFrame :: frames) :=
  ⟨0, by rw [distanceIn_cons]; rfl⟩

theorem inside_derived (frames : List Frame) : Inside .derived (thisFrame :: superFrame :: frames) :=
  ⟨0, by rw [distanceIn_cons]; rfl, by rw [distanceIn_cons, distanceIn_cons]; rfl⟩

private theorem declares_foldl (params : List String) (frame : Frame) (name : String) :
    Frame.declares (params.foldl (fun frame name => (name, true) :: (name, false) :: frame) frame)
      name = (decide (name ∈ params) || frame.declares name) := by
  induction params generalizing frame with
  | nil => simp
  | cons first others ih =>
    rw [List.foldl_cons, ih]
    by_cases h : name = first
    · simp [h]
    · have h' : ¬first = name := fun he => h he.symm
      simp [h, h']

theorem declares_paramFrame (params : List String) (name : String) :
    (paramFrame params).declares name = decide (name ∈ params) := by
  rw [paramFrame, declares_foldl, Frame.declares_nil, Bool.or_false]

end LoxLang
