import LoxLang.Proofs.Scoping.Scoped
import LoxLang.Session
/-!
# Resolution gives scoped trees

What a step of resolution does, whatever it finds: it loses no error, gives back
the scopes that it began with up to names in the innermost one, and never ends the
global scope. If it finds no error, then the tree that it returns is the one that
it was given, with distances that are right.
-/
namespace LoxLang

structure Resolver.Keeps (r r' : Resolver) : Prop where
  errors : r.errors.size ≤ r'.errors.size
  globalEnded : r'.globalEnded = r.globalEnded
  length : r'.frames.length = r.frames.length
  tail : r'.frames.tail = r.frames.tail

namespace Resolver.Keeps

variable {r r' r'' : Resolver}

theorem refl (r : Resolver) : r.Keeps r :=
  ⟨Nat.le_refl _, rfl, rfl, rfl⟩

theorem trans (h : r.Keeps r') (h' : r'.Keeps r'') : r.Keeps r'' :=
  ⟨Nat.le_trans h.errors h'.errors, h'.globalEnded.trans h.globalEnded, h'.length.trans h.length,
    h'.tail.trans h.tail⟩

end Resolver.Keeps

namespace Resolve

variable {α β : Type}

/-- A step keeps what it must, and if it finds no error, then `P` relates the frames before, the
result and the frames after. -/
def Resolves (p : Resolve α) (P : List Frame → α → List Frame → Prop) : Prop :=
  ∀ r, r.Keeps (p r).2 ∧
    ((p r).2.errors.size = r.errors.size → P r.frames (p r).1 (p r).2.frames)

namespace Resolves

variable {p : Resolve α} {P Q : List Frame → α → List Frame → Prop}

theorem mono (h : Resolves p P) (hPQ : ∀ fs a gs, P fs a gs → Q fs a gs) : Resolves p Q :=
  fun r => ⟨(h r).1, fun he => hPQ _ _ _ ((h r).2 he)⟩

theorem pure {a : α} (h : ∀ fs, P fs a fs) : Resolves (Pure.pure a) P :=
  fun r => ⟨.refl r, fun _ => h r.frames⟩

theorem bind {f : α → Resolve β} {Q : List Frame → β → List Frame → Prop}
    (hp : Resolves p P) (hf : ∀ a, Resolves (f a) (fun ms b gs => ∀ fs, P fs a ms → Q fs b gs)) :
    Resolves (p >>= f) Q := by
  intro r
  obtain ⟨hkeep, hP⟩ := hp r
  obtain ⟨hkeep', hQ⟩ := hf (p r).1 (p r).2
  have hrun : (p >>= f) r = f (p r).1 (p r).2 := rfl
  rw [hrun]
  refine ⟨hkeep.trans hkeep', fun he => ?_⟩
  have h₁ := hkeep.errors
  have h₂ := hkeep'.errors
  exact hQ (by omega) _ (hP (by omega))

theorem map {f : α → β} {Q : List Frame → β → List Frame → Prop}
    (hp : Resolves p (fun fs a gs => Q fs (f a) gs)) : Resolves (f <$> p) Q :=
  hp

end Resolves

private theorem resolves_report {P : List Frame → Unit → List Frame → Prop} (error : Error)
    (span : Span) :
    Resolves (report error span) P := by
  intro r
  have hrun : report error span r = ((), { r with errors := r.errors.push ⟨error, span⟩ }) := rfl
  rw [hrun]
  refine ⟨⟨by simp, rfl, rfl, rfl⟩, fun he => ?_⟩
  simp at he

theorem put_apply (name : String) (ready : Bool) (r : Resolver) :
    put name ready r = ((), { r with frames := putName name ready r.frames }) := by
  cases r with
  | mk frames errors lookups globalEnded =>
    cases frames <;> rfl

private theorem resolves_put (name : String) (ready : Bool) :
    Resolves (put name ready) (fun fs _ gs => gs = putName name ready fs) := by
  intro r
  rw [put_apply]
  exact ⟨⟨Nat.le_refl _, rfl, length_putName _ _ _, tail_putName _ _ _⟩, fun _ => rfl⟩

private theorem resolves_getThen {f : Resolver → Resolve α} {P : List Frame → α → List Frame → Prop}
    (hf : ∀ r, Resolves (f r) (fun fs a gs => fs = r.frames → P fs a gs)) :
    Resolves (get >>= f) P :=
  fun r => ⟨(hf r r).1, fun he => (hf r r).2 he rfl⟩

private theorem resolves_declare (name : String) (span : Span) :
    Resolves (declare name span) (fun fs _ gs => gs = putName name false fs ∧ Fresh fs name) := by
  refine resolves_getThen fun r => ?_
  split
  · rename_i hf
    refine .pure fun fs hfs => ?_
    rw [hfs, hf]
    exact ⟨rfl, fun frame h => absurd h (by simp)⟩
  · rename_i frame outer hf
    refine (resolves_put name false).bind fun _ => ?_
    by_cases h : frame.declares name = true
    · rw [if_pos h]
      exact resolves_report _ _
    · rw [if_neg h]
      refine .pure fun gs fs hgs hfs => ⟨hgs, fun frame' h' => ?_⟩
      rw [hfs, hf] at h'
      obtain rfl : frame = frame' := by simpa using h'
      exact Bool.eq_false_iff.mpr h

private theorem resolves_declareDefined (name : String) (span : Span) :
    Resolves (declareDefined name span) (fun fs _ gs => gs = declareName name fs ∧ Fresh fs name) := by
  refine (resolves_declare name span).bind fun _ => (resolves_put name true).mono ?_
  intro ms _ gs hgs fs hfs
  obtain ⟨rfl, hfresh⟩ := hfs
  exact ⟨hgs, hfresh⟩

private theorem resolves_distance (name : String) :
    Resolves (distance name) (fun fs d gs => gs = fs ∧ d = distanceIn fs name) :=
  fun _ => ⟨⟨Nat.le_refl _, rfl, rfl, rfl⟩, fun _ => ⟨rfl, rfl⟩⟩

private theorem resolves_read (span : Span) (name : String) :
    Resolves (read span name) (fun fs ref gs => gs = fs ∧ ref.name = name ∧ ref.Readable fs) := by
  have hrest : Resolves (do return ⟨name, ← distance name⟩ : Resolve Ref)
      (fun fs ref gs => gs = fs ∧ ref = ⟨name, distanceIn fs name⟩) := by
    refine (resolves_distance name).bind fun d => .pure ?_
    intro gs fs hfs
    exact ⟨hfs.1, by rw [hfs.2]⟩
  refine resolves_getThen fun r => ?_
  by_cases h : r.frames.head?.any (·.isPending name) = true
  · simp only [h, if_true]
    refine (resolves_report (P := fun _ _ _ => False) _ _).bind fun _ => ?_
    exact hrest.mono fun _ _ _ _ _ hfalse => hfalse.elim
  · simp only [h]
    refine hrest.mono fun fs ref gs hgs hfs => ?_
    obtain ⟨rfl, rfl⟩ := hgs
    refine ⟨rfl, rfl, rfl, fun frame hframe => ?_⟩
    have hhead : r.frames.head? = some frame := hfs ▸ hframe
    rw [hhead] at h
    exact Bool.eq_false_iff.mpr h

theorem endScope_apply {fs : List Frame} {r : Resolver}
    (hlength : r.frames.length = fs.length + 1) (htail : r.frames.tail = fs) :
    endScope r = ((), { r with frames := fs }) := by
  cases r with
  | mk frames errors lookups globalEnded =>
    cases frames with
    | nil => exact absurd hlength (by simp)
    | cons frame outer =>
      subst htail
      rfl

private theorem resolves_inScope {p : Resolve α} {P : List Frame → α → List Frame → Prop}
    (hp : Resolves p P) :
    Resolves (inScope p) (fun fs a gs => gs = fs ∧ ∃ ms, P ([] :: fs) a ms) := by
  intro r
  obtain ⟨hkeep, hP⟩ := hp { r with frames := [] :: r.frames }
  have hrun : inScope p r = ((p { r with frames := [] :: r.frames }).1,
      (endScope (p { r with frames := [] :: r.frames }).2).2) := rfl
  rw [hrun, endScope_apply hkeep.length hkeep.tail]
  exact ⟨⟨hkeep.errors, hkeep.globalEnded, rfl, rfl⟩, fun he => ⟨rfl, _, hP he⟩⟩

end Resolve

/-! ## Expressions -/

open Resolve

def Expr.ResolvesTo (inside : ClassKind) (e : Expr) (fs : List Frame) (e' : Expr)
    (gs : List Frame) : Prop :=
  gs = fs ∧ e'.relabel .noDistances = e.relabel .noDistances ∧ (Inside inside fs → e'.Scoped fs)

def ArgumentsResolveTo (inside : ClassKind) (es : List Expr) (fs : List Frame) (es' : List Expr)
    (gs : List Frame) : Prop :=
  gs = fs ∧ es'.map (·.relabel .noDistances) = es.map (·.relabel .noDistances) ∧
    (Inside inside fs → scopedArguments fs es')

private theorem resolves_this (inside : ClassKind) (span : Span) (d : Option Nat) :
    Resolves ((Expr.this span d).resolve inside) (Expr.ResolvesTo inside (.this span d)) := by
  rw [Expr.resolve]
  by_cases h : inside = .outside
  · rw [if_pos h]
    refine (resolves_report (P := fun _ _ _ => False) _ _).bind fun _ => .pure ?_
    exact fun _ _ hfalse => hfalse.elim
  · rw [if_neg h]
    refine (resolves_distance "this").bind fun k => .pure fun gs fs hfs => ?_
    obtain ⟨rfl, rfl⟩ := hfs
    refine ⟨rfl, by simp [Expr.relabel], fun hin => ?_⟩
    cases inside with
    | outside => exact absurd rfl h
    | base =>
      obtain ⟨k, hk⟩ := hin
      exact ⟨k, hk, hk⟩
    | derived =>
      obtain ⟨k, hk, -⟩ := hin
      exact ⟨k, hk, hk⟩

private theorem resolves_super (inside : ClassKind) (span : Span) (d : Option Nat)
    (method : String) :
    Resolves ((Expr.super span d method).resolve inside)
      (Expr.ResolvesTo inside (.super span d method)) := by
  unfold Expr.resolve
  cases inside with
  | outside =>
    refine (resolves_report (P := fun _ _ _ => False) _ _).bind fun _ => ?_
    exact (resolves_distance "super").bind fun _ => .pure fun _ _ _ _ hfalse => hfalse.elim
  | base =>
    refine (resolves_report (P := fun _ _ _ => False) _ _).bind fun _ => ?_
    exact (resolves_distance "super").bind fun _ => .pure fun _ _ _ _ hfalse => hfalse.elim
  | derived =>
    refine (resolves_distance "super").bind fun k => .pure fun gs fs hfs => ?_
    obtain ⟨rfl, rfl⟩ := hfs
    refine ⟨rfl, by simp [Expr.relabel], fun hin => ?_⟩
    obtain ⟨k, hk, hs⟩ := hin
    exact ⟨k, hs, hk, hs⟩

mutual

private theorem Expr.resolves (inside : ClassKind) (e : Expr) (hproper : e.Proper) :
    Resolves (e.resolve inside) (Expr.ResolvesTo inside e) := by
  match e, hproper with
  | .literal span value, _ =>
    rw [Expr.resolve]
    exact .pure fun fs => ⟨rfl, rfl, fun _ => trivial⟩
  | .var span ref, _ =>
    rw [Expr.resolve]
    refine (resolves_read span ref.name).bind fun ref' => .pure fun gs fs hfs => ?_
    obtain ⟨rfl, hname, hread⟩ := hfs
    exact ⟨rfl, by simp [Expr.relabel, Ref.relabel, hname], fun _ => hread⟩
  | .this span d, _ => exact resolves_this inside span d
  | .super span d method, _ => exact resolves_super inside span d method
  | .grouping span inner, hinner =>
    rw [Expr.resolve]
    refine (inner.resolves inside hinner).bind fun inner' => .pure fun gs fs hfs => ?_
    obtain ⟨rfl, hlabel, hscoped⟩ := hfs
    exact ⟨rfl, by simp only [Expr.relabel, hlabel], hscoped⟩
  | .unary span op operand, hoperand =>
    rw [Expr.resolve]
    refine (operand.resolves inside hoperand).bind fun operand' => .pure fun gs fs hfs => ?_
    obtain ⟨rfl, hlabel, hscoped⟩ := hfs
    exact ⟨rfl, by simp only [Expr.relabel, hlabel], hscoped⟩
  | .binary span op left right, ⟨hleft, hright⟩ =>
    rw [Expr.resolve]
    refine (left.resolves inside hleft).bind fun left' =>
      (right.resolves inside hright).bind fun right' => .pure fun gs ms hms fs hfs => ?_
    obtain ⟨rfl, hl, hscopedl⟩ := hfs
    obtain ⟨rfl, hr, hscopedr⟩ := hms
    exact ⟨rfl, by simp only [Expr.relabel, hl, hr], fun hin => ⟨hscopedl hin, hscopedr hin⟩⟩
  | .logical span op left right, ⟨hleft, hright⟩ =>
    rw [Expr.resolve]
    refine (left.resolves inside hleft).bind fun left' =>
      (right.resolves inside hright).bind fun right' => .pure fun gs ms hms fs hfs => ?_
    obtain ⟨rfl, hl, hscopedl⟩ := hfs
    obtain ⟨rfl, hr, hscopedr⟩ := hms
    exact ⟨rfl, by simp only [Expr.relabel, hl, hr], fun hin => ⟨hscopedl hin, hscopedr hin⟩⟩
  | .assign span target value, ⟨htarget, hvalue⟩ =>
    rw [Expr.resolve]
    refine (value.resolves inside hvalue).bind fun value' =>
      (resolves_distance target.name).bind fun d => .pure fun gs ms hms fs hfs => ?_
    obtain ⟨rfl, hlabel, hscoped⟩ := hfs
    obtain ⟨rfl, rfl⟩ := hms
    exact ⟨rfl, by simp [Expr.relabel, Ref.relabel, hlabel],
      fun hin => ⟨rfl, htarget, hscoped hin⟩⟩
  | .call span callee args, ⟨hcallee, hargs⟩ =>
    rw [Expr.resolve]
    refine (callee.resolves inside hcallee).bind fun callee' =>
      (resolves_arguments inside args hargs).bind fun args' => .pure fun gs ms hms fs hfs => ?_
    obtain ⟨rfl, hc, hscopedc⟩ := hfs
    obtain ⟨rfl, ha, hscopeda⟩ := hms
    exact ⟨rfl, by simp only [Expr.relabel, relabelArguments_eq_map, hc, ha],
      fun hin => ⟨hscopedc hin, hscopeda hin⟩⟩
  | .get span object name, hobject =>
    rw [Expr.resolve]
    refine (object.resolves inside hobject).bind fun object' => .pure fun gs fs hfs => ?_
    obtain ⟨rfl, hlabel, hscoped⟩ := hfs
    exact ⟨rfl, by simp only [Expr.relabel, hlabel], hscoped⟩
  | .set span object name value, ⟨hobject, hvalue⟩ =>
    rw [Expr.resolve]
    refine (value.resolves inside hvalue).bind fun value' =>
      (object.resolves inside hobject).bind fun object' => .pure fun gs ms hms fs hfs => ?_
    obtain ⟨rfl, hv, hscopedv⟩ := hfs
    obtain ⟨rfl, ho, hscopedo⟩ := hms
    exact ⟨rfl, by simp only [Expr.relabel, hv, ho], fun hin => ⟨hscopedo hin, hscopedv hin⟩⟩

private theorem resolves_arguments (inside : ClassKind) (es : List Expr)
    (hproper : properArguments es) :
    Resolves (resolveArguments inside es) (ArgumentsResolveTo inside es) := by
  match es, hproper with
  | [], _ =>
    rw [resolveArguments]
    exact .pure fun fs => ⟨rfl, rfl, fun _ => trivial⟩
  | first :: others, ⟨hfirst, hothers⟩ =>
    rw [resolveArguments]
    refine (first.resolves inside hfirst).bind fun first' =>
      (resolves_arguments inside others hothers).bind fun others' =>
        .pure fun gs ms hms fs hfs => ?_
    obtain ⟨rfl, hf, hscopedf⟩ := hfs
    obtain ⟨rfl, ho, hscopedo⟩ := hms
    exact ⟨rfl, by simp only [List.map_cons, hf, ho], fun hin => ⟨hscopedf hin, hscopedo hin⟩⟩

end

def OptionResolvesTo (inside : ClassKind) (e : Option Expr) (fs : List Frame) (e' : Option Expr)
    (gs : List Frame) : Prop :=
  gs = fs ∧ e'.map (·.relabel .noDistances) = e.map (·.relabel .noDistances) ∧
    (Inside inside fs → ∀ x ∈ e', x.Scoped fs)

private theorem resolves_option (inside : ClassKind) (e : Option Expr)
    (hproper : ∀ x ∈ e, x.Proper) :
    Resolves (resolveOption inside e) (OptionResolvesTo inside e) := by
  cases e with
  | none => exact .pure fun fs => ⟨rfl, rfl, fun _ x hx => absurd hx (Option.not_mem_none x)⟩
  | some e =>
    refine Resolves.map ((e.resolves inside (hproper e rfl)).mono fun fs e' gs h => ?_)
    obtain ⟨rfl, hlabel, hscoped⟩ := h
    refine ⟨rfl, congrArg some hlabel, fun hin x hx => ?_⟩
    obtain rfl := Option.mem_some.mp hx
    exact hscoped hin

/-! ## Statements -/

def FunDecl.ResolvesTo (inside : ClassKind) (decl : FunDecl) (fs : List Frame) (decl' : FunDecl)
    (gs : List Frame) : Prop :=
  gs = fs ∧ decl'.relabel .noDistances = decl.relabel .noDistances ∧
    (Inside inside fs → decl'.Scoped fs)

def Stmt.ResolvesTo (inside : ClassKind) (s : Stmt) (fs : List Frame) (s' : Stmt)
    (gs : List Frame) : Prop :=
  gs = s.framesAfter fs ∧ s'.relabel .noDistances = s.relabel .noDistances ∧
    (Inside inside fs → s'.Scoped fs)

def ElseResolvesTo (inside : ClassKind) (s : Option Stmt) (fs : List Frame) (s' : Option Stmt)
    (gs : List Frame) : Prop :=
  gs = fs ∧ s'.map (·.relabel .noDistances) = s.map (·.relabel .noDistances) ∧
    (Inside inside fs → scopedElse fs s')

def BodyResolvesTo (inside : ClassKind) (ss : List Stmt) (fs : List Frame) (ss' : List Stmt)
    (_ : List Frame) : Prop :=
  ss'.map (·.relabel .noDistances) = ss.map (·.relabel .noDistances) ∧
    (Inside inside fs → scopedBody fs ss')

def MethodsResolveTo (inside : ClassKind) (decls : List FunDecl) (fs : List Frame)
    (decls' : List FunDecl) (gs : List Frame) : Prop :=
  gs = fs ∧ decls'.map (·.relabel .noDistances) = decls.map (·.relabel .noDistances) ∧
    (Inside inside fs → scopedMethods fs decls')

private theorem declared?_eq_of_relabel {s s' : Stmt}
    (h : s'.relabel .noDistances = s.relabel .noDistances) : s'.declared? = s.declared? := by
  rw [← declared?_relabel .noDistances s', h, declared?_relabel]

theorem Inside.framesAfter {inside : ClassKind} {fs : List Frame} {s : Stmt}
    (h : Inside inside fs) (hs : s.Proper) : Inside inside (s.framesAfter fs) := by
  cases s with
  | varDecl span name value => exact h.declareName hs.1
  | funDecl decl => exact h.declareName hs.1
  | classDecl span name superclass methods => exact h.declareName hs.1
  | _ => exact h

private theorem resolves_params (params : List String) (span : Span) :
    Resolves (params.forM (declareDefined · span)) (fun fs _ gs => ∀ frame outer,
      fs = frame :: outer →
        gs = params.foldl (fun frame name => (name, true) :: (name, false) :: frame) frame :: outer ∧
        params.Nodup ∧ ∀ name ∈ params, frame.declares name = false) := by
  induction params with
  | nil => exact .pure fun fs frame outer h => ⟨h, List.nodup_nil, by simp⟩
  | cons first others ih =>
    refine (resolves_declareDefined first span).bind fun _ => ih.mono ?_
    intro ms _ gs hgs fs hfs frame outer hframe
    subst hframe
    obtain ⟨rfl, hfresh⟩ := hfs
    obtain ⟨hfold, hnodup, hnew⟩ := hgs _ _ rfl
    have hfirst : first ∉ others := by
      intro hmem
      have := hnew first hmem
      simp at this
    refine ⟨hfold, List.nodup_cons.mpr ⟨hfirst, hnodup⟩, fun name hname => ?_⟩
    rcases List.mem_cons.mp hname with rfl | hname
    · exact hfresh frame rfl
    · have := hnew name hname
      simp only [Frame.declares_cons, Bool.or_eq_false_iff] at this
      exact this.2.2

private theorem resolves_branch {inside : ClassKind} {kind : BodyKind} {span : Span}
    {condition : Expr}
    {yes : Stmt} {no : Option Stmt} (hcondition : condition.Proper) (hyes : yes.declared? = none)
    (ihyes : Resolves (yes.resolve inside kind) (Stmt.ResolvesTo inside yes))
    (ihno : Resolves (resolveElse inside kind no) (ElseResolvesTo inside no)) :
    Resolves ((Stmt.branch span condition yes no).resolve inside kind)
      (Stmt.ResolvesTo inside (.branch span condition yes no)) := by
  rw [Stmt.resolve]
  refine (condition.resolves inside hcondition).bind fun condition' => ihyes.bind fun yes' =>
    ihno.bind fun no' => .pure fun gs ms hms ms' hms' fs hfs => ?_
  obtain ⟨rfl, hc, hscopedc⟩ := hfs
  obtain ⟨hgs, hy, hscopedy⟩ := hms'
  obtain ⟨rfl, hn, hscopedn⟩ := hms
  rw [Stmt.framesAfter, hyes] at hgs
  subst hgs
  refine ⟨rfl, by simp only [Stmt.relabel, relabelElse_eq_map, hc, hy, hn], fun hin => ?_⟩
  exact ⟨hscopedc hin, ⟨hscopedy hin, (declared?_eq_of_relabel hy).trans hyes⟩, hscopedn hin⟩

private theorem resolves_thisScope {inside : ClassKind} {span : Span} {methods : List FunDecl}
    (ih : Resolves (resolveMethods inside methods) (MethodsResolveTo inside methods)) :
    Resolves (inScope do
        declareDefined "this" span
        resolveMethods inside methods)
      (fun fs methods' gs => gs = fs ∧
        methods'.map (·.relabel .noDistances) = methods.map (·.relabel .noDistances) ∧
        (Inside inside (thisFrame :: fs) → scopedMethods (thisFrame :: fs) methods')) := by
  have hinner : Resolves (do
      declareDefined "this" span
      resolveMethods inside methods) (fun fs methods' _ =>
        methods'.map (·.relabel .noDistances) = methods.map (·.relabel .noDistances) ∧
        (Inside inside (declareName "this" fs) → scopedMethods (declareName "this" fs) methods')) := by
    refine (resolves_declareDefined "this" span).bind fun _ => ih.mono ?_
    intro ms methods' gs hms fs hfs
    obtain ⟨rfl, -⟩ := hfs
    exact hms.2
  refine (resolves_inScope hinner).mono fun fs methods' gs h => ?_
  obtain ⟨rfl, ms, hlabel, hscoped⟩ := h
  exact ⟨rfl, hlabel, hscoped⟩

private theorem resolves_superScope {span : Span} {methods : List FunDecl}
    (ih : Resolves (resolveMethods .derived methods) (MethodsResolveTo .derived methods)) :
    Resolves (inScope do
        declareDefined "super" span
        inScope do
          declareDefined "this" span
          resolveMethods .derived methods)
      (fun fs methods' gs => gs = fs ∧
        methods'.map (·.relabel .noDistances) = methods.map (·.relabel .noDistances) ∧
        scopedMethods (thisFrame :: superFrame :: fs) methods') := by
  have hinner : Resolves (do
      declareDefined "super" span
      inScope do
        declareDefined "this" span
        resolveMethods .derived methods) (fun fs methods' _ =>
        methods'.map (·.relabel .noDistances) = methods.map (·.relabel .noDistances) ∧
        (Inside .derived (thisFrame :: declareName "super" fs) →
          scopedMethods (thisFrame :: declareName "super" fs) methods')) := by
    refine (resolves_declareDefined "super" span).bind fun _ => (resolves_thisScope ih).mono ?_
    intro ms methods' gs hms fs hfs
    obtain ⟨rfl, -⟩ := hfs
    exact hms.2
  refine (resolves_inScope hinner).mono fun fs methods' gs h => ?_
  obtain ⟨rfl, ms, hlabel, hscoped⟩ := h
  exact ⟨rfl, hlabel, hscoped (inside_derived gs)⟩

private theorem resolves_baseClass {inside : ClassKind} {kind : BodyKind} {span : Span}
    {name : String} {methods : List FunDecl} (hname : ¬Reserved name)
    (ih : Resolves (resolveMethods .base methods) (MethodsResolveTo .base methods)) :
    Resolves ((Stmt.classDecl span name none methods).resolve inside kind)
      (Stmt.ResolvesTo inside (.classDecl span name none methods)) := by
  rw [Stmt.resolve]
  refine (resolves_declareDefined name span).bind fun _ => (resolves_thisScope ih).bind
    fun methods' => .pure fun gs ms hms fs hfs => ?_
  obtain ⟨rfl, hfresh⟩ := hfs
  obtain ⟨rfl, hlabel, hscoped⟩ := hms
  refine ⟨rfl, by simp only [Stmt.relabel, relabelMethods_eq_map, hlabel], fun _ => ?_⟩
  exact ⟨⟨hname, hfresh⟩, hscoped (inside_base _)⟩

private theorem resolves_derivedClass {inside : ClassKind} {kind : BodyKind} {span : Span}
    {name : String} {superclass : Located Ref} {methods : List FunDecl} (hname : ¬Reserved name)
    (ih : Resolves (resolveMethods .derived methods) (MethodsResolveTo .derived methods)) :
    Resolves ((Stmt.classDecl span name (some superclass) methods).resolve inside kind)
      (Stmt.ResolvesTo inside (.classDecl span name (some superclass) methods)) := by
  rw [Stmt.resolve]
  have hrest : Resolves (do
      let ref ← read superclass.span superclass.value.name
      let methods ← inScope do
        declareDefined "super" span
        inScope do
          declareDefined "this" span
          resolveMethods .derived methods
      return Stmt.classDecl span name (some ⟨ref, superclass.span⟩) methods)
      (fun ms s gs => ∀ fs, ms = declareName name fs ∧ Fresh fs name →
        Stmt.ResolvesTo inside (.classDecl span name (some superclass) methods) fs s gs) := by
    refine (resolves_read superclass.span superclass.value.name).bind fun ref =>
      (resolves_superScope ih).bind fun methods' => .pure fun gs ms hms ms' hms' fs hfs => ?_
    obtain ⟨rfl, hfresh⟩ := hfs
    obtain ⟨rfl, href, hread⟩ := hms'
    obtain ⟨rfl, hlabel, hscoped⟩ := hms
    refine ⟨rfl, ?_, fun _ => ⟨⟨hname, hfresh⟩, hread, hscoped⟩⟩
    simp [Stmt.relabel, Relabel.superclass, Ref.relabel, hlabel, href]
  refine (resolves_declareDefined name span).bind fun _ => ?_
  by_cases h : superclass.value.name = name
  · rw [if_pos h]
    refine (resolves_report (P := fun _ _ _ => False) _ _).bind fun _ => ?_
    exact hrest.mono fun _ _ _ _ _ hfalse => hfalse.elim
  · rw [if_neg h]
    exact hrest

private theorem resolves_ret {inside : ClassKind} {kind : BodyKind} {span : Span}
    {value : Option Expr} (hvalue : ∀ e ∈ value, e.Proper) :
    Resolves ((Stmt.ret span value).resolve inside kind)
      (Stmt.ResolvesTo inside (.ret span value)) := by
  rw [Stmt.resolve]
  have hrest : Resolves (do return Stmt.ret span (← resolveOption inside value))
      (Stmt.ResolvesTo inside (.ret span value)) := by
    refine (resolves_option inside value hvalue).bind fun value' => .pure fun gs fs hfs => ?_
    obtain ⟨rfl, hlabel, hscoped⟩ := hfs
    exact ⟨rfl, by simp only [Stmt.relabel, hlabel], hscoped⟩
  have hinitializer : Resolves (do
      if kind = .initializer && value.isSome then report .returnInInitializer span
      return Stmt.ret span (← resolveOption inside value))
      (Stmt.ResolvesTo inside (.ret span value)) := by
    by_cases h : (kind = .initializer && value.isSome) = true
    · rw [if_pos h]
      refine (resolves_report (P := fun _ _ _ => False) _ _).bind fun _ => ?_
      exact hrest.mono fun _ _ _ _ _ hfalse => hfalse.elim
    · rw [if_neg h]
      exact hrest
  by_cases h : kind = .program
  · rw [if_pos h]
    refine (resolves_report (P := fun _ _ _ => False) _ _).bind fun _ => ?_
    exact hinitializer.mono fun _ _ _ _ _ hfalse => hfalse.elim
  · rw [if_neg h]
    exact hinitializer

private theorem resolves_varDecl {inside : ClassKind} {kind : BodyKind} {span : Span}
    {name : String}
    {value : Option Expr} (hname : ¬Reserved name) (hvalue : ∀ e ∈ value, e.Proper) :
    Resolves ((Stmt.varDecl span name value).resolve inside kind)
      (Stmt.ResolvesTo inside (.varDecl span name value)) := by
  rw [Stmt.resolve]
  refine (resolves_declare name span).bind fun _ => (resolves_option inside value hvalue).bind
    fun value' => (resolves_put name true).bind fun _ => .pure ?_
  intro gs ms hms ms' hms' fs hfs
  obtain ⟨rfl, hfresh⟩ := hfs
  obtain ⟨rfl, hlabel, hscoped⟩ := hms'
  subst hms
  exact ⟨rfl, by simp only [Stmt.relabel, hlabel],
    fun hin => ⟨⟨hname, hfresh⟩, hscoped (hin.putName hname)⟩⟩

private theorem resolves_function {inside : ClassKind} {kind : BodyKind} {span : Span}
    {name : String}
    {params : List String} {body : List Stmt} (hparams : ∀ name ∈ params, ¬Reserved name)
    (ih : Resolves (resolveBody inside kind body) (BodyResolvesTo inside body)) :
    Resolves (FunDecl.resolve inside kind ⟨span, name, params, body⟩)
      (FunDecl.ResolvesTo inside ⟨span, name, params, body⟩) := by
  rw [FunDecl.resolve]
  have hinner : Resolves (do
      params.forM (declareDefined · span)
      return (⟨span, name, params, ← resolveBody inside kind body⟩ : FunDecl))
      (fun fs decl _ => ∀ outer, fs = [] :: outer →
        decl.relabel .noDistances = FunDecl.relabel .noDistances ⟨span, name, params, body⟩ ∧
        (Inside inside outer → decl.Scoped outer)) := by
    refine (resolves_params params span).bind fun _ => ih.bind fun body' => .pure ?_
    intro gs ms hms fs hfs outer houter
    obtain ⟨rfl, hnodup, -⟩ := hfs [] outer houter
    obtain ⟨hlabel, hscoped⟩ := hms
    refine ⟨by simp only [FunDecl.relabel, relabelBody_eq_map, hlabel], fun hin => ?_⟩
    refine ⟨hnodup, hparams, hscoped (hin.cons fun name hname => ?_)⟩
    have hmem : name ∉ params := fun h => hparams name h hname
    exact (declares_paramFrame params name).trans (decide_eq_false hmem)
  refine (resolves_inScope hinner).mono fun fs decl gs h => ?_
  obtain ⟨rfl, ms, h⟩ := h
  obtain ⟨hlabel, hscoped⟩ := h gs rfl
  exact ⟨rfl, hlabel, hscoped⟩

mutual

private theorem FunDecl.resolves (inside : ClassKind) (kind : BodyKind) (decl : FunDecl)
    (hproper : decl.Proper) :
    Resolves (decl.resolve inside kind) (FunDecl.ResolvesTo inside decl) := by
  match decl, hproper with
  | ⟨span, name, params, body⟩, ⟨hparams, hbody⟩ =>
    exact resolves_function hparams (resolves_body inside kind body hbody)

private theorem Stmt.resolves (inside : ClassKind) (kind : BodyKind) (s : Stmt)
    (hproper : s.Proper) :
    Resolves (s.resolve inside kind) (Stmt.ResolvesTo inside s) := by
  match s, hproper with
  | .expr span value, hvalue =>
    rw [Stmt.resolve]
    refine (value.resolves inside hvalue).bind fun value' => .pure fun gs fs hfs => ?_
    obtain ⟨rfl, hlabel, hscoped⟩ := hfs
    exact ⟨rfl, by simp only [Stmt.relabel, hlabel], hscoped⟩
  | .print span value, hvalue =>
    rw [Stmt.resolve]
    refine (value.resolves inside hvalue).bind fun value' => .pure fun gs fs hfs => ?_
    obtain ⟨rfl, hlabel, hscoped⟩ := hfs
    exact ⟨rfl, by simp only [Stmt.relabel, hlabel], hscoped⟩
  | .ret span value, hvalue => exact resolves_ret hvalue
  | .varDecl span name value, ⟨hname, hvalue⟩ => exact resolves_varDecl hname hvalue
  | .funDecl decl, ⟨hname, hdecl⟩ =>
    rw [Stmt.resolve]
    refine (resolves_declareDefined decl.name decl.span).bind fun _ =>
      (decl.resolves inside .function hdecl).bind fun decl' => .pure fun gs ms hms fs hfs => ?_
    obtain ⟨rfl, hfresh⟩ := hfs
    obtain ⟨rfl, hlabel, hscoped⟩ := hms
    have hname' : decl'.name = decl.name := by
      rw [← name_relabel .noDistances decl', hlabel, name_relabel]
    refine ⟨rfl, by simp only [Stmt.relabel, hlabel], fun hin => ?_⟩
    rw [Stmt.Scoped, hname']
    exact ⟨⟨hname, hfresh⟩, hscoped (hin.declareName hname)⟩
  | .classDecl span name none methods, ⟨hname, hmethods⟩ =>
    exact resolves_baseClass hname (resolves_methods .base methods hmethods)
  | .classDecl span name (some superclass) methods, ⟨hname, hmethods⟩ =>
    exact resolves_derivedClass hname (resolves_methods .derived methods hmethods)
  | .block span body, hbody =>
    rw [Stmt.resolve]
    refine (resolves_inScope (resolves_body inside kind body hbody)).bind fun body' =>
      .pure fun gs fs hfs => ?_
    obtain ⟨rfl, ms, hlabel, hscoped⟩ := hfs
    exact ⟨rfl, by simp only [Stmt.relabel, relabelBody_eq_map, hlabel],
      fun hin => hscoped (hin.cons fun _ _ => rfl)⟩
  | .branch span condition yes no, ⟨hcondition, ⟨hyes, hplain⟩, hno⟩ =>
    exact resolves_branch hcondition hplain (yes.resolves inside kind hyes)
      (resolves_else inside kind no hno)
  | .loop span condition body, ⟨hcondition, hbody, hplain⟩ =>
    rw [Stmt.resolve]
    refine (condition.resolves inside hcondition).bind fun condition' =>
      (body.resolves inside kind hbody).bind fun body' => .pure fun gs ms hms fs hfs => ?_
    obtain ⟨rfl, hc, hscopedc⟩ := hfs
    obtain ⟨hgs, hb, hscopedb⟩ := hms
    rw [Stmt.framesAfter, hplain] at hgs
    exact ⟨hgs, by simp only [Stmt.relabel, hc, hb],
      fun hin => ⟨hscopedc hin, hscopedb hin, (declared?_eq_of_relabel hb).trans hplain⟩⟩

private theorem resolves_else (inside : ClassKind) (kind : BodyKind) (no : Option Stmt)
    (hproper : properElse no) :
    Resolves (resolveElse inside kind no) (ElseResolvesTo inside no) := by
  match no, hproper with
  | none, _ =>
    rw [resolveElse]
    exact .pure fun fs => ⟨rfl, rfl, fun _ => trivial⟩
  | some s, ⟨hs, hplain⟩ =>
    rw [resolveElse]
    refine (s.resolves inside kind hs).bind fun s' => .pure fun gs fs hfs => ?_
    obtain ⟨hgs, hlabel, hscoped⟩ := hfs
    rw [Stmt.framesAfter, hplain] at hgs
    exact ⟨hgs, congrArg some hlabel,
      fun hin => ⟨hscoped hin, (declared?_eq_of_relabel hlabel).trans hplain⟩⟩

theorem resolves_body (inside : ClassKind) (kind : BodyKind) (ss : List Stmt)
    (hproper : properBody ss) :
    Resolves (resolveBody inside kind ss) (BodyResolvesTo inside ss) := by
  match ss, hproper with
  | [], _ =>
    rw [resolveBody]
    exact .pure fun fs => ⟨rfl, fun _ => trivial⟩
  | first :: others, ⟨hfirst, hothers⟩ =>
    rw [resolveBody]
    refine (first.resolves inside kind hfirst).bind fun first' =>
      (resolves_body inside kind others hothers).bind fun others' =>
        .pure fun gs ms hms fs hfs => ?_
    obtain ⟨rfl, hf, hscopedf⟩ := hfs
    obtain ⟨ho, hscopedo⟩ := hms
    refine ⟨by simp only [List.map_cons, hf, ho], fun hin => ⟨hscopedf hin, ?_⟩⟩
    rw [Stmt.framesAfter, declared?_eq_of_relabel hf, ← Stmt.framesAfter]
    exact hscopedo (hin.framesAfter hfirst)

private theorem resolves_methods (inside : ClassKind) (decls : List FunDecl)
    (hproper : properMethods decls) :
    Resolves (resolveMethods inside decls) (MethodsResolveTo inside decls) := by
  match decls, hproper with
  | [], _ =>
    rw [resolveMethods]
    exact .pure fun fs => ⟨rfl, rfl, fun _ => trivial⟩
  | first :: others, ⟨hfirst, hothers⟩ =>
    rw [resolveMethods]
    refine (first.resolves inside _ hfirst).bind fun first' =>
      (resolves_methods inside others hothers).bind fun others' =>
        .pure fun gs ms hms fs hfs => ?_
    obtain ⟨rfl, hf, hscopedf⟩ := hfs
    obtain ⟨rfl, ho, hscopedo⟩ := hms
    exact ⟨rfl, by simp only [List.map_cons, hf, ho], fun hin => ⟨hscopedf hin, hscopedo hin⟩⟩

end

/-- A program that resolves without errors is scoped and has kept its shape. -/
theorem scoped_of_resolve {program : List Stmt} (hproper : properBody program)
    (h : (resolve program).errors = []) :
    scopedBody [] (resolve program).program ∧
      (resolve program).program.map (·.relabel .noDistances) =
        program.map (·.relabel .noDistances) := by
  obtain ⟨hkeep, hbody⟩ := resolves_body .outside .program program hproper {}
  have hsize : (resolveBody .outside .program program {}).2.errors.size = 0 := by
    rw [← Array.length_toList]
    exact congrArg List.length h
  obtain ⟨hlabel, hscoped⟩ := hbody hsize
  exact ⟨hscoped trivial, hlabel⟩

/-- The global scope is never ended, also in a program with errors. -/
theorem globalEnded_resolve {program : List Stmt} (hproper : properBody program) :
    (resolve program).globalEnded = false :=
  (resolves_body .outside .program program hproper {}).1.globalEnded

def Machine.withEvents (m : Machine) (events : Array Event) : Machine :=
  { m with events }

theorem Machine.step_checked (clock : Nat → Float) (fuel : Nat) (m : Machine) {source : String}
    (hparse : (parse source).errors = [])
    (hresolve : (LoxLang.resolve (parse source).program).errors = []) :
    ∃ events, m.step clock fuel source =
      (m.withEvents events).execute clock fuel (LoxLang.resolve (parse source).program).program := by
  have hended := globalEnded_resolve (proper_of_parse hparse).1
  unfold Machine.step
  simp only [hparse, hresolve, hended, List.isEmpty_nil, Bool.not_true, Bool.false_eq_true,
    if_false]
  exact ⟨_, rfl⟩

end LoxLang
