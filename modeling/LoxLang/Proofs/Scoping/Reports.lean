import LoxLang.Proofs.Scoping.Violations
/-!
# Resolution reports the violations

The resolver keeps a stack of frames and is told what class and what body it is
in. As long as these fit the path of the code at hand, what it reports on the way
through that code are the violations there, and it leaves the frames as the code
after it expects them. Of the frames only the innermost one matters for this.
-/
namespace LoxLang

namespace Path

def classKind (path : Path) : ClassKind :=
  match path.class? with
  | none => .outside
  | some (.classBody none) => .base
  | some _ => .derived

def bodyKind (path : Path) : BodyKind :=
  match path.function? with
  | none => .program
  | some (.method name _) => if name = initializerName then .initializer else .method
  | some _ => .function

end Path

/-! ## Frames that fit a scope -/

/-- The innermost frame declares the names of the innermost scope, and all of them are ready. -/
def Fits : Option (List String) → List Frame → Prop
  | none, fs => fs = []
  | some declared, fs => ∃ frame outer, fs = frame :: outer ∧
      ∀ name, frame.declares name = decide (name ∈ declared) ∧ frame.isPending name = false

def Awaits (path : Path) (fs : List Frame) : Prop :=
  ∀ name, fs.head?.any (·.isPending name) = decide (path.initializing? = some name)

private theorem Frame.isPending_cons (entry : String × Bool) (frame : Frame) (name : String) :
    Frame.isPending (entry :: frame) name =
      if name = entry.1 then decide (entry.2 = false) else frame.isPending name := by
  obtain ⟨first, ready⟩ := entry
  unfold Frame.isPending
  by_cases h : name = first
  · simp [h]
  · have hne : (name == first) = false := by simpa using h
    simp [List.lookup_cons, h, hne]

private theorem fits_empty (fs : List Frame) : Fits (some []) ([] :: fs) :=
  ⟨[], fs, rfl, fun _ => ⟨by simp, rfl⟩⟩

theorem Fits.declareName {scope : Option (List String)} {fs : List Frame} (h : Fits scope fs)
    (name : String) : Fits (scope.map (· ++ [name])) (declareName name fs) := by
  cases scope with
  | none =>
    obtain rfl : fs = [] := h
    rfl
  | some declared =>
    obtain ⟨frame, outer, rfl, hframe⟩ := h
    refine ⟨(name, true) :: (name, false) :: frame, outer, rfl, fun other => ⟨?_, ?_⟩⟩
    · rw [Frame.declares_cons, Frame.declares_cons, (hframe other).1]
      grind
    · rw [Frame.isPending_cons, Frame.isPending_cons, (hframe other).2]
      grind

theorem Fits.framesAfter {scope : Option (List String)} {fs : List Frame} (h : Fits scope fs)
    (s : Stmt) : Fits (scope.map (· ++ s.declared?.toList)) (s.framesAfter fs) := by
  unfold Stmt.framesAfter
  cases s.declared? with
  | none =>
    have hsame : scope.map (· ++ (none : Option String).toList) = scope := by
      cases scope <;> simp
    rw [hsame]
    exact h
  | some name => exact h.declareName name

def SameOuter (fs gs : List Frame) : Prop :=
  gs.length = fs.length ∧ gs.tail = fs.tail

theorem SameOuter.refl (fs : List Frame) : SameOuter fs fs :=
  ⟨rfl, rfl⟩

theorem SameOuter.trans {fs gs hs : List Frame} (h : SameOuter fs gs) (h' : SameOuter gs hs) :
    SameOuter fs hs :=
  ⟨h'.1.trans h.1, h'.2.trans h.2⟩

private theorem sameOuter_declareName (name : String) (fs : List Frame) :
    SameOuter fs (declareName name fs) := by
  refine ⟨?_, ?_⟩
  · rw [declareName, length_putName, length_putName]
  · rw [declareName, tail_putName, tail_putName]

private theorem sameOuter_framesAfter (s : Stmt) (fs : List Frame) :
    SameOuter fs (s.framesAfter fs) := by
  unfold Stmt.framesAfter
  cases s.declared? with
  | none => exact .refl fs
  | some name => exact sameOuter_declareName name fs

private theorem Fits.awaits {scope : Option (List String)} {path : Path} {fs : List Frame}
    (h : Fits scope fs) (hpath : path.initializing? = none) : Awaits path fs := by
  intro name
  rw [hpath]
  cases scope with
  | none =>
    obtain rfl : fs = [] := h
    rfl
  | some declared =>
    obtain ⟨frame, outer, rfl, hframe⟩ := h
    simp [(hframe name).2]

private theorem Fits.awaits_initializer {path : Path} {fs : List Frame} (h : Fits path.scope? fs)
    (name : String) : Awaits (.initializer name :: path) (putName name false fs) := by
  intro other
  rw [Path.initializing?]
  cases hscope : path.scope? with
  | none =>
    rw [hscope] at h
    obtain rfl : fs = [] := h
    rfl
  | some declared =>
    rw [hscope] at h
    obtain ⟨frame, outer, rfl, hframe⟩ := h
    simp only [putName, List.head?_cons, Option.any_some, Frame.isPending_cons, (hframe other).2]
    grind

/-! ## Steps and what they report -/

namespace Resolve

variable {α β : Type}

/-- Between the given frames a step reports the given errors and nothing else, and `P` holds of its
result and the frames after it. -/
def Reports (fs : List Frame) (p : Resolve α) (found : List (Located Error))
    (P : α → List Frame → Prop) : Prop :=
  ∀ r, r.frames = fs →
    (p r).2.errors.toList = r.errors.toList ++ found ∧ P (p r).1 (p r).2.frames

namespace Reports

variable {fs : List Frame} {p : Resolve α} {found : List (Located Error)}
  {P Q : α → List Frame → Prop}

theorem mono (h : Reports fs p found P) (hPQ : ∀ a gs, P a gs → Q a gs) :
    Reports fs p found Q :=
  fun r hr => ⟨(h r hr).1, hPQ _ _ (h r hr).2⟩

theorem pure {a : α} (h : P a fs) : Reports fs (Pure.pure a) [] P := by
  rintro r rfl
  exact ⟨(List.append_nil _).symm, h⟩

theorem bind {f : α → Resolve β} {found' : List (Located Error)} {Q : β → List Frame → Prop}
    (hp : Reports fs p found P) (hf : ∀ a gs, P a gs → Reports gs (f a) found' Q) :
    Reports fs (p >>= f) (found ++ found') Q := by
  intro r hr
  obtain ⟨hfirst, hP⟩ := hp r hr
  obtain ⟨hsecond, hQ⟩ := hf _ _ hP (p r).2 rfl
  have hrun : (p >>= f) r = f (p r).1 (p r).2 := rfl
  rw [hrun]
  refine ⟨?_, hQ⟩
  rw [hsecond, hfirst, List.append_assoc]

theorem next {f : α → Resolve β} {gs : List Frame} {found' : List (Located Error)}
    {Q : β → List Frame → Prop} (hp : Reports fs p found fun _ hs => hs = gs)
    (hf : ∀ a, Reports gs (f a) found' Q) : Reports fs (p >>= f) (found ++ found') Q := by
  refine hp.bind fun a hs hhs => ?_
  rw [hhs]
  exact hf a

private theorem andPure {f : α → β} {Q : β → List Frame → Prop} (hp : Reports fs p found P)
    (hf : ∀ a gs, P a gs → Q (f a) gs) :
    Reports fs (p >>= fun a => Pure.pure (f a)) found Q :=
  fun r hr => ⟨(hp r hr).1, hf _ _ (hp r hr).2⟩

theorem of_eq {found' : List (Located Error)} (h : Reports fs p found P) (heq : found = found') :
    Reports fs p found' P :=
  heq ▸ h

end Reports

private theorem reports_report (fs : List Frame) (error : Error) (span : Span) :
    Reports fs (report error span) [⟨error, span⟩] fun _ gs => gs = fs := by
  rintro r rfl
  have hrun : report error span r = ((), { r with errors := r.errors.push ⟨error, span⟩ }) := rfl
  rw [hrun]
  exact ⟨by simp, rfl⟩

private theorem reports_reportIf {fs : List Frame} (error : Error) (span : Span) (condition : Prop)
    [Decidable condition] {rest : Unit → Resolve α} {found : List (Located Error)}
    {P : α → List Frame → Prop} (h : Reports fs (rest ()) found P) :
    Reports fs (if condition then report error span >>= rest else rest ())
      ((if condition then [⟨error, span⟩] else []) ++ found) P := by
  by_cases hc : condition
  · rw [if_pos hc, if_pos hc]
    exact (reports_report fs error span).next fun _ => h
  · rw [if_neg hc, if_neg hc]
    exact h

private theorem reports_getThen {fs : List Frame} {f : Resolver → Resolve α}
    {found : List (Located Error)}
    {P : α → List Frame → Prop} (h : ∀ r, r.frames = fs → Reports fs (f r) found P) :
    Reports fs (get >>= f) found P :=
  fun r hr => h r hr r hr

private theorem reports_put (fs : List Frame) (name : String) (ready : Bool) :
    Reports fs (put name ready) [] fun _ gs => gs = putName name ready fs := by
  rintro r rfl
  rw [put_apply]
  exact ⟨(List.append_nil _).symm, rfl⟩

private theorem declare_apply (name : String) (span : Span) (r : Resolver) :
    (declare name span r).2 = { r with
      frames := putName name false r.frames
      errors := if r.frames.head?.any (·.declares name) then
          r.errors.push ⟨.alreadyDefined name, span⟩ else r.errors } := by
  cases r with
  | mk frames errors lookups globalEnded =>
    cases frames with
    | nil => rfl
    | cons frame outer =>
      have hrun : (declare name span ⟨frame :: outer, errors, lookups, globalEnded⟩).2 =
          ((if frame.declares name then report (.alreadyDefined name) span else Pure.pure () :
            Resolve Unit) ⟨((name, false) :: frame) :: outer, errors, lookups, globalEnded⟩).2 :=
        rfl
      rw [hrun, List.head?_cons, Option.any_some]
      cases frame.declares name with
      | false => rfl
      | true => rfl

private theorem reports_declare {path : Path} {fs : List Frame} (h : Fits path.scope? fs)
    (name : String) (span : Span) : Reports fs (declare name span) (path.redeclaration name span)
      fun _ gs => gs = putName name false fs := by
  rintro r rfl
  have hdeclares : r.frames.head?.any (·.declares name) = decide (name ∈ path.scope?.getD []) := by
    cases hscope : path.scope? with
    | none =>
      rw [hscope] at h
      rw [show r.frames = [] from h]
      rfl
    | some declared =>
      rw [hscope] at h
      obtain ⟨frame, outer, hframes, hframe⟩ := h
      rw [hframes]
      exact (hframe name).1
  rw [declare_apply, hdeclares]
  refine ⟨?_, rfl⟩
  unfold Path.redeclaration
  by_cases hmem : name ∈ path.scope?.getD []
  · simp [hmem]
  · simp [hmem]

private theorem reports_declareDefined {path : Path} {fs : List Frame} (h : Fits path.scope? fs)
    (name : String) (span : Span) :
    Reports fs (declareDefined name span) (path.redeclaration name span)
      fun _ gs => gs = declareName name fs := by
  have hput := reports_put (putName name false fs) name true
  exact Reports.of_eq ((reports_declare h name span).next fun _ => hput) (List.append_nil _)

def Stays (fs : List Frame) (P : α → Prop) (a : α) (gs : List Frame) : Prop :=
  gs = fs ∧ P a

/-- What holds of a result is a premise for the step after it. -/
theorem Reports.stay {fs gs : List Frame} {p : Resolve α} {f : α → Resolve β}
    {found found' : List (Located Error)} {P : α → Prop} {Q : β → List Frame → Prop}
    (hp : Reports fs p found (Stays gs P)) (hf : ∀ a, P a → Reports gs (f a) found' Q) :
    Reports fs (p >>= f) (found ++ found') Q := by
  refine hp.bind fun a hs ha => ?_
  rw [ha.1]
  exact hf a ha.2

theorem Reports.pair {γ : Type} {fs : List Frame} {p : Resolve α} {q : Resolve β}
    {f : α → β → γ} {found found' : List (Located Error)} {P : α → Prop} {Q : β → Prop}
    {R : γ → Prop} (hp : Reports fs p found (Stays fs P)) (hq : Reports fs q found' (Stays fs Q))
    (hR : ∀ a b, P a → Q b → R (f a b)) :
    Reports fs (do
      let a ← p
      let b ← q
      return f a b) (found ++ found') (Stays fs R) :=
  hp.stay fun a ha => hq.andPure fun b _ hb => ⟨hb.1, hR a b ha hb.2⟩

theorem Reports.single {fs : List Frame} {p : Resolve α} {f : α → β}
    {found : List (Located Error)} {P : α → Prop} {R : β → Prop}
    (hp : Reports fs p found (Stays fs P)) (hR : ∀ a, P a → R (f a)) :
    Reports fs (do return f (← p)) found (Stays fs R) :=
  hp.andPure fun a _ ha => ⟨ha.1, hR a ha.2⟩

private theorem reports_distance (fs : List Frame) (name : String) :
    Reports fs (distance name) [] (Stays fs fun _ => True) := by
  rintro r rfl
  exact ⟨(List.append_nil _).symm, rfl, trivial⟩

private theorem reports_read {path : Path} {fs : List Frame} (h : Awaits path fs) (span : Span)
    (ref : Ref) : Reports fs (read span ref.name) (Expr.violations path (.var span ref))
      (Stays fs fun ref' => ref'.name = ref.name) := by
  refine reports_getThen fun r hr => ?_
  have hdistance : Reports fs (do return ⟨ref.name, ← distance ref.name⟩ : Resolve Ref) []
      (Stays fs fun ref' => ref'.name = ref.name) :=
    (reports_distance fs ref.name).single fun _ _ => rfl
  refine Reports.of_eq (reports_reportIf _ span _ hdistance) ?_
  rw [hr, h ref.name, List.append_nil]
  simp only [decide_eq_true_eq]
  rfl

private theorem reports_inScope {p : Resolve α} {fs : List Frame} {found : List (Located Error)}
    {P : α → Prop} (hp : Reports ([] :: fs) p found fun a gs => SameOuter ([] :: fs) gs ∧ P a) :
    Reports fs (inScope p) found (Stays fs P) := by
  rintro r rfl
  obtain ⟨herrors, ⟨hlength, htail⟩, hP⟩ := hp { r with frames := [] :: r.frames } rfl
  have hrun : inScope p r = ((p { r with frames := [] :: r.frames }).1,
      (endScope (p { r with frames := [] :: r.frames }).2).2) := rfl
  rw [hrun, endScope_apply hlength htail]
  exact ⟨herrors, rfl, hP⟩

end Resolve

/-! ## Expressions -/

open Resolve

@[simp] theorem siteViolations_nil : siteViolations [] = [] := rfl

@[simp] theorem siteViolations_cons (site : Site) (sites : List Site) :
    siteViolations (site :: sites) = site.violations ++ siteViolations sites := rfl

@[simp] theorem siteViolations_append (sites sites' : List Site) :
    siteViolations (sites ++ sites') = siteViolations sites ++ siteViolations sites' :=
  List.flatMap_append

def Expr.Like (e e' : Expr) : Prop :=
  e'.relabel .noDistances = e.relabel .noDistances

private theorem reports_this (path : Path) (fs : List Frame) (span : Span) (d : Option Nat) :
    Reports fs ((Expr.this span d).resolve path.classKind)
      (Expr.violations path (.this span d)) (Stays fs (Expr.Like (.this span d))) := by
  have houtside : path.classKind = .outside ↔ path.class? = none := by
    unfold Path.classKind
    split <;> simp_all
  rw [Expr.resolve, Expr.violations]
  by_cases h : path.class? = none
  · rw [if_pos (houtside.mpr h), if_pos (by simp [h])]
    refine (reports_report fs .thisOutsideClass span).andPure fun _ gs hgs => ⟨hgs, rfl⟩
  · rw [if_neg fun hin => h (houtside.mp hin), if_neg (by simpa using h)]
    exact (reports_distance fs "this").single fun _ _ => rfl

private theorem reports_super (path : Path) (fs : List Frame) (span : Span) (d : Option Nat)
    (method : String) : Reports fs ((Expr.super span d method).resolve path.classKind)
      (Expr.violations path (.super span d method))
      (Stays fs (Expr.Like (.super span d method))) := by
  have hrest : Reports fs (do return Expr.super span (← distance "super") method) []
      (Stays fs (Expr.Like (.super span d method))) :=
    (reports_distance fs "super").single fun _ _ => rfl
  have hreport (error : Error) : Reports fs (do
      report error span
      return Expr.super span (← distance "super") method) [⟨error, span⟩]
      (Stays fs (Expr.Like (.super span d method))) := by
    exact Reports.of_eq ((reports_report fs error span).next fun _ => hrest) (List.append_nil _)
  unfold Path.classKind Expr.violations
  cases path.class? with
  | none => exact hreport .superOutsideClass
  | some layer =>
    cases layer with
    | classBody superclass =>
      cases superclass with
      | none => exact hreport .superWithoutSuperclass
      | some _ => exact hrest
    | _ => exact hrest

mutual

theorem Expr.reports (e : Expr) {path : Path} {fs : List Frame} (h : Awaits path fs) :
    Reports fs (e.resolve path.classKind) (siteViolations (e.sites path)) (Stays fs e.Like) := by
  match e with
  | .literal span value =>
    rw [Expr.resolve]
    exact .pure ⟨rfl, rfl⟩
  | .var span ref =>
    rw [Expr.resolve]
    have hread := (reports_read h span ref).single (f := Expr.var span)
      (R := Expr.Like (.var span ref))
      fun ref' hname => by simp [Expr.Like, Expr.relabel, Ref.relabel, hname]
    exact hread.of_eq (by simp [Expr.sites, Site.violations])
  | .this span d =>
    exact (reports_this path fs span d).of_eq (by simp [Expr.sites, Site.violations])
  | .super span d method =>
    exact (reports_super path fs span d method).of_eq (by simp [Expr.sites, Site.violations])
  | .grouping span inner =>
    rw [Expr.resolve]
    exact (inner.reports h).single fun inner' hinner => by
      simp only [Expr.Like, Expr.relabel] at hinner ⊢
      rw [hinner]
  | .unary span op operand =>
    rw [Expr.resolve]
    exact (operand.reports h).single fun operand' hoperand => by
      simp only [Expr.Like, Expr.relabel] at hoperand ⊢
      rw [hoperand]
  | .binary span op left right =>
    rw [Expr.resolve]
    refine Reports.of_eq ((left.reports h).pair (right.reports h) ?_)
      (by simp [Expr.sites, Site.violations, Expr.violations])
    intro left' right' hleft hright
    simp only [Expr.Like, Expr.relabel] at hleft hright ⊢
    rw [hleft, hright]
  | .logical span op left right =>
    rw [Expr.resolve]
    refine Reports.of_eq ((left.reports h).pair (right.reports h) ?_)
      (by simp [Expr.sites, Site.violations, Expr.violations])
    intro left' right' hleft hright
    simp only [Expr.Like, Expr.relabel] at hleft hright ⊢
    rw [hleft, hright]
  | .assign span target value =>
    rw [Expr.resolve]
    refine Reports.of_eq ((value.reports h).pair (reports_distance fs target.name) ?_)
      (by simp [Expr.sites, Site.violations, Expr.violations])
    intro value' d hvalue _
    simp only [Expr.Like, Expr.relabel, Ref.relabel] at hvalue ⊢
    rw [hvalue]
    rfl
  | .call span callee args =>
    rw [Expr.resolve]
    refine Reports.of_eq ((callee.reports h).pair (reports_arguments args h) ?_)
      (by simp [Expr.sites, Site.violations, Expr.violations])
    intro callee' args' hcallee hargs
    simp only [Expr.Like, Expr.relabel, relabelArguments_eq_map] at hcallee ⊢
    rw [hcallee, hargs]
  | .get span object name =>
    rw [Expr.resolve]
    exact (object.reports h).single fun object' hobject => by
      simp only [Expr.Like, Expr.relabel] at hobject ⊢
      rw [hobject]
  | .set span object name value =>
    rw [Expr.resolve]
    refine Reports.of_eq ((value.reports h).pair (object.reports h) ?_)
      (by simp [Expr.sites, Site.violations, Expr.violations])
    intro value' object' hvalue hobject
    simp only [Expr.Like, Expr.relabel] at hvalue hobject ⊢
    rw [hvalue, hobject]

private theorem reports_arguments (args : List Expr) {path : Path} {fs : List Frame}
    (h : Awaits path fs) :
    Reports fs (resolveArguments path.classKind args) (siteViolations (argumentSites path args))
      (Stays fs fun args' =>
        args'.map (·.relabel .noDistances) = args.map (·.relabel .noDistances)) := by
  match args with
  | [] =>
    rw [resolveArguments]
    exact .pure ⟨rfl, rfl⟩
  | first :: others =>
    rw [resolveArguments, argumentSites, siteViolations_append]
    refine (first.reports h).pair (reports_arguments others h) ?_
    intro first' others' hfirst hothers
    rw [List.map_cons, List.map_cons, hothers]
    exact congrArg (· :: _) hfirst

end

private theorem reports_option (value : Option Expr) {path : Path} {fs : List Frame}
    (h : Awaits path fs) :
    Reports fs (resolveOption path.classKind value) (siteViolations (optionSites path value))
      (Stays fs fun value' =>
        value'.map (·.relabel .noDistances) = value.map (·.relabel .noDistances)) := by
  cases value with
  | none => exact .pure ⟨rfl, rfl⟩
  | some e => exact (e.reports h).single fun e' he => congrArg some he

/-! ## Statements and declarations -/

structure Uniform (path : List String → Path) (inside : ClassKind) (kind : BodyKind) : Prop where
  classKind : ∀ declared, (path declared).classKind = inside
  bodyKind : ∀ declared, (path declared).bodyKind = kind
  initializing : ∀ declared, (path declared).initializing? = none
  scope : ∀ declared names,
    (path (declared ++ names)).scope? = (path declared).scope?.map (· ++ names)

private theorem uniform_program : Uniform (fun _ => []) .outside .program :=
  ⟨fun _ => rfl, fun _ => rfl, fun _ => rfl, fun _ _ => rfl⟩

theorem uniform_block (path : Path) :
    Uniform (.block · :: path) path.classKind path.bodyKind :=
  ⟨fun _ => rfl, fun _ => rfl, fun _ => rfl, fun _ _ => rfl⟩

theorem uniform_function (path : Path) : Uniform (.function · :: path) path.classKind .function :=
  ⟨fun _ => rfl, fun _ => rfl, fun _ => rfl, fun _ _ => rfl⟩

private theorem uniform_method (path : Path) (decl : FunDecl) :
    Uniform (.method decl.name · :: path) path.classKind
      (if decl.isInitializer then .initializer else .method) := by
  refine ⟨fun _ => rfl, fun _ => ?_, fun _ => rfl, fun _ _ => rfl⟩
  change (if decl.name = initializerName then BodyKind.initializer else .method) = _
  simp [FunDecl.isInitializer]

def Stmt.Like (s s' : Stmt) : Prop :=
  s'.relabel .noDistances = s.relabel .noDistances

def FunDecl.Like (decl decl' : FunDecl) : Prop :=
  decl'.relabel .noDistances = decl.relabel .noDistances

/-- What resolution does to a statement: the frames have its name then. -/
def Stmt.ReportsAt (s : Stmt) (path : Path) (fs : List Frame) : Prop :=
  Reports fs (s.resolve path.classKind path.bodyKind) (siteViolations (s.sites path))
    (Stays (s.framesAfter fs) s.Like)

private theorem Stmt.ReportsAt.stays {s : Stmt} {path : Path} {fs : List Frame}
    (h : s.ReportsAt path fs) (hplain : s.declared? = none) :
    Reports fs (s.resolve path.classKind path.bodyKind) (siteViolations (s.sites path))
      (Stays fs s.Like) := by
  refine h.mono fun s' gs hs => ⟨?_, hs.2⟩
  rw [hs.1, Stmt.framesAfter, hplain]

private theorem reports_params (params : List String) {path : List String → Path}
    {inside : ClassKind} {kind : BodyKind} {declared : List String} {fs : List Frame} (span : Span)
    (hpath : Uniform path inside kind) (hfits : Fits (path declared).scope? fs) :
    Reports fs (params.forM (declareDefined · span))
      (siteViolations (paramSites path span declared params))
      fun _ gs => SameOuter fs gs ∧ Fits (path (declared ++ params)).scope? gs := by
  induction params generalizing declared fs with
  | nil =>
    rw [List.append_nil]
    exact .pure ⟨.refl fs, hfits⟩
  | cons first others ih =>
    have hnext : Fits (path (declared ++ [first])).scope? (declareName first fs) := by
      rw [hpath.scope]
      exact hfits.declareName first
    have hrest := ih hnext
    rw [List.append_assoc] at hrest
    refine (reports_declareDefined hfits first span).next fun _ => ?_
    exact hrest.mono fun _ gs hgs => ⟨(sameOuter_declareName first fs).trans hgs.1, hgs.2⟩

private theorem reports_ret {path : Path} {fs : List Frame} (hawaits : Awaits path fs) (span : Span)
    (value : Option Expr) : Stmt.ReportsAt (.ret span value) path fs := by
  have hvalue : Reports fs (do return Stmt.ret span (← resolveOption path.classKind value))
      (siteViolations (optionSites path value)) (Stays fs (Stmt.Like (.ret span value))) := by
    refine (reports_option value hawaits).single fun value' hlike => ?_
    simp only [Stmt.Like, Stmt.relabel, hlike]
  unfold Stmt.ReportsAt
  rw [Stmt.resolve]
  refine Reports.of_eq (reports_reportIf _ span _ (reports_reportIf _ span _ hvalue)) ?_
  rw [Stmt.sites, siteViolations_cons, ← List.append_assoc]
  congr 1
  change _ = returnViolations path span value
  unfold returnViolations Path.bodyKind
  cases path.function? with
  | none => simp
  | some layer =>
    cases layer with
    | method name declared => by_cases hname : name = initializerName <;> simp [hname]
    | _ => simp

private theorem reports_varDecl {path : Path} {fs : List Frame} (hfits : Fits path.scope? fs)
    (span : Span)
    (name : String) (value : Option Expr) : Stmt.ReportsAt (.varDecl span name value) path fs := by
  have hvalue := reports_option value (hfits.awaits_initializer name)
  unfold Stmt.ReportsAt
  rw [Stmt.resolve, Stmt.sites, siteViolations_cons]
  refine (reports_declare hfits name span).next fun _ => ?_
  refine Reports.of_eq (hvalue.stay fun value' hlike => ?_) (List.append_nil _)
  refine (reports_put _ name true).andPure fun _ gs hgs => ⟨hgs, ?_⟩
  simp only [Stmt.Like, Stmt.relabel, hlike]

private theorem reports_hidden {fs : List Frame} {name : String} {span : Span}
    {methods : Resolve (List FunDecl)} {found : List (Located Error)} {P : List FunDecl → Prop}
    (h : ∀ gs, Reports gs methods found (Stays gs P)) :
    Reports fs (inScope do
      declareDefined name span
      methods) found (Stays fs P) := by
  refine reports_inScope ?_
  have hclass : Fits (Path.scope? [.classBody none]) ([] :: fs) := fits_empty fs
  refine (reports_declareDefined hclass name span).next fun _ => ?_
  refine (h _).mono fun methods' gs hmethods => ⟨?_, hmethods.2⟩
  rw [hmethods.1]
  exact sameOuter_declareName name ([] :: fs)

def MethodsReport (path : Path) (methods : List FunDecl) : Prop :=
  ∀ fs, Reports fs (resolveMethods path.classKind methods)
    (siteViolations (methodSites path methods))
    (Stays fs fun methods' =>
      methods'.map (·.relabel .noDistances) = methods.map (·.relabel .noDistances))

private theorem reports_baseClass {path : Path} {fs : List Frame} (hfits : Fits path.scope? fs)
    (span : Span) (name : String) {methods : List FunDecl}
    (hmethods : MethodsReport (.classBody none :: path) methods) :
    Stmt.ReportsAt (.classDecl span name none methods) path fs := by
  have hbody : Reports (declareName name fs) (do
      let methods ← inScope do
        declareDefined "this" span
        resolveMethods .base methods
      return Stmt.classDecl span name none methods)
      (siteViolations (methodSites (.classBody none :: path) methods))
      (Stays (declareName name fs) (Stmt.Like (.classDecl span name none methods))) := by
    refine (reports_hidden hmethods).single fun methods' hlike => ?_
    simp only [Stmt.Like, Stmt.relabel, relabelMethods_eq_map, hlike]
  unfold Stmt.ReportsAt
  rw [Stmt.resolve]
  refine Reports.of_eq ((reports_declareDefined hfits name span).next fun _ => hbody) ?_
  simp [Stmt.sites, Site.violations, Stmt.violations, inheritanceViolations]

private theorem reports_derivedClass {path : Path} {fs : List Frame} (hfits : Fits path.scope? fs)
    (hpath : path.initializing? = none) (span : Span) (name : String) (superclass : Located Ref)
    {methods : List FunDecl}
    (hmethods : MethodsReport (.classBody (some superclass) :: path) methods) :
    Stmt.ReportsAt (.classDecl span name (some superclass) methods) path fs := by
  have hbody (ref : Ref) (href : ref.name = superclass.value.name) :
      Reports (declareName name fs) (do
        let methods ← inScope do
          declareDefined "super" span
          inScope do
            declareDefined "this" span
            resolveMethods .derived methods
        return Stmt.classDecl span name (some ⟨ref, superclass.span⟩) methods)
        (siteViolations (methodSites (.classBody (some superclass) :: path) methods))
        (Stays (declareName name fs)
          (Stmt.Like (.classDecl span name (some superclass) methods))) := by
    refine (reports_hidden fun gs => reports_hidden hmethods).single fun methods' hlike => ?_
    simp [Stmt.Like, Stmt.relabel, Relabel.superclass, Ref.relabel, hlike, href]
  -- The superclass does not stand in an initializer, so to read it is no violation.
  have hread := reports_read ((hfits.declareName name).awaits hpath) superclass.span
    superclass.value
  have hrest := hread.stay hbody
  unfold Stmt.ReportsAt
  rw [Stmt.resolve]
  refine Reports.of_eq ((reports_declareDefined hfits name span).next fun _ =>
    reports_reportIf _ superclass.span _ hrest) ?_
  simp [Stmt.sites, Site.violations, Stmt.violations, inheritanceViolations, Expr.violations, hpath]

private theorem reports_branch {path : Path} {fs : List Frame} (span : Span) {condition : Expr}
    {yes : Stmt} {no : Option Stmt} (hawaits : Awaits path fs)
    (hyes : Reports fs (yes.resolve path.classKind path.bodyKind) (siteViolations (yes.sites path))
      (Stays fs yes.Like))
    (hno : Reports fs (resolveElse path.classKind path.bodyKind no)
      (siteViolations (elseSites path no)) (Stays fs fun no' =>
        no'.map (·.relabel .noDistances) = no.map (·.relabel .noDistances))) :
    Stmt.ReportsAt (.branch span condition yes no) path fs := by
  have hrest (condition' : Expr) (hcondition : condition.Like condition') : Reports fs (do
      let yes ← yes.resolve path.classKind path.bodyKind
      return Stmt.branch span condition' yes (← resolveElse path.classKind path.bodyKind no))
      (siteViolations (yes.sites path) ++ siteViolations (elseSites path no))
      (Stays fs (Stmt.Like (.branch span condition yes no))) := by
    refine hyes.pair hno fun yes' no' hlike hsame => ?_
    simp only [Expr.Like, Stmt.Like] at hcondition hlike
    simp only [Stmt.Like, Stmt.relabel, relabelElse_eq_map, hcondition, hlike, hsame]
  unfold Stmt.ReportsAt
  rw [Stmt.resolve]
  refine Reports.of_eq ((condition.reports hawaits).stay hrest) ?_
  simp [Stmt.sites, Site.violations, Stmt.violations]

private theorem reports_function {path : List String → Path} {inside : ClassKind} {kind : BodyKind}
    (hpath : Uniform path inside kind) (hscope : (path []).scope? = some []) {fs : List Frame}
    (span : Span) (name : String) (params : List String) {body : List Stmt}
    (hbody : ∀ gs, Fits (path params).scope? gs → Reports gs (resolveBody inside kind body)
      (siteViolations (bodySites path params body)) fun body' hs => SameOuter gs hs ∧
        body'.map (·.relabel .noDistances) = body.map (·.relabel .noDistances)) :
    Reports fs (FunDecl.resolve inside kind ⟨span, name, params, body⟩)
      (siteViolations (FunDecl.sites path ⟨span, name, params, body⟩))
      (Stays fs (FunDecl.Like ⟨span, name, params, body⟩)) := by
  have hempty : Fits (path []).scope? ([] :: fs) := hscope ▸ fits_empty fs
  rw [FunDecl.resolve, FunDecl.sites, siteViolations_append]
  refine reports_inScope ((reports_params params span hpath hempty).bind fun _ gs hgs => ?_)
  refine (hbody gs hgs.2).andPure fun body' hs hlike => ⟨hgs.1.trans hlike.1, ?_⟩
  simp only [FunDecl.Like, FunDecl.relabel, relabelBody_eq_map, hlike.2]

mutual

theorem FunDecl.reports (decl : FunDecl) (hproper : decl.Proper) {path : List String → Path}
    {inside : ClassKind} {kind : BodyKind} (hpath : Uniform path inside kind)
    (hscope : (path []).scope? = some []) (fs : List Frame) :
    Reports fs (decl.resolve inside kind) (siteViolations (decl.sites path))
      (Stays fs decl.Like) := by
  match decl, hproper with
  | ⟨span, name, params, body⟩, ⟨_, hbody⟩ =>
    exact reports_function hpath hscope span name params fun gs hgs =>
      reports_body body hbody hpath hgs

theorem Stmt.reports (s : Stmt) (hproper : s.Proper) {path : Path} {fs : List Frame}
    (hfits : Fits path.scope? fs) (hpath : path.initializing? = none) : s.ReportsAt path fs := by
  have hawaits : Awaits path fs := hfits.awaits hpath
  match s, hproper with
  | .expr span value, _ =>
    unfold Stmt.ReportsAt
    rw [Stmt.resolve]
    refine (value.reports hawaits).single fun value' hlike => ?_
    simp only [Expr.Like] at hlike
    simp only [Stmt.Like, Stmt.relabel, hlike]
  | .print span value, _ =>
    unfold Stmt.ReportsAt
    rw [Stmt.resolve]
    refine (value.reports hawaits).single fun value' hlike => ?_
    simp only [Expr.Like] at hlike
    simp only [Stmt.Like, Stmt.relabel, hlike]
  | .ret span value, _ => exact reports_ret hawaits span value
  | .varDecl span name value, _ => exact reports_varDecl hfits span name value
  | .funDecl decl, ⟨_, hdecl⟩ =>
    have hbody := (decl.reports hdecl (uniform_function path) rfl
      (declareName decl.name fs)).single (f := Stmt.funDecl) (R := Stmt.Like (.funDecl decl))
      fun decl' hlike => by
        simp only [FunDecl.Like] at hlike
        simp only [Stmt.Like, Stmt.relabel, hlike]
    unfold Stmt.ReportsAt
    rw [Stmt.resolve, Stmt.sites, siteViolations_cons]
    exact (reports_declareDefined hfits decl.name decl.span).next fun _ => hbody
  | .classDecl span name none methods, ⟨_, hmethods⟩ =>
    exact reports_baseClass hfits span name (reports_methods methods hmethods _)
  | .classDecl span name (some superclass) methods, ⟨_, hmethods⟩ =>
    exact reports_derivedClass hfits hpath span name superclass
      (reports_methods methods hmethods _)
  | .block span body, hbody =>
    unfold Stmt.ReportsAt
    rw [Stmt.resolve]
    refine (reports_inScope (reports_body body hbody (uniform_block path)
      (fits_empty fs))).single fun body' hlike => ?_
    simp only [Stmt.Like, Stmt.relabel, relabelBody_eq_map, hlike]
  | .branch span condition yes no, ⟨_, ⟨hyes, hplain⟩, hno⟩ =>
    exact reports_branch span hawaits ((yes.reports hyes hfits hpath).stays hplain)
      (reports_else no hno hfits hpath)
  | .loop span condition body, ⟨_, hbody, hplain⟩ =>
    unfold Stmt.ReportsAt
    rw [Stmt.resolve, Stmt.sites]
    refine Reports.of_eq ((condition.reports hawaits).pair
      ((body.reports hbody hfits hpath).stays hplain) ?_) ?_
    · intro condition' body' hcondition hlike
      simp only [Expr.Like, Stmt.Like] at hcondition hlike
      simp only [Stmt.Like, Stmt.relabel, hcondition, hlike]
    · simp [Site.violations, Stmt.violations]

private theorem reports_else (no : Option Stmt) (hproper : properElse no) {path : Path}
    {fs : List Frame} (hfits : Fits path.scope? fs) (hpath : path.initializing? = none) :
    Reports fs (resolveElse path.classKind path.bodyKind no) (siteViolations (elseSites path no))
      (Stays fs fun no' =>
        no'.map (·.relabel .noDistances) = no.map (·.relabel .noDistances)) := by
  match no, hproper with
  | none, _ =>
    rw [resolveElse]
    exact .pure ⟨rfl, rfl⟩
  | some s, ⟨hs, hplain⟩ =>
    rw [resolveElse, elseSites]
    exact ((s.reports hs hfits hpath).stays hplain).single fun s' hlike => congrArg some hlike

private theorem reports_body (body : List Stmt) (hproper : properBody body)
    {path : List String → Path}
    {inside : ClassKind} {kind : BodyKind} {declared : List String} {fs : List Frame}
    (hpath : Uniform path inside kind) (hfits : Fits (path declared).scope? fs) :
    Reports fs (resolveBody inside kind body) (siteViolations (bodySites path declared body))
      fun body' gs => SameOuter fs gs ∧
        body'.map (·.relabel .noDistances) = body.map (·.relabel .noDistances) := by
  match body, hproper with
  | [], _ =>
    rw [resolveBody]
    exact .pure ⟨.refl fs, rfl⟩
  | first :: others, ⟨hfirst, hothers⟩ =>
    have hnext :
        Fits (path (declared ++ first.declared?.toList)).scope? (first.framesAfter fs) := by
      rw [hpath.scope]
      exact hfits.framesAfter first
    have hstep := first.reports hfirst hfits (hpath.initializing declared)
    unfold Stmt.ReportsAt at hstep
    rw [hpath.classKind, hpath.bodyKind] at hstep
    rw [resolveBody, bodySites, siteViolations_append]
    refine hstep.stay fun first' hlike => ?_
    refine (reports_body others hothers hpath hnext).andPure fun others' hs hsame => ?_
    refine ⟨(sameOuter_framesAfter first fs).trans hsame.1, ?_⟩
    rw [List.map_cons, List.map_cons, hsame.2]
    exact congrArg (· :: _) hlike

private theorem reports_methods (methods : List FunDecl) (hproper : properMethods methods)
    (path : Path) :
    MethodsReport path methods := by
  intro fs
  match methods, hproper with
  | [], _ =>
    rw [resolveMethods]
    exact .pure ⟨rfl, rfl⟩
  | first :: others, ⟨hfirst, hothers⟩ =>
    rw [resolveMethods, methodSites, siteViolations_append]
    refine (first.reports hfirst (uniform_method path first) rfl fs).pair
      (reports_methods others hothers path fs) ?_
    intro first' others' hlike hsame
    rw [List.map_cons, List.map_cons, hsame]
    exact congrArg (· :: _) hlike

end

/-- What the resolver reports on a proper program are its violations, and the program that it
returns is the one that it was given, but for distances. -/
theorem resolve_reports {program : List Stmt} (hproper : properBody program) :
    (resolve program).errors = violations program ∧
      (resolve program).program.map (·.relabel .noDistances) =
        program.map (·.relabel .noDistances) := by
  have hfits : Fits (Path.scope? []) [] := rfl
  obtain ⟨herrors, -, hlike⟩ := reports_body program hproper uniform_program hfits {} rfl
  exact ⟨herrors, hlike⟩

/-- For every source that is read without errors, resolution reports exactly the violations of its
program, and changes nothing in it but distances. -/
theorem resolve_reports_violations (source : String) (h : (parse source).errors = []) :
    (resolve (parse source).program).errors = violations (parse source).program ∧
      (resolve (parse source).program).program.map (·.relabel .noDistances) =
        (parse source).program.map (·.relabel .noDistances) :=
  resolve_reports (proper_of_parse h).1

/-- A parameter twice, a variable in its own initializer, `super` without a superclass, and a value
returned from an initializer but not from the function inside of it. -/
theorem resolve_reports_nested :
    (resolve (parse "fun f(a, a) { { var b = b; } }
class A { init() { fun g() { return super.x; } return nil; } }").program).errors =
      [⟨.alreadyDefined "a", ⟨0, 30⟩⟩, ⟨.accessInsideInitializer "b", ⟨24, 25⟩⟩,
        ⟨.superWithoutSuperclass, ⟨67, 74⟩⟩, ⟨.returnInInitializer, ⟨78, 89⟩⟩] := by
  have h := resolve_reports_violations "fun f(a, a) { { var b = b; } }
class A { init() { fun g() { return super.x; } return nil; } }" (by decide +kernel)
  rw [h.1]
  decide +kernel

end LoxLang
