import LoxLang.Proofs.Scoping.Resolves
/-!
# Resolution of joined programs

Resolution reads spans only to report them, and it never looks back at what it has
found. So on the same tree with other spans it does the same up to spans, and on two
programs in a row it does what it does on each of them.
-/
namespace LoxLang

/-- A resolver without its spans, after all that an earlier resolver has found. -/
def Resolver.after (earlier r : Resolver) : Resolver where
  frames := r.frames
  errors := earlier.errors ++ r.errors.map fun e => ⟨e.value, Relabel.noSpans.span e.span⟩
  lookups := earlier.lookups ++ r.lookups
  globalEnded := earlier.globalEnded || r.globalEnded

namespace Resolve

variable {α β γ δ : Type}

/-- The second step does what the first does, up to spans and after whatever was found before. -/
def Echoes (p : Resolve α) (q : Resolve β) (g : α → β) : Prop :=
  ∀ earlier r : Resolver, q (earlier.after r) = (g (p r).1, earlier.after (p r).2)

namespace Echoes

variable {p : Resolve α} {q : Resolve β} {g : α → β}

theorem pure {a : α} {b : β} (h : g a = b) : Echoes (Pure.pure a) (Pure.pure b) g := by
  intro earlier r
  rw [← h]
  rfl

theorem bind {f : α → Resolve γ} {f' : β → Resolve δ} {g' : γ → δ} (hp : Echoes p q g)
    (hf : ∀ a, Echoes (f a) (f' (g a)) g') : Echoes (p >>= f) (q >>= f') g' := by
  intro earlier r
  have hleft : (p >>= f) r = f (p r).1 (p r).2 := rfl
  have hright : (q >>= f') (earlier.after r) =
      f' (q (earlier.after r)).1 (q (earlier.after r)).2 := rfl
  rw [hleft, hright, hp]
  exact hf (p r).1 earlier (p r).2

theorem map {f : α → γ} {f' : β → δ} {g' : γ → δ} (hp : Echoes p q g)
    (hf : ∀ a, g' (f a) = f' (g a)) : Echoes (f <$> p) (f' <$> q) g' := by
  intro earlier r
  have hleft : (f <$> p) r = (f (p r).1, (p r).2) := rfl
  have hright : (f' <$> q) (earlier.after r) =
      (f' (q (earlier.after r)).1, (q (earlier.after r)).2) := rfl
  rw [hleft, hright, hp, hf]

theorem getThen {f : Resolver → Resolve α} {f' : Resolver → Resolve β}
    (h : ∀ earlier r : Resolver, Echoes (f r) (f' (earlier.after r)) g) :
    Echoes (get >>= f) (get >>= f') g :=
  fun earlier r => h earlier r earlier r

end Echoes

private theorem echoes_report (error : Error) (span : Span) :
    Echoes (report error span) (report error (Relabel.noSpans.span span)) id := by
  intro earlier r
  have hrun : ∀ span r, report error span r =
      ((), { r with errors := r.errors.push ⟨error, span⟩ }) := fun _ _ => rfl
  rw [hrun, hrun]
  simp [Resolver.after]

private theorem echoes_put (name : String) (ready : Bool) :
    Echoes (put name ready) (put name ready) id := by
  intro earlier r
  rw [put_apply, put_apply]
  rfl

private theorem echoes_declare (name : String) (span : Span) :
    Echoes (declare name span) (declare name (Relabel.noSpans.span span)) id := by
  refine .getThen fun earlier r => ?_
  have hframes : (earlier.after r).frames = r.frames := rfl
  rw [hframes]
  cases r.frames with
  | nil => exact .pure rfl
  | cons frame outer =>
    refine (echoes_put name false).bind fun _ => ?_
    by_cases h : frame.declares name = true
    · simp only [h, if_true]
      exact echoes_report _ span
    · simp only [h, Bool.false_eq_true, if_false]
      exact .pure rfl

private theorem echoes_declareDefined (name : String) (span : Span) :
    Echoes (declareDefined name span) (declareDefined name (Relabel.noSpans.span span)) id :=
  (echoes_declare name span).bind fun _ => echoes_put name true

private theorem echoes_distance (name : String) : Echoes (distance name) (distance name) id := by
  intro earlier r
  have hrun : ∀ r : Resolver, distance name r = (r.frames.findIdx? (·.declares name),
      { r with lookups := r.lookups.push ⟨name, r.frames.findIdx? (·.declares name)⟩ }) :=
    fun _ => rfl
  rw [hrun, hrun]
  simp [Resolver.after]

private theorem echoes_read (span : Span) (name : String) :
    Echoes (read span name) (read (Relabel.noSpans.span span) name) id := by
  have hrest : Echoes (do return ⟨name, ← distance name⟩ : Resolve Ref)
      (do return ⟨name, ← distance name⟩ : Resolve Ref) id :=
    (echoes_distance name).bind fun _ => .pure rfl
  refine .getThen fun earlier r => ?_
  have hframes : (earlier.after r).frames = r.frames := rfl
  rw [hframes]
  by_cases h : r.frames.head?.any (·.isPending name) = true
  · simp only [h, if_true]
    exact (echoes_report _ span).bind fun _ => hrest
  · simp only [h, Bool.false_eq_true, if_false]
    exact hrest

private theorem echoes_inScope {p : Resolve α} {q : Resolve β} {g : α → β} (h : Echoes p q g) :
    Echoes (inScope p) (inScope q) g := by
  have hbegin : Echoes beginScope beginScope id := fun _ _ => rfl
  have hend : Echoes endScope endScope id := by
    intro earlier r
    cases r with
    | mk frames errors lookups globalEnded =>
      cases frames with
      | nil =>
        have hrun : ∀ r : Resolver, r.frames = [] →
            endScope r = ((), { r with globalEnded := true }) := by
          intro r hr
          cases r with
          | mk frames errors lookups globalEnded =>
            cases hr
            rfl
        rw [hrun _ rfl, hrun _ rfl]
        simp [Resolver.after]
      | cons frame outer => rfl
  exact hbegin.bind fun _ => h.bind fun _ => hend.bind fun _ => .pure rfl

private theorem echoes_params (params : List String) (span : Span) :
    Echoes (params.forM (declareDefined · span))
      (params.forM (declareDefined · (Relabel.noSpans.span span))) id := by
  induction params with
  | nil => exact .pure rfl
  | cons first others ih =>
    exact (echoes_declareDefined first span).bind fun _ => ih

private theorem Echoes.reportIf {p : Resolve α} {q : Resolve β} {g : α → β} (c : Prop) [Decidable c]
    (error : Error) (span : Span) (h : Echoes p q g) :
    Echoes (do
        if c then report error span
        p)
      (do
        if c then report error (Relabel.noSpans.span span)
        q) g := by
  by_cases hc : c
  · rw [if_pos hc, if_pos hc]
    exact (echoes_report error span).bind fun _ => h
  · rw [if_neg hc, if_neg hc]
    exact h

end Resolve

open Resolve

/-! ## Trees -/

private theorem echoes_this (inside : ClassKind) (span : Span) (d : Option Nat) :
    Echoes ((Expr.this span d).resolve inside)
      (((Expr.this span d).relabel .noSpans).resolve inside) (·.relabel .noSpans) := by
  rw [Expr.relabel, Expr.resolve, Expr.resolve]
  by_cases h : inside = .outside
  · rw [if_pos h, if_pos h]
    exact (echoes_report _ span).bind fun _ => .pure (by rw [Expr.relabel])
  · rw [if_neg h, if_neg h]
    exact (echoes_distance "this").bind fun _ => .pure (by rw [Expr.relabel]; rfl)

private theorem echoes_super (inside : ClassKind) (span : Span) (d : Option Nat) (method : String) :
    Echoes ((Expr.super span d method).resolve inside)
      (((Expr.super span d method).relabel .noSpans).resolve inside) (·.relabel .noSpans) := by
  have hrest : Echoes (do return Expr.super span (← distance "super") method)
      (do return Expr.super (Relabel.noSpans.span span) (← distance "super") method)
      (·.relabel .noSpans) :=
    (echoes_distance "super").bind fun _ => .pure (by rw [Expr.relabel]; rfl)
  rw [Expr.relabel]
  unfold Expr.resolve
  cases inside with
  | outside => exact (echoes_report _ span).bind fun _ => hrest
  | base => exact (echoes_report _ span).bind fun _ => hrest
  | derived => exact hrest

mutual

private theorem Expr.echoes (inside : ClassKind) (e : Expr) :
    Echoes (e.resolve inside) ((e.relabel .noSpans).resolve inside) (·.relabel .noSpans) := by
  match e with
  | .literal span value =>
    rw [Expr.relabel, Expr.resolve, Expr.resolve]
    exact .pure (by rw [Expr.relabel])
  | .var span ref =>
    rw [Expr.relabel, Expr.resolve, Expr.resolve]
    exact (echoes_read span ref.name).bind fun _ => .pure (by rw [Expr.relabel]; rfl)
  | .this span d => exact echoes_this inside span d
  | .super span d method => exact echoes_super inside span d method
  | .grouping span inner =>
    rw [Expr.relabel, Expr.resolve, Expr.resolve]
    exact (inner.echoes inside).bind fun _ => .pure (by rw [Expr.relabel])
  | .unary span op operand =>
    rw [Expr.relabel, Expr.resolve, Expr.resolve]
    exact (operand.echoes inside).bind fun _ => .pure (by rw [Expr.relabel])
  | .binary span op left right =>
    rw [Expr.relabel, Expr.resolve, Expr.resolve]
    exact (left.echoes inside).bind fun _ => (right.echoes inside).bind fun _ =>
      .pure (by rw [Expr.relabel])
  | .logical span op left right =>
    rw [Expr.relabel, Expr.resolve, Expr.resolve]
    exact (left.echoes inside).bind fun _ => (right.echoes inside).bind fun _ =>
      .pure (by rw [Expr.relabel])
  | .assign span target value =>
    rw [Expr.relabel, Expr.resolve, Expr.resolve]
    exact (value.echoes inside).bind fun _ => (echoes_distance target.name).bind fun _ =>
      .pure (by rw [Expr.relabel]; rfl)
  | .call span callee args =>
    rw [Expr.relabel, Expr.resolve, Expr.resolve]
    exact (callee.echoes inside).bind fun _ => (echoes_arguments inside args).bind fun _ =>
      .pure (by rw [Expr.relabel])
  | .get span object name =>
    rw [Expr.relabel, Expr.resolve, Expr.resolve]
    exact (object.echoes inside).bind fun _ => .pure (by rw [Expr.relabel])
  | .set span object name value =>
    rw [Expr.relabel, Expr.resolve, Expr.resolve]
    exact (value.echoes inside).bind fun _ => (object.echoes inside).bind fun _ =>
      .pure (by rw [Expr.relabel])

private theorem echoes_arguments (inside : ClassKind) (es : List Expr) :
    Echoes (resolveArguments inside es) (resolveArguments inside (relabelArguments .noSpans es))
      (relabelArguments .noSpans) := by
  match es with
  | [] =>
    rw [relabelArguments, resolveArguments]
    exact .pure rfl
  | first :: others =>
    rw [relabelArguments, resolveArguments, resolveArguments]
    exact (first.echoes inside).bind fun _ => (echoes_arguments inside others).bind fun _ =>
      .pure rfl

end

private theorem echoes_option (inside : ClassKind) (e : Option Expr) :
    Echoes (resolveOption inside e) (resolveOption inside (e.map (·.relabel .noSpans)))
      (Option.map (·.relabel .noSpans)) := by
  cases e with
  | none => exact .pure rfl
  | some e => exact (e.echoes inside).map fun _ => rfl

private theorem echoes_thisScope {inside : ClassKind} {span : Span} {methods : List FunDecl}
    (ih : Echoes (resolveMethods inside methods)
      (resolveMethods inside (relabelMethods .noSpans methods)) (relabelMethods .noSpans)) :
    Echoes (inScope do
        declareDefined "this" span
        resolveMethods inside methods)
      (inScope do
        declareDefined "this" (Relabel.noSpans.span span)
        resolveMethods inside (relabelMethods .noSpans methods)) (relabelMethods .noSpans) :=
  echoes_inScope ((echoes_declareDefined "this" span).bind fun _ => ih)

private theorem echoes_derivedClass {inside : ClassKind} {kind : BodyKind} {span : Span}
    {name : String} {superclass : Located Ref} {methods : List FunDecl}
    (ih : Echoes (resolveMethods .derived methods)
      (resolveMethods .derived (relabelMethods .noSpans methods)) (relabelMethods .noSpans)) :
    Echoes ((Stmt.classDecl span name (some superclass) methods).resolve inside kind)
      (((Stmt.classDecl span name (some superclass) methods).relabel .noSpans).resolve inside kind)
      (·.relabel .noSpans) := by
  rw [Stmt.relabel, Option.map_some, Stmt.resolve, Stmt.resolve]
  refine (echoes_declareDefined name span).bind fun _ => .reportIf _ _ superclass.span ?_
  refine (echoes_read superclass.span superclass.value.name).bind fun ref => ?_
  refine (echoes_inScope ?_).bind fun _ => .pure (by rw [Stmt.relabel]; rfl)
  exact (echoes_declareDefined "super" span).bind fun _ => echoes_thisScope ih

mutual

private theorem FunDecl.echoes (inside : ClassKind) (kind : BodyKind) (decl : FunDecl) :
    Echoes (decl.resolve inside kind) ((decl.relabel .noSpans).resolve inside kind)
      (·.relabel .noSpans) := by
  match decl with
  | ⟨span, name, params, body⟩ =>
    rw [FunDecl.relabel, FunDecl.resolve, FunDecl.resolve]
    exact echoes_inScope ((echoes_params params span).bind fun _ =>
      (echoes_body inside kind body).bind fun _ => .pure (by rw [FunDecl.relabel]))

private theorem Stmt.echoes (inside : ClassKind) (kind : BodyKind) (s : Stmt) :
    Echoes (s.resolve inside kind) ((s.relabel .noSpans).resolve inside kind)
      (·.relabel .noSpans) := by
  match s with
  | .expr span value =>
    rw [Stmt.relabel, Stmt.resolve, Stmt.resolve]
    exact (value.echoes inside).bind fun _ => .pure (by rw [Stmt.relabel])
  | .print span value =>
    rw [Stmt.relabel, Stmt.resolve, Stmt.resolve]
    exact (value.echoes inside).bind fun _ => .pure (by rw [Stmt.relabel])
  | .ret span value =>
    rw [Stmt.relabel, Stmt.resolve, Stmt.resolve, Option.isSome_map]
    refine .reportIf _ _ span (.reportIf _ _ span ?_)
    exact (echoes_option inside value).bind fun _ => .pure (by rw [Stmt.relabel])
  | .varDecl span name value =>
    rw [Stmt.relabel, Stmt.resolve, Stmt.resolve]
    exact (echoes_declare name span).bind fun _ => (echoes_option inside value).bind fun _ =>
      (echoes_put name true).bind fun _ => .pure (by rw [Stmt.relabel])
  | .funDecl decl =>
    have hspan : (decl.relabel .noSpans).span = Relabel.noSpans.span decl.span := by
      cases decl
      rw [FunDecl.relabel]
    rw [Stmt.relabel, Stmt.resolve, Stmt.resolve, name_relabel, hspan]
    exact (echoes_declareDefined decl.name decl.span).bind fun _ =>
      (decl.echoes inside .function).bind fun _ => .pure (by rw [Stmt.relabel])
  | .classDecl span name none methods =>
    rw [Stmt.relabel, Option.map_none, Stmt.resolve, Stmt.resolve]
    exact (echoes_declareDefined name span).bind fun _ =>
      (echoes_thisScope (echoes_methods .base methods)).bind fun _ =>
        .pure (by rw [Stmt.relabel]; rfl)
  | .classDecl span name (some superclass) methods =>
    exact echoes_derivedClass (echoes_methods .derived methods)
  | .block span body =>
    rw [Stmt.relabel, Stmt.resolve, Stmt.resolve]
    exact (echoes_inScope (echoes_body inside kind body)).bind fun _ =>
      .pure (by rw [Stmt.relabel])
  | .branch span condition yes no =>
    rw [Stmt.relabel, Stmt.resolve, Stmt.resolve]
    exact (condition.echoes inside).bind fun _ => (yes.echoes inside kind).bind fun _ =>
      (echoes_else inside kind no).bind fun _ => .pure (by rw [Stmt.relabel])
  | .loop span condition body =>
    rw [Stmt.relabel, Stmt.resolve, Stmt.resolve]
    exact (condition.echoes inside).bind fun _ => (body.echoes inside kind).bind fun _ =>
      .pure (by rw [Stmt.relabel])

private theorem echoes_else (inside : ClassKind) (kind : BodyKind) (no : Option Stmt) :
    Echoes (resolveElse inside kind no) (resolveElse inside kind (relabelElse .noSpans no))
      (relabelElse .noSpans) := by
  match no with
  | none =>
    rw [relabelElse, resolveElse]
    exact .pure rfl
  | some s =>
    rw [relabelElse, resolveElse, resolveElse]
    exact (s.echoes inside kind).bind fun _ => .pure rfl

private theorem echoes_body (inside : ClassKind) (kind : BodyKind) (ss : List Stmt) :
    Echoes (resolveBody inside kind ss) (resolveBody inside kind (relabelBody .noSpans ss))
      (relabelBody .noSpans) := by
  match ss with
  | [] =>
    rw [relabelBody, resolveBody]
    exact .pure rfl
  | first :: others =>
    rw [relabelBody, resolveBody, resolveBody]
    exact (first.echoes inside kind).bind fun _ => (echoes_body inside kind others).bind fun _ =>
      .pure rfl

private theorem echoes_methods (inside : ClassKind) (decls : List FunDecl) :
    Echoes (resolveMethods inside decls) (resolveMethods inside (relabelMethods .noSpans decls))
      (relabelMethods .noSpans) := by
  match decls with
  | [] =>
    rw [relabelMethods, resolveMethods]
    exact .pure rfl
  | first :: others =>
    rw [relabelMethods, resolveMethods, resolveMethods, isInitializer_relabel]
    exact (first.echoes inside _).bind fun _ => (echoes_methods inside others).bind fun _ =>
      .pure rfl

end

/-! ## Programs -/

private theorem resolveBody_withoutSpans (earlier : Resolver) (program : List Stmt)
    (h : earlier.frames = []) :
    resolveBody .outside .program (program.map (·.relabel .noSpans)) earlier =
      ((resolve program).program.map (·.relabel .noSpans),
        earlier.after (resolveBody .outside .program program {}).2) := by
  have hstart : earlier.after {} = earlier := by
    cases earlier with
    | mk frames errors lookups globalEnded =>
      cases h
      simp [Resolver.after]
  have hbody := echoes_body .outside .program program earlier {}
  rw [hstart, relabelBody_eq_map, relabelBody_eq_map] at hbody
  exact hbody

private theorem resolveBody_append (inside : ClassKind) (kind : BodyKind) (p q : List Stmt)
    (r : Resolver) :
    resolveBody inside kind (p ++ q) r =
      let first := resolveBody inside kind p r
      let second := resolveBody inside kind q first.2
      (first.1 ++ second.1, second.2) := by
  induction p generalizing r with
  | nil => rfl
  | cons s ss ih =>
    rw [List.cons_append]
    have hcons : ∀ others, resolveBody inside kind (s :: others) r =
        let first := s.resolve inside kind r
        let rest := resolveBody inside kind others first.2
        (first.1 :: rest.1, rest.2) := by
      intro others
      rw [resolveBody]
      rfl
    simp only [hcons, ih, List.cons_append]

private theorem errors_after (earlier r : Resolver) :
    (earlier.after r).errors.size = earlier.errors.size + r.errors.size := by
  simp [Resolver.after]

private theorem errors_resolve_eq_nil {program : List Stmt} :
    (resolve program).errors = [] ↔
      (resolveBody .outside .program program {}).2.errors.size = 0 := by
  have herrors : (resolve program).errors =
      (resolveBody .outside .program program {}).2.errors.toList := rfl
  rw [herrors, ← List.length_eq_zero_iff, Array.length_toList]

/-- Two programs that pass the check pass it as one, and get the same distances. -/
theorem resolve_join {program p q : List Stmt} (hsame : SameUpToSpans program (p ++ q))
    (hproper : properBody p) (hp : (resolve p).errors = []) (hq : (resolve q).errors = []) :
    (resolve program).errors = [] ∧
      SameUpToSpans (resolve program).program ((resolve p).program ++ (resolve q).program) := by
  -- At the top level there are no frames, so the second program starts as it does alone.
  have hframes : (Resolver.after {} (resolveBody .outside .program p {}).2).frames = [] :=
    List.eq_nil_of_length_eq_zero (resolves_body .outside .program p hproper {}).1.length
  have hwhole := resolveBody_withoutSpans {} program rfl
  rw [hsame, List.map_append, resolveBody_append, resolveBody_withoutSpans {} p rfl] at hwhole
  simp only at hwhole
  rw [resolveBody_withoutSpans _ q hframes] at hwhole
  obtain ⟨hprogram, hstate⟩ := Prod.mk.inj hwhole
  have hsize := congrArg (·.errors.size) hstate
  simp only [errors_after] at hsize
  rw [errors_resolve_eq_nil] at hp hq ⊢
  refine ⟨?_, ?_⟩
  · rw [hp, hq] at hsize
    simpa using hsize.symm
  · rw [SameUpToSpans, ← hprogram, List.map_append]

end LoxLang
