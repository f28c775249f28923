import LoxLang.Proofs.Integrity.Evaluation

namespace LoxLang.Machine

variable {clock : Nat → Float} {declared : Closure ScopeId → Prop}

theorem sound_initial (room : Option Nat) : (Machine.initial room).Sound declared where
  root := rfl
  global := by
    refine ⟨.global Nat.zero_lt_one, fun name hname => ?_⟩
    rcases hname with rfl | rfl <;> rfl
  scopes id name value hown := by
    have hroot : (Bindings.empty.insert "clock" (Value.native .clock)).All
        (Value.Sound declared (Machine.initial room)) := Bindings.All.empty.insert trivial
    cases id with
    | zero => exact hroot name value hown
    | succ id => exact absurd hown (Option.some_ne_none value).symm
  objects cell := Bindings.All.empty
  receivers id hown := by
    cases id with
    | zero => exact absurd rfl hown
    | succ id => exact absurd rfl hown

theorem scoped_runnable (source : String) : scopedBody [] (runnable source) := by
  simp only [runnable]
  split
  · rename_i herrors
    exact (scoped_of_resolve (proper_of_parse herrors.1).1 herrors.2).1
  · trivial

variable (clock) in
/-- Top-level statements proceed in order, and only declare global names. -/
theorem proceeds_runAll (fuel : Nat) {program : List Stmt} (hprogram : scopedBody [] program)
    {m : Machine} (hm : m.Sound declared) :
    Proceeds clock declared (Context.orDeclared {} globals (program.filterMap Stmt.declared?))
      (runAll clock fuel program) m (programMoments clock fuel program m) fun _ _ => True := by
  induction program generalizing m with
  | nil => exact .pure hm trivial
  | cons first others ih =>
    obtain ⟨hfirst, hothers⟩ := hprogram
    rw [framesAfter_nil] at hothers
    have hexec : Proceeds clock declared (Context.orDeclared {} globals first.declared?.toList)
        (exec clock fuel globals first) m (moments clock fuel {} (.exec globals first) m) _ :=
      (evaluatorProceeds clock declared fuel).exec hm rfl hfirst hm.global
    refine (hexec.mono ?_ fun _ _ h => h).bind fun flow m₁ _ _ hm₁ => ?_
    · exact fun _ _ => Or.imp_left (And.imp_right (mem_declared_cons.mpr ∘ .inl))
    · refine (ih hothers hm₁).mono ?_ fun _ _ h => h
      exact fun _ _ => Or.imp_left (And.imp_right (mem_declared_cons.mpr ∘ .inr))

theorem Orderly.extend {α : Type} {allowed : Additions} {m₀ m m' : Machine}
    {r : EStateM.Result Halt Machine α} {moments : List Moment} {Q : α → Machine → Prop}
    (h : Orderly clock declared allowed m r moments Q) (hstart : m.scopes = m₀.scopes)
    (hidentity : m.identity = m₀.identity) (hscopes : m'.scopes = (ending r).scopes)
    (hobjects : m'.objects = (ending r).objects) (hidentity' : m'.identity = (ending r).identity) :
    Orderly clock declared allowed m₀ (.ok () m') moments fun _ _ => True := by
  have hfirst : Later m₀ m := later_of_scopes_eq hstart (Nat.le_of_eq hidentity.symm)
  have hlast : Later (ending r) m' := later_of_scopes_eq hscopes (Nat.le_of_eq hidentity'.symm)
  refine ⟨hfirst.trans (h.later.trans hlast), fun id hid name hown => ?_,
    h.sound.of_eq hscopes hobjects (Nat.le_of_eq hidentity'.symm), fun _ _ _ => trivial,
    fun x hx => ?_, h.ordered⟩
  · simp only [ending, hscopes] at hown
    rw [← hstart] at hid ⊢
    exact h.added id hid name hown
  · obtain ⟨hx, hopening, hclosing⟩ := h.inside x hx
    exact ⟨hx, hfirst.trans hopening, hclosing.trans hlast⟩

theorem Orderly.concluded {allowed : Additions} {m : Machine} {source : String}
    {r : EStateM.Result Halt Machine Unit} {moments : List Moment} {Q : Unit → Machine → Prop}
    (h : Orderly clock declared allowed (m.opened source) r moments Q) :
    Orderly clock declared allowed m (.ok () (conclude r).2.flushed) moments fun _ _ => True := by
  obtain ⟨events, hends⟩ := conclude_machine r
  rw [hends]
  exact h.extend rfl rfl rfl rfl rfl

def advance (clock : Nat → Float) (fuel : Nat) (source : String) : Run Unit :=
  fun m => .ok () (m.run clock fuel source).2

variable (clock)

theorem proceeds_advance (fuel : Nat) (source : String) {m : Machine} (hm : m.Sound declared) :
    Proceeds clock declared
      (Context.orDeclared {} globals ((runnable source).filterMap Stmt.declared?))
      (advance clock fuel source) m (sourceMoments clock fuel source m) fun _ _ => True := by
  have hopened : (m.opened source).Sound declared := hm.of_eq rfl rfl (Nat.le_refl _)
  intro hknown
  have hprogram := proceeds_runAll clock fuel (scoped_runnable source) hopened hknown
  simp only [advance, run_eq]
  rcases step_cases clock fuel source with hstep | ⟨hnone, outcome, log, -, hstep⟩
  · rw [hstep]
    exact hprogram.concluded
  · have hnothing : sourceMoments clock fuel source m = [] := by
      rw [sourceMoments, hnone, programMoments]
    have hstays : (m.withEvents (log m.events)).flushed.Sound declared :=
      hm.of_eq rfl rfl (Nat.le_refl _)
    rw [hstep, hnothing]
    exact ⟨later_of_scopes_eq rfl (Nat.le_refl _), addsOnly_of_scopes_eq rfl, hstays,
      fun _ _ _ => trivial, fun _ hx => absurd hx List.not_mem_nil, .nil⟩

theorem proceeds_session (fuel : Nat) (sources : List String) {m : Machine}
    (hm : m.Sound declared) :
    Proceeds clock declared (fun _ _ => True)
      (fun m => .ok () (m.runSession clock fuel sources).2 : Run Unit) m
      (sessionMoments clock fuel sources m) fun _ _ => True := by
  induction sources generalizing m with
  | nil => exact .ofSame rfl rfl (Nat.le_refl _) hm fun _ _ _ => trivial
  | cons source sources ih =>
    have hsource : Proceeds clock declared (fun _ _ => True) (advance clock fuel source) m
        (sourceMoments clock fuel source m) fun _ _ => True :=
      (proceeds_advance clock fuel source hm).mono (fun _ _ _ => trivial) fun _ _ h => h
    exact hsource.bind fun _ m₁ _ _ hm₁ => ih hm₁

/-- After any session the machine is sound, if all functions count as declared. -/
theorem sound_session (fuel : Nat) (room : Option Nat) (sources : List String) :
    ((Machine.initial room).runSession clock fuel sources).2.Sound fun _ => True :=
  (proceeds_session clock fuel sources (sound_initial room) fun _ _ _ _ => trivial).sound

end LoxLang.Machine
