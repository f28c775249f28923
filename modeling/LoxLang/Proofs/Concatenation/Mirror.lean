import LoxLang.Machine.Eval
import LoxLang.Proofs.Concatenation.Erasure
import LoxLang.Proofs.Grammar.Reading
/-!
# Steps without spans

A machine shadows another one if it is the same without spans. It may have written
something before the other one began, and its events may be different ones. A step
that mirrors another one keeps a shadow a shadow and has the same result or the
same error. It also gives back all the calls that it began.
-/
namespace LoxLang

def Halt.withoutSpans : Halt → Halt
  | .raised e => .raised ⟨e.value, Relabel.noSpans.span e.span⟩
  | .broken fault => .broken fault
  | .outOfFuel => .outOfFuel

/-- The second machine is the first one without spans, after some earlier output. In both the same
number of calls are running. -/
structure Shadows (earlier : ByteArray) (depth : Nat) (m m' : Machine) : Prop where
  scopes : m'.scopes = m.scopes.withoutSpans
  objects : m'.objects = m.objects.map (·.map Value.withoutSpans)
  identity : m'.identity = m.identity
  frames : m.frames = depth
  frames' : m'.frames = depth
  written : m'.output.written = earlier ++ m.output.written
  room : m'.output.room = m.output.room
  readings : m'.readings = m.readings

variable {α β γ δ : Type} {earlier : ByteArray} {depth : Nat}

/-- The two ways in which a step and its mirror image end. -/
inductive Reflected (earlier : ByteArray) (depth : Nat) (g : α → β) :
    EStateM.Result Halt Machine α → EStateM.Result Halt Machine β → Prop
  | ok {a : α} {m m' : Machine} :
      Shadows earlier depth m m' → Reflected earlier depth g (.ok a m) (.ok (g a) m')
  | error {halt : Halt} {m m' : Machine} :
      Shadows earlier depth m m' →
      Reflected earlier depth g (.error halt m) (.error halt.withoutSpans m')

/-- The second step does to a shadow what the first does to the machine. -/
def Mirrors (earlier : ByteArray) (depth : Nat) (p : Run α) (q : Run β) (g : α → β) : Prop :=
  ∀ m m', Shadows earlier depth m m' → Reflected earlier depth g (p m) (q m')

namespace Mirrors

variable {p : Run α} {q : Run β} {g : α → β}

theorem pure {a : α} {b : β} (h : g a = b) :
    Mirrors earlier depth (Pure.pure a) (Pure.pure b) g := by
  intro m m' hm
  rw [← h]
  exact .ok hm

theorem raise (error : Error) (span : Span) :
    Mirrors earlier depth (Machine.raise error span) (Machine.raise error (Relabel.noSpans.span span))
      g :=
  fun _ _ hm => .error hm

theorem raiseType (error : String → Error) (v : Value ScopeId) (span : Span) :
    Mirrors earlier depth (Machine.raise (error v.typeName) span)
      (Machine.raise (error v.withoutSpans.typeName) (Relabel.noSpans.span span)) g := by
  rw [← v.alike_withoutSpans.typeName]
  exact .raise _ span

theorem fault (what : Fault) :
    Mirrors earlier depth (Machine.fault what) (Machine.fault what) g :=
  fun _ _ hm => .error hm

theorem outOfFuel :
    Mirrors earlier depth (throw .outOfFuel : Run α) (throw .outOfFuel : Run β) g :=
  fun _ _ hm => .error hm

theorem bind {f : α → Run γ} {f' : β → Run δ} {g' : γ → δ} (hp : Mirrors earlier depth p q g)
    (hf : ∀ a, Mirrors earlier depth (f a) (f' (g a)) g') :
    Mirrors earlier depth (p >>= f) (q >>= f') g' := by
  intro m m' hm
  have hends := hp m m' hm
  rw [bind_apply, bind_apply]
  generalize p m = left at hends
  generalize q m' = right at hends
  cases hends with
  | ok hm' => exact hf _ _ _ hm'
  | error hm' => exact .error hm'

theorem map {f : α → γ} {f' : β → δ} {g' : γ → δ} (hp : Mirrors earlier depth p q g)
    (hf : ∀ a, g' (f a) = f' (g a)) : Mirrors earlier depth (f <$> p) (f' <$> q) g' :=
  hp.bind fun a => .pure (hf a)

theorem getThen {f : Machine → Run α} {f' : Machine → Run β}
    (h : ∀ m m', Shadows earlier depth m m' → Mirrors earlier depth (f m) (f' m') g) :
    Mirrors earlier depth (get >>= f) (get >>= f') g :=
  fun m m' hm => h m m' hm m m' hm

theorem modify {f f' : Machine → Machine}
    (h : ∀ m m', Shadows earlier depth m m' → Shadows earlier depth (f m) (f' m')) :
    Mirrors earlier depth (modify f) (modify f') id :=
  fun m m' hm => .ok (h m m' hm)

theorem modifyGet {f : Machine → α × Machine} {f' : Machine → β × Machine}
    (h : ∀ m m', Shadows earlier depth m m' →
      g (f m).1 = (f' m').1 ∧ Shadows earlier depth (f m).2 (f' m').2) :
    Mirrors earlier depth (modifyGet f) (modifyGet f') g := by
  intro m m' hm
  obtain ⟨hvalue, hshadow⟩ := h m m' hm
  have hends : Reflected earlier depth g (.ok (f m).1 (f m).2) (.ok (f' m').1 (f' m').2) := by
    rw [← hvalue]
    exact .ok hshadow
  exact hends

theorem emitThen {f : Unit → Run α} {f' : Unit → Run β} (event event' : Event)
    (h : Mirrors earlier depth (f ()) (f' ()) g) :
    Mirrors earlier depth (Machine.emit event >>= f) (Machine.emit event' >>= f') g :=
  fun _ _ hm => h _ _ { hm with }

end Mirrors

/-! ## Names -/

namespace Machine

theorem mirrors_newScope (parent : ScopeId) (bindings : Bindings (Value ScopeId)) :
    Mirrors earlier depth (newScope parent bindings)
      (newScope parent (bindings.map Value.withoutSpans)) id := by
  refine .modifyGet fun m m' hm => ⟨?_, { hm with scopes := ?_ }⟩
  · rw [hm.scopes, Scopes.next_withoutSpans]
    rfl
  · rw [hm.scopes, Scopes.withoutSpans_push]
    rfl

theorem mirrors_define (id' : ScopeId) (name : String) (value : Value ScopeId) :
    Mirrors earlier depth (define id' name value) (define id' name value.withoutSpans) id := by
  refine .modify fun m m' hm => { hm with scopes := ?_ }
  rw [hm.scopes, Scopes.withoutSpans_define]

private theorem mirrors_getAt (scope : ScopeId) (distance : Nat) (name : String) :
    Mirrors earlier depth (getAt scope distance name) (getAt scope distance name)
      Value.withoutSpans := by
  refine .getThen fun m m' hm => ?_
  rw [hm.scopes, Scopes.getAt?_withoutSpans]
  cases m.scopes.getAt? scope distance name with
  | some value => exact .pure rfl
  | none => exact .fault _

private theorem mirrors_assignAt (scope : ScopeId) (distance : Nat) (name : String)
    (value : Value ScopeId) :
    Mirrors earlier depth (assignAt scope distance name value)
      (assignAt scope distance name value.withoutSpans) id := by
  refine .getThen fun m m' hm => ?_
  rw [hm.scopes, Scopes.ancestor?_withoutSpans]
  cases m.scopes.ancestor? distance scope with
  | some owner => exact mirrors_define owner name value
  | none => exact .fault _

private theorem mirrors_assignByName (scope : ScopeId) (name : String) (value : Value ScopeId)
    (span : Span) :
    Mirrors earlier depth (assignByName scope name value span)
      (assignByName scope name value.withoutSpans (Relabel.noSpans.span span)) id := by
  refine .getThen fun m m' hm => ?_
  rw [hm.scopes, Scopes.owner?_withoutSpans]
  cases m.scopes.owner? scope name with
  | some owner => exact mirrors_define owner name value
  | none => exact .raise _ span

theorem mirrors_lookup (scope : ScopeId) (ref : Ref) (span : Span) :
    Mirrors earlier depth (lookup scope ref span) (lookup scope ref (Relabel.noSpans.span span))
      Value.withoutSpans := by
  unfold lookup
  cases ref.distance with
  | some distance => exact mirrors_getAt scope distance ref.name
  | none =>
    refine .getThen fun m m' hm => ?_
    rw [hm.scopes, Scopes.get?_withoutSpans]
    cases m.scopes.get? globals ref.name with
    | some value => exact .pure rfl
    | none => exact .raise _ span

theorem mirrors_assign (scope : ScopeId) (ref : Ref) (value : Value ScopeId) (span : Span) :
    Mirrors earlier depth (assign scope ref value span)
      (assign scope ref value.withoutSpans (Relabel.noSpans.span span)) id := by
  unfold assign
  cases ref.distance with
  | some distance => exact mirrors_assignAt scope distance ref.name value
  | none => exact mirrors_assignByName globals ref.name value span

/-! ## Functions and classes -/

theorem mirrors_newClosure (decl : FunDecl) (scope : ScopeId) (isInitializer : Bool) :
    Mirrors earlier depth (newClosure decl scope isInitializer)
      (newClosure (decl.relabel .noSpans) scope isInitializer) Closure.withoutSpans := by
  refine .modifyGet fun m m' hm => ⟨?_, { hm with identity := ?_ }⟩
  · rw [hm.identity]
    rfl
  · rw [hm.identity]

private theorem mirrors_newClass (name : String) (superclass : Option (Class ScopeId))
    (methods : Bindings (Closure ScopeId)) :
    Mirrors earlier depth (newClass name superclass methods)
      (newClass name (superclass.map Class.withoutSpans) (methods.map Closure.withoutSpans))
      Class.withoutSpans := by
  refine .modifyGet fun m m' hm => ⟨?_, { hm with identity := ?_ }⟩
  · rw [hm.identity]
    cases superclass <;> rw [Class.withoutSpans] <;> rfl
  · rw [hm.identity]

theorem mirrors_newObject (c : Class ScopeId) :
    Mirrors earlier depth (newObject c) (newObject c.withoutSpans) Value.withoutSpans := by
  refine .modifyGet fun m m' hm => ⟨?_, { hm with objects := ?_ }⟩
  · rw [hm.objects, Array.size_map]
    rfl
  · rw [hm.objects, Array.map_push, Bindings.map_empty]

theorem mirrors_setField (cell : Nat) (name : String) (value : Value ScopeId) :
    Mirrors earlier depth (setField cell name value) (setField cell name value.withoutSpans) id := by
  refine .modify fun m m' hm => { hm with objects := ?_ }
  rw [hm.objects, map_modify]
  intro fields
  exact Bindings.map_insert _ _ _ _

theorem mirrors_bind (method : Closure ScopeId) (receiver : Value ScopeId) :
    Mirrors earlier depth (bind method receiver) (bind method.withoutSpans receiver.withoutSpans)
      Closure.withoutSpans :=
  (mirrors_newScope method.env (Bindings.empty.insert "this" receiver)).bind fun scope =>
    mirrors_newClosure method.decl scope method.isInitializer

private theorem mirrors_newMethods (scope : ScopeId) (decls : List FunDecl)
    (methods : Bindings (Closure ScopeId)) :
    Mirrors earlier depth (newMethods scope decls methods)
      (newMethods scope (decls.map (·.relabel .noSpans)) (methods.map Closure.withoutSpans))
      (·.map Closure.withoutSpans) := by
  induction decls generalizing methods with
  | nil => exact .pure rfl
  | cons decl rest ih =>
    rw [List.map_cons, newMethods, newMethods, name_relabel, isInitializer_relabel]
    refine (mirrors_newClosure decl scope decl.isInitializer).bind fun method => ?_
    rw [← Bindings.map_insert]
    exact ih _

private theorem mirrors_boundMethod (c d : Class ScopeId) (cell : Nat) (name : String)
    (span : Span) :
    Mirrors earlier depth
      (match c.method? name with
        | some method => .function <$> bind method (.object cell d)
        | none => raise (.noSuchAttribute c.name name) span : Run (Value ScopeId))
      (match c.withoutSpans.method? name with
        | some method => .function <$> bind method (.object cell d.withoutSpans)
        | none => raise (.noSuchAttribute c.withoutSpans.name name) (Relabel.noSpans.span span) :
          Run (Value ScopeId))
      Value.withoutSpans := by
  rw [Class.method?_withoutSpans, Class.name_withoutSpans]
  cases c.method? name with
  | some method => exact (mirrors_bind method (.object cell d)).map fun _ => rfl
  | none => exact .raise _ span

theorem mirrors_property (receiver : Value ScopeId) (name : String) (span : Span) :
    Mirrors earlier depth (property receiver name span)
      (property receiver.withoutSpans name (Relabel.noSpans.span span)) Value.withoutSpans := by
  cases receiver with
  | object cell c =>
    refine .getThen fun m m' hm => ?_
    have hfield : ((m'.objects.getD cell .empty).get? name) =
        ((m.objects.getD cell .empty).get? name).map Value.withoutSpans := by
      rw [hm.objects, Array.getD_eq_getD_getElem?, Array.getD_eq_getD_getElem?, Array.getElem?_map]
      cases m.objects[cell]? <;> simp
    rw [hfield]
    cases (m.objects.getD cell .empty).get? name with
    | some value => exact .pure rfl
    | none => exact mirrors_boundMethod c c cell name span
  | _ => exact .raise _ span

theorem mirrors_superMethod (scope : ScopeId) (distance : Option Nat) (name : String)
    (span : Span) :
    Mirrors earlier depth (superMethod scope distance name span)
      (superMethod scope distance name (Relabel.noSpans.span span)) Value.withoutSpans := by
  unfold superMethod
  cases distance with
  | none => exact .fault _
  | some distance =>
    cases distance with
    | zero => exact .fault _
    | succ inner =>
      refine (mirrors_getAt scope (inner + 1) "super").bind fun above => ?_
      cases above with
      | cls c =>
        refine (mirrors_getAt scope inner "this").bind fun receiver => ?_
        cases receiver with
        | object cell d => exact mirrors_boundMethod c d cell name span
        | _ => exact .fault _
      | _ => exact .fault _

theorem mirrors_declareClass (scope inner : ScopeId) (name : String)
    (superclass : Option (Class ScopeId)) (decls : List FunDecl) (span : Span) :
    Mirrors earlier depth (declareClass scope inner name superclass decls span)
      (declareClass scope inner name (superclass.map Class.withoutSpans)
        (decls.map (·.relabel .noSpans)) (Relabel.noSpans.span span)) id :=
  (mirrors_newMethods inner decls .empty).bind fun methods => .emitThen _ _ <|
    (mirrors_newClass name superclass methods).bind fun c =>
      mirrors_assignByName scope name (.cls c) span

/-! ## Output and calls -/

private theorem write_after {o o' : Output} (bytes : ByteArray)
    (hwritten : o'.written = earlier ++ o.written) (hroom : o'.room = o.room) :
    (o'.write bytes).2 = (o.write bytes).2 ∧
      (o'.write bytes).1.written = earlier ++ (o.write bytes).1.written ∧
      (o'.write bytes).1.room = (o.write bytes).1.room := by
  unfold Output.write
  rw [hroom, hwritten]
  cases o.room with
  | none => exact ⟨rfl, ByteArray.append_assoc, rfl⟩
  | some room =>
    by_cases h : bytes.size ≤ room
    · simp only [h, if_true]
      exact ⟨trivial, ByteArray.append_assoc, trivial⟩
    · simp only [h, if_false]
      exact ⟨trivial, ByteArray.append_assoc, trivial⟩

theorem mirrors_writeLine (text : String) (span : Span) :
    Mirrors earlier depth (writeLine text span) (writeLine text (Relabel.noSpans.span span)) id := by
  have hwrite : Mirrors earlier depth
      (modifyGet fun m : Machine => ((m.output.write (text ++ "\n").toUTF8).2,
        { m with output := (m.output.write (text ++ "\n").toUTF8).1 }) : Run Bool)
      (modifyGet fun m : Machine => ((m.output.write (text ++ "\n").toUTF8).2,
        { m with output := (m.output.write (text ++ "\n").toUTF8).1 }) : Run Bool) id := by
    refine .modifyGet fun m m' hm => ?_
    obtain ⟨hok, hwritten, hroom⟩ := write_after (text ++ "\n").toUTF8 hm.written hm.room
    exact ⟨hok.symm, { hm with written := hwritten, room := hroom }⟩
  refine hwrite.bind fun ok => ?_
  cases ok with
  | true => exact .pure rfl
  | false => exact .raise _ span

theorem mirrors_readClock (clock : Nat → Float) :
    Mirrors earlier depth (readClock clock) (readClock clock) Value.withoutSpans := by
  refine .modifyGet fun m m' hm => ⟨?_, { hm with readings := ?_ }⟩
  · rw [hm.readings]
    rfl
  · rw [hm.readings]

theorem mirrors_checkArity (name : String) (expected got : Nat) (span : Span) :
    Mirrors earlier depth (checkArity name expected got span)
      (checkArity name expected got (Relabel.noSpans.span span)) id := by
  unfold checkArity
  by_cases h : expected = got
  · rw [if_pos h, if_pos h]
    exact .pure rfl
  · rw [if_neg h, if_neg h]
    exact .raise _ span

theorem mirrors_inFrame {p : Run α} {q : Run β} {g : α → β} (span : Span)
    (h : Mirrors earlier (depth + 1) p q g) :
    Mirrors earlier depth (inFrame span p) (inFrame (Relabel.noSpans.span span) q) g := by
  intro m m' hm
  unfold inFrame
  rw [hm.frames, hm.frames']
  by_cases hframes : depth ≥ maxFrames
  · rw [if_pos hframes, if_pos hframes]
    exact .error hm
  · rw [if_neg hframes, if_neg hframes]
    have hends := h { m with frames := depth + 1 } { m' with frames := depth + 1 }
      { hm with frames := rfl, frames' := rfl }
    generalize p { m with frames := depth + 1 } = left at hends
    generalize q { m' with frames := depth + 1 } = right at hends
    cases hends with
    | ok hm' =>
      exact .ok { hm' with
        frames := congrArg (· - 1) hm'.frames, frames' := congrArg (· - 1) hm'.frames' }
    | error hm' =>
      exact .error { hm' with
        frames := congrArg (· - 1) hm'.frames, frames' := congrArg (· - 1) hm'.frames' }

theorem mirrors_settle (result : Except Error Literal) (span : Span) :
    Mirrors earlier depth (settle (result.map .ofLiteral) span)
      (settle (result.map .ofLiteral) (Relabel.noSpans.span span)) Value.withoutSpans := by
  cases result with
  | ok literal => exact .pure (Value.withoutSpans_ofLiteral literal)
  | error e => exact .raise e span

theorem mirrors_callResult (f : Closure ScopeId) (flow : Flow ScopeId) :
    Mirrors earlier depth (callResult f flow) (callResult f.withoutSpans flow.withoutSpans)
      Value.withoutSpans := by
  have hinitializer : f.withoutSpans.isInitializer = f.isInitializer := rfl
  unfold callResult
  rw [hinitializer]
  by_cases h : f.isInitializer = true
  · rw [if_pos h, if_pos h]
    exact mirrors_getAt f.env 0 "this"
  · rw [if_neg h, if_neg h]
    cases flow with
    | normal => exact .pure rfl
    | returned value => exact .pure rfl

end Machine

end LoxLang
