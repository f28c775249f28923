import LoxLang.Proofs.Integrity.Sessions
import LoxLang.Proofs.Search
/-!
# Methods, receivers and superclasses

A function that a program gets hold of is one that a function declaration made, or
a method that is bound to an instance. What a bound method sees as `this` and
`super` is fixed when it is bound. So `super` always means the superclass that the
class of the method was declared with, and an initializer yields its instance.
-/
namespace LoxLang

open Machine

namespace Machine

/-- A variable or a field of the machine has a value. -/
def Holds (m : Machine) (value : Value ScopeId) : Prop :=
  (∃ id name, m.scopes.own? id name = some value) ∨
    ∃ cell name, (m.objects.getD cell .empty).get? name = some value

/-- A value at the start of a task, held or given to it, or at its end, held or yielded. -/
def Moment.Has (clock : Nat → Float) (x : Moment) (m : Machine) (value : Value ScopeId) : Prop :=
  m = x.machine ∧ (m.Holds value ∨ value ∈ x.task.values) ∨
    m = x.ending clock ∧ (m.Holds value ∨ value ∈ x.yields clock)

end Machine

/-- A function was made by a declaration or is a bound method. A class is younger than those above
it, so that the chain of classes, along which methods are searched for, has no circles. -/
def Value.Genuine (course : List Moment) (m : Machine) : Value ScopeId → Prop
  | .function f => (∃ x ∈ course, x.MakesFunction f) ∨ f.Bound m.scopes
  | .cls c | .object _ c =>
    c.chain.Pairwise (fun lower upper => upper.identity < lower.identity) ∧
      ∀ name, c.method? name = c.chain.findSome? (·.methods.get? name)
  | _ => True

private theorem Value.Sound.genuine {course : List Moment} {m : Machine} {value : Value ScopeId}
    (h : value.Sound (fun f => ∃ x ∈ course, x.MakesFunction f) m) : value.Genuine course m := by
  cases value with
  | function f => exact Closure.Sound.origin h
  | cls c | object _ c => exact ⟨Class.Sound.descends h, fun name => c.method?_eq_findSome? name⟩
  | _ => trivial

namespace Machine

variable {clock : Nat → Float} {declared : Closure ScopeId → Prop} {m : Machine} {x : Moment}

private theorem Sound.held (hm : m.Sound declared) {value : Value ScopeId} (h : m.Holds value) :
    value.Sound declared m := by
  rcases h with ⟨id, name, hown⟩ | ⟨cell, name, hfield⟩
  · exact hm.scopes id name value hown
  · exact hm.objects cell name value hfield

theorem Moment.Sound.has (hx : x.Sound declared clock) {value : Value ScopeId}
    (h : x.Has clock m value) : value.Sound declared m := by
  rcases h with ⟨rfl, h | h⟩ | ⟨rfl, h | h⟩
  · exact hx.opening.held h
  · exact hx.ready.values value h
  · exact hx.closing.held h
  · exact hx.yields value h

/-! ## Super -/

section
variable {scope : ScopeId} {k cell : Nat} {above c : Class ScopeId} {name : String}
  (hsuper : m.scopes.getAt? scope (k + 1) "super" = some (.cls above))
  (hthis : m.scopes.getAt? scope k "this" = some (.object cell c))
include hsuper hthis

private theorem superMethod_of_some (span : Span) {g : Closure ScopeId}
    (hg : above.method? name = some g) :
    superMethod scope (some (k + 1)) name span m =
      (Value.function <$> Machine.bind g (.object cell c)) m := by
  simp only [superMethod, bind_apply, getAt_of_some hsuper, getAt_of_some hthis, hg]

private theorem superMethod_of_none (span : Span) (hnone : above.method? name = none) :
    superMethod scope (some (k + 1)) name span m =
      .error (.raised ⟨.noSuchAttribute above.name name, span⟩) m := by
  simp only [superMethod, bind_apply, getAt_of_some hsuper, getAt_of_some hthis, hnone]
  rfl

end

private theorem bind_eq_ok (g : Closure ScopeId) (receiver : Value ScopeId) :
    Machine.bind g receiver m = .ok ⟨m.identity, g.decl, m.scopes.next, g.isInitializer⟩
      { m with
        scopes := m.scopes.push ⟨Bindings.empty.insert "this" receiver, some g.env⟩
        identity := m.identity + 1 } := rfl

/-- If the task of a moment is `super.name`, then its scope is inside of the scope of a method that
some class declares, nearer than any other, and that class has a superclass. The method that is
found is the nearest one in the chain of this superclass, and it is bound to the same instance. -/
def Moment.FindsSuper (clock : Nat → Float) (x : Moment) : Prop :=
  ∀ n scope span distance name, x.fuel = n + 1 →
    x.task = .eval scope (.super span distance name) →
    ∃ k id owner g cell c above, x.machine.scopes.ancestor? k scope = some id ∧
      (∀ j < k, ∀ nearer, x.machine.scopes.ancestor? j scope = some nearer →
        x.machine.scopes.own? nearer "this" = none) ∧
      MethodScope x.machine.scopes id owner g cell c ∧ owner.superclass = some above ∧
      match above.chain.findSome? (·.methods.get? name) with
      | none => x.result clock =
          .error (.raised ⟨.noSuchAttribute above.name name, span⟩) x.machine
      | some method => ∃ f m', x.result clock = .ok [.function f] m' ∧ f.decl = method.decl ∧
          m'.scopes.own? f.env "this" = some (.object cell c) ∧
          m'.scopes.parent? f.env = some method.env

private theorem Moment.Sound.findsSuper (hx : x.Sound declared clock) : x.FindsSuper clock := by
  intro n scope span distance name hfuel htask
  have hready := hx.ready
  rw [htask] at hready
  obtain ⟨frames, ⟨k, rfl, hthis, hsuper⟩, haround⟩ := hready
  obtain ⟨id, hid, hbound⟩ := haround.found hthis
  have hown : x.machine.scopes.own? id "this" ≠ none :=
    hbound.resolve_right fun h => h.2 (.inl rfl)
  obtain ⟨owner, g, cell, c, hscope⟩ := hx.opening.receivers id hown
  -- The scope around it is the one that `super` is found in.
  have hparent := Scopes.ancestor?_parent hid hscope.parent hscope.lt_next
  obtain ⟨outer, houter, hbound'⟩ := haround.found hsuper
  obtain rfl : g.env = outer := Option.some.inj (hparent.symm.trans houter)
  have hown' : x.machine.scopes.own? g.env "super" ≠ none :=
    hbound'.resolve_right fun h => h.2 (.inr rfl)
  obtain ⟨above, habove⟩ : ∃ above, owner.superclass = some above := by
    rw [hscope.super, ne_eq, Option.map_eq_none_iff] at hown'
    exact Option.ne_none_iff_exists'.mp hown'
  have hgetSuper : x.machine.scopes.getAt? scope (k + 1) "super" = some (.cls above) := by
    rw [Scopes.getAt?, hparent, Option.bind_some, hscope.super, habove, Option.map_some]
  have hgetThis : x.machine.scopes.getAt? scope k "this" = some (.object cell c) := by
    rw [Scopes.getAt?, hid, Option.bind_some, hscope.receiver]
  refine ⟨k, id, owner, g, cell, c, above, hid,
    fun j hj nearer hnearer => haround.nearest (.inl rfl) hthis hj hnearer, hscope, habove, ?_⟩
  have hresult : x.result clock =
      (([·]) <$> superMethod scope (some (k + 1)) name span) x.machine := by
    rw [Moment.result, htask, hfuel, Task.run, eval]
  rw [hresult, ← Class.method?_eq_findSome?, map_eq_pure_bind, bind_apply]
  cases hmethod : above.method? name with
  | none =>
    rw [superMethod_of_none hgetSuper hgetThis span hmethod]
  | some method =>
    simp only [superMethod_of_some hgetSuper hgetThis span hmethod, map_eq_pure_bind, bind_apply,
      bind_eq_ok]
    refine ⟨_, _, rfl, rfl, ?_, ?_⟩
    · simp only [Scopes.own?_push, Bindings.get?_insert, if_true]
    · simp only [Scopes.parent?_push, if_true]

/-! ## Initializers -/

def runBody (clock : Nat → Float) (n : Nat) (f : Closure ScopeId) (args : List (Value ScopeId)) :
    Run (Flow ScopeId) := do
  let scope ← newScope f.env (Bindings.empty.insertMany (f.decl.params.zip args))
  execAll clock n scope f.decl.body

private theorem invoke_eq (clock : Nat → Float) (n : Nat) (f : Closure ScopeId)
    (args : List (Value ScopeId)) :
    invoke clock (n + 1) f args = runBody clock n f args >>= callResult f := by
  rw [invoke, runBody, bind_assoc]

private theorem call_function_eq (clock : Nat → Float) (n : Nat) {f : Closure ScopeId}
    {args : List (Value ScopeId)} (span : Span) (harity : f.decl.params.length = args.length) :
    call clock (n + 1) (.function f) args span = invoke clock n f args := by
  rw [call, checkArity, harity]
  simp

/-- The task is to run a function whose body is given `n` fuel: one that is called with the right
number of arguments, or one that is already known to have these. -/
def Moment.Invokes (x : Moment) (n : Nat) (f : Closure ScopeId) (args : List (Value ScopeId)) :
    Prop :=
  (∃ span, x.fuel = n + 2 ∧ x.task = .call (.function f) args span ∧
    f.decl.params.length = args.length) ∨
  x.fuel = n + 1 ∧ x.task = .invoke f args

theorem Moment.Invokes.result {n : Nat} {f : Closure ScopeId} {args : List (Value ScopeId)}
    (h : x.Invokes n f args) :
    x.result clock = (([·]) <$> (runBody clock n f args >>= callResult f)) x.machine := by
  rcases h with ⟨span, hfuel, htask, harity⟩ | ⟨hfuel, htask⟩
  · rw [Moment.result, htask, hfuel, Task.run, call_function_eq clock _ span harity, invoke_eq]
  · rw [Moment.result, htask, hfuel, Task.run, invoke_eq]

/-- If the task of a moment is to run a bound initializer, then its scope has an instance as `this`,
and the task yields that instance if the body of the initializer ends without an error. -/
def Moment.YieldsReceiver (clock : Nat → Float) (x : Moment) : Prop :=
  ∀ n f args, x.Invokes n f args → f.Bound x.machine.scopes → f.decl.isInitializer = true →
    ∃ cell c, x.machine.scopes.own? f.env "this" = some (.object cell c) ∧
      x.result clock =
        match runBody clock n f args x.machine with
        | .ok _ m' => .ok [.object cell c] m'
        | .error halt m' => .error halt m'

private theorem ending_getAt (scope : ScopeId) (distance : Nat) (name : String) (m : Machine) :
    ending (getAt scope distance name m) = m := by
  rw [getAt, get_bind]
  cases m.scopes.getAt? scope distance name <;> rfl

private theorem Moment.Sound.yieldsReceiver (hx : x.Sound declared clock) :
    x.YieldsReceiver clock := by
  intro n f args hinvokes hf hinitializer
  obtain ⟨owner, g, cell, c, hscope, -, hsame⟩ := hf
  refine ⟨cell, c, hscope.receiver, ?_⟩
  have hlater := hx.later
  rw [Moment.ending, hinvokes.result, ending_map, bind_apply] at hlater
  rw [hinvokes.result, map_eq_pure_bind, bind_apply, bind_apply]
  cases hbody : runBody clock n f args x.machine with
  | error halt m' => rfl
  | ok flow m' =>
    have hcall : callResult f flow = getAt f.env 0 "this" := by
      unfold callResult
      rw [hsame, hinitializer, if_pos rfl]
    rw [hbody] at hlater
    simp only [hcall, ending_getAt] at hlater
    -- The scope of the method still has the same `this` after the body.
    have hthis := hlater.reserved_some (.inl rfl) hscope.receiver
    have hget : m'.scopes.getAt? f.env 0 "this" = some (.object cell c) := by
      have hlt := Scopes.lt_of_own? (hthis ▸ Option.some_ne_none (Value.object cell c))
      rw [Scopes.getAt?, Scopes.ancestor?_zero hlt, Option.bind_some, hthis]
    simp only [hcall, getAt_of_some hget]
    rfl

end Machine

/-- In every session, every function that a program has, in a variable or field or as an argument or
result, was made by a function declaration or is a method bound to an instance of a class that has
it, with `super` bound to the superclass of the class that declares it. What scopes bind `this` and
`super` to never changes. So `super` finds the nearest method of the superclass, and a bound
initializer yields its instance. -/
theorem methods_keep_receiver_and_superclass (clock : Nat → Float) (fuel : Nat)
    (room : Option Nat) (sources : List String) :
    (∀ x ∈ sessionMoments clock fuel sources (Machine.initial room),
      x.FindsSuper clock ∧ x.YieldsReceiver clock) ∧
      let course := sessionMoments clock fuel sources (Machine.initial room)
      let final := ((Machine.initial room).runSession clock fuel sources).2
      (∀ x ∈ course, ∀ m value, x.Has clock m value → value.Genuine course m) ∧
      (∀ value, final.Holds value → value.Genuine course final) ∧
      course.Pairwise (fun x y => Later x.machine y.machine) ∧
      ∀ x ∈ course, Later x.machine (x.ending clock) ∧ Later (x.ending clock) final := by
  let course := sessionMoments clock fuel sources (Machine.initial room)
  have hinitial : (Machine.initial room).Sound fun f => ∃ x ∈ course, x.MakesFunction f :=
    sound_initial room
  have horderly := proceeds_session clock fuel sources hinitial fun x hx f hf => ⟨x, hx, hf⟩
  refine ⟨fun x hx => ?_, fun x hx m value hvalue => ?_, fun value hvalue => ?_,
    horderly.ordered, fun x hx => ?_⟩
  · have hsound := (horderly.inside x hx).1
    exact ⟨hsound.findsSuper, hsound.yieldsReceiver⟩
  · exact ((horderly.inside x hx).1.has hvalue).genuine
  · exact (horderly.sound.held hvalue).genuine
  · obtain ⟨hsound, -, hclosing⟩ := horderly.inside x hx
    exact ⟨hsound.later, hclosing⟩

end LoxLang
