import LoxLang.Machine.Basic
/-!
# Evaluation

Running expressions and statements on the machine. Every function takes fuel, a
bound on how deep the evaluation may go, with one more level for each round of a
loop; more fuel never changes a run that ended. Readings of the clock come from
outside.
-/
namespace LoxLang.Machine

variable (clock : Nat → Float)

mutual

def eval : Nat → ScopeId → Expr → Run (Value ScopeId)
  | 0, _, _ => throw .outOfFuel
  | n + 1, scope, e =>
    match e with
    | .literal _ value => return .ofLiteral value
    | .var span ref => lookup scope ref span
    | .this span distance => lookup scope ⟨"this", distance⟩ span
    | .super span distance method => superMethod scope distance method span
    | .grouping _ inner => eval n scope inner
    | .unary span op operand => do
      let value ← eval n scope operand
      settle (op.apply value) span
    | .binary span op left right => do
      let a ← eval n scope left
      let b ← eval n scope right
      settle (op.apply a b) span
    | .logical _ op left right => do
      let a ← eval n scope left
      match op, a.isTruthy with
      | .or, true | .and, false => return a
      | _, _ => eval n scope right
    | .assign span target value => do
      let value ← eval n scope value
      assign scope target value span
      return value
    | .call span callee args => do
      let callee ← eval n scope callee
      let args ← evalAll n scope args
      inFrame span (call n callee args span)
    | .get span object name => do
      let receiver ← eval n scope object
      property receiver name span
    | .set span object name value => do
      match ← eval n scope object with
      | .object cell _ =>
        let value ← eval n scope value
        setField cell name value
        return value
      | other => raise (.fieldOnNonInstance other.typeName name) span

def evalAll : Nat → ScopeId → List Expr → Run (List (Value ScopeId))
  | 0, _, _ => throw .outOfFuel
  | _ + 1, _, [] => return []
  | n + 1, scope, first :: others => do
    let value ← eval n scope first
    let values ← evalAll n scope others
    return value :: values

/-- Calls a value. The number of arguments is checked before anything runs. -/
def call : Nat → Value ScopeId → List (Value ScopeId) → Span → Run (Value ScopeId)
  | 0, _, _, _ => throw .outOfFuel
  | n + 1, callee, args, span =>
    match callee with
    | .function f => do
      checkArity f.decl.name f.decl.params.length args.length span
      invoke n f args
    | .cls c =>
      match c.method? initializerName with
      | some initializer => do
        checkArity c.name initializer.decl.params.length args.length span
        let receiver ← newObject c
        let method ← bind initializer receiver
        let _ ← invoke n method args
        return receiver
      | none => do
        checkArity c.name 0 args.length span
        newObject c
    | .native .clock => do
      checkArity "clock" 0 args.length span
      readClock clock
    | other => raise (.notCallable other.typeName) span

def invoke : Nat → Closure ScopeId → List (Value ScopeId) → Run (Value ScopeId)
  | 0, _, _ => throw .outOfFuel
  | n + 1, f, args => do
    let scope ← newScope f.env (Bindings.empty.insertMany (f.decl.params.zip args))
    let flow ← execAll n scope f.decl.body
    callResult f flow

def execAll : Nat → ScopeId → List Stmt → Run (Flow ScopeId)
  | 0, _, _ => throw .outOfFuel
  | _ + 1, _, [] => return .normal
  | n + 1, scope, first :: others => do
    match ← exec n scope first with
    | .normal => execAll n scope others
    | .returned value => return .returned value

def exec : Nat → ScopeId → Stmt → Run (Flow ScopeId)
  | 0, _, _ => throw .outOfFuel
  | n + 1, scope, stmt =>
    match stmt with
    | .expr _ value => do
      emit (.evaluating value)
      let _ ← eval n scope value
      return .normal
    | .print span value => do
      emit (.printing value)
      let result ← eval n scope value
      writeLine result.display span
      return .normal
    | .ret _ (some value) => .returned <$> eval n scope value
    | .ret _ none => return .returned .nil
    | .varDecl _ name (some value) => do
      let result ← eval n scope value
      define scope name result
      return .normal
    | .varDecl _ name none => do
      define scope name .nil
      return .normal
    | .funDecl decl => do
      let f ← newClosure decl scope false
      define scope decl.name (.function f)
      return .normal
    | .classDecl span name none methods => do
      define scope name .nil
      declareClass scope scope name none methods span
      return .normal
    | .classDecl span name (some superclass) methods => do
      define scope name .nil
      match ← lookup scope superclass.value superclass.span with
      | .cls above =>
        let inner ← newScope scope (Bindings.empty.insert "super" (.cls above))
        declareClass scope inner name (some above) methods span
        return .normal
      | other => raise (.superclassInvalidType other.typeName) superclass.span
    | .block _ body => do
      let inner ← newScope scope .empty
      execAll n inner body
    | .branch _ condition yes no => do
      let value ← eval n scope condition
      if value.isTruthy then exec n scope yes
      else match no with
        | some no => exec n scope no
        | none => return .normal
    | .loop _ condition body => execLoop n scope condition body

def execLoop : Nat → ScopeId → Expr → Stmt → Run (Flow ScopeId)
  | 0, _, _, _ => throw .outOfFuel
  | n + 1, scope, condition, body => do
    let value ← eval n scope condition
    if value.isTruthy then
      match ← exec n scope body with
      | .normal => execLoop n scope condition body
      | .returned value => return .returned value
    else return .normal

end

end LoxLang.Machine
