import LoxLang.Error
import LoxLang.Tree.Printer

namespace LoxLang

inductive Event
  | syntaxErrors (count : Nat)
  | resolving
  | resolved (ref : Ref)
  | resolutionErrors (count : Nat)
  | running (statements : Nat)
  | evaluating (e : Expr)
  | printing (e : Expr)
  | declaredClass (name : String) (methods : Nat)
  | runtimeError (e : Error)

def distanceText : Option Nat → String
  | none => "None"
  | some n => s!"Some({n})"

/-- The line that an event is logged as: a level, what happened, and the facts. -/
def Event.line : Event → String
  | syntaxErrors count => s!"DEBUG syntax errors count={count}"
  | resolving => "DEBUG span resolve"
  | resolved ref => s!"TRACE resolved name={ref.name} depth={distanceText ref.distance}"
  | resolutionErrors count => s!"DEBUG resolution errors count={count}"
  | running statements => s!"DEBUG span run stmts={statements}"
  | evaluating e => s!"TRACE evaluating expr={e.display}"
  | printing e => s!"TRACE printing expr={e.display}"
  | declaredClass name methods => s!"DEBUG declared class name={name} methods={methods}"
  | runtimeError e => s!"DEBUG runtime error error={e.message}"

end LoxLang
