import LoxLang.Proofs.Counting.Direct
import LoxLang.Proofs.Integrity.Sessions
import LoxLang.Proofs.Lexical.Moments
/-!
# Counting loops on the machine

Whatever is read as a counting loop has the tree of one. Wherever a program comes to
such a tree, the machine runs it as the loop itself is run under lexical scoping.
The body adds no names to the scopes that are there when it begins, which are all
that the condition and the increment can see.
-/
namespace LoxLang

/-! ## Reading -/

namespace Grammar

private theorem declared?_of_statement {isOpen : Bool} {ts : List Token} {s : Stmt}
    (h : Derives (.statement isOpen) ts s) : s.declared? = none := by
  cases h with
  | counting _ _ _ _ _ _ hcounting => cases hcounting <;> rfl
  | _ => rfl

private theorem hasTree_forLoop (span : Span) (loop : ForLoop) :
    loop.HasTree
      (Parser.forLoop span loop.init loop.condition loop.increment loop.body) := by
  obtain ⟨test, round, htest, hround, hcounting⟩ :=
    counting_forLoop span loop.init loop.condition loop.increment loop.body
  exact ⟨span, test, round, htest, hround, hcounting⟩

/-- A statement that begins with `for` is a counting loop, and its parts are what stands between the
parentheses and behind them. -/
theorem forLoop_of_derives {isOpen : Bool} {ts : List Token} {tree : Stmt}
    (h : Derives (.statement isOpen) (.keyword .kwFor :: ts) tree) :
    ∃ (initializer condition increment body : List Token) (loop : ForLoop),
      ts = .symbol .leftParen :: initializer ++ condition ++ .symbol .semicolon :: increment ++
        .symbol .rightParen :: body ∧
      Derives .initializer initializer loop.init ∧ Derives .optional condition loop.condition ∧
      Derives .optional increment loop.increment ∧
      Derives (.statement isOpen) body loop.body ∧ loop.HasTree tree ∧
      ∀ span, (Parser.forLoop span loop.init loop.condition loop.increment loop.body).relabel
        .noSpans = tree.relabel .noSpans := by
  generalize htokens : Token.keyword .kwFor :: ts = tokens at h
  cases h with
  | exprStmt he =>
    -- No expression begins with this token.
    obtain ⟨token, rest, rfl, hfirst⟩ := first_of_derives he
    obtain ⟨rfl, -⟩ := List.cons.inj htokens
    exact absurd hfirst (by decide)
  | @counting span is init cs condition ns increment _ us body test round _ hinit hcondition
      hincrement hbody htest hround hcounting =>
    refine ⟨is, cs, ns, us, ⟨init, condition, increment, body, declared?_of_statement hbody⟩,
      (List.cons.inj htokens).2, hinit, hcondition, hincrement, hbody, ?_, fun span => ?_⟩
    · exact ⟨_, test, round, htest, hround, hcounting⟩
    · exact forLoop_same rfl rfl rfl rfl htest hround hcounting
  | _ => simp at htokens

end Grammar

/-! ## Scoped code is tidy -/

mutual

private theorem Stmt.Scoped.tidy {frames : List Frame} {s : Stmt} (h : s.Scoped frames)
    (f : Relabel) :
    (s.relabel f).Tidy := by
  match s, h with
  | .block span body, h => exact tidyBody_of_scoped h f
  | .branch span condition yes no, ⟨_, ⟨hyes, hplain⟩, hno⟩ =>
    refine ⟨⟨hyes.tidy f, ?_⟩, tidyElse_of_scoped hno f⟩
    rw [declared?_relabel]
    exact hplain
  | .loop span condition body, ⟨_, hbody, hplain⟩ =>
    refine ⟨hbody.tidy f, ?_⟩
    rw [declared?_relabel]
    exact hplain
  | .expr .., _ | .print .., _ | .ret .., _ | .varDecl .., _ | .funDecl .., _
  | .classDecl .., _ => trivial

private theorem tidyElse_of_scoped {frames : List Frame} {no : Option Stmt}
    (h : scopedElse frames no) (f : Relabel) : tidyElse (relabelElse f no) := by
  match no, h with
  | none, _ => trivial
  | some s, ⟨hs, hplain⟩ =>
    refine ⟨hs.tidy f, ?_⟩
    rw [declared?_relabel]
    exact hplain

private theorem tidyBody_of_scoped {frames : List Frame} {body : List Stmt}
    (h : scopedBody frames body) (f : Relabel) : tidyBody (relabelBody f body) := by
  match body, h with
  | [], _ => trivial
  | first :: others, ⟨hfirst, hothers⟩ => exact ⟨hfirst.tidy f, tidyBody_of_scoped hothers f⟩

end

/-! ## Running -/

namespace Lexical
open World

private theorem Ends.mapRight {α β γ : Type} {floor : Nat} {w : World} {P : World → α → β → Prop}
    {Q : World → α → γ → Prop} {left : EStateM.Result Halt Machine α} {q : Run β} {s : State}
    {g : β → γ} (h : Ends floor w P left (q s)) (hPQ : ∀ w' a b, P w' a b → Q w' a (g b)) :
    Ends floor w Q left ((g <$> q) s) := by
  rw [map_eq_pure_bind, bind_apply]
  generalize q s = right at h
  cases h with
  | ok hw hrel hP => exact .ok hw hrel (hPQ _ _ _ hP)
  | error hw hrel hhalt => exact .error hw hrel hhalt

/-- From related states, the machine on the tree and the loop itself end together, and the code
after the loop sees what the code before it has seen. -/
theorem ends_execFor (clock : Nat → Float) (n : Nat) {w : World} {m : Machine} {state : State}
    {frames : List Frame} {scope : ScopeId} {env : Env} {s : Stmt} {loop : ForLoop}
    (hrel : Rel w m state) (hat : w.At frames scope env) (hscoped : s.Scoped frames)
    (htree : loop.HasTree (s.relabel .noDistances)) :
    Ends scope w (fun w' flow flow' => w'.SameFlow flow flow' ∧ w'.At frames scope env)
      (Machine.exec clock n scope s m) (execFor clock loop env n state) := by
  have hplain : s.declared? = none := by
    rw [← declared?_relabel .noDistances]
    exact htree.declared?
  have hagree := agree_execPlain (simulates clock n) hat hscoped hplain (Nat.le_refl scope)
  rw [← flow_eq_execFor htree (hscoped.tidy .noDistances) env n]
  refine (hagree m state hrel (Nat.le_of_lt hat.lt)).mapRight ?_
  rintro w' flow r ⟨hflow, hat', -⟩
  exact ⟨hflow, hat'⟩

end Lexical

namespace Machine

/-- The scopes that are there when a task begins have no further names when it ends. -/
def Moment.AddsNoNames (clock : Nat → Float) (x : Moment) : Prop :=
  ∀ id < x.machine.scopes.next, ∀ name, x.machine.scopes.own? id name = none →
    (x.ending clock).scopes.own? id name = none

private theorem Moment.Sound.addsNoNames {clock : Nat → Float} {declared : Closure ScopeId → Prop}
    {x : Moment} (hx : x.Sound declared clock) {scope : ScopeId} {s : Stmt}
    (htask : x.task = .exec scope s) (hplain : s.declared? = none) : x.AddsNoNames clock := by
  intro id hid name hnone
  have hinitializing : x.initializing = none := by
    refine hx.context.resolve_right fun hexpr => ?_
    rw [htask] at hexpr
    exact hexpr
  by_contra hsome
  rcases hx.added id hid name hsome with hold | hdeclares | hpending
  · exact hold hnone
  · rw [htask] at hdeclares
    have hname : s.declared? = some name := hdeclares.2
    rw [hplain] at hname
    exact absurd hname.symm (Option.some_ne_none name)
  · have hname : x.initializing = some (id, name) := hpending
    rw [hinitializing] at hname
    exact absurd hname.symm (Option.some_ne_none _)

end Machine

open Machine Lexical

/-- Every statement that begins with `for` is a counting loop with the parts that stand in it, and
its tree is the one that the reader builds of these parts. In every session, wherever the machine
comes to the tree of a loop, there is a related state of the reference from which the loop itself,
run directly, ends as the tree does on the machine: normally, with the same value or with the same
error, in related states again and with the same names in scope. And the body of the loop adds no
names to the scopes around it. -/
theorem for_loops_keep_their_meaning (clock : Nat → Float) (fuel : Nat) (room : Option Nat)
    (sources : List String) :
    (∀ isOpen ts tree, Grammar.Derives (.statement isOpen) (.keyword .kwFor :: ts) tree →
      ∃ (initializer condition increment body : List Token) (loop : ForLoop),
        ts = .symbol .leftParen :: initializer ++ condition ++ .symbol .semicolon :: increment ++
          .symbol .rightParen :: body ∧
        Grammar.Derives .initializer initializer loop.init ∧
        Grammar.Derives .optional condition loop.condition ∧
        Grammar.Derives .optional increment loop.increment ∧
        Grammar.Derives (.statement isOpen) body loop.body ∧ loop.HasTree tree ∧
        ∀ span, (Parser.forLoop span loop.init loop.condition loop.increment loop.body).relabel
          .noSpans = tree.relabel .noSpans) ∧
    (∀ span (loop : ForLoop), loop.HasTree
      (Parser.forLoop span loop.init loop.condition loop.increment loop.body)) ∧
    ∀ x ∈ sessionMoments clock fuel sources (Machine.initial room), ∀ scope s,
      x.task = .exec scope s → ∀ loop : ForLoop,
      (loop.HasTree (s.relabel .noDistances) →
        ∃ w state frames env, Rel w x.machine state ∧ w.At frames scope env ∧
          ∀ n, Ends scope w (fun w' flow flow' => w'.SameFlow flow flow' ∧ w'.At frames scope env)
            (exec clock n scope s x.machine) (execFor clock loop env n state)) ∧
      (s.relabel .noDistances = loop.body → x.AddsNoNames clock) := by
  have hmirrored := mirrored_session clock fuel room sources
  have horderly := proceeds_session clock fuel sources (sound_initial room) fun _ _ _ _ => trivial
  refine ⟨fun isOpen ts tree => Grammar.forLoop_of_derives, Grammar.hasTree_forLoop, ?_⟩
  intro x hx scope s htask loop
  constructor
  · intro htree
    obtain ⟨w, state, hrel, hplaced⟩ := hmirrored x hx
    rw [htask] at hplaced
    obtain ⟨frames, env, hat, hscoped⟩ := hplaced
    exact ⟨w, state, frames, env, hrel, hat,
      fun n => ends_execFor clock n hrel hat hscoped htree⟩
  · intro hbody
    have hplain : s.declared? = none := by
      rw [← declared?_relabel .noDistances, hbody]
      exact loop.plain
    exact (horderly.inside x hx).1.addsNoNames htask hplain

/-! ### A loop whose body declares another variable of the same name -/

def shadowedSource : String :=
  "for (var i = false; !i; i = true) { var i = nil; }"

def shadowedLoop : ForLoop where
  init := some (.varDecl ⟨5, 19⟩ "i" (some (.literal ⟨13, 18⟩ (.bool false))))
  condition := some (.unary ⟨20, 22⟩ .not (.var ⟨21, 22⟩ ⟨"i", none⟩))
  increment := some (.assign ⟨24, 32⟩ ⟨"i", none⟩ (.literal ⟨28, 32⟩ (.bool true)))
  body := .block ⟨34, 50⟩ [.varDecl ⟨36, 48⟩ "i" (some (.literal ⟨44, 47⟩ .nil))]
  plain := rfl

/-- Its tree with the distances. The increment stands outside of the body, whose variable it does
not see. -/
def shadowedTree : Stmt :=
  .block ⟨0, 50⟩ [.varDecl ⟨5, 19⟩ "i" (some (.literal ⟨13, 18⟩ (.bool false))),
    .loop ⟨0, 50⟩ (.unary ⟨20, 22⟩ .not (.var ⟨21, 22⟩ ⟨"i", some 0⟩))
      (.block ⟨0, 50⟩ [
        .block ⟨34, 50⟩ [.varDecl ⟨36, 48⟩ "i" (some (.literal ⟨44, 47⟩ .nil))],
        .expr ⟨24, 32⟩ (.assign ⟨24, 32⟩ ⟨"i", some 1⟩ (.literal ⟨28, 32⟩ (.bool true)))])]

private theorem parse_shadowedSource : parse shadowedSource =
    ⟨[Parser.forLoop ⟨0, 50⟩ shadowedLoop.init shadowedLoop.condition shadowedLoop.increment
      shadowedLoop.body], []⟩ := by
  have hitems : items shadowedSource =
      [.ok ⟨.keyword .kwFor, "for", ⟨0, 3⟩⟩, .ok ⟨.symbol .leftParen, "(", ⟨4, 5⟩⟩,
        .ok ⟨.keyword .kwVar, "var", ⟨5, 8⟩⟩, .ok ⟨.identifier "i", "i", ⟨9, 10⟩⟩,
        .ok ⟨.symbol .equal, "=", ⟨11, 12⟩⟩, .ok ⟨.keyword .kwFalse, "false", ⟨13, 18⟩⟩,
        .ok ⟨.symbol .semicolon, ";", ⟨18, 19⟩⟩, .ok ⟨.symbol .bang, "!", ⟨20, 21⟩⟩,
        .ok ⟨.identifier "i", "i", ⟨21, 22⟩⟩, .ok ⟨.symbol .semicolon, ";", ⟨22, 23⟩⟩,
        .ok ⟨.identifier "i", "i", ⟨24, 25⟩⟩, .ok ⟨.symbol .equal, "=", ⟨26, 27⟩⟩,
        .ok ⟨.keyword .kwTrue, "true", ⟨28, 32⟩⟩, .ok ⟨.symbol .rightParen, ")", ⟨32, 33⟩⟩,
        .ok ⟨.symbol .leftBrace, "\x7b", ⟨34, 35⟩⟩, .ok ⟨.keyword .kwVar, "var", ⟨36, 39⟩⟩,
        .ok ⟨.identifier "i", "i", ⟨40, 41⟩⟩, .ok ⟨.symbol .equal, "=", ⟨42, 43⟩⟩,
        .ok ⟨.keyword .kwNil, "nil", ⟨44, 47⟩⟩, .ok ⟨.symbol .semicolon, ";", ⟨47, 48⟩⟩,
        .ok ⟨.symbol .rightBrace, "\x7d", ⟨49, 50⟩⟩] := by decide +kernel
  rw [parse, hitems]
  rfl

private theorem runnable_shadowedSource : runnable shadowedSource = [shadowedTree] := by
  rw [runnable, parse_shadowedSource]
  rfl

private theorem derives_shadowedLoop :
    Grammar.Derives .initializer [.keyword .kwVar, .identifier "i", .symbol .equal,
      .keyword .kwFalse, .symbol .semicolon] shadowedLoop.init ∧
    Grammar.Derives .optional [.symbol .bang, .identifier "i"] shadowedLoop.condition ∧
    Grammar.Derives .optional [.identifier "i", .symbol .equal, .keyword .kwTrue]
      shadowedLoop.increment ∧
    Grammar.Derives (.statement false) [.symbol .leftBrace, .keyword .kwVar, .identifier "i",
      .symbol .equal, .keyword .kwNil, .symbol .semicolon, .symbol .rightBrace] shadowedLoop.body := by
  refine ⟨?_, ?_, ?_, ?_⟩
  · exact .bindingInitializer (.bind (.expression_of_constant .no))
  · exact .present (.operation (.alone (.unary .not (.chain (.primary .name))) (by decide)))
  · exact .present (.assignVariable (.expression_of_constant .yes))
  · exact .block (.moreDeclarations (.varDecl (.bind (.expression_of_constant .nil)))
      .noDeclarations)

private theorem derives_shadowedTree : Grammar.Derives (.statement false) (tokens shadowedSource)
    (shadowedTree.relabel .noDistances) := by
  have htokens : tokens shadowedSource =
      [.keyword .kwFor, .symbol .leftParen, .keyword .kwVar, .identifier "i", .symbol .equal,
        .keyword .kwFalse, .symbol .semicolon, .symbol .bang, .identifier "i", .symbol .semicolon,
        .identifier "i", .symbol .equal, .keyword .kwTrue, .symbol .rightParen, .symbol .leftBrace,
        .keyword .kwVar, .identifier "i", .symbol .equal, .keyword .kwNil, .symbol .semicolon,
        .symbol .rightBrace] := by decide +kernel
  obtain ⟨hinit, hcondition, hincrement, hbody⟩ := derives_shadowedLoop
  rw [htokens]
  exact .counting hinit hcondition hincrement hbody .given .increment .initialized

def startsShadowedBody (x : Moment) : Bool :=
  match x.task with
  | .exec _ (.block ⟨34, 50⟩ [.varDecl ⟨36, 48⟩ "i" (some (.literal ⟨44, 47⟩ .nil))]) => true
  | _ => false

private theorem task_of_startsShadowedBody {x : Moment} (h : startsShadowedBody x = true) :
    ∃ scope, x.task = .exec scope shadowedLoop.body := by
  unfold startsShadowedBody at h
  split at h
  · rename_i scope htask
    exact ⟨scope, htask⟩
  · cases h

theorem for_loops_keep_their_meaning_shadowed :
    let course := sessionMoments (fun _ => 0) 40 [shadowedSource] (Machine.initial none)
    (∃ (initializer condition increment body : List Token) (loop : ForLoop),
      tokens shadowedSource = .keyword .kwFor :: .symbol .leftParen :: initializer ++ condition ++
        .symbol .semicolon :: increment ++ .symbol .rightParen :: body ∧
      Grammar.Derives .initializer initializer loop.init ∧
      Grammar.Derives .optional condition loop.condition ∧
      Grammar.Derives .optional increment loop.increment ∧
      Grammar.Derives (.statement false) body loop.body ∧
      loop.HasTree (shadowedTree.relabel .noDistances)) ∧
    (Grammar.Derives .initializer [.keyword .kwVar, .identifier "i", .symbol .equal,
      .keyword .kwFalse, .symbol .semicolon] shadowedLoop.init ∧
    Grammar.Derives .optional [.symbol .bang, .identifier "i"] shadowedLoop.condition ∧
    Grammar.Derives .optional [.identifier "i", .symbol .equal, .keyword .kwTrue]
      shadowedLoop.increment ∧
    Grammar.Derives (.statement false) [.symbol .leftBrace, .keyword .kwVar, .identifier "i",
      .symbol .equal, .keyword .kwNil, .symbol .semicolon, .symbol .rightBrace] shadowedLoop.body) ∧
    shadowedLoop.HasTree (shadowedTree.relabel .noDistances) ∧
    (∃ x ∈ course, x.task = .exec globals shadowedTree ∧
      ∃ w state frames env, Rel w x.machine state ∧ w.At frames globals env ∧
        ∀ n, Ends globals w
          (fun w' flow flow' => w'.SameFlow flow flow' ∧ w'.At frames globals env)
          (exec (fun _ => 0) n globals shadowedTree x.machine)
          (execFor (fun _ => 0) shadowedLoop env n state)) ∧
    ∃ x ∈ course, ∃ scope, x.task = .exec scope shadowedLoop.body ∧
      x.AddsNoNames (fun _ => 0) := by
  intro course
  obtain ⟨hparts, hread, hmeaning⟩ :=
    for_loops_keep_their_meaning (fun _ => 0) 40 none [shadowedSource]
  have htree : shadowedLoop.HasTree (shadowedTree.relabel .noDistances) :=
    hread ⟨0, 50⟩ shadowedLoop
  have hfirst : ⟨{}, 40, .exec globals shadowedTree, (Machine.initial none).opened shadowedSource⟩ ∈
      course := by
    refine List.mem_append_left _ ?_
    rw [sourceMoments, runnable_shadowedSource]
    exact List.mem_append_left _ List.mem_cons_self
  have hbody : course.any startsShadowedBody = true := by decide +kernel
  obtain ⟨x, hx, hcheck⟩ := List.any_eq_true.mp hbody
  obtain ⟨scope, htask⟩ := task_of_startsShadowedBody hcheck
  refine ⟨?_, derives_shadowedLoop, htree,
    ⟨_, hfirst, rfl, (hmeaning _ hfirst _ _ rfl shadowedLoop).1 htree⟩,
    x, hx, scope, htask, (hmeaning x hx _ _ htask shadowedLoop).2 rfl⟩
  have hfor : tokens shadowedSource = .keyword .kwFor :: (tokens shadowedSource).tail := by
    decide +kernel
  have hderives := derives_shadowedTree
  rw [hfor] at hderives
  obtain ⟨is, cs, ns, us, loop, htokens, hinit, hcondition, hincrement, hrest, hloop, -⟩ :=
    hparts _ _ _ hderives
  rw [htokens] at hfor
  exact ⟨is, cs, ns, us, loop, hfor, hinit, hcondition, hincrement, hrest, hloop⟩

-- The loop would not end if the increment gave its value to the variable of the body.
example : ((Machine.initial none).runSession (fun _ => 0) 40
    ["for (var i = false; !i; i = true) { var i = nil; }"]).1.map (·.outcome) = [.finished] := by
  decide +kernel

end LoxLang
