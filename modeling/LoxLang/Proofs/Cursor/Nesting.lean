import LoxLang.Proofs.Cursor.Progress
import LoxLang.Proofs.Items.Coverage
import LoxLang.Proofs.Places.Reading
/-!
# Nested places

The lexemes of a source are in order and not empty, so comparing lexemes is
comparing offsets. Hence the places in a tree are nested as its nodes are, and
an error has an empty place exactly if it was raised where nothing is left.
-/
namespace LoxLang

def Input.ofSource (source : String) : Input :=
  ⟨Item.lexemes (items source), Item.errors (items source), source.utf8ByteSize⟩

/-- A node is well placed in a source. -/
structure Tree.WellPlaced (source : String) (t : Tree) : Prop where
  /-- It covers a stretch of whole characters of the source. -/
  inside : t.span.PointsInto source
  /-- It starts where a lexeme starts and stops where a lexeme stops that is not before it. -/
  lexemes : ∃ (i k : Nat) (first last : Lexeme), i ≤ k ∧
    (Input.ofSource source).lexemes[i]? = some first ∧
    (Input.ofSource source).lexemes[k]? = some last ∧
    t.span = ⟨first.span.start, last.span.stop⟩
  /-- It contains the nodes below it. -/
  nested : ∀ child ∈ t.children, t.span.start ≤ child.span.start ∧ child.span.stop ≤ t.span.stop

/-- An error is well placed in a source. -/
structure ErrorWellPlaced (source : String) (e : Located Error) : Prop where
  /-- It covers a stretch of whole characters of the source. -/
  inside : e.span.PointsInto source
  /-- It was found among the lexemes, or raised at some cursor. -/
  origin : e ∈ (Input.ofSource source).errors ∨ ∃ cursor, (Input.ofSource source).Raises cursor e
  /-- What was found among the lexemes is not empty. -/
  lexical : e ∈ (Input.ofSource source).errors → e.span.start < e.span.stop
  /-- What was raised at a cursor is empty exactly if nothing was left there. -/
  raised : ∀ cursor, (Input.ofSource source).Raises cursor e →
    (e.span.start = e.span.stop ↔ cursor = (Input.ofSource source).lexemes.length)
  /-- An empty place is the end of the source. -/
  atEnd : e.span.start = e.span.stop → e.span = ⟨source.utf8ByteSize, source.utf8ByteSize⟩
  /-- The end is where something was missing, or where too many arguments or parameters were
  found. -/
  causes : e.span.start = e.span.stop ↔ (∃ what, e.value = .unexpectedEnd what) ∨
    (e.value = .tooManyArguments Parser.maxArguments ∨
      e.value = .tooManyParameters Parser.maxArguments) ∧
    (Input.ofSource source).Raises (Input.ofSource source).lexemes.length e

/-! ## Lexemes in order -/

variable {source : String}

private theorem Item.ok_mem_of_mem_lexemes {found : List Item} {l : Lexeme}
    (h : l ∈ Item.lexemes found) :
    .ok l ∈ found := by
  obtain ⟨item, hitem, hl⟩ := List.mem_filterMap.mp h
  cases item with
  | ok l' =>
    obtain rfl : l' = l := Option.some.inj hl
    exact hitem
  | error e => exact absurd hl (by simp [Except.toOption])

private theorem Item.error_mem_of_mem_errors {found : List Item} {e : Located Error}
    (h : e ∈ Item.errors found) : .error e ∈ found := by
  obtain ⟨item, hitem, he⟩ := List.mem_filterMap.mp h
  cases item with
  | ok l => exact absurd he (by simp)
  | error e' =>
    obtain rfl : e' = e := Option.some.inj he
    exact hitem

private theorem Item.sublist_lexemes (found : List Item) :
    List.Sublist ((Item.lexemes found).map (·.span)) (found.map Item.span) := by
  induction found with
  | nil => exact .slnil
  | cons item found ih =>
    cases item with
    | ok l => exact ih.cons_cons l.span
    | error e => exact ih.cons e.span

namespace Input

private theorem nonempty_item {item : Item} (h : item ∈ items source) :
    (Item.span item).start < (Item.span item).stop :=
  ((covers_items source).pointsInto (List.mem_map_of_mem h)).1

variable {i k : Nat} {first last : Lexeme}

private theorem lt_of_getElem? (h : (ofSource source).lexemes[i]? = some first) :
    first.span.start < first.span.stop :=
  nonempty_item (Item.ok_mem_of_mem_lexemes (List.mem_of_getElem? h))

private theorem le_of_getElem? (hle : i ≤ k) (hfirst : (ofSource source).lexemes[i]? = some first)
    (hlast : (ofSource source).lexemes[k]? = some last) :
    first.span.start ≤ last.span.start ∧ first.span.stop ≤ last.span.stop := by
  rcases Nat.eq_or_lt_of_le hle with rfl | hlt
  · obtain rfl : first = last := Option.some.inj (hfirst.symm.trans hlast)
    exact ⟨Nat.le_refl _, Nat.le_refl _⟩
  · have hordered : (ofSource source).lexemes.Pairwise fun l l' => l.span.stop ≤ l'.span.start :=
      List.pairwise_map.mp ((covers_items source).pairwise.sublist (Item.sublist_lexemes _))
    obtain ⟨hi, rfl⟩ := List.getElem?_eq_some_iff.mp hfirst
    obtain ⟨hk, rfl⟩ := List.getElem?_eq_some_iff.mp hlast
    have hapart := List.pairwise_iff_getElem.mp hordered i k hi hk hlt
    have hstart := lt_of_getElem? hfirst
    have hstop := lt_of_getElem? hlast
    omega

/-- What covers lexemes reaches from the start of the first one to the stop of the last one. -/
theorem Covers.span_eq {span : Span} (h : (ofSource source).Covers i k span) :
    ∃ first last, (ofSource source).lexemes[i]? = some first ∧
      (ofSource source).lexemes[k - 1]? = some last ∧
      span = ⟨first.span.start, last.span.stop⟩ := by
  obtain ⟨nonempty, inside, start, stop⟩ := h
  have hfirst := List.getElem?_eq_getElem (Nat.lt_of_lt_of_le nonempty inside)
  have hlast := List.getElem?_eq_getElem (Nat.lt_of_lt_of_le (Nat.sub_one_lt_of_lt nonempty) inside)
  have hle := le_of_getElem? (Nat.le_sub_one_of_lt nonempty) hfirst hlast
  have hlt := lt_of_getElem? hlast
  rw [spanAt_of_getElem? hfirst] at start stop
  rw [spanAt_of_getElem? hlast] at stop
  refine ⟨_, _, hfirst, hlast, ?_⟩
  rw [← start, ← stop (by omega)]

end Input

open Input

/-! ## Nodes -/

namespace Tree.Spread

variable {i k : Nat} {t : Tree}

theorem between (h : t.Spread (ofSource source) i k) {first last : Lexeme}
    (hfirst : (ofSource source).lexemes[i]? = some first)
    (hlast : (ofSource source).lexemes[k - 1]? = some last) :
    first.span.start ≤ t.span.start ∧ t.span.stop ≤ last.span.stop := by
  obtain ⟨left, right, covers, -⟩ := h
  obtain ⟨first', last', hfirst', hlast', hspan⟩ := covers.span_eq
  have hnonempty := covers.nonempty
  rw [hspan]
  exact ⟨(le_of_getElem? left hfirst hfirst').1, (le_of_getElem? (by omega) hlast' hlast).2⟩

private theorem wellPlaced (h : t.Spread (ofSource source) i k) : t.WellPlaced source := by
  obtain ⟨-, -, covers, children⟩ := h
  obtain ⟨first, last, hfirst, hlast, hspan⟩ := covers.span_eq
  have hle := Nat.le_sub_one_of_lt covers.nonempty
  have hplaced {l : Lexeme} {j : Nat} (hl : (ofSource source).lexemes[j]? = some l) :
      l.span.PointsInto source :=
    Lexeme.pointsInto (mem_of_mem_lexemes (List.mem_of_getElem? hl))
  refine ⟨?_, ⟨_, _, first, last, hle, hfirst, hlast, hspan⟩, fun child hmem => ?_⟩
  · have hordered := le_of_getElem? hle hfirst hlast
    have hlt := lt_of_getElem? hlast
    rw [hspan]
    exact Span.pointsInto_of_boundaries (by simp only; omega) (hplaced hfirst).start
      (hplaced hlast).stop
  · rw [hspan]
    exact (children child hmem).between hfirst hlast

theorem has (h : t.Spread (ofSource source) i k) {node : Tree} (hnode : t.Has node) :
    node.Spread (ofSource source) i k := by
  induction hnode with
  | root => exact h
  | under hmem _ ih => exact ih (h.child hmem)

end Tree.Spread

/-! ## Errors -/

/-- Only invalid input and open strings are found among the lexemes. -/
theorem value_of_error_mem_itemsFrom {run : Option (Located String)} {ls : List Lexeme}
    {e : Located Error} (h : .error e ∈ itemsFrom run ls) :
    (∃ text, e.value = .unexpectedInput text) ∨ e.value = .unterminatedString := by
  induction ls generalizing run with
  | nil =>
    cases run with
    | none => exact absurd h List.not_mem_nil
    | some found =>
      obtain rfl : e = _ := by simpa [itemsFrom] using h
      exact .inl ⟨_, rfl⟩
  | cons l ls ih =>
    cases run with
    | none =>
      rw [itemsFrom] at h
      split at h
      · exact ih (by simpa using h)
      split at h
      · rcases List.mem_cons.mp h with heq | h
        · obtain rfl := Except.error.inj heq
          exact .inr rfl
        · exact ih h
      · exact ih h
    | some found =>
      rw [itemsFrom] at h
      split at h
      · exact ih h
      · rcases List.mem_cons.mp h with heq | h
        · obtain rfl := Except.error.inj heq
          exact .inl ⟨_, rfl⟩
        · exact ih (by simpa using h)

private theorem Input.Raises.span_eq {input : Input} {cursor : Nat} {e : Located Error}
    (h : input.Raises cursor e) : e.span = input.spanAt cursor := by
  cases h with
  | unexpectedToken l what found | invalidAssignTarget l found sign =>
    exact (spanAt_of_getElem? found).symm
  | unexpectedEnd what atEnd => rw [atEnd, spanAt_length]
  | tooManyArguments | tooManyParameters => rfl

theorem Input.Raises.inside {input : Input} {cursor : Nat} {e : Located Error}
    (h : input.Raises cursor e) : cursor ≤ input.lexemes.length := by
  cases h with
  | unexpectedToken l what found | invalidAssignTarget l found sign =>
    exact Nat.le_of_lt (List.getElem?_eq_some_iff.mp found).1
  | unexpectedEnd what atEnd => exact Nat.le_of_eq atEnd
  | tooManyArguments inside | tooManyParameters inside => exact inside

private theorem Input.Raises.value_atEnd {input : Input} {e : Located Error}
    (h : input.Raises input.lexemes.length e) :
    (∃ what, e.value = .unexpectedEnd what) ∨
      e.value = .tooManyArguments Parser.maxArguments ∨
      e.value = .tooManyParameters Parser.maxArguments := by
  cases h with
  | unexpectedToken l what found | invalidAssignTarget l found sign =>
    exact absurd (List.getElem?_eq_some_iff.mp found).1 (Nat.lt_irrefl _)
  | unexpectedEnd what => exact .inl ⟨what, rfl⟩
  | tooManyArguments => exact .inr (.inl rfl)
  | tooManyParameters => exact .inr (.inr rfl)

private theorem Input.Raises.atEnd_of_unexpectedEnd {input : Input} {cursor : Nat}
    {e : Located Error}
    {what : String} (h : input.Raises cursor e) (he : e.value = .unexpectedEnd what) :
    cursor = input.lexemes.length := by
  cases h with
  | unexpectedEnd _ atEnd => exact atEnd
  | _ => exact absurd he (by simp)

/-- Lexemes of a source are not empty, but its end is. -/
theorem Input.Raises.empty_iff {cursor : Nat} {e : Located Error}
    (h : (ofSource source).Raises cursor e) :
    e.span.start = e.span.stop ↔ cursor = (ofSource source).lexemes.length := by
  constructor
  · intro hempty
    by_contra hne
    have hat := List.getElem?_eq_getElem (Nat.lt_of_le_of_ne h.inside hne)
    have hlt := lt_of_getElem? hat
    have hspan := h.span_eq
    rw [spanAt_of_getElem? hat] at hspan
    rw [hspan] at hempty
    exact absurd hempty (Nat.ne_of_lt hlt)
  · rintro rfl
    rw [h.span_eq, spanAt_length]

private theorem errorWellPlaced {e : Located Error} (hinside : e.span.PointsInto source)
    (horigin : e ∈ (ofSource source).errors ∨ ∃ cursor, (ofSource source).Raises cursor e) :
    ErrorWellPlaced source e := by
  have hlexical (h : e ∈ (ofSource source).errors) : e.span.start < e.span.stop :=
    nonempty_item (Item.error_mem_of_mem_errors h)
  -- An empty place cannot be that of an item.
  have hend (hempty : e.span.start = e.span.stop) :
      (ofSource source).Raises (ofSource source).lexemes.length e := by
    rcases horigin with h | ⟨cursor, h⟩
    · exact absurd hempty (Nat.ne_of_lt (hlexical h))
    · rwa [h.empty_iff.mp hempty] at h
  refine ⟨hinside, horigin, hlexical, fun cursor h => h.empty_iff, fun hempty => ?_, ?_⟩
  · exact (hend hempty).span_eq.trans (spanAt_length _)
  · constructor
    · intro hempty
      exact (hend hempty).value_atEnd.imp_right fun h => ⟨h, hend hempty⟩
    · rintro (⟨what, hwhat⟩ | ⟨-, hraises⟩)
      · rcases horigin with h | ⟨cursor, h⟩
        · rcases value_of_error_mem_itemsFrom (Item.error_mem_of_mem_errors h) with ⟨text, hv⟩ | hv
          · exact absurd (hwhat.symm.trans hv) (by simp)
          · exact absurd (hwhat.symm.trans hv) (by simp)
        · exact h.empty_iff.mpr (h.atEnd_of_unexpectedEnd hwhat)
      · exact hraises.empty_iff.mpr rfl

/-- Every node that is read from a source is well placed, also those that counting loops stand for
and those that were read in spite of errors; and so is every error. -/
theorem parse_wellPlaced (source : String) :
    (∀ s ∈ (parse source).program, ∀ node, (Tree.stmt s).Has node → node.WellPlaced source) ∧
      ∀ e ∈ (parse source).errors, ErrorWellPlaced source e := by
  obtain ⟨r, hread, herrors⟩ :=
    program_opening (Nat.le_refl (Parser.depth (Reader.opening source).rest))
  obtain ⟨stmts, r', hread', hstands, hspread⟩ := Parser.program_reaches_end (ofSource source)
  obtain ⟨rfl, rfl⟩ : (parse source).program = stmts ∧ r = r' :=
    EStateM.Result.ok.inj (hread.symm.trans hread')
  refine ⟨fun s hs node hnode => ((hspread s hs).has hnode).wellPlaced, fun e he => ?_⟩
  refine errorWellPlaced ((parse_pointsInto source).1 e he) (hstands.errors e ?_)
  rw [herrors]
  exact he

end LoxLang
