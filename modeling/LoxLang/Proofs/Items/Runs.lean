import LoxLang.Proofs.Items.Coverage
import LoxLang.Proofs.Layout.Reading
/-!
# Stretches of invalid input

How invalid input is reported. A stretch begins with an invalid lexeme, goes on as far
as lexemes touch each other and is one error. The lexeme after the gap behind it is
handed on without a look at it, so an invalid one goes unreported there: a stretch that
begins right behind another one is not seen, and neither is a string that is cut off.
-/
namespace LoxLang

open Lexeme

/-- The lexemes leave no stretch of invalid input that what follows could belong to. -/
def Settled (front : List Lexeme) : Prop :=
  ∀ item ∈ (itemsFrom none front).getLast?, Item.isUnexpectedInput item = false

/-- Each of the lexemes begins where the one before it ends, and the first of them at `stop`. -/
def Touching (stop : Nat) : List Lexeme → Prop
  | [] => True
  | l :: ls => stop = l.span.start ∧ Touching l.span.stop ls

/-- A stretch of invalid input in front of other lexemes: it begins with an invalid lexeme that is
no open string, it has no gaps, and there is one behind it. -/
structure Stretch (first : Lexeme) (others back : List Lexeme) : Prop where
  invalid : first.token = .invalid
  noString : first.isOpenString = false
  touching : Touching first.span.stop others
  gap : ∀ next ∈ back.head?, stopAfter first.span.stop (others.map (·.span)) ≠ next.span.start

def Stretch.report (first : Lexeme) (others : List Lexeme) : Located Error :=
  ⟨.unexpectedInput (String.ofList ((first :: others).flatMap (·.text.toList))),
    ⟨first.span.start, stopAfter first.span.stop (others.map (·.span))⟩⟩

/-- The items of the lexemes behind a stretch: the first one is handed on as it is. -/
def itemsBehind : List Lexeme → List Item
  | [] => []
  | l :: ls => .ok l :: itemsFrom none ls

/-! ## Items of lexemes in two parts -/

/-- After some lexemes there are items that no later lexeme changes, and there may be a stretch
that still grows. -/
theorem itemsFrom_front (run : Option (Located String)) (front : List Lexeme) :
    ∃ done state, (∀ ls, itemsFrom run (front ++ ls) = done ++ itemsFrom state ls) ∧
      ∀ item ∈ done.getLast?, Item.isUnexpectedInput item = false := by
  induction front generalizing run with
  | nil => exact ⟨[], run, fun _ => rfl, by simp⟩
  | cons l front ih =>
    -- An item that is no stretch, in front of what is done after it.
    have hput (item : Item) (hitem : Item.isUnexpectedInput item = false) (done : List Item)
        (hdone : ∀ item ∈ done.getLast?, Item.isUnexpectedInput item = false) :
        ∀ last ∈ (item :: done).getLast?, Item.isUnexpectedInput last = false := by
      cases done with
      | nil => simpa using hitem
      | cons next done => simpa using hdone
    obtain ⟨done, state, hitems, hdone⟩ := ih none
    cases run with
    | none =>
      by_cases hvalid : l.token ≠ .invalid
      · refine ⟨.ok l :: done, state, fun ls => ?_, hput _ rfl done hdone⟩
        rw [List.cons_append, itemsFrom, if_pos hvalid, hitems, List.cons_append]
      by_cases hopen : l.isOpenString = true
      · refine ⟨.error ⟨.unterminatedString, l.span⟩ :: done, state, fun ls => ?_,
          hput _ rfl done hdone⟩
        rw [List.cons_append, itemsFrom, if_neg hvalid, if_pos hopen, hitems, List.cons_append]
      · obtain ⟨done, state, hitems, hdone⟩ := ih (some ⟨l.text, l.span⟩)
        refine ⟨done, state, fun ls => ?_, hdone⟩
        rw [List.cons_append, itemsFrom, if_neg hvalid, if_neg hopen, hitems]
    | some found =>
      by_cases hnext : found.span.stop = l.span.start
      · obtain ⟨done, state, hitems, hdone⟩ :=
          ih (some ⟨found.value ++ l.text, ⟨found.span.start, l.span.stop⟩⟩)
        refine ⟨done, state, fun ls => ?_, hdone⟩
        rw [List.cons_append, itemsFrom, if_pos hnext, hitems]
      · have hlast := hput (.ok l) rfl done hdone
        refine ⟨.error ⟨.unexpectedInput found.value, found.span⟩ :: .ok l :: done, state,
          fun ls => ?_, by simpa using hlast⟩
        rw [List.cons_append, itemsFrom, if_neg hnext, hitems]
        rfl

private theorem itemsFrom_settled {front : List Lexeme} (h : Settled front) (ls : List Lexeme) :
    itemsFrom none (front ++ ls) = itemsFrom none front ++ itemsFrom none ls := by
  obtain ⟨done, state, hitems, -⟩ := itemsFrom_front none front
  have hfront := hitems []
  rw [List.append_nil] at hfront
  cases state with
  | none =>
    rw [itemsFrom, List.append_nil] at hfront
    rw [hitems, hfront]
  | some found =>
    have hlast := h (.error ⟨.unexpectedInput found.value, found.span⟩)
    rw [hfront, itemsFrom] at hlast
    simp [Item.isUnexpectedInput] at hlast

/-- Lexemes that leave a stretch have it as their last item as long as nothing follows. -/
theorem itemsFrom_unsettled {front : List Lexeme} (h : ¬ Settled front) :
    ∃ done found,
      itemsFrom none front = done ++ [.error ⟨.unexpectedInput found.value, found.span⟩] ∧
      ∀ ls, itemsFrom none (front ++ ls) = done ++ itemsFrom (some found) ls := by
  obtain ⟨done, state, hitems, hdone⟩ := itemsFrom_front none front
  have hfront := hitems []
  rw [List.append_nil] at hfront
  cases state with
  | none =>
    rw [itemsFrom, List.append_nil] at hfront
    exact absurd (by rw [Settled, hfront]; exact hdone) h
  | some found => exact ⟨done, found, hfront, hitems⟩

theorem Settled.append {front back : List Lexeme} (hfront : Settled front) (hback : Settled back) :
    Settled (front ++ back) := by
  rw [Settled, itemsFrom_settled hfront]
  intro item hitem
  cases hitems : itemsFrom none back with
  | nil =>
    rw [hitems, List.append_nil] at hitem
    exact hfront item hitem
  | cons first items =>
    rw [hitems, List.getLast?_append_of_ne_nil _ (List.cons_ne_nil first items), ← hitems] at hitem
    exact hback item hitem

private theorem settled_nil : Settled [] := by
  intro item hitem
  exact absurd hitem (Option.not_mem_none item)

def Lexeme.item (l : Lexeme) : Item :=
  if l.token = .invalid then .error ⟨.unterminatedString, l.span⟩ else .ok l

/-- A lexeme begins no stretch if it is valid or an open string. -/
def Lexeme.Plain (l : Lexeme) : Prop :=
  l.token ≠ .invalid ∨ l.isOpenString = true

private theorem isUnexpectedInput_item (l : Lexeme) : Item.isUnexpectedInput l.item = false := by
  unfold Lexeme.item
  split <;> rfl

theorem Lexeme.Plain.items {l : Lexeme} (h : l.Plain) (ls : List Lexeme) :
    itemsFrom none (l :: ls) = l.item :: itemsFrom none ls := by
  unfold Lexeme.item
  by_cases hl : l.token = .invalid
  · have hopen : l.isOpenString = true := h.resolve_left (by simpa using hl)
    rw [itemsFrom, if_neg (by simpa using hl), if_pos hopen, if_pos hl]
  · rw [itemsFrom, if_pos hl, if_neg hl]

private theorem Lexeme.Plain.settled {l : Lexeme} (h : l.Plain) : Settled [l] := by
  rw [Settled, h.items]
  simpa [itemsFrom] using isUnexpectedInput_item l

private theorem settled_of_valid {front : List Lexeme} (h : ∀ l ∈ front, l.token ≠ .invalid) :
    Settled front := by
  induction front with
  | nil => exact settled_nil
  | cons l front ih =>
    have hl : l.Plain := .inl (h l List.mem_cons_self)
    exact hl.settled.append (ih fun l' hl' => h l' (List.mem_cons_of_mem l hl'))

/-! ## Stretches as they are reported -/

private theorem exists_touching (stop : Nat) (ls : List Lexeme) :
    ∃ others back, ls = others ++ back ∧ Touching stop others ∧
      ∀ next ∈ back.head?, stopAfter stop (others.map (·.span)) ≠ next.span.start := by
  induction ls generalizing stop with
  | nil => exact ⟨[], [], rfl, trivial, by simp⟩
  | cons l ls ih =>
    by_cases hnext : stop = l.span.start
    · obtain ⟨others, back, rfl, htouching, hgap⟩ := ih l.span.stop
      exact ⟨l :: others, back, rfl, ⟨hnext, htouching⟩, hgap⟩
    · exact ⟨[], l :: ls, rfl, trivial, by simpa [stopAfter] using hnext⟩

/-- A stretch that may still grow takes in what touches it, and then it is reported. -/
theorem itemsFrom_touching {others back : List Lexeme} (found : Located String)
    (htouching : Touching found.span.stop others)
    (hgap : ∀ next ∈ back.head?, stopAfter found.span.stop (others.map (·.span)) ≠
      next.span.start) :
    itemsFrom (some found) (others ++ back) =
      .error ⟨.unexpectedInput (found.value ++ String.ofList (others.flatMap (·.text.toList))),
        ⟨found.span.start, stopAfter found.span.stop (others.map (·.span))⟩⟩ ::
          itemsBehind back := by
  induction others generalizing found with
  | nil =>
    cases back with
    | nil => simp [itemsFrom, itemsBehind, stopAfter]
    | cons l ls =>
      have hne : found.span.stop ≠ l.span.start := hgap l rfl
      simp [itemsFrom, itemsBehind, stopAfter, hne]
  | cons l others ih =>
    obtain ⟨hnext, htouching⟩ := htouching
    have htext : found.value ++ l.text ++ String.ofList (others.flatMap (·.text.toList)) =
        found.value ++ String.ofList ((l :: others).flatMap (·.text.toList)) := by
      simp [String.ofList_append, String.append_assoc]
    rw [List.cons_append, itemsFrom, if_pos hnext,
      ih ⟨found.value ++ l.text, ⟨found.span.start, l.span.stop⟩⟩ htouching hgap, htext]
    rfl

theorem Stretch.items {first : Lexeme} {others back : List Lexeme} (h : Stretch first others back) :
    itemsFrom none (first :: (others ++ back)) =
      .error (Stretch.report first others) :: itemsBehind back := by
  have htext : first.text ++ String.ofList (others.flatMap (·.text.toList)) =
      String.ofList ((first :: others).flatMap (·.text.toList)) := by
    simp [String.ofList_append]
  rw [itemsFrom, if_neg (by simpa using h.invalid), if_neg (by simp [h.noString]),
    itemsFrom_touching ⟨first.text, first.span⟩ h.touching h.gap, htext]
  rfl

/-- Lexemes are taken one by one, or as a stretch together with the lexeme behind it. -/
theorem stretch_induction {motive : List Lexeme → Prop} (nil : motive [])
    (plain : ∀ l ls, l.Plain → motive ls → motive (l :: ls))
    (last : ∀ first others, Stretch first others [] → motive (first :: (others ++ [])))
    (stretch : ∀ first others next back, Stretch first others (next :: back) → motive back →
      motive (first :: (others ++ next :: back))) (ls : List Lexeme) : motive ls := by
  induction hn : ls.length using Nat.strongRecOn generalizing ls with
  | ind n ih =>
    cases ls with
    | nil => exact nil
    | cons l ls =>
      by_cases hl : l.Plain
      · exact plain l ls hl (ih ls.length (by simp [← hn]) ls rfl)
      · obtain ⟨hinvalid, hstring⟩ : l.token = .invalid ∧ l.isOpenString = false := by
          simpa [Lexeme.Plain] using hl
        obtain ⟨others, back, rfl, htouching, hgap⟩ := exists_touching l.span.stop ls
        have hstretch : Stretch l others back := ⟨hinvalid, hstring, htouching, hgap⟩
        cases back with
        | nil => exact last l others hstretch
        | cons next back =>
          have hlength : back.length < n := by
            simp only [← hn, List.length_cons, List.length_append]
            omega
          exact stretch l others next back hstretch (ih back.length hlength back rfl)

private theorem Stretch.settled {first next : Lexeme} {others back : List Lexeme}
    (h : Stretch first others (next :: back)) : Settled (first :: (others ++ [next])) := by
  have halone : Stretch first others [next] := ⟨h.invalid, h.noString, h.touching, h.gap⟩
  rw [Settled, halone.items]
  simp [itemsBehind, itemsFrom, Item.isUnexpectedInput]

/-- An invalid lexeme is handed on only behind a stretch. -/
theorem handedOn_behind_stretch (ls : List Lexeme) {l : Lexeme} (hl : l.token = .invalid)
    (h : .ok l ∈ itemsFrom none ls) :
    ∃ before text span after,
      itemsFrom none ls = before ++ .error ⟨.unexpectedInput text, span⟩ :: .ok l :: after := by
  induction ls using stretch_induction with
  | nil => exact absurd h List.not_mem_nil
  | plain l' ls hplain ih =>
    rw [hplain.items] at h ⊢
    have hne : .ok l ≠ l'.item := by
      unfold Lexeme.item
      split
      · rintro ⟨⟩
      · rintro ⟨⟩
        contradiction
    obtain ⟨before, text, span, after, heq⟩ := ih ((List.mem_cons.mp h).resolve_left hne)
    exact ⟨l'.item :: before, text, span, after, by rw [heq]; rfl⟩
  | last first others hstretch =>
    rw [hstretch.items] at h
    simp [itemsBehind] at h
  | stretch first others next back hstretch ih =>
    rw [hstretch.items] at h ⊢
    have hcases : l = next ∨ .ok l ∈ itemsFrom none back := by simpa [itemsBehind] using h
    rcases hcases with rfl | hback
    · exact ⟨[], _, _, itemsFrom none back, rfl⟩
    · obtain ⟨before, text, span, after, heq⟩ := ih hback
      refine ⟨.error (Stretch.report first others) :: .ok next :: before, text, span, after, ?_⟩
      rw [itemsBehind, heq]
      rfl

private theorem stretch_of_report (ls : List Lexeme) {text : String} {span : Span}
    (h : .error ⟨.unexpectedInput text, span⟩ ∈ itemsFrom none ls) :
    ∃ front first others back, ls = front ++ first :: (others ++ back) ∧ Settled front ∧
      Stretch first others back ∧ Stretch.report first others = ⟨.unexpectedInput text, span⟩ := by
  induction ls using stretch_induction with
  | nil => exact absurd h List.not_mem_nil
  | plain l ls hplain ih =>
    rw [hplain.items] at h
    have hne : .error ⟨.unexpectedInput text, span⟩ ≠ l.item := by
      intro heq
      have hitem := isUnexpectedInput_item l
      rw [← heq] at hitem
      exact absurd hitem (by simp [Item.isUnexpectedInput])
    obtain ⟨front, first, others, back, rfl, hfront, hstretch, hreport⟩ :=
      ih ((List.mem_cons.mp h).resolve_left hne)
    exact ⟨l :: front, first, others, back, rfl, hplain.settled.append hfront, hstretch, hreport⟩
  | last first others hstretch =>
    rw [hstretch.items, itemsBehind, List.mem_singleton] at h
    exact ⟨[], first, others, [], rfl, settled_nil, hstretch, (Except.error.inj h).symm⟩
  | stretch first others next back hstretch ih =>
    rw [hstretch.items, itemsBehind] at h
    rcases List.mem_cons.mp h with hfirst | hrest
    · exact ⟨[], first, others, next :: back, rfl, settled_nil, hstretch,
        (Except.error.inj hfirst).symm⟩
    · have hback : .error ⟨.unexpectedInput text, span⟩ ∈ itemsFrom none back := by
        simpa using hrest
      obtain ⟨front, first', others', back', rfl, hfront, hstretch', hreport⟩ := ih hback
      refine ⟨first :: (others ++ [next]) ++ front, first', others', back', by simp, ?_, hstretch',
        hreport⟩
      exact hstretch.settled.append hfront

/-- Invalid input is reported by stretches, and there is a report if there is any. All that goes
unreported is an invalid lexeme right behind a stretch, which is handed on instead; a stretch with
anything else in front of it is one error, and no error is about less or more than a stretch. -/
theorem invalid_input_reported (source : String) :
    (Item.errors (items source) = [] ↔ ∀ l ∈ lexemes source, l.token ≠ .invalid) ∧
    (∀ l, l.token = .invalid → .ok l ∈ items source →
      ∃ before text span after,
        items source = before ++ .error ⟨.unexpectedInput text, span⟩ :: .ok l :: after) ∧
    (∀ front first others back, lexemes source = front ++ first :: (others ++ back) →
      Settled front → Stretch first others back →
      items source =
        itemsFrom none front ++ .error (Stretch.report first others) :: itemsBehind back) ∧
    ∀ text span, .error ⟨.unexpectedInput text, span⟩ ∈ items source →
      ∃ front first others back, lexemes source = front ++ first :: (others ++ back) ∧
        Settled front ∧ Stretch first others back ∧
        Stretch.report first others = ⟨.unexpectedInput text, span⟩ := by
  refine ⟨?_, ?_, ?_, ?_⟩
  · rw [items, errors_itemsFrom_eq_nil]
    simp [eq_comm]
  · intro l hl h
    exact handedOn_behind_stretch (lexemes source) hl h
  · intro front first others back hlexemes hfront hstretch
    rw [items, hlexemes, itemsFrom_settled hfront, hstretch.items]
  · intro text span h
    exact stretch_of_report (lexemes source) h

/-- Of two stretches with a gap between them the second one is handed on. -/
theorem second_stretch_handed_on :
    lexemes "@ @" = [⟨.invalid, "@", ⟨0, 1⟩⟩, ⟨.invalid, "@", ⟨2, 3⟩⟩] ∧
      items "@ @" = [.error ⟨.unexpectedInput "@", ⟨0, 1⟩⟩, .ok ⟨.invalid, "@", ⟨2, 3⟩⟩] := by
  decide +kernel

/-! ## Strings that are cut off -/

private theorem openString_of_unterminated {run : Option (Located String)} {ls : List Lexeme}
    {span : Span} (h : .error ⟨.unterminatedString, span⟩ ∈ itemsFrom run ls) :
    ∃ l ∈ ls, l.isOpenString = true := by
  induction ls generalizing run with
  | nil =>
    cases run with
    | none => exact absurd h List.not_mem_nil
    | some found => simp [itemsFrom] at h
  | cons l ls ih =>
    have hlater {run : Option (Located String)}
        (h : .error ⟨.unterminatedString, span⟩ ∈ itemsFrom run ls) :
        ∃ l' ∈ l :: ls, l'.isOpenString = true := by
      obtain ⟨l', hl', hopen⟩ := ih h
      exact ⟨l', List.mem_cons_of_mem l hl', hopen⟩
    cases run with
    | none =>
      rw [itemsFrom] at h
      split at h
      · exact hlater (by simpa using h)
      split at h
      · exact ⟨l, List.mem_cons_self, by assumption⟩
      · exact hlater h
    | some found =>
      rw [itemsFrom] at h
      split at h
      · exact hlater h
      · exact hlater (by simpa using h)

/-- Only the last lexeme of a source can be an open string. -/
theorem closed_before_last {source : String} {front : List Lexeme} {last : Lexeme}
    (h : lexemes source = front ++ [last]) : ∀ l ∈ front, l.isOpenString = false := by
  rw [lexemes_eq] at h
  cases Lexeme.ending 0 source.toList with
  | closed hall _ =>
    intro l hl
    exact hall l (by simp [h, hl])
  | inString front' last' _ _ hlexemes _ hfront _ _ =>
    obtain ⟨rfl, -⟩ := List.append_inj' (h.symm.trans hlexemes) rfl
    exact hfront

/-- An open string at the end is an item of its own unless it belongs to a stretch in front of it
or is the lexeme right behind that. -/
theorem unterminated_iff_settled {front : List Lexeme} {quote : Lexeme}
    (hopen : quote.isOpenString = true) (hfront : ∀ l ∈ front, l.isOpenString = false) :
    (∃ span, .error ⟨.unterminatedString, span⟩ ∈ itemsFrom none (front ++ [quote])) ↔
      Settled front := by
  have hplain : quote.Plain := .inr hopen
  have hinvalid : quote.token = .invalid := by
    simp only [Lexeme.isOpenString, Bool.and_eq_true, decide_eq_true_eq] at hopen
    exact hopen.1
  constructor
  · rintro ⟨span, hspan⟩
    by_contra hsettled
    obtain ⟨done, found, hdone, hitems⟩ := itemsFrom_unsettled hsettled
    have hnone : .error ⟨.unterminatedString, span⟩ ∉ done := by
      intro hmem
      have hmem : .error ⟨.unterminatedString, span⟩ ∈ itemsFrom none front := by
        simp [hdone, hmem]
      obtain ⟨l, hl, hlopen⟩ := openString_of_unterminated hmem
      simp [hfront l hl] at hlopen
    rw [hitems] at hspan
    have hlast := (List.mem_append.mp hspan).resolve_left hnone
    rw [itemsFrom] at hlast
    split at hlast <;> simp [itemsFrom] at hlast
  · intro hsettled
    refine ⟨quote.span, ?_⟩
    rw [itemsFrom_settled hsettled, hplain.items, Lexeme.item, if_pos hinvalid]
    simp

private theorem mem_errors_iff {items : List Item} {e : Located Error} :
    e ∈ Item.errors items ↔ .error e ∈ items := by
  rw [Item.errors, List.mem_filterMap]
  constructor
  · rintro ⟨item, hitem, heq⟩
    cases item with
    | ok l => simp at heq
    | error found =>
      obtain rfl : found = e := by simpa using heq
      exact hitem
  · exact fun h => ⟨.error e, h, rfl⟩

private theorem mem_parse_errors_iff {source : String} {e : Error} (h : e.isLexical = true) :
    (∃ found ∈ (parse source).errors, found.value = e) ↔
      ∃ span, .error ⟨e, span⟩ ∈ items source := by
  obtain ⟨own, herrors, hown⟩ := parse_errors_split source
  have hnot : e ∉ own := fun hmem => by simp [hown e hmem] at h
  rw [← List.mem_map, herrors, List.mem_append, or_iff_left hnot, List.mem_map]
  constructor
  · rintro ⟨found, hfound, rfl⟩
    exact ⟨found.span, mem_errors_iff.mp hfound⟩
  · rintro ⟨span, hspan⟩
    exact ⟨⟨e, span⟩, mem_errors_iff.mpr hspan, rfl⟩

/-- A string that is cut off at the end of a source is reported exactly if no stretch of invalid
input takes it in or has it right behind; that is so if nothing in front of it is invalid. Where it
is reported, the source asks for more. -/
theorem open_string_reported_iff (source : String) (front : List Lexeme) (quote : Lexeme)
    (hlexemes : lexemes source = front ++ [quote]) (hopen : quote.isOpenString = true) :
    ((∃ e ∈ (parse source).errors, e.value = .unterminatedString) ↔ Settled front) ∧
      (Settled front → isComplete source = false) ∧
      ((∀ l ∈ front, l.token ≠ .invalid) → Settled front) := by
  have hreported : (∃ e ∈ (parse source).errors, e.value = .unterminatedString) ↔
      Settled front := by
    rw [mem_parse_errors_iff rfl, items, hlexemes]
    exact unterminated_iff_settled hopen (closed_before_last hlexemes)
  refine ⟨hreported, fun hsettled => ?_, settled_of_valid⟩
  obtain ⟨e, he, hvalue⟩ := hreported.mpr hsettled
  have hany : (parse source).errors.any (·.value.isOpenEnded) = true := by
    rw [List.any_eq_true]
    exact ⟨e, he, by rw [hvalue]; rfl⟩
  rw [isComplete, hany]
  rfl

/-- The second stretch of two is handed on, so the string behind it is seen. -/
theorem open_string_reported_behind_two :
    lexemes "@ @ \"abc" = [⟨.invalid, "@", ⟨0, 1⟩⟩, ⟨.invalid, "@", ⟨2, 3⟩⟩] ++
        [⟨.invalid, "\"abc", ⟨4, 8⟩⟩] ∧
      isComplete "@ @ \"abc" = false := by
  have hlexemes : lexemes "@ @ \"abc" = [⟨.invalid, "@", ⟨0, 1⟩⟩, ⟨.invalid, "@", ⟨2, 3⟩⟩] ++
      [⟨.invalid, "\"abc", ⟨4, 8⟩⟩] := by decide +kernel
  have hreported := open_string_reported_iff _ _ _ hlexemes (by decide +kernel)
  exact ⟨hlexemes, hreported.2.1 (by unfold Settled; decide +kernel)⟩

/-- Right behind a stretch of invalid input a string that is cut off is taken for complete, and so
is one that touches the stretch. -/
theorem open_string_missed_behind_stretch :
    ((lexemes "@ \"abc").getLast?.map Lexeme.isOpenString = some true ∧
      (∀ e ∈ (parse "@ \"abc").errors, e.value ≠ .unterminatedString) ∧
      isComplete "@ \"abc" = true) ∧
    (lexemes "@\"abc").getLast?.map Lexeme.isOpenString = some true ∧
      (∀ e ∈ (parse "@\"abc").errors, e.value ≠ .unterminatedString) ∧
      isComplete "@\"abc" = true := by
  decide +kernel

end LoxLang
