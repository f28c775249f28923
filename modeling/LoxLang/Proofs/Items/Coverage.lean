import LoxLang.Proofs.Layout.Skipped
import LoxLang.Proofs.Places.Basic
import Mathlib.Data.List.Chain
import Mathlib.Data.String.Basic

namespace LoxLang

/-! ## Text under a span -/

def Span.text (source : String) (span : Span) : String :=
  String.Pos.Raw.extract source ⟨span.start⟩ ⟨span.stop⟩

private theorem byteSize_eq_utf8Len (text : List Char) : byteSize text = String.utf8Len text := by
  induction text with
  | nil => rfl
  | cons c cs ih => rw [byteSize_cons, ih, String.utf8Len_cons, Nat.add_comm]

private theorem byteSize_pos {text : List Char} (h : text ≠ []) : 0 < byteSize text := by
  cases text with
  | nil => exact absurd rfl h
  | cons c cs => exact Nat.lt_of_lt_of_le c.utf8Size_pos (Nat.le_add_right _ _)

private theorem Span.text_eq {source : String} {front text rest : List Char}
    (h : source.toList = front ++ (text ++ rest)) :
    Span.text source ⟨byteSize front, byteSize front + byteSize text⟩ = String.ofList text := by
  have hsource : source = String.ofList (front ++ text ++ rest) := by
    rw [List.append_assoc, ← h, String.ofList_toList]
  rw [Span.text, hsource, byteSize_eq_utf8Len, byteSize_eq_utf8Len]
  exact String.extract_of_valid front text rest

private theorem append_inj_of_byteSize {front front' rest rest' : List Char}
    (h : front ++ rest = front' ++ rest') (hsize : byteSize front = byteSize front') :
    front = front' ∧ rest = rest' := by
  induction front generalizing front' with
  | nil =>
    cases front' with
    | nil => exact ⟨rfl, h⟩
    | cons c cs =>
      have hpos := byteSize_pos (List.cons_ne_nil c cs)
      rw [← hsize, byteSize_nil] at hpos
      exact absurd hpos (Nat.lt_irrefl 0)
  | cons c cs ih =>
    cases front' with
    | nil =>
      have hpos := byteSize_pos (List.cons_ne_nil c cs)
      rw [hsize, byteSize_nil] at hpos
      exact absurd hpos (Nat.lt_irrefl 0)
    | cons d ds =>
      obtain ⟨rfl, htail⟩ := List.cons.inj h
      have hsizes : byteSize cs = byteSize ds := by
        simp only [byteSize_cons] at hsize
        omega
      obtain ⟨rfl, hrest⟩ := ih htail hsizes
      exact ⟨rfl, hrest⟩

/-- A text stands in a source, at the place that a span gives. -/
def Span.Spells (source : String) (span : Span) (text : String) : Prop :=
  ∃ front rest, source.toList = front ++ (text.toList ++ rest) ∧
    span = ⟨byteSize front, byteSize front + byteSize text.toList⟩

namespace Span.Spells

variable {source : String}

private theorem text_eq {span : Span} {text : String} (h : span.Spells source text) :
    Span.text source span = text := by
  obtain ⟨front, rest, hsource, rfl⟩ := h
  rw [Span.text_eq hsource, String.ofList_toList]

theorem join {start middle stop : Nat} {first second : String}
    (hfirst : Span.Spells source ⟨start, middle⟩ first)
    (hsecond : Span.Spells source ⟨middle, stop⟩ second) :
    Span.Spells source ⟨start, stop⟩ (first ++ second) := by
  obtain ⟨front, rest, hsource, hspan⟩ := hfirst
  obtain ⟨front', rest', hsource', hspan'⟩ := hsecond
  obtain ⟨rfl, hmiddle⟩ := Span.mk.inj hspan
  obtain ⟨hmiddle', rfl⟩ := Span.mk.inj hspan'
  have hsame : (front ++ first.toList) ++ rest = front' ++ (second.toList ++ rest') := by
    rw [List.append_assoc, ← hsource, hsource']
  have hsize : byteSize (front ++ first.toList) = byteSize front' := by
    rw [byteSize_append, ← hmiddle, hmiddle']
  obtain ⟨rfl, -⟩ := append_inj_of_byteSize hsame hsize
  refine ⟨front, rest', ?_, ?_⟩
  · simp [hsource', String.toList_append]
  · simp [String.toList_append, Nat.add_assoc]

end Span.Spells

private theorem Lexeme.spells {source : String} {l : Lexeme} (h : l ∈ lexemes source) :
    l.span.Spells source l.text := by
  rw [lexemes_eq] at h
  obtain ⟨front, rest, hsource, hspan⟩ := mem_lexemesFrom h
  exact ⟨front, rest, hsource, by simpa using hspan⟩

/-! ## Spans with gaps around them -/

namespace Lexeme.Covers

variable {start : Nat} {text : List Char} {span : Span} {spans : List Span}

private theorem cons_iff : Covers start text (span :: spans) ↔
    ∃ gap body rest, text = gap ++ (body ++ rest) ∧ Skipped gap ∧ body ≠ [] ∧
      span.start = start + byteSize gap ∧ span.stop = span.start + byteSize body ∧
      Covers span.stop rest spans := by
  constructor
  · intro h
    cases h with
    | @next _ gap body rest _ hgap hbody hrest =>
      exact ⟨gap, body, rest, rfl, hgap, hbody, rfl, rfl, hrest⟩
  · rintro ⟨gap, body, rest, rfl, hgap, hbody, hstart, hstop, hrest⟩
    obtain ⟨a, b⟩ := span
    simp only at hstart hstop hrest
    subst hstart hstop
    exact .next hgap hbody hrest

theorem stretch (h : Covers start text spans) (hspan : span ∈ spans) :
    ∃ front body rest, text = front ++ (body ++ rest) ∧ body ≠ [] ∧
      span = ⟨start + byteSize front, start + byteSize front + byteSize body⟩ := by
  induction h with
  | last => exact absurd hspan List.not_mem_nil
  | @next start gap body rest spans hgap hbody hrest ih =>
    rcases List.mem_cons.mp hspan with rfl | hspan
    · exact ⟨gap, body, rest, rfl, hbody, rfl⟩
    · obtain ⟨front', body', rest', rfl, hbody', rfl⟩ := ih hspan
      refine ⟨gap ++ (body ++ front'), body', rest', ?_, hbody', ?_⟩
      · simp
      · simp [Nat.add_assoc]

theorem pairwise (h : Covers start text spans) : spans.Pairwise fun a b => a.stop ≤ b.start := by
  induction h with
  | last => exact .nil
  | next hgap hbody hrest ih =>
    refine .cons ?_ ih
    intro span hspan
    obtain ⟨front, body, rest, -, -, rfl⟩ := hrest.stretch hspan
    exact Nat.le_add_right _ _

private theorem merge {first second : Span} (h : Covers start text (first :: second :: spans))
    (hnext : first.stop = second.start) :
    Covers start text (⟨first.start, second.stop⟩ :: spans) := by
  obtain ⟨gap, body, rest, rfl, hgap, hbody, hstart, hstop, hrest⟩ := cons_iff.mp h
  obtain ⟨gap', body', rest', rfl, hgap', hbody', hstart', hstop', hrest'⟩ := cons_iff.mp hrest
  have hnone : gap' = [] := by
    by_contra hne
    have hpos := byteSize_pos hne
    omega
  subst hnone
  refine cons_iff.mpr ⟨gap, body ++ body', rest', ?_, hgap, by simp [hbody], hstart, ?_, hrest'⟩
  · simp
  · simp only [byteSize_append]
    omega

private theorem merge_append {first second : Span} (front : List Span)
    (h : Covers start text (front ++ first :: second :: spans))
    (hnext : first.stop = second.start) :
    Covers start text (front ++ ⟨first.start, second.stop⟩ :: spans) := by
  induction front generalizing start text with
  | nil => exact h.merge hnext
  | cons s front ih =>
    obtain ⟨gap, body, rest, rfl, hgap, hbody, hstart, hstop, hrest⟩ := cons_iff.mp h
    exact cons_iff.mpr ⟨gap, body, rest, rfl, hgap, hbody, hstart, hstop, ih hrest⟩

end Lexeme.Covers

def stopAfter (start : Nat) : List Span → Nat
  | [] => start
  | span :: spans => stopAfter span.stop spans

namespace Lexeme.Covers

variable {start : Nat} {text : List Char} {span : Span} {spans : List Span}

private theorem gap_before (before after : List Span)
    (h : Covers start text (before ++ span :: after)) :
    ∃ front gap rest, text = front ++ (gap ++ rest) ∧ Skipped gap ∧
      stopAfter start before = start + byteSize front ∧
      span.start = start + byteSize front + byteSize gap := by
  induction before generalizing start text with
  | nil =>
    obtain ⟨gap, body, rest, rfl, hgap, -, hstart, -, -⟩ := cons_iff.mp h
    exact ⟨[], gap, body ++ rest, rfl, hgap, rfl, hstart⟩
  | cons s before ih =>
    obtain ⟨gap, body, rest, rfl, -, -, hstart, hstop, hrest⟩ := cons_iff.mp h
    obtain ⟨front', gap', rest', rfl, hgap', hbefore, hspan⟩ := ih hrest
    refine ⟨gap ++ (body ++ front'), gap', rest', by simp, hgap', ?_, ?_⟩
    · rw [stopAfter, hbefore]
      simp only [byteSize_append]
      omega
    · simp only [byteSize_append]
      omega

private theorem gap_after (h : Covers start text spans) :
    ∃ front tail, text = front ++ tail ∧ Trailing tail ∧
      stopAfter start spans = start + byteSize front := by
  induction h with
  | @last start tail htail => exact ⟨[], tail, rfl, htail, rfl⟩
  | @next start gap body rest spans hgap hbody hrest ih =>
    obtain ⟨front', tail, rfl, htail, hstop⟩ := ih
    refine ⟨gap ++ (body ++ front'), tail, by simp, htail, ?_⟩
    rw [stopAfter, hstop]
    simp [Nat.add_assoc]

end Lexeme.Covers

/-! ## Items -/

namespace Item

def span : Item → Span
  | .ok l => l.span
  | .error e => e.span

def isUnexpectedInput : Item → Bool
  | .error ⟨.unexpectedInput _, _⟩ => true
  | _ => false

/-- Where the last of these items stops; the beginning of the source if there is none. -/
def endOf (items : List Item) : Nat :=
  stopAfter 0 (items.map span)

end Item

open Lexeme

/-- Joining lexemes to stretches of invalid input leaves no more of a text uncovered. -/
theorem covers_itemsFrom {start : Nat} {text : List Char} (front : List Span)
    (run : Option (Located String)) (ls : List Lexeme)
    (h : Covers start text (front ++ (run.toList.map (·.span) ++ ls.map (·.span)))) :
    Covers start text (front ++ (itemsFrom run ls).map Item.span) := by
  induction ls generalizing front run with
  | nil =>
    cases run with
    | none => exact h
    | some found => exact h
  | cons l ls ih =>
    have hhandOn (item : Item) (hitem : Item.span item = l.span) (front : List Span)
        (h : Covers start text (front ++ l.span :: ls.map (·.span))) :
        Covers start text (front ++ (item :: itemsFrom none ls).map Item.span) := by
      have hrest := ih (front ++ [l.span]) none (by simpa using h)
      simpa [hitem] using hrest
    cases run with
    | none =>
      rw [itemsFrom]
      split
      · exact hhandOn (.ok l) rfl front h
      split
      · exact hhandOn (.error ⟨.unterminatedString, l.span⟩) rfl front h
      · exact ih front (some ⟨l.text, l.span⟩) h
    | some found =>
      rw [itemsFrom]
      split
      · rename_i hnext
        exact ih front (some _) (h.merge_append front hnext)
      · have hrest := hhandOn (.ok l) rfl (front ++ [found.span]) (by simpa using h)
        simpa [Item.span] using hrest

private theorem spells_itemsFrom {source : String} {run : Option (Located String)}
    {ls : List Lexeme} (hls : ∀ l ∈ ls, l.span.Spells source l.text)
    (hrun : ∀ found ∈ run, found.span.Spells source found.value) {text : String} {span : Span}
    (h : .error ⟨.unexpectedInput text, span⟩ ∈ itemsFrom run ls) : span.Spells source text := by
  induction ls generalizing run with
  | nil =>
    cases run with
    | none => exact absurd h List.not_mem_nil
    | some found =>
      obtain ⟨⟨⟩, rfl⟩ : found.value = text ∧ found.span = span := by
        simpa [itemsFrom, eq_comm] using h
      exact hrun found rfl
  | cons l ls ih =>
    have hl := hls l List.mem_cons_self
    have ih (run : Option (Located String)) :=
      @ih run fun l' hl' => hls l' (List.mem_cons_of_mem l hl')
    cases run with
    | none =>
      rw [itemsFrom] at h
      split at h
      · exact ih none (by simp) (by simpa using h)
      split at h
      · exact ih none (by simp) (by simpa using h)
      · exact ih _ (by simpa using hl) h
    | some found =>
      have hfound := hrun found rfl
      rw [itemsFrom] at h
      split at h
      · rename_i hnext
        refine ih _ ?_ h
        rintro _ ⟨⟩
        exact hfound.join (hnext ▸ hl)
      · have hcases : (text = found.value ∧ span = found.span) ∨
            .error ⟨.unexpectedInput text, span⟩ ∈ itemsFrom none ls := by simpa using h
        rcases hcases with ⟨rfl, rfl⟩ | hrest
        · exact hfound
        · exact ih none (by simp) hrest

private theorem apart_itemsFrom (run : Option (Located String)) (ls : List Lexeme) :
    (itemsFrom run ls).IsChain fun item next =>
      Item.isUnexpectedInput item = true → (Item.span item).stop ≠ (Item.span next).start := by
  induction ls generalizing run with
  | nil =>
    cases run with
    | none => exact .nil
    | some found => exact .singleton _
  | cons l ls ih =>
    cases run with
    | none =>
      rw [itemsFrom]
      split
      · exact (ih none).cons (by simp [Item.isUnexpectedInput])
      split
      · exact (ih none).cons (by simp [Item.isUnexpectedInput])
      · exact ih _
    | some found =>
      rw [itemsFrom]
      split
      · exact ih _
      · rename_i hgap
        have hrest := (ih none).cons (x := .ok l) (by simp [Item.isUnexpectedInput])
        exact hrest.cons_cons fun _ => hgap

theorem covers_items (source : String) :
    Covers 0 source.toList ((items source).map Item.span) := by
  have h := covers_lexemesFrom 0 source.toList
  rw [← lexemes_eq] at h
  exact covers_itemsFrom [] none (lexemes source) h

/-- The items of a source lose nothing of it. -/
structure Item.Complete (source : String) (items : List Item) : Prop where
  /-- No item is empty. -/
  nonempty : ∀ item ∈ items, (span item).start < (span item).stop
  /-- Every item lies in the source, from the beginning of a character to one. -/
  inside : ∀ item ∈ items, (span item).PointsInto source
  /-- The items are in order and do not overlap. -/
  ordered : items.Pairwise fun item next => (span item).stop ≤ (span next).start
  /-- Before the first item and between two of them there are only blanks and comments. -/
  gaps : ∀ before item after, items = before ++ item :: after →
    Skipped (Span.text source ⟨endOf before, (span item).start⟩).toList
  /-- The same is true after the last item, or of the whole source if there is none. -/
  trailing : Trailing (Span.text source ⟨endOf items, source.utf8ByteSize⟩).toList
  /-- A stretch of invalid input is the text under its span. -/
  texts : ∀ text span, .error ⟨.unexpectedInput text, span⟩ ∈ items → Span.text source span = text
  /-- It does not touch the next item. -/
  apart : items.IsChain fun item next =>
    isUnexpectedInput item = true → (span next).start ≠ (span item).stop

namespace Lexeme.Covers

variable {source : String} {spans : List Span}

theorem pointsInto (h : Covers 0 source.toList spans) {span : Span} (hspan : span ∈ spans) :
    span.start < span.stop ∧ span.PointsInto source := by
  obtain ⟨front, body, rest, hsource, hbody, rfl⟩ := h.stretch hspan
  have hpos := byteSize_pos hbody
  have hsplit : source.toList = (front ++ body) ++ rest := by rw [hsource, List.append_assoc]
  have hstart := boundary_byteSize hsource
  have hstop : Boundary source (byteSize (front ++ body)) :=
    boundary_byteSize hsplit
  rw [byteSize_append] at hstop
  simp only [Nat.zero_add]
  exact ⟨by omega, Span.pointsInto_of_boundaries (Nat.le_add_right _ _) hstart hstop⟩

private theorem skipped_before {span : Span} {before after : List Span}
    (h : Covers 0 source.toList (before ++ span :: after)) :
    Skipped (Span.text source ⟨stopAfter 0 before, span.start⟩).toList := by
  obtain ⟨front, gap, rest, hsource, hgap, hstop, hstart⟩ := h.gap_before before after
  rw [Nat.zero_add] at hstop hstart
  rw [hstop, hstart, Span.text_eq hsource, String.toList_ofList]
  exact hgap

private theorem trailing_after (h : Covers 0 source.toList spans) :
    Trailing (Span.text source ⟨stopAfter 0 spans, source.utf8ByteSize⟩).toList := by
  obtain ⟨front, tail, hsource, htail, hstop⟩ := h.gap_after
  have hsize : source.utf8ByteSize = byteSize front + byteSize tail := by
    rw [← byteSize_append, ← hsource, ← utf8ByteSize_ofList, String.ofList_toList]
  have htext : source.toList = front ++ (tail ++ []) := by rw [List.append_nil, hsource]
  rw [Nat.zero_add] at hstop
  rw [hstop, hsize, Span.text_eq htext, String.toList_ofList]
  exact htail

end Lexeme.Covers

/-- The items of a source cover all of it but blanks and comments. -/
theorem items_complete (source : String) : Item.Complete source (items source) := by
  have hcovers := covers_items source
  have hplaces (item : Item) (hitem : item ∈ items source) :=
    hcovers.pointsInto (List.mem_map_of_mem hitem)
  constructor
  · exact fun item hitem => (hplaces item hitem).1
  · exact fun item hitem => (hplaces item hitem).2
  · exact List.pairwise_map.mp hcovers.pairwise
  · intro before item after hitems
    rw [hitems, List.map_append, List.map_cons] at hcovers
    exact hcovers.skipped_before
  · exact hcovers.trailing_after
  · intro text span hitem
    exact (spells_itemsFrom (fun l hl => Lexeme.spells hl) (by simp) hitem).text_eq
  · exact (apart_itemsFrom none (lexemes source)).imp fun item next h hitem => (h hitem).symm

end LoxLang
