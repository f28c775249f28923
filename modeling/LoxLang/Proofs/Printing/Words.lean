import LoxLang.Proofs.Decimal.Floats
import LoxLang.Tree.Printer
/-!
# Words of printed expressions

The parts of an expression that are printed without parentheses: constants, names
and the two words for the receiver. A text that begins with such a word can be split
in one way only. A string ends at its closing quote, because quotes inside of it are
escaped, and every other word ends before a space or a parenthesis.
-/
namespace LoxLang

/-! ## Quoted text -/

namespace Text
open Lexeme

def hexDigit (c : Char) : Nat :=
  if c.isDigit then c.toNat - '0'.toNat else c.toNat - 'a'.toNat + 10

def hexValue (row : List Char) : Nat :=
  row.foldl (fun value c => 16 * value + hexDigit c) 0

private theorem hexDigit_digitChar : ∀ d < 16, hexDigit d.digitChar = d := by
  decide

private theorem hexValue_hex (n : Nat) : hexValue (hex n) = n := by
  induction n using Nat.strongRecOn with
  | ind n ih =>
    unfold hex at ih ⊢
    rw [Nat.toDigits_eq_if (by decide)]
    split
    · rename_i hn
      simpa [hexValue] using hexDigit_digitChar n hn
    · rename_i hn
      have hfront := ih (n / 16) (by omega)
      have hlast := hexDigit_digitChar (n % 16) (Nat.mod_lt n (by decide))
      unfold hexValue at hfront
      rw [hexValue, List.foldl_append, hfront, List.foldl_cons, List.foldl_nil, hlast]
      omega

private theorem brace_notMem_hex (n : Nat) : '\x7d' ∉ hex n := by
  induction n using Nat.strongRecOn with
  | ind n ih =>
    unfold hex at ih ⊢
    rw [Nat.toDigits_eq_if (by decide)]
    split
    · simp
    · rename_i hn
      simpa using ih (n / 16) (by omega)

/-- The character at the front of an escaped text, and the text behind it. -/
def unescape : List Char → Option (Char × List Char)
  | '\\' :: 't' :: rest => some ('\t', rest)
  | '\\' :: 'r' :: rest => some ('\r', rest)
  | '\\' :: 'n' :: rest => some ('\n', rest)
  | '\\' :: '0' :: rest => some ('\x00', rest)
  | '\\' :: 'u' :: '\x7b' :: rest =>
    some (Char.ofNat (hexValue (rest.takeWhile (· ≠ '\x7d'))), (rest.dropWhile (· ≠ '\x7d')).tail)
  | '\\' :: c :: rest => some (c, rest)
  | c :: rest => some (c, rest)
  | [] => none

private theorem unescape_escape (c : Char) (rest : List Char) :
    unescape (escape c ++ rest) = some (c, rest) := by
  fun_cases escape c with
  | case7 hquote hbackslash => simp [unescape, hbackslash]
  | case8 =>
    have hbrace := brace_notMem_hex c.toNat
    have htext : '\\' :: 'u' :: '\x7b' :: hex c.toNat ++ ['\x7d'] ++ rest =
        '\\' :: 'u' :: '\x7b' :: (hex c.toNat ++ '\x7d' :: rest) := by simp
    rw [htext, unescape, takeWhile_ne hbrace, dropWhile_ne hbrace, hexValue_hex, Char.ofNat_toNat]
    rfl
  | _ =>
    subst c
    rfl

private theorem quote_ne_escape (c : Char) (rest rest' : List Char) :
    '"' :: rest ≠ escape c ++ rest' := by
  intro h
  have hread := congrArg unescape h
  rw [unescape_escape] at hread
  obtain rfl : '"' = c := (Prod.mk.inj (Option.some.inj hread)).1
  exact absurd (List.cons.inj h).1 (by decide)

/-- The closing quote is the first one that is not escaped. -/
theorem flatMap_escape_inj {s t rest rest' : List Char}
    (h : s.flatMap escape ++ '"' :: rest = t.flatMap escape ++ '"' :: rest') :
    s = t ∧ rest = rest' := by
  induction s generalizing t with
  | nil =>
    cases t with
    | nil => exact ⟨rfl, List.tail_eq_of_cons_eq h⟩
    | cons d ds =>
      rw [List.flatMap_cons, List.append_assoc] at h
      exact absurd h (quote_ne_escape d _ _)
  | cons c cs ih =>
    cases t with
    | nil =>
      rw [List.flatMap_cons, List.append_assoc] at h
      exact absurd h.symm (quote_ne_escape c _ _)
    | cons d ds =>
      rw [List.flatMap_cons, List.flatMap_cons, List.append_assoc, List.append_assoc] at h
      have hread := congrArg unescape h
      rw [unescape_escape, unescape_escape] at hread
      obtain ⟨rfl, htail⟩ := Prod.mk.inj (Option.some.inj hread)
      obtain ⟨rfl, hrest⟩ := ih htail
      exact ⟨rfl, hrest⟩

private theorem quoted_inj {s t : String} {rest rest' : List Char}
    (h : (quoted s).toList ++ rest = (quoted t).toList ++ rest') : s = t ∧ rest = rest' := by
  have htext (u : String) (text : List Char) :
      (quoted u).toList ++ text = '"' :: (u.toList.flatMap escape ++ '"' :: text) := by
    simp [quoted]
  rw [htext, htext] at h
  obtain ⟨hlist, hrest⟩ := flatMap_escape_inj (List.tail_eq_of_cons_eq h)
  exact ⟨String.toList_inj.mp hlist, hrest⟩

end Text

/-! ## Words -/

def isSolid (c : Char) : Bool :=
  c != ' ' && c != '(' && c != ')' && c != '"'

def Stops (rest : List Char) : Prop :=
  ∀ c ∈ rest.head?, c = ' ' ∨ c = ')'

theorem stops_nil : Stops [] := fun _ h => absurd h (Option.not_mem_none _)

theorem stops_space (rest : List Char) : Stops (' ' :: rest) := by
  simp [Stops]

theorem stops_paren (rest : List Char) : Stops (')' :: rest) := by
  simp [Stops]

theorem solid_inj {word word' rest rest' : List Char} (hword : ∀ c ∈ word, isSolid c = true)
    (hword' : ∀ c ∈ word', isSolid c = true) (hrest : Stops rest) (hrest' : Stops rest')
    (h : word ++ rest = word' ++ rest') : word = word' ∧ rest = rest' := by
  have hstop {text : List Char} (htext : Stops text) : ∀ c ∈ text.head?, isSolid c = false := by
    intro c hc
    rcases htext c hc with rfl | rfl <;> rfl
  have htake := Lexeme.takeWhile_stops hword (hstop hrest)
  have hdrop := Lexeme.dropWhile_stops hword (hstop hrest)
  rw [h, Lexeme.takeWhile_stops hword' (hstop hrest')] at htake
  rw [h, Lexeme.dropWhile_stops hword' (hstop hrest')] at hdrop
  exact ⟨htake.symm, hdrop.symm⟩

inductive Atom
  | literal (value : Literal)
  | name (name : String)
  | this
  | super

structure IsName (name : String) : Prop where
  characters : ∃ first others, name.toList = first :: others ∧
    Lexeme.isNameStart first = true ∧ ∀ c ∈ others, Lexeme.isNamePart c = true
  unreserved : Keyword.ofSpelling? name = none

namespace Atom

def text : Atom → String
  | literal value => value.display
  | name word => word
  | this => "this"
  | super => "super"

/-- The constants and names that stand in a source: numbers are finite, and names are not
reserved. -/
def Proper : Atom → Prop
  | literal (.number x) => ∃ m q, Magnitude.ofFloat x = .finite m q
  | name word => IsName word
  | _ => True

def ofWord (word : String) : Atom :=
  match Keyword.ofSpelling? word with
  | some .kwNil => literal .nil
  | some .kwTrue => literal (.bool true)
  | some .kwFalse => literal (.bool false)
  | some .kwThis => this
  | some .kwSuper => super
  | _ => name word

/-- The three looks of an atom, which their first characters tell apart. -/
inductive Shape (a : Atom) : Prop
  | quoted (content : String) (ha : a = literal (.string content))
  | number (x : Float) (m : Nat) (q : Int) (ha : a = literal (.number x))
      (hx : Magnitude.ofFloat x = .finite m q)
  | word (first : Char) (others : List Char) (htext : a.text.toList = first :: others)
      (hfirst : Lexeme.isNameStart first = true)
      (hothers : ∀ c ∈ others, Lexeme.isNamePart c = true) (hread : ofWord a.text = a)

private theorem Proper.shape {a : Atom} (h : a.Proper) : a.Shape := by
  cases a with
  | literal value =>
    cases value with
    | nil => exact .word 'n' ['i', 'l'] rfl rfl (List.all_eq_true.mp rfl) rfl
    | bool value =>
      cases value with
      | true => exact .word 't' ['r', 'u', 'e'] rfl rfl (List.all_eq_true.mp rfl) rfl
      | false => exact .word 'f' ['a', 'l', 's', 'e'] rfl rfl (List.all_eq_true.mp rfl) rfl
    | number x =>
      obtain ⟨m, q, hx⟩ := h
      exact .number x m q rfl hx
    | string content => exact .quoted content rfl
  | name word =>
    obtain ⟨first, others, htext, hfirst, hothers⟩ := h.characters
    refine .word first others htext hfirst hothers ?_
    rw [text, ofWord, h.unreserved]
  | this => exact .word 't' ['h', 'i', 's'] rfl rfl (List.all_eq_true.mp rfl) rfl
  | super => exact .word 's' ['u', 'p', 'e', 'r'] rfl rfl (List.all_eq_true.mp rfl) rfl

end Atom

section
variable {c : Char}

private theorem isSolid_of_kind {p : Char → Bool} (h : p c = true) (hspace : p ' ' = false)
    (hopen : p '(' = false) (hclose : p ')' = false) (hquote : p '"' = false) :
    isSolid c = true := by
  have hne {d : Char} (hd : p d = false) : c ≠ d := by
    rintro rfl
    rw [h] at hd
    cases hd
  simp [isSolid, hne hspace, hne hopen, hne hclose, hne hquote]

private theorem isSolid_of_isNameStart (h : Lexeme.isNameStart c = true) : isSolid c = true :=
  isSolid_of_kind h rfl rfl rfl rfl

private theorem isSolid_of_isNamePart (h : Lexeme.isNamePart c = true) : isSolid c = true :=
  isSolid_of_kind h rfl rfl rfl rfl

private theorem isSolid_of_isDigit (h : c.isDigit = true) : isSolid c = true :=
  isSolid_of_kind h rfl rfl rfl rfl

private theorem not_isNameStart (h : c.isDigit = true ∨ c = '-') :
    Lexeme.isNameStart c = false := by
  rcases h with h | rfl
  · have hbounds : 48 ≤ c.toNat ∧ c.toNat ≤ 57 := by
      simpa [Char.isDigit, UInt32.le_iff_toNat_le] using h
    have halpha : c.isAlpha = false := by
      unfold Char.isAlpha Char.isUpper Char.isLower
      simp [UInt32.le_iff_toNat_le]
      omega
    have hline : c ≠ '_' := by
      rintro rfl
      exact absurd h (by decide)
    simp [Lexeme.isNameStart, halpha, hline]
  · rfl

end

namespace Atom

private theorem text_number (x : Float) :
    (literal (.number x)).text = Decimal.ofFloat .always x := rfl

private theorem text_string (content : String) :
    (literal (.string content)).text = Text.quoted content := rfl

private theorem Shape.solid {a : Atom} (h : a.Shape) : (∃ content, a = literal (.string content)) ∨
    ∃ first others, a.text.toList = first :: others ∧ isSolid first = true ∧
      ∀ c ∈ others, isSolid c = true := by
  cases h with
  | quoted content ha => exact .inl ⟨content, ha⟩
  | number x m q ha hx =>
    obtain ⟨first, others, htext, hfirst, hothers⟩ := Decimal.ofFloat_characters hx
    refine .inr ⟨first, others, ha ▸ htext, ?_, fun c hc => ?_⟩
    · rcases hfirst with hfirst | rfl
      · exact isSolid_of_isDigit hfirst
      · rfl
    · rcases hothers c hc with hdigit | rfl
      · exact isSolid_of_isDigit hdigit
      · rfl
  | word first others htext hfirst hothers =>
    exact .inr ⟨first, others, htext, isSolid_of_isNameStart hfirst,
      fun c hc => isSolid_of_isNamePart (hothers c hc)⟩

private theorem head_string (content : String) :
    ∃ others, (literal (.string content)).text.toList = '"' :: others :=
  ⟨content.toList.flatMap Text.escape ++ ['"'], by simp [text_string, Text.quoted]⟩

theorem Proper.head {a : Atom} (h : a.Proper) :
    ∃ first others, a.text.toList = first :: others ∧ first ≠ '(' := by
  rcases h.shape.solid with ⟨content, rfl⟩ | ⟨first, others, htext, hfirst, -⟩
  · obtain ⟨others, htext⟩ := head_string content
    exact ⟨'"', others, htext, by decide⟩
  · refine ⟨first, others, htext, ?_⟩
    rintro rfl
    cases hfirst

private theorem number_ne_word {x : Float} {m : Nat} {q : Int}
    (hx : Magnitude.ofFloat x = .finite m q)
    {first : Char} {others : List Char} (hfirst : Lexeme.isNameStart first = true) :
    (literal (.number x)).text.toList ≠ first :: others := by
  intro h
  rw [text_number] at h
  obtain ⟨digit, digits, htext, hdigit, -⟩ := Decimal.ofFloat_characters hx
  rw [h] at htext
  rw [(List.cons.inj htext).1, not_isNameStart hdigit] at hfirst
  cases hfirst

private theorem Shape.eq_of_text {a b : Atom} (ha : a.Shape) (hb : b.Shape) {first : Char}
    {others : List Char} (hsolid : a.text.toList = first :: others) (hfirst : isSolid first = true)
    (h : a.text = b.text) : a = b := by
  have hstring (content : String) : a.text ≠ (literal (.string content)).text := by
    intro heq
    obtain ⟨rest, htext⟩ := head_string content
    rw [← heq, hsolid] at htext
    rw [(List.cons.inj htext).1] at hfirst
    cases hfirst
  cases ha with
  | quoted content ha => exact absurd (congrArg text ha) (hstring content)
  | number x m q ha hx =>
    cases hb with
    | quoted content hb => exact absurd (h.trans (congrArg text hb)) (hstring content)
    | number y m' q' hb hy =>
      subst ha hb
      rw [text_number, text_number] at h
      rw [Decimal.ofFloat_inj hx hy h]
    | word d ds htext hd hds hread =>
      subst ha
      rw [← h] at htext
      exact absurd htext (number_ne_word hx hd)
  | word d ds htext hd hds hread =>
    cases hb with
    | quoted content hb => exact absurd (h.trans (congrArg text hb)) (hstring content)
    | number y m' q' hb hy =>
      subst hb
      rw [h] at htext
      exact absurd htext (number_ne_word hy hd)
    | word d' ds' htext' hd' hds' hread' => rw [← hread, h, hread']

/-- A text begins with at most one atom. -/
theorem text_inj {a b : Atom} {rest rest' : List Char} (ha : a.Proper) (hb : b.Proper)
    (hrest : Stops rest) (hrest' : Stops rest')
    (h : a.text.toList ++ rest = b.text.toList ++ rest') : a = b ∧ rest = rest' := by
  have hmixed {content : String} {text text' : List Char} {first : Char} {others : List Char}
      (hfirst : isSolid first = true) :
      (literal (.string content)).text.toList ++ text ≠ first :: others ++ text' := by
    intro heq
    obtain ⟨more, htext⟩ := head_string content
    rw [htext] at heq
    rw [← (List.cons.inj heq).1] at hfirst
    cases hfirst
  rcases ha.shape.solid with ⟨content, rfl⟩ | ⟨first, others, htext, hfirst, hothers⟩ <;>
    rcases hb.shape.solid with ⟨content', rfl⟩ | ⟨first', others', htext', hfirst', hothers'⟩
  · obtain ⟨rfl, rfl⟩ := Text.quoted_inj h
    exact ⟨rfl, rfl⟩
  · rw [htext'] at h
    exact absurd h (hmixed hfirst')
  · rw [htext] at h
    exact absurd h.symm (hmixed hfirst)
  · have hall : ∀ c ∈ a.text.toList, isSolid c = true := by
      rw [htext]
      exact List.forall_mem_cons.mpr ⟨hfirst, hothers⟩
    have hall' : ∀ c ∈ b.text.toList, isSolid c = true := by
      rw [htext']
      exact List.forall_mem_cons.mpr ⟨hfirst', hothers'⟩
    obtain ⟨hsame, rfl⟩ := solid_inj hall hall' hrest hrest' h
    exact ⟨ha.shape.eq_of_text hb.shape htext hfirst (String.toList_inj.mp hsame), rfl⟩

end Atom

end LoxLang
