import Skiff.Proofs.Number.Digits
import Skiff.Token.Literal

/-!
# Escapes

A quoted literal is a sequence of units, each of which is a character of its own or an escape that
stands for one. Decoding gives back the characters whatever units stand side by side, and where
there is no unit, what is found there decides the error.
-/

namespace Skiff

open List

namespace Literal

open Numeral

/-- The letters of escapes, each with its character. -/
def letters : List (Char × Char) :=
  [('a', '\x07'), ('b', '\x08'), ('f', '\x0c'), ('n', '\n'), ('r', '\r'), ('t', '\t'),
    ('v', '\x0b'), ('\\', '\\'), ('\'', '\''), ('"', '"')]

/-- The forms of escapes that give a code. -/
structure CodeForm where
  escape : DigitEscape
  /-- What stands before the digits. -/
  mark : List Char
  radix : Nat
  count : Nat

def codeForms : List CodeForm :=
  [⟨.hex, ['x'], 16, 2⟩, ⟨.unicode, ['u'], 16, 4⟩, ⟨.unicode, ['U'], 16, 8⟩, ⟨.octal, [], 8, 3⟩]

/-- A text that stands for one character. -/
inductive Denotes : List Char → Char → Prop where
  | plain {c : Char} (other : c ≠ '\\') : Denotes [c] c
  | letter {letter c : Char} (listed : (letter, c) ∈ letters) : Denotes ['\\', letter] c
  | code {form : CodeForm} {digits : List Char} {c : Char} (listed : form ∈ codeForms)
      (length : digits.length = form.count) (spells : Spells form.radix digits c.toNat) :
      Denotes ('\\' :: form.mark ++ digits) c

/-- The form whose escapes begin with a character. -/
def CodeForm.Opens (form : CodeForm) (c : Char) : Prop :=
  form.mark = [c] ∨ form.mark = [] ∧ ∃ digit, DigitOf form.radix digit c

/-- What is wrong with a text that begins with a backslash but with no unit. -/
inductive Fault : List Char → LiteralError → Prop where
  | truncated : Fault ['\\'] .truncatedEscape
  | unknown {c : Char} {rest : List Char} (noLetter : ∀ entry ∈ letters, entry.1 ≠ c)
      (noForm : ∀ form ∈ codeForms, ¬ form.Opens c) : Fault ('\\' :: c :: rest) (.unknownEscape c)
  | digits {form : CodeForm} {c : Char} {rest body : List Char} (listed : form ∈ codeForms)
      (opens : form.Opens c) (same : c :: rest = form.mark ++ body)
      (bad : ∀ digits value, digits <+: body → digits.length = form.count →
        ¬ Spells form.radix digits value) :
      Fault ('\\' :: c :: rest) (.badDigits form.escape form.count)
  | code {form : CodeForm} {digits rest : List Char} {value : Nat} (listed : form ∈ codeForms)
      (length : digits.length = form.count) (spells : Spells form.radix digits value)
      (invalid : ¬ value.isValidChar) :
        Fault ('\\' :: form.mark ++ digits ++ rest) (.invalidCodePoint value)

variable {radix count value : Nat} {c : Char} {text rest digits : List Char} {escape : DigitEscape}
  {form : CodeForm}

/-! ## Codes -/

theorem charOfCode?_toNat (c : Char) : charOfCode? c.toNat = some c :=
  dif_pos c.valid

theorem mapM_digitValue? (small : radix ≤ 16) {values : List Nat} :
    text.mapM (digitValue? radix) = some values ↔ Forall₂ (DigitOf radix) values text := by
  induction text generalizing values with
  | nil => simp [eq_comm]
  | cons c text ih =>
    cases values with
    | nil => simp [Option.bind_eq_some_iff]
    | cons digit values =>
      rw [mapM_cons, forall₂_cons, ← ih, ← digitValue?_eq_some_iff small]
      simp [Option.bind_eq_some_iff]

theorem readCode_of_spells (small : radix ≤ 16) (length : digits.length = count)
    (spells : Spells radix digits value) :
    readCode escape radix count (digits ++ rest) =
      (charOfCode? value).elim (.error (.invalidCodePoint value)) .ok := by
  obtain ⟨values, spelled, rfl⟩ := spells
  rw [readCode, take_left' length, (mapM_digitValue? small).2 spelled]
  simp only [spelled.length_eq.trans length, ofDigits_reverse, if_pos]
  cases charOfCode? _ <;> rfl

theorem readCode_of_not (small : radix ≤ 16)
    (bad : ∀ digits value, digits <+: text → digits.length = count → ¬ Spells radix digits value) :
    readCode escape radix count text = .error (.badDigits escape count) := by
  cases found : (text.take count).mapM (digitValue? radix) with
  | none => simp only [readCode, found]
  | some values =>
    have spelled := (mapM_digitValue? small).1 found
    have short : values.length ≠ count := fun whole =>
      bad _ _ (List.take_prefix ..) (spelled.length_eq.symm.trans whole) ⟨values, spelled, rfl⟩
    simp only [readCode, found, if_neg short]

/-! ## Escapes -/

theorem simpleEscape?_eq_some_iff {letter : Char} :
    simpleEscape? letter = some c ↔ (letter, c) ∈ letters := by
  constructor
  · intro found
    unfold simpleEscape? at found
    split at found <;> cases found <;> simp [letters]
  · intro listed
    have all : ∀ entry ∈ letters, simpleEscape? entry.1 = some entry.2 := by
      simp [letters, simpleEscape?]
    exact all _ listed

theorem octal_iff : (∃ digit, DigitOf 8 digit c) ↔ '0' ≤ c ∧ c ≤ '7' := by
  simp only [← digitValue?_eq_some_iff (by decide : 8 ≤ 16), digitValue?, Option.filter_eq_some_iff,
    decide_eq_true_iff, le_iff_toNat, Char.reduceToNat]
  constructor
  · rintro ⟨digit, found, below⟩
    split at found
    · cases found
      omega
    · split at found
      · cases found
        omega
      · split at found
        · cases found
          omega
        · cases found
  · rintro ⟨low, high⟩
    exact ⟨c.toNat - 48, if_pos (by omega), by omega⟩

/-- An escape of a form is read by it. -/
theorem readEscape_of_opens (listed : form ∈ codeForms) (opens : form.Opens c)
    (same : c :: rest = form.mark ++ text) :
    readEscape (c :: rest) =
      (readCode form.escape form.radix form.count text).map (·, form.mark.length + form.count) := by
  simp only [codeForms, mem_cons, not_mem_nil, or_false] at listed
  have marked {mark : Char} (isMark : form.mark = [mark]) : c = mark ∧ rest = text := by
    rw [isMark] at same
    exact List.cons.inj same
  rcases listed with rfl | rfl | rfl | rfl
  · obtain ⟨rfl, rfl⟩ := marked rfl
    rfl
  · obtain ⟨rfl, rfl⟩ := marked rfl
    rfl
  · obtain ⟨rfl, rfl⟩ := marked rfl
    rfl
  · obtain rfl : c :: rest = text := same
    have octal := octal_iff.1 (opens.resolve_left (cons_ne_nil c []).symm).2
    have other (mark : Char) (no : ¬('0' ≤ mark ∧ mark ≤ '7')) : c ≠ mark := fun same =>
        no (same ▸ octal)
    have none : simpleEscape? c = none := by
      rw [Option.eq_none_iff_forall_ne_some]
      intro d found
      have all : ∀ entry ∈ letters, ¬('0' ≤ entry.1 ∧ entry.1 ≤ '7') := by decide +kernel
      exact all _ (simpleEscape?_eq_some_iff.1 found) octal
    simp only [readEscape, none, if_neg (other 'x' (by decide)), if_neg (other 'u' (by decide)),
      if_neg (other 'U' (by decide)), if_pos octal]
    rfl

theorem readEscape_of_unknown (noLetter : ∀ entry ∈ letters, entry.1 ≠ c)
    (noForm : ∀ form ∈ codeForms, ¬ form.Opens c) :
      readEscape (c :: rest) = .error (.unknownEscape c) := by
  have none : simpleEscape? c = none := by
    rw [Option.eq_none_iff_forall_ne_some]
    exact fun d found => noLetter _ (simpleEscape?_eq_some_iff.1 found) rfl
  have other (mark : Char) (listed : ∃ form ∈ codeForms, form.mark = [mark]) : c ≠ mark := by
    rintro rfl
    obtain ⟨form, here, marked⟩ := listed
    exact noForm form here (.inl marked)
  have noDigit : ¬('0' ≤ c ∧ c ≤ '7') := fun octal =>
    noForm ⟨.octal, [], 8, 3⟩ (by simp [codeForms]) (.inr ⟨rfl, octal_iff.2 octal⟩)
  simp only [readEscape, none, if_neg (other 'x' (by simp [codeForms])),
    if_neg (other 'u' (by simp [codeForms])), if_neg (other 'U' (by simp [codeForms])),
      if_neg noDigit]

theorem radix_le_of_listed (listed : form ∈ codeForms) : form.radix ≤ 16 := by
  have all : ∀ form ∈ codeForms, form.radix ≤ 16 := by simp [codeForms]
  exact all form listed

theorem exists_opens (listed : form ∈ codeForms) (length : digits.length = form.count)
    (spells : Spells form.radix digits value) :
    ∃ c rest, form.Opens c ∧ c :: rest = form.mark ++ digits := by
  simp only [codeForms, mem_cons, not_mem_nil, or_false] at listed
  rcases listed with rfl | rfl | rfl | rfl
  · exact ⟨'x', digits, .inl rfl, rfl⟩
  · exact ⟨'u', digits, .inl rfl, rfl⟩
  · exact ⟨'U', digits, .inl rfl, rfl⟩
  · obtain ⟨values, spelled, -⟩ := spells
    cases spelled with
    | nil => cases length
    | @cons digit c values rest here _ => exact ⟨c, rest, .inr ⟨rfl, digit, here⟩, rfl⟩

/-- Every unit is one character, or a backslash and an escape that is read as it says. -/
theorem Denotes.read (denotes : Denotes text c) :
    text = [c] ∧ c ≠ '\\' ∨
      ∃ body, text = '\\' :: body ∧ ∀ rest, readEscape (body ++ rest) = .ok (c, body.length) := by
  cases denotes with
  | plain other => exact .inl ⟨rfl, other⟩
  | @letter letter _ listed =>
    refine .inr ⟨[letter], rfl, fun rest => ?_⟩
    rw [singleton_append, readEscape, simpleEscape?_eq_some_iff.2 listed]
    rfl
  | @code form digits _ listed length spells =>
    refine .inr ⟨form.mark ++ digits, rfl, fun rest => ?_⟩
    obtain ⟨d, more, opens, same⟩ := exists_opens listed length spells
    rw [length_append, length, ← same, cons_append,
      readEscape_of_opens listed opens (by rw [← cons_append, same, append_assoc]),
      readCode_of_spells (radix_le_of_listed listed) length spells, charOfCode?_toNat]
    rfl

variable {e : LiteralError} {chars : List Char}

theorem Fault.read (fault : Fault text e) :
    ∃ body, text = '\\' :: body ∧ readEscape body = .error e := by
  cases fault with
  | truncated => exact ⟨[], rfl, rfl⟩
  | unknown noLetter noForm => exact ⟨_, rfl, readEscape_of_unknown noLetter noForm⟩
  | digits listed opens same bad =>
    refine ⟨_, rfl, ?_⟩
    rw [readEscape_of_opens listed opens same, readCode_of_not (radix_le_of_listed listed) bad]
    rfl
  | @code form digits rest value listed length spells invalid =>
    obtain ⟨d, more, opens, same⟩ := exists_opens listed length spells
    refine ⟨form.mark ++ digits ++ rest, rfl, ?_⟩
    rw [← same, cons_append,
      readEscape_of_opens listed opens (by rw [← cons_append, same, append_assoc]),
      readCode_of_spells (radix_le_of_listed listed) length spells, charOfCode?, dif_neg invalid]
    rfl

theorem Fault.not_denotes (fault : Fault text e) (denotes : Denotes digits c) :
    ¬ digits <+: text := by
  rintro ⟨rest, rfl⟩
  obtain ⟨body, same, failed⟩ := fault.read
  rcases denotes.read with ⟨rfl, other⟩ | ⟨body', rfl, read⟩
  · exact other (List.cons.inj same).1
  · obtain rfl : body' ++ rest = body := (List.cons.inj same).2
    rw [read rest] at failed
    cases failed

/-- Every text is empty, begins with a unit or has a fault. -/
theorem unit_or_fault (text : List Char) :
    text = [] ∨ (∃ piece c, Denotes piece c ∧ piece <+: text) ∨ ∃ e, Fault text e := by
  cases text with
  | nil => exact .inl rfl
  | cons first text =>
    refine .inr ?_
    by_cases backslash : first = '\\'
    · subst backslash
      cases text with
      | nil => exact .inr ⟨_, .truncated⟩
      | cons c rest =>
        by_cases letter : ∃ d, (c, d) ∈ letters
        · obtain ⟨d, listed⟩ := letter
          exact .inl ⟨_, d, .letter listed, rest, rfl⟩
        · by_cases opened : ∃ form ∈ codeForms, form.Opens c
          · obtain ⟨form, listed, opens⟩ := opened
            obtain ⟨body, same⟩ : ∃ body, c :: rest = form.mark ++ body := by
              rcases opens with marked | ⟨none, -⟩
              · exact ⟨rest, by rw [marked]; rfl⟩
              · exact ⟨c :: rest, by rw [none]; rfl⟩
            by_cases coded : ∃ digits value, digits <+: body ∧ digits.length = form.count ∧
                Spells form.radix digits value
            · obtain ⟨digits, value, ⟨more, rfl⟩, length, spells⟩ := coded
              rw [same]
              by_cases valid : value.isValidChar
              · exact .inl ⟨_, Char.ofNatAux value valid, .code listed length spells, more, by simp⟩
              · have fault := @Fault.code form digits more value listed length spells valid
                exact .inr ⟨_, by simpa using fault⟩
            · refine .inr ⟨_, .digits listed opens same ?_⟩
              exact fun digits value start length spells =>
                coded ⟨digits, value, start, length, spells⟩
          · refine .inr ⟨_, .unknown ?_ fun form listed opens => opened ⟨form, listed, opens⟩⟩
            rintro ⟨_, d⟩ listed rfl
            exact letter ⟨d, listed⟩
    · exact .inl ⟨_, first, .plain backslash, text, rfl⟩

/-! ## Whole texts -/

/-- A sequence of units, with the characters that they stand for. -/
def Units (text chars : List Char) : Prop :=
  ∃ pieces, pieces.flatten = text ∧ Forall₂ Denotes pieces chars

theorem Denotes.unescapeFrom_append (denotes : Denotes text c) (rest decoded : List Char) :
    unescapeFrom (text ++ rest) decoded = unescapeFrom rest (c :: decoded) := by
  rcases denotes.read with ⟨rfl, other⟩ | ⟨body, rfl, read⟩
  · rw [singleton_append, unescapeFrom]
    exact other
  · rw [cons_append, unescapeFrom, read rest]
    simp

theorem Units.unescapeFrom_append (units : Units text chars) (rest decoded : List Char) :
    unescapeFrom (text ++ rest) decoded = unescapeFrom rest (chars.reverse ++ decoded) := by
  obtain ⟨pieces, rfl, all⟩ := units
  induction all generalizing decoded with
  | nil => rfl
  | cons here _ ih =>
    rw [flatten_cons, append_assoc, here.unescapeFrom_append, ih, reverse_cons,
      append_assoc]
    rfl

theorem Fault.unescapeFrom_eq (fault : Fault text e) (decoded : List Char) :
    unescapeFrom text decoded = .error e := by
  obtain ⟨body, rfl, failed⟩ := fault.read
  rw [unescapeFrom, failed]

/-- By induction on its length, every text is a sequence of units up to its end or to a fault. -/
theorem units_or_fault (text : List Char) :
    ∃ front chars rest, text = front ++ rest ∧ Units front chars ∧
      (rest = [] ∨ ∃ e, Fault rest e) := by
  induction length : text.length using Nat.strong_induction_on generalizing text with
  | _ size ih =>
    subst length
    rcases unit_or_fault text with rfl | ⟨piece, c, denotes, more, rfl⟩ | fault
    · exact ⟨[], [], [], rfl, ⟨[], rfl, .nil⟩, .inl rfl⟩
    · have some_ : 0 < piece.length := by
        cases denotes <;> simp
      obtain ⟨_, chars, rest, rfl, ⟨pieces, rfl, all⟩, last⟩ :=
        ih more.length (by simp; omega) more rfl
      exact ⟨piece ++ pieces.flatten, c :: chars, rest, by simp,
        ⟨piece :: pieces, rfl, .cons denotes all⟩, last⟩
    · exact ⟨[], [], text, rfl, ⟨[], rfl, .nil⟩, .inr fault⟩

theorem unescape_eq_ok_iff : unescape text = .ok chars ↔ Units text chars := by
  constructor
  · intro read
    obtain ⟨front, chars', rest, rfl, units, rfl | ⟨e, fault⟩⟩ := units_or_fault text
    · rw [unescape, units.unescapeFrom_append, unescapeFrom, append_nil, reverse_reverse] at read
      cases read
      rwa [append_nil]
    · rw [unescape, units.unescapeFrom_append, fault.unescapeFrom_eq] at read
      cases read
  · intro units
    have read := units.unescapeFrom_append [] []
    rwa [append_nil, unescapeFrom, append_nil, reverse_reverse] at read

theorem unescape_eq_error_iff :
    unescape text = .error e ↔
      ∃ front chars rest, text = front ++ rest ∧ Units front chars ∧ Fault rest e := by
  constructor
  · intro failed
    obtain ⟨front, chars, rest, rfl, units, rfl | ⟨e', fault⟩⟩ := units_or_fault text
    · rw [unescape, units.unescapeFrom_append, unescapeFrom] at failed
      cases failed
    · rw [unescape, units.unescapeFrom_append, fault.unescapeFrom_eq] at failed
      cases failed
      exact ⟨front, chars, rest, rfl, units, fault⟩
  · rintro ⟨front, chars, rest, rfl, units, fault⟩
    rw [unescape, units.unescapeFrom_append, fault.unescapeFrom_eq]

theorem inner_quoted (quote : Char) (body : List Char) :
    inner (quote :: body ++ [quote]) = body := by
  simp [inner]

/-- A quoted text has the characters of its units as its value. Where it is no sequence of units,
the place behind the longest one decides the error. A character literal has to have one
character. -/
theorem quoted_units (body : List Char) :
    (∀ chars, readString ('"' :: body ++ ['"']) = .ok (String.ofList chars) ↔ Units body chars) ∧
    (∀ e, readString ('"' :: body ++ ['"']) = .error e ↔ ∃ front chars rest, body = front ++ rest ∧
      Units front chars ∧ Fault rest e ∧ ¬ ∃ piece c, Denotes piece c ∧ piece <+: rest) ∧
    ∀ c, readChar ('\'' :: body ++ ['\'']) = .ok c ↔ Units body [c] := by
  simp only [readString, readChar, inner_quoted]
  refine ⟨fun chars => ?_, fun e => ?_, fun c => ?_⟩
  · rw [← unescape_eq_ok_iff]
    cases unescape body with
    | error e => simp [Except.map]
    | ok decoded =>
      simp only [Except.map, Except.ok.injEq]
      refine ⟨fun same => ?_, congrArg String.ofList⟩
      simpa using congrArg String.toList same
  · rw [show (unescape body).map String.ofList = .error e ↔ unescape body = .error e by
      cases unescape body <;> simp [Except.map], unescape_eq_error_iff]
    constructor
    · rintro ⟨front, chars, rest, same, units, fault⟩
      refine ⟨front, chars, rest, same, units, fault, ?_⟩
      rintro ⟨piece, c, denotes, start⟩
      exact fault.not_denotes denotes start
    · rintro ⟨front, chars, rest, same, units, fault, -⟩
      exact ⟨front, chars, rest, same, units, fault⟩
  · rw [← unescape_eq_ok_iff]
    split <;> simp_all

end Literal

end Skiff
