import Mathlib
import Skiff.Machine.Native
import Skiff.Proofs.Stateful

/-!
# Formatted integers

Whatever flags, width and precision an integer is written with, it is filled up to the width with
blanks or zeros and read back as it was.
-/

namespace Skiff

open List String Nat Heap Int64

open Numeral

/-- The sign that an integer is written with, if any. -/
inductive Signs (n : Int64) : List Char → Prop where
  | minus (negative : n < 0) : Signs n ['-']
  | plus (positive : ¬n < 0) : Signs n ['+']
  | none (positive : ¬n < 0) : Signs n []

variable {digits sign : List Char} {n : Int64} {directive : Directive}

namespace Directive

/-- A directive for an integer. -/
def integerFormat (flags : List Char) (width : Option Nat) (precision : Option (List Char)) :
    List Char :=
  '%' :: flags ++ width.elim [] (toDigits 10) ++ precision.elim [] ('.' :: ·) ++ ['d']

/-- The characters of an integer before it is filled up: its sign, if one is shown, and its
digits. -/
def naturalLength (flags : List Char) (n : Int64) : Nat :=
  (if n < 0 ∨ '+' ∈ flags ∨ ' ' ∈ flags then 1 else 0) + (toDigits 10 n.toInt.natAbs).length

variable {flags rest : List Char}

theorem readFlags_append (listed : ∀ c ∈ flags, c ∈ ['-', '+', '0', ' '])
    (stops : ∀ c ∈ ['-', '+', '0', ' '], ∀ more, rest ≠ c :: more) (directive : Directive) :
    ∃ read : Directive, readFlags directive (flags ++ rest) = (read, rest) ∧
      read.plus = (directive.plus || flags.contains '+') ∧
      read.space = (directive.space || flags.contains ' ') := by
  induction flags generalizing directive with
  | nil =>
    refine ⟨directive, ?_, by simp, by simp⟩
    rw [nil_append, readFlags]
    · exact stops '-' (by simp)
    · exact stops '+' (by simp)
    · exact stops '0' (by simp)
    · exact stops ' ' (by simp)
  | cons flag flags ih =>
    obtain ⟨here, later⟩ := forall_mem_cons.1 listed
    simp only [mem_cons, not_mem_nil, or_false] at here
    rcases here with rfl | rfl | rfl | rfl
    all_goals
      rw [cons_append, readFlags]
      obtain ⟨read, done, plus, space⟩ := ih later _
      exact ⟨read, done, by rw [plus]; simp, by rw [space]; simp⟩

theorem readNumber_append (all : ∀ c ∈ digits, c.isDigit = true) (rest : List Char)
    (stops : ∀ c more, rest = c :: more → c.isDigit = false) :
    readNumber (digits ++ rest) =
      (if digits.isEmpty then none else some (decimalValue digits), rest) := by
  have same (c : Char) : ('0' ≤ c && c ≤ '9') = c.isDigit := rfl
  have first : (digits ++ rest).takeWhile (fun c => '0' ≤ c && c ≤ '9') = digits := by
    simp only [same]
    rw [takeWhile_append_of_pos all]
    cases rest with
    | nil => simp
    | cons c more => rw [takeWhile_cons_of_neg (by rw [stops c more rfl]; decide), append_nil]
  rw [readNumber, first, drop_left]

theorem decimalValue_eq (digits : List Char) : decimalValue digits = ofDigitChars 10 digits 0 := by
  induction digits using reverseRecOn with
  | nil => rfl
  | append_singleton digits c ih =>
    rw [decimalValue_concat, ih, ofDigitChars_append, ofDigitChars_cons, ofDigitChars_nil, mul_comm]

theorem toDigits_ne_zero {n : Nat} (positive : 0 < n) (more : List Char) :
    toDigits 10 n ≠ '0' :: more := by
  induction n using Nat.strong_induction_on generalizing more with
  | _ n ih =>
    by_cases small : n < 10
    · rw [toDigits_of_lt_base small]
      intro same
      have each : ∀ n < 10, 0 < n → n.digitChar ≠ '0' := by decide
      exact each n small positive (cons.inj same).1
    · rw [toDigits_of_base_le (by decide) (by omega)]
      cases front : toDigits 10 (n / 10) with
      | nil => exact absurd front toDigits_ne_nil
      | cons c rest =>
        rintro same
        obtain ⟨rfl, -⟩ := cons.inj same
        exact ih (n / 10) (by omega) (by omega) rest front

variable {precision : Option (List Char)}

theorem read_eq (listed : ∀ c ∈ flags, c ∈ ['-', '+', '0', ' '])
    (all : ∀ c ∈ digits, c.isDigit = true) (first : ∀ more, digits ≠ '0' :: more)
    (places : ∀ text ∈ precision, ∀ c ∈ text, c.isDigit = true) :
    ∃ read : Directive,
      Directive.read (flags ++ (digits ++ (precision.elim [] ('.' :: ·) ++ ['d'])))
      = (read, ['d']) ∧ read.plus = flags.contains '+' ∧ read.space = flags.contains ' ' ∧
      read.width = if digits.isEmpty then none else some (decimalValue digits) := by
  have stops : ∀ c ∈ ['-', '+', '0', ' '], ∀ more, digits ++
      (precision.elim [] ('.' :: ·) ++ ['d']) ≠ c :: more := by
    intro c flag more same
    cases digits with
    | nil => cases precision <;> cases same <;> simp at flag
    | cons digit digits =>
      obtain ⟨rfl, -⟩ := cons.inj same
      have isDigit := all digit (mem_cons_self ..)
      simp only [mem_cons, not_mem_nil, or_false] at flag
      rcases flag with rfl | rfl | rfl | rfl
      · cases isDigit
      · cases isDigit
      · exact first _ rfl
      · cases isDigit
  obtain ⟨start, done, plus, space⟩ := readFlags_append listed stops {}
  have number := readNumber_append all (precision.elim [] ('.' :: ·) ++ ['d']) (by
    intro c more same
    cases precision <;> cases same <;> rfl)
  rw [Directive.read, done]
  dsimp only
  rw [number]
  cases precision with
  | none => exact ⟨_, rfl, plus, space, rfl⟩
  | some text =>
    have inner := readNumber_append (places text rfl) ['d'] (by
      intro c more same
      cases same
      rfl)
    simp only [Option.elim, cons_append]
    rw [inner]
    exact ⟨_, rfl, plus, space, rfl⟩

/-- A width of zero is read as a flag, which is the same as no width. -/
theorem read_integerFormat {width : Option Nat} (listed : ∀ c ∈ flags, c ∈ ['-', '+', '0', ' '])
    (places : ∀ text ∈ precision, ∀ c ∈ text, c.isDigit = true) :
    ∃ read : Directive, Directive.read (integerFormat flags width precision).tail = (read, ['d']) ∧
      read.plus = flags.contains '+' ∧ read.space = flags.contains ' ' ∧
        read.width.getD 0 = width.getD 0 := by
  simp only [integerFormat, List.cons_append, List.tail_cons, List.append_assoc]
  cases width with
  | none =>
    obtain ⟨read, done, plus, space, size⟩ := read_eq listed (forall_mem_nil _)
      (fun more => (cons_ne_nil '0' more).symm) places
    exact ⟨read, done, plus, space, by rw [size]; rfl⟩
  | some width =>
    rcases Nat.eq_zero_or_pos width with rfl | positive
    · have zero : ∀ c ∈ flags ++ ['0'], c ∈ ['-', '+', '0', ' '] :=
        forall_mem_append.2 ⟨listed, by simp⟩
      obtain ⟨read, done, plus, space, size⟩ := read_eq zero (forall_mem_nil _)
        (fun more => (cons_ne_nil '0' more).symm) places
      refine ⟨read, ?_, plus.trans (by simp), space.trans (by simp), by rw [size]; rfl⟩
      simpa using done
    · obtain ⟨read, done, plus, space, size⟩ := read_eq listed
        (fun c => isDigit_of_mem_toDigits (by decide) (by decide))
          (toDigits_ne_zero positive) places
      refine ⟨read, done, plus, space, ?_⟩
      rw [size, decimalValue_eq, ofDigitChars_ten_toDigits]
      simp

/-- Blanks or zeros fill a text up, zeros behind its sign. -/
theorem pad_eq (signs : sign ∈ [[], ['-'], ['+'], [' ']])
    (unsigned : ∀ c ∈ ['-', '+', ' '], ∀ more, digits ≠ c :: more) :
    ∃ left zeros right, (directive.pad (String.ofList (sign ++ digits))).toList =
        List.replicate left ' ' ++ sign ++ List.replicate zeros '0' ++ digits ++
          List.replicate right ' ' ∧
      left + zeros + right = directive.width.getD 0 - (sign ++ digits).length := by
  unfold pad
  simp only [String.length_ofList, String.toList_ofList]
  generalize directive.width.getD 0 - (sign ++ digits).length = fill
  split
  · exact ⟨0, 0, 0, by simp, by omega⟩
  · split
    · exact ⟨0, 0, fill, by simp, by omega⟩
    · split
      · refine ⟨0, fill, 0, ?_, by omega⟩
        simp only [mem_cons, not_mem_nil, or_false] at signs
        rcases signs with rfl | rfl | rfl | rfl
        · rw [nil_append]
          split
          · exact absurd rfl (unsigned '-' (by simp) _)
          · exact absurd rfl (unsigned '+' (by simp) _)
          · exact absurd rfl (unsigned ' ' (by simp) _)
          · simp
        all_goals simp
      · exact ⟨fill, 0, 0, by simp, by omega⟩

/-- An integer is written with its sign, or a blank in place of one. -/
theorem integer_eq (directive : Directive) (n : Int64) :
    ∃ (blank : Nat) (sign : List Char), directive.integer 10 n =
        String.ofList (List.replicate blank ' ' ++ sign ++ toDigits 10 n.toInt.natAbs) ∧
      Signs n sign ∧ List.replicate blank ' ' ++ sign ∈ [[], ['-'], ['+'], [' ']] ∧
      blank + sign.length = if n < 0 ∨ directive.plus = true ∨
        directive.space = true then 1 else 0 := by
  unfold integer signed
  by_cases negative : n < 0
  · exact ⟨0, ['-'], by simp [negative], .minus negative, by simp, by simp [negative]⟩
  · by_cases plus : directive.plus = true
    · exact ⟨0, ['+'], by simp [negative, plus], .plus negative, by simp, by simp [plus]⟩
    · by_cases space : directive.space = true
      · exact ⟨1, [], by simp [negative, plus, space], .none negative, by simp, by simp [space]⟩
      · exact ⟨0, [], by simp [negative, plus, space],
          .none negative, by simp, by simp [negative, plus, space]⟩

/-- Where blanks and zeros stand around an integer that is filled up. -/
theorem pad_integer (directive : Directive) (n : Int64) : ∃ left sign zeros right, Signs n sign ∧
    (directive.pad (directive.integer 10 n)).toList = List.replicate left ' ' ++
      (sign ++ (List.replicate zeros '0' ++ toDigits 10 n.toInt.natAbs)) ++
        List.replicate right ' ' ∧
    (directive.pad (directive.integer 10 n)).length = max (directive.width.getD 0)
      ((if n < 0 ∨ directive.plus = true ∨ directive.space = true then 1 else 0) +
        (toDigits 10 n.toInt.natAbs).length) := by
  obtain ⟨blank, sign, written, signs, front, marks⟩ := integer_eq directive n
  have unsigned : ∀ c ∈ ['-', '+', ' '], ∀ more, toDigits 10 n.toInt.natAbs ≠ c :: more := by
    intro c mark more same
    have digit : c.isDigit = true :=
      isDigit_of_mem_toDigits (by decide) (by decide) (same ▸ mem_cons_self ..)
    simp only [mem_cons, not_mem_nil, or_false] at mark
    rcases mark with rfl | rfl | rfl <;> cases digit
  obtain ⟨left, zeros, right, padded, filled⟩ := @pad_eq _ _ directive front unsigned
  rw [← written] at padded
  refine ⟨left + blank, sign, zeros, right, signs, ?_, ?_⟩
  · rw [padded, List.replicate_add]
    simp only [List.append_assoc]
  · rw [← String.length_toList, padded, ← marks]
    simp only [List.length_append, List.length_replicate] at filled ⊢
    omega

end Directive

/-! ## Reading back -/

theorem range_of_isDigit {c : Char} (digit : c.isDigit = true) : 48 ≤ c.toNat ∧ c.toNat ≤ 57 := by
  simpa [Char.isDigit, UInt32.le_iff_toNat_le] using digit

namespace Numeral

variable {digits : List Char} (all : ∀ c ∈ digits, c.isDigit = true)
include all

theorem readDigits_ofDigitChars {limit start : Nat} (overflow : IntError)
    (fits : ofDigitChars 10 digits start ≤ limit) :
    readDigits 10 limit overflow start digits = .ok (ofDigitChars 10 digits start) := by
  induction digits generalizing start with
  | nil => rfl
  | cons c digits ih =>
    obtain ⟨here, later⟩ := forall_mem_cons.1 all
    have range := range_of_isDigit here
    have value : digitValue? 10 c = some (c.toNat - '0'.toNat) := by
      have digit : '0' ≤ c ∧ c ≤ '9' := by simpa [Char.isDigit, Char.le_def] using here
      rw [digitValue?, if_pos digit, Option.filter_some, if_pos]
      simp
      omega
    rw [ofDigitChars_cons, mul_comm] at fits ⊢
    have grows : start * 10 + (c.toNat - '0'.toNat) ≤ limit := by
      rw [ofDigitChars_eq_ofDigitChars_zero] at fits
      have positive := Nat.le_mul_of_pos_left (start * 10 + (c.toNat - '0'.toNat))
        (Nat.pow_pos (by decide : 0 < 10) : 0 < 10 ^ digits.length)
      omega
    rw [readDigits, value]
    dsimp only
    rw [if_neg (not_lt.2 grows)]
    exact ih later fits

theorem readSigned_digits (some_ : digits ≠ []) :
    readSigned 10 digits = (readDigits 10 0x7fffffffffffffff .tooLarge 0 digits).map
      Int64.ofNat := by
  rw [readSigned]
  all_goals first | exact some_ | rintro rfl | rintro rest rfl
  all_goals cases all _ (mem_cons_self ..)

end Numeral

theorem trimBlank_eq {core : List Char} (some_ : core ≠ []) (plain : ∀ c ∈ core, isBlank c = false)
    (left right : Nat) :
      trimBlank (List.replicate left ' ' ++ core ++ List.replicate right ' ') = core := by
  have drop (count : Nat) {text : List Char} (first : ∀ c ∈ text.head?, isBlank c = false) :
      (List.replicate count ' ' ++ text).dropWhile isBlank = text := by
    rw [List.dropWhile_append_of_pos (by simp [isBlank])]
    cases text with
    | nil => rfl
    | cons c text => rw [dropWhile_cons_of_neg (by simp [first c rfl])]
  have head : ∀ c ∈ (core ++ List.replicate right ' ').head?, isBlank c = false := by
    cases core with
    | nil => exact absurd rfl some_
    | cons c core => exact fun d same => Option.some.inj same ▸ plain c (mem_cons_self ..)
  rw [trimBlank, List.append_assoc, drop left head, List.reverse_append,
    List.reverse_replicate, drop right, reverse_reverse]
  intro c last
  exact plain c (mem_reverse.1 (mem_of_mem_head? last))

theorem utf8Len_eq {text : List Char} (ascii : ∀ c ∈ text, c.toNat < 128) :
    utf8Len text = text.length := by
  induction text with
  | nil => rfl
  | cons c text ih =>
    obtain ⟨here, later⟩ := forall_mem_cons.1 ascii
    have one : c.utf8Size = 1 :=
      Char.utf8Size_eq_one_iff.2 (UInt32.le_iff_toNat_le.2 (le_of_lt_succ here))
    rw [utf8Len_cons, ih later, one, length_cons]

theorem readInt_signed (signs : Signs n sign) (all : ∀ c ∈ digits, c.isDigit = true)
    (some_ : digits ≠ [])
    (value : ofDigitChars 10 digits 0 = n.toInt.natAbs) : readInt (sign ++ digits) = .ok n := by
  have low := n.le_toInt
  have high := n.toInt_lt
  have kept : digits.filter (· ≠ '_') = digits := by
    refine filter_eq_self.2 fun c member => decide_eq_true ?_
    rintro rfl
    cases all _ member
  have decimal : splitRadix digits = (10, digits) := by
    rw [splitRadix]
    all_goals rintro rest rfl; cases all _ (mem_cons_of_mem _ (mem_cons_self ..))
  have positive (plain : ¬n < 0) : readSigned 10 digits = .ok n := by
    rw [lt_iff_toInt_lt] at plain
    change ¬n.toInt < 0 at plain
    rw [readSigned_digits all some_, readDigits_ofDigitChars all _ (by omega), value]
    refine congrArg Except.ok (toInt_inj.1 ?_)
    rw [toInt_ofNat_of_lt (by omega)]
    omega
  cases signs with
  | minus negative =>
    rw [lt_iff_toInt_lt] at negative
    change n.toInt < 0 at negative
    obtain ⟨c, rest, rfl⟩ := exists_cons_of_ne_nil some_
    simp only [readInt, cons_append, nil_append, kept, decimal, if_true]
    rw [readSigned, readDigits_ofDigitChars all _ (by omega), value]
    · refine congrArg Except.ok (toInt_inj.1 ?_)
      rw [toInt_ofInt_of_le (by omega) (by omega)]
      omega
    · exact cons_ne_nil c rest
  | plus plain =>
    simp only [readInt, cons_append, nil_append, kept, decimal]
    exact positive plain
  | none plain =>
    rw [nil_append]
    unfold readInt
    split
    rename_i pair
    split at pair
    · cases all _ (mem_cons_self ..)
    · cases all _ (mem_cons_self ..)
    · cases pair
      rw [kept, decimal]
      exact positive plain

/-- What has been written is read without the blanks around it, and without the zeros in front. -/
theorem readInt_padded (signs : Signs n sign) (left zeros right : Nat) :
    readInt (trimBlank (List.replicate left ' ' ++
      (sign ++ (List.replicate zeros '0' ++ toDigits 10 n.toInt.natAbs)) ++
        List.replicate right ' ')) = .ok n := by
  have digits : ∀ c ∈ List.replicate zeros '0' ++ toDigits 10 n.toInt.natAbs, c.isDigit = true := by
    intro c member
    rcases mem_append.1 member with zero | digit
    · rw [List.eq_of_mem_replicate zero]
      rfl
    · exact isDigit_of_mem_toDigits (by decide) (by decide) digit
  have value : ofDigitChars 10 (List.replicate zeros '0' ++ toDigits 10 n.toInt.natAbs) 0 =
      n.toInt.natAbs := by
    rw [Nat.ofDigitChars_append, Nat.ofDigitChars_replicate_zero, Nat.mul_zero,
      Nat.ofDigitChars_ten_toDigits]
  have some_ : List.replicate zeros '0' ++ toDigits 10 n.toInt.natAbs ≠ [] := by simp
  rw [trimBlank_eq (by simp), readInt_signed signs digits some_ value]
  intro c member
  rcases mem_append.1 member with mark | digit
  · cases signs with
    | none => cases mark
    | _ => exact mem_singleton.1 mark ▸ rfl
  · have range := range_of_isDigit (digits c digit)
    simp [isBlank]
    omega

open Directive

variable {flags : List Char} {width : Option Nat} {precision : Option (List Char)}

theorem integer_plain (plus : directive.plus = false) (space : directive.space = false)
    (n : Int64) : directive.integer 10 n = toString n.toInt := by
  change _ = Int.repr n.toInt
  simp only [integer, signed, plus, space, lt_iff_toInt_lt]
  cases n.toInt with
  | ofNat m | negSucc m => simp [Int.repr, repr_eq_ofList_toDigits]

theorem render_integerFormat (heap : Heap) (n : Int64)
    (read : Directive.read (integerFormat flags width precision).tail = (directive, ['d'])) :
    heap.render (ofList (integerFormat flags width precision)) [.int n] =
      directive.pad (directive.integer 10 n) := by
  have start : integerFormat flags width precision
      = '%' :: (integerFormat flags width precision).tail := rfl
  have done (fuel : Nat) (out : String) : heap.renderFrom fuel [] [] out = out := by
    cases fuel <;> rfl
  rw [render, toList_ofList, start, renderFrom, read]
  simp [done, formatOne]

/-- An integer is written with any flags, width and precision, filled up to the width, and read back
from that; without flags and width it is written as it is converted to a string. -/
theorem Exec.format_integer (machine : Machine) (n : Int64)
    (listed : ∀ c ∈ flags, c ∈ ['-', '+', '0', ' ']) (room : ∀ w ∈ width, w ≤ maxTextSize)
    (places : ∀ text ∈ precision, ∀ c ∈ text, c.isDigit = true) :
    ∃ r : String,
      callBuiltin .format [.string (ofList (integerFormat flags width precision)), .int n] machine =
        .ok (.string r) machine ∧
      callBuiltin .int [.string r] machine = .ok (.int n) machine ∧
      r.length = max (width.getD 0) (naturalLength flags n) ∧
      (flags = [] → width = none → callBuiltin .string [.int n] machine = .ok
        (.string r) machine) := by
  obtain ⟨directive, read, plus, space, size⟩ :=
    @read_integerFormat flags precision width listed places
  obtain ⟨left, sign, zeros, right, signs, shown, length⟩ := pad_integer directive n
  rw [plus, space, size] at length
  simp only [contains_iff_mem] at length
  have short : ¬maxTextSize < (directive.pad (directive.integer 10 n)).utf8ByteSize := by
    rw [← (directive.pad _).ofList_toList, utf8ByteSize_ofList, utf8Len_eq, length_toList, length]
    · have wide : width.getD 0 ≤ maxTextSize := by
        cases width with
        | none => exact zero_le _
        | some width => exact room width rfl
      have low := n.le_toInt
      have high := n.toInt_lt
      have few : (toDigits 10 n.toInt.natAbs).length ≤ 19 :=
        (length_toDigits_le_iff (by decide) (by decide)).2 (by omega)
      unfold maxTextSize at wide ⊢
      split <;> omega
    · intro c member
      rw [shown] at member
      simp only [mem_append, mem_replicate] at member
      rcases member with (⟨-, rfl⟩ | mark | ⟨-, rfl⟩ | digit) | ⟨-, rfl⟩
      · decide
      · cases signs with
        | none => cases mark
        | _ => exact mem_singleton.1 mark ▸ (by decide)
      · decide
      · have range := range_of_isDigit (isDigit_of_mem_toDigits (by decide) (by decide) digit)
        omega
      · decide
  refine ⟨directive.pad (directive.integer 10 n), ?_, ?_, length, ?_⟩
  · change ofExcept (Value.ofText (machine.heap.render _ _)) machine = _
    rw [render_integerFormat machine.heap n read, Value.ofText, if_neg short]
    rfl
  · change EStateM.Result.ok (((Heap.toInt? (.string _)).map Value.int).getD .undefined) machine = _
    rw [Heap.toInt?, shown, readInt_padded signs]
    rfl
  · rintro rfl rfl
    have plain : directive.pad (directive.integer 10 n) = machine.heap.text (.int n) := by
      rw [integer_plain plus space, text, display, showFrom, pad, size]
      · simp
      all_goals exact fun _ => Value.noConfusion
    rw [plain] at short ⊢
    simp only [callBuiltin, convertOr, bind_assoc, pure_bind, get_bind, toText?, Value.ofText,
      if_neg short, ofExcept]
    rfl

/-- The least integer, with flags that are partly without effect. -/
theorem Exec.format_integer_least : ∃ r : String,
    callBuiltin .format [.string "%0+ 25.3d", .int .minValue] default = .ok (.string r) default ∧
    callBuiltin .int [.string r] default = .ok (.int .minValue) default ∧ r.length = 25 := by
  have text : integerFormat ['0', '+', ' '] (some 25) (some ['3']) = "%0+ 25.3d".toList := by
    decide +kernel
  obtain ⟨r, shown, read, length, -⟩ :=
    @format_integer ['0', '+', ' '] (some 25) (some ['3']) default .minValue
    (by simp) (by simp [maxTextSize]) (by simp [Char.isDigit])
  rw [text, ofList_toList] at shown
  exact ⟨r, shown, read, length.trans (by decide +kernel)⟩

end Skiff
