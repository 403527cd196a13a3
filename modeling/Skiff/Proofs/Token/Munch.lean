import Mathlib.Computability.Language
import Skiff.Token.Stream

/-!
# The longest match

A pattern stands for a language, and the derivative of a pattern for what may follow a character. So
following all rules at once finds the longest start of a text that is in the language of a rule, the
first such rule, and the longest start that can be continued to a match. By that the tokens of a
text are cut off one after the other.
-/

namespace Skiff

open Nat

/-- A character of a set that is not empty, if the set says which. -/
def CharSet.sample : CharSet → Char
  | within ((low, _) :: _) => low
  | _ => 'a'

variable {text : List Char}

namespace Pattern

/-- The texts that a pattern matches. -/
def language : Pattern → Language Char
  | void => 0
  | blank => 1
  | one set => { text | ∃ c, set.contains c = true ∧ text = [c] }
  | seq first second => first.language * second.language
  | alt left right => left.language + right.language
  | star body => KStar.kstar body.language

theorem mem_language_one {set : CharSet} :
    text ∈ (one set).language ↔ ∃ c, set.contains c = true ∧ text = [c] := .rfl

theorem nullable_iff (pattern : Pattern) : pattern.nullable = true ↔ [] ∈ pattern.language := by
  induction pattern with
  | void | blank => simp [nullable, language]
  | one set => simp [nullable, mem_language_one]
  | seq first second ih ih' => simp [nullable, language, ih, ih', Language.mem_mul]
  | alt left right ih ih' => simp [nullable, language, ih, ih', Language.mem_add]
  | star body => simp [nullable, language, Language.nil_mem_kstar]

theorem language_andThen (first second : Pattern) :
    (first.andThen second).language = first.language * second.language := by
  unfold andThen
  split <;> simp [language]

theorem language_orElse (left right : Pattern) :
    (left.orElse right).language = left.language + right.language := by
  unfold orElse
  split <;> simp [language]

variable {c : Char} {pattern : Pattern}

/-- A text that begins with a character is one of the first language and one of the second, and the
character belongs to the first of them that is not empty. -/
theorem cons_mem_mul {first second : Language Char} :
    c :: text ∈ first * second ↔
      (∃ a, c :: a ∈ first ∧ ∃ b ∈ second, a ++ b = text) ∨ [] ∈ first ∧ c :: text ∈ second := by
  rw [Language.mem_mul]
  constructor
  · rintro ⟨a, inFirst, b, inSecond, joined⟩
    cases a with
    | nil =>
      obtain rfl : b = c :: text := joined
      exact .inr ⟨inFirst, inSecond⟩
    | cons d a =>
      obtain ⟨rfl, tail⟩ := List.cons.inj joined
      exact .inl ⟨a, inFirst, b, inSecond, tail⟩
  · rintro (⟨a, inFirst, b, inSecond, rfl⟩ | ⟨inFirst, inSecond⟩)
    · exact ⟨c :: a, inFirst, b, inSecond, rfl⟩
    · exact ⟨[], inFirst, c :: text, inSecond, rfl⟩

theorem cons_mem_kstar {body : Language Char} :
    c :: text ∈ KStar.kstar body ↔ ∃ a, c :: a ∈ body ∧ ∃ b ∈ KStar.kstar body, a ++ b = text := by
  constructor
  · intro member
    obtain ⟨parts, joined, inBody⟩ := Language.mem_kstar_iff_exists_nonempty.1 member
    cases parts with
    | nil => cases joined
    | cons first parts =>
      obtain ⟨here, some_⟩ := inBody first (List.mem_cons_self ..)
      cases first with
      | nil => exact absurd rfl some_
      | cons d a =>
        obtain ⟨rfl, rest⟩ := List.cons.inj joined
        exact ⟨a, here, parts.flatten, Language.mem_kstar.2 ⟨parts, rfl, fun part member =>
          (inBody part (List.mem_cons_of_mem _ member)).1⟩, rest.symm⟩
  · rintro ⟨a, here, b, later, rfl⟩
    obtain ⟨parts, rfl, inBody⟩ := Language.mem_kstar.1 later
    exact Language.mem_kstar.2 ⟨(c :: a) :: parts, rfl, List.forall_mem_cons.2 ⟨here, inBody⟩⟩

theorem mem_language_after (pattern : Pattern) (text : List Char) :
    text ∈ (pattern.after c).language ↔ c :: text ∈ pattern.language := by
  induction pattern generalizing text with
  | void | blank => simp [after, language]
  | one set =>
    rw [mem_language_one]
    unfold after
    split <;> simp_all [language]
  | seq first second ih ih' =>
    rw [language, cons_mem_mul, after]
    split
    · rename_i nullable
      rw [language_orElse, Language.mem_add, language_andThen, Language.mem_mul, ih']
      simp [(nullable_iff first).1 nullable, ih]
    · rename_i nullable
      rw [language_andThen, Language.mem_mul]
      simp [mt (nullable_iff first).2 nullable, ih]
  | alt left right ih ih' =>
    rw [after, language_orElse, Language.mem_add, ih, ih', language, Language.mem_add]
  | star body ih =>
    rw [after, language_andThen, language, cons_mem_kstar, Language.mem_mul]
    simp only [ih]

/-- Nothing in the pattern stands in the way of a match: it is void nowhere, and each of its sets
holds its sample. -/
def lively : Pattern → Bool
  | void => false
  | blank => true
  | one set => set.contains set.sample
  | seq first second => first.lively && second.lively
  | alt left right => left.lively && right.lively
  | star body => body.lively

theorem exists_of_lively (lively : pattern.lively = true) :
    ∃ text, text ∈ pattern.language := by
  induction pattern with
  | void => cases lively
  | blank => exact ⟨[], rfl⟩
  | one set => exact ⟨[set.sample], _, lively, rfl⟩
  | seq first second ih ih' =>
    obtain ⟨left, right⟩ := Bool.and_eq_true_iff.1 lively
    obtain ⟨a, here⟩ := ih left
    obtain ⟨b, there⟩ := ih' right
    exact ⟨a ++ b, Language.append_mem_mul here there⟩
  | alt left right ih _ =>
    obtain ⟨a, here⟩ := ih (Bool.and_eq_true_iff.1 lively).1
    exact ⟨a, .inl here⟩
  | star body => exact ⟨[], Language.nil_mem_kstar _⟩

theorem andThen_lively {first second : Pattern} (left : first = void ∨ first.lively = true)
    (right : second.lively = true) :
    first.andThen second = void ∨ (first.andThen second).lively = true := by
  unfold andThen
  split <;> simp_all [lively]

theorem orElse_lively {left right : Pattern} (first : left = void ∨ left.lively = true)
    (second : right = void ∨ right.lively = true) :
    left.orElse right = void ∨ (left.orElse right).lively = true := by
  unfold orElse
  split <;> simp_all [lively]

theorem after_lively (alive : pattern = void ∨ pattern.lively = true) :
    pattern.after c = void ∨ (pattern.after c).lively = true := by
  induction pattern with
  | void | blank => exact .inl rfl
  | one set =>
    unfold after
    split
    · exact .inr rfl
    · exact .inl rfl
  | seq first second ih ih' =>
    obtain ⟨left, right⟩ := Bool.and_eq_true_iff.1 (alive.resolve_left nofun)
    rw [after]
    split
    · exact orElse_lively (andThen_lively (ih (.inr left)) right) (ih' (.inr right))
    · exact andThen_lively (ih (.inr left)) right
  | alt left right ih ih' =>
    obtain ⟨first, second⟩ := Bool.and_eq_true_iff.1 (alive.resolve_left nofun)
    exact orElse_lively (ih (.inr first)) (ih' (.inr second))
  | star body ih =>
    have body_lively : (star body).lively = true := alive.resolve_left nofun
    exact andThen_lively (ih (.inr body_lively)) body_lively

/-- What is left of a pattern after a text. -/
def afterAll (pattern : Pattern) (text : List Char) : Pattern :=
  text.foldl (fun pattern c => pattern.after c) pattern

theorem mem_language_afterAll {more : List Char} :
    more ∈ (pattern.afterAll text).language ↔ text ++ more ∈ pattern.language := by
  induction text generalizing pattern with
  | nil => rfl
  | cons c text ih => exact ih.trans (mem_language_after pattern (text ++ more))

theorem afterAll_lively (text : List Char) (alive : pattern = void ∨ pattern.lively = true) :
    pattern.afterAll text = void ∨ (pattern.afterAll text).lively = true := by
  induction text generalizing pattern with
  | nil => exact alive
  | cons c text ih => exact ih (after_lively alive)

theorem isVoid_iff : pattern.isVoid = true ↔ pattern = void := by
  cases pattern <;> simp [isVoid]

end Pattern

namespace Scan

variable {κ : Type} {rules : List (κ × Pattern)} {text done : List Char} {kind : κ}

/-- Some rule matches the whole text. -/
def Matches (rules : List (κ × Pattern)) (text : List Char) : Prop :=
  ∃ rule ∈ rules, text ∈ rule.2.language

/-- Some rule matches the text or a continuation of it. -/
def Begins (rules : List (κ × Pattern)) (text : List Char) : Prop :=
  ∃ more, Matches rules (text ++ more)

/-- The first rule that matches the whole text is of that kind. -/
inductive Picks (text : List Char) : List (κ × Pattern) → κ → Prop where
  | here {kind pattern rules} (found : text ∈ pattern.language) :
      Picks text ((kind, pattern) :: rules) kind
  | later {rule rules kind} (other : text ∉ rule.2.language) (picks : Picks text rules kind) :
      Picks text (rule :: rules) kind

/-- `chars` is the longest start of the text that a rule matches, and of that kind. -/
structure Longest (rules : List (κ × Pattern)) (text chars : List Char) (kind : κ) : Prop where
  start : chars <+: text
  nonempty : chars ≠ []
  picks : Picks chars rules kind
  longest : ∀ longer, longer <+: text → chars.length < longer.length → ¬ Matches rules longer

/-- No rule matches any start of the text. -/
def Stuck (rules : List (κ × Pattern)) (text : List Char) : Prop :=
  ∀ chars, chars <+: text → chars ≠ [] → ¬ Matches rules chars

/-- `chars` is the longest start of the text that can begin a match, but at least `least` long. -/
structure Farthest (rules : List (κ × Pattern)) (text chars : List Char) (least : Nat) : Prop where
  start : chars <+: text
  least_le : least ≤ chars.length
  begins : chars.length = least ∨ Begins rules chars
  farthest : ∀ longer, longer <+: text → chars.length < longer.length → ¬ Begins rules longer

variable {found : Option (κ × Nat)} {rule : κ × Pattern} {kind' : κ}

theorem Matches.cons_iff : Matches (rule :: rules) text ↔ text ∈ rule.2.language ∨
    Matches rules text := by
  simp [Matches]

theorem Picks.matches_ (picks : Picks text rules kind) : Matches rules text := by
  induction picks with
  | here found => exact Matches.cons_iff.2 (.inl found)
  | later _ _ ih => exact Matches.cons_iff.2 (.inr ih)

theorem Picks.unique (picks : Picks text rules kind) (picks' : Picks text rules kind') :
    kind = kind' := by
  induction picks with
  | here found => cases picks' with
    | here => rfl
    | later other => exact absurd found other
  | later other _ ih => cases picks' with
    | here found => exact absurd found other
    | later _ later => exact ih later

theorem Longest.unique {chars chars' : List Char} (here : Longest rules text chars kind)
    (there : Longest rules text chars' kind') : chars = chars' ∧ kind = kind' := by
  have le := not_lt.1 fun less => there.longest chars here.start less here.picks.matches_
  have ge := not_lt.1 fun less => here.longest chars' there.start less there.picks.matches_
  have same : chars = chars' :=
    (List.prefix_of_prefix_length_le here.start there.start le).eq_of_length_le ge
  subst same
  exact ⟨rfl, here.picks.unique there.picks⟩

variable {more : List Char}

theorem Begins.of_append : Begins rules (text ++ more) → Begins rules text := by
  rintro ⟨later, found⟩
  exact ⟨more ++ later, by rwa [← List.append_assoc]⟩

/-- The rules that can still match after `done`, with what is left of them. -/
def live (rules : List (κ × Pattern)) (done : List Char) : List (κ × Pattern) :=
  (rules.map fun rule => (rule.1, rule.2.afterAll done)).filter fun rule => !rule.2.isVoid

theorem live_cons (rule : κ × Pattern) : live (rule :: rules) done =
    if (rule.2.afterAll done).isVoid then live rules done
    else (rule.1, rule.2.afterAll done) :: live rules done := by
  simp only [live, List.map_cons, List.filter_cons]
  cases (rule.2.afterAll done).isVoid <;> rfl

theorem filterMap_live {c : Char} {step : κ × Pattern → Option (κ × Pattern)}
    (steps : ∀ rule, step rule =
      if (rule.2.after c).isVoid then none else some (rule.1, rule.2.after c)) :
    (live rules done).filterMap step = live rules (done ++ [c]) := by
  induction rules with
  | nil => rfl
  | cons rule rules ih =>
    have next : rule.2.afterAll (done ++ [c]) = (rule.2.afterAll done).after c := by
      simp [Pattern.afterAll]
    rw [live_cons, live_cons, next]
    split
    · rename_i gone
      rw [ih, Pattern.isVoid_iff.1 gone]
      rfl
    · rw [List.filterMap_cons, steps, ih]
      split <;> simp_all

theorem matches_live :
    Matches (live rules done) more ↔ Matches rules (done ++ more) := by
  induction rules with
  | nil => simp [live, Matches]
  | cons rule rules ih =>
    rw [live_cons, Matches.cons_iff, ← Pattern.mem_language_afterAll, ← ih]
    split
    · rename_i gone
      simp [Pattern.isVoid_iff.1 gone, Pattern.language]
    · exact Matches.cons_iff

theorem picks_live :
    Picks more (live rules done) kind → Picks (done ++ more) rules kind := by
  induction rules with
  | nil => nofun
  | cons rule rules ih =>
    intro picks
    rw [live_cons] at picks
    split at picks
    · rename_i gone
      refine .later ?_ (ih picks)
      rw [← Pattern.mem_language_afterAll, Pattern.isVoid_iff.1 gone]
      exact id
    · cases picks with
      | here found => exact .here (Pattern.mem_language_afterAll.1 found)
      | later other picks => exact .later (mt Pattern.mem_language_afterAll.2 other) (ih picks)

theorem picks_of_find? (found : rules.find? (fun rule => rule.2.nullable) = some rule) :
    Picks [] rules rule.1 := by
  induction rules with
  | nil => cases found
  | cons first rules ih =>
    rw [List.find?_cons] at found
    split at found
    · cases found
      exact .here ((Pattern.nullable_iff _).1 ‹_›)
    · exact .later (by simp_all [← Pattern.nullable_iff]) (ih found)

theorem not_matches_of_find? (none : rules.find? (fun rule => rule.2.nullable) = none) :
    ¬ Matches rules [] := by
  rintro ⟨rule, member, here⟩
  exact List.find?_eq_none.1 none rule member ((Pattern.nullable_iff _).2 here)

/-- As every rule is lively, a rule that is still followed can match. -/
theorem begins_iff_live (lively : ∀ rule ∈ rules, rule.2.lively = true) :
    Begins rules done ↔ live rules done ≠ [] := by
  simp only [Begins, ← matches_live]
  constructor
  · rintro ⟨more, rule, member, _⟩ gone
    rw [gone] at member
    cases member
  · intro some_
    obtain ⟨rest, member⟩ := List.exists_mem_of_ne_nil _ some_
    obtain ⟨inMap, alive⟩ := List.mem_filter.1 member
    obtain ⟨rule, isRule, rfl⟩ := List.mem_map.1 inMap
    have left := Pattern.afterAll_lively done (.inr (lively rule isRule))
    obtain ⟨more, found⟩ := Pattern.exists_of_lively
      (left.resolve_left fun gone => by simp [gone, Pattern.isVoid] at alive)
    exact ⟨more, _, member, found⟩

/-- What a scan may say that it found in a text. -/
inductive Finds (rules : List (κ × Pattern)) (text : List Char) : Option (κ × Nat) → Prop where
  | none (stuck : Stuck rules text) : Finds rules text none
  | some {kind chars} (longest : Longest rules text chars kind) :
      Finds rules text (some (kind, chars.length))

/-- What was found in a text stays so in a longer one, unless a rule matches more. -/
theorem Finds.extend {longer : List Char} (start : text <+: longer)
    (beyond : ∀ chars, chars <+: longer → text.length < chars.length → ¬ Matches rules chars)
    (finds : Finds rules text found) : Finds rules longer found := by
  have within : ∀ chars, chars <+: longer → Matches rules chars → chars <+: text :=
    fun chars isStart found => List.prefix_of_prefix_length_le isStart start
      (not_lt.1 fun less => beyond chars isStart less found)
  cases finds with
  | none stuck =>
    exact .none fun chars isStart some_ found =>
      stuck chars (within chars isStart found) some_ found
  | some longest =>
    exact .some ⟨longest.start.trans start, longest.nonempty, longest.picks,
      fun chars isStart less found => longest.longest chars (within chars isStart found) less found⟩

theorem follow_cons (found : Option (κ × Nat)) (reached : Nat) (c : Char) (rest : List Char) :
    follow (live rules done) found reached (c :: rest) =
      if (live rules (done ++ [c])).isEmpty then { found, reached }
      else follow (live rules (done ++ [c]))
        ((((live rules (done ++ [c])).find? fun rule => rule.2.nullable).map fun rule =>
          (rule.1, reached + 1)).or found) (reached + 1) rest := by
  rw [follow]
  dsimp only
  rw [filterMap_live (c := c)]
  · cases live rules (done ++ [c]) with
    | nil => rfl
    | cons rule others =>
      simp only [List.isEmpty_cons, Bool.false_eq_true, if_false]
      congr 1
      split <;> simp only [*, Option.map_some, Option.map_none, Option.some_or, Option.none_or]
  · intro rule
    cases rule.2.after c <;> rfl

/-- One more character: a rule that matches now has the longest match so far. -/
theorem Finds.concat (c : Char) (finds : Finds rules done found) :
    Finds rules (done ++ [c]) ((((live rules (done ++ [c])).find? fun rule => rule.2.nullable).map
      fun rule => (rule.1, done.length + 1)).or found) := by
  have whole : ∀ chars, chars <+: done ++ [c] → done.length < chars.length → chars = done ++ [c] :=
    fun chars isStart less => isStart.eq_of_length_le (by rwa [List.length_append])
  cases picked : (live rules (done ++ [c])).find? fun rule => rule.2.nullable with
  | none =>
    refine finds.extend (List.prefix_append ..) fun chars isStart less => ?_
    rw [whole chars isStart less]
    simpa only [matches_live, List.append_nil] using not_matches_of_find? picked
  | some rule =>
    have picks := picks_live (picks_of_find? picked)
    rw [List.append_nil] at picks
    have length : done.length + 1 = (done ++ [c]).length := by simp
    simp only [Option.map_some, Option.some_or]
    rw [length]
    exact .some ⟨List.prefix_rfl, by simp, picks, fun chars isStart less =>
      absurd isStart.length_le (not_le.2 less)⟩

/-- Following the rules from `done` on finds in the whole text what there is to find. -/
theorem follow_spec (lively : ∀ rule ∈ rules, rule.2.lively = true) (rest : List Char)
    (begins : done = [] ∨ Begins rules done) (finds : Finds rules done found) :
    Finds rules (done ++ rest) (follow (live rules done) found done.length rest).found
      ∧ ∃ chars, chars.length = (follow (live rules done) found done.length rest).reached
        ∧ Farthest rules (done ++ rest) chars 0 := by
  induction rest generalizing done found with
  | nil =>
    rw [List.append_nil]
    exact ⟨finds, done, rfl, List.prefix_rfl, zero_le _, begins.imp_left (by simp [·]),
      fun longer isStart less => absurd isStart.length_le (not_le.2 less)⟩
  | cons c rest ih =>
    rw [follow_cons]
    split
    · rename_i gone
      have stop : ∀ longer, longer <+: done ++ c :: rest → done.length < longer.length →
          ¬ Begins rules longer := by
        intro longer isStart less more
        have further : done ++ [c] <+: longer :=
          List.prefix_of_prefix_length_le (by simp) isStart (by rwa [List.length_append])
        obtain ⟨others, rfl⟩ := further
        exact (begins_iff_live lively).1 more.of_append (List.isEmpty_iff.1 gone)
      exact ⟨finds.extend (List.prefix_append ..) fun chars isStart less found =>
          stop chars isStart less ⟨[], by rwa [List.append_nil]⟩,
        done, rfl, List.prefix_append .., zero_le _, begins.imp_left (by simp [·]), stop⟩
    · rename_i some_
      have later := ih (.inr ((begins_iff_live lively).2 (mt List.isEmpty_iff.2 some_)))
        (finds.concat c)
      simpa using later

end Scan

namespace Rules

theorem lively_of_mem_all : ∀ rule ∈ all, rule.2.lively = true := by decide +kernel

end Rules

namespace Scan

theorem longest_spec (text : List Char) :
    Finds Rules.all text (longest Rules.all text).found
      ∧ ∃ chars, chars.length = (longest Rules.all text).reached
        ∧ Farthest Rules.all text chars 0 := by
  have start : live Rules.all [] = Rules.all := by decide +kernel
  have spec := follow_spec Rules.lively_of_mem_all text (.inl rfl)
    (.none fun chars isStart some_ => absurd (List.prefix_nil.1 isStart) some_)
  rwa [start] at spec

end Scan

open Scan

/-- The tokens of a text that starts at a byte: what is cut off at each place is the longest match
of any rule, and where no rule matches, the longest start of a token, but at least one character. -/
inductive Cuts (file : UInt16) : List Char → Nat → Bool → List Token → Prop where
  | stop (offset : Nat) (newline : Bool) :
      Cuts file [] offset newline
        [{ kind := .endOfFile, span := ⟨offset, offset, file⟩, text := "",
           newlineBefore := newline }]
  | skip {chars rest offset newline tokens}
      (longest : Longest Rules.all (chars ++ rest) chars .skipped)
      (later : Cuts file rest (offset + byteLength chars) (newline || chars.contains '\n') tokens) :
      Cuts file (chars ++ rest) offset newline tokens
  | take {chars rest offset newline tokens kind}
      (longest : Longest Rules.all (chars ++ rest) chars (.token kind))
      (later : Cuts file rest (offset + byteLength chars) false tokens) :
      Cuts file (chars ++ rest) offset newline
        ({ kind, span := ⟨offset, offset + byteLength chars, file⟩, text := String.ofList chars,
           newlineBefore := newline } :: tokens)
  | illegal {chars rest offset newline tokens} (stuck : Stuck Rules.all (chars ++ rest))
      (farthest : Farthest Rules.all (chars ++ rest) chars 1)
      (later : Cuts file rest (offset + byteLength chars) false tokens) :
      Cuts file (chars ++ rest) offset newline
        ({ kind := .illegal, span := ⟨offset, offset + byteLength chars, file⟩,
           text := String.ofList chars, newlineBefore := newline } :: tokens)

theorem Scan.Longest.found_eq {chars : List Char} {kind : Lexeme}
    (here : Longest Rules.all text chars kind) :
    (Scan.longest Rules.all text).found = some (kind, chars.length) := by
  have finds := (longest_spec text).1
  generalize (Scan.longest Rules.all text).found = found at finds
  cases finds with
  | none stuck => exact absurd here.picks.matches_ (stuck chars here.start here.nonempty)
  | some there => rw [(here.unique there).1, (here.unique there).2]

theorem Scan.Stuck.found_eq (stuck : Stuck Rules.all text) :
    (Scan.longest Rules.all text).found = none := by
  have finds := (longest_spec text).1
  generalize (Scan.longest Rules.all text).found = found at finds
  cases finds with
  | none => rfl
  | some there => exact absurd there.picks.matches_ (stuck _ there.start there.nonempty)

theorem Scan.Farthest.reached_eq {chars : List Char} (here : Farthest Rules.all text chars 1) :
    (Scan.longest Rules.all text).reached - 1 = chars.length - 1 := by
  obtain ⟨chars', length, there⟩ := (longest_spec text).2
  have le : chars.length ≤ 1 ∨ chars.length ≤ chars'.length := by
    refine here.begins.imp le_of_eq fun begins => ?_
    exact not_lt.1 fun less => there.farthest chars here.start less begins
  have ge : chars'.length = 0 ∨ chars'.length ≤ chars.length := by
    refine there.begins.imp_right fun begins => ?_
    exact not_lt.1 fun less => here.farthest chars' there.start less begins
  have least := here.least_le
  omega

/-- Cutting off one token after the other gives the tokens of a scan. -/
theorem Cuts.scanFrom_eq {file : UInt16} {offset : Nat} {newline : Bool} {tokens : List Token}
    (cuts : Cuts file text offset newline tokens) (done : Array Token) :
    (Token.scanFrom file text offset newline done).toList = done.toList ++ tokens := by
  induction cuts generalizing done with
  | stop => simp [Token.scanFrom]
  | @skip chars rest _ _ _ longest _ ih =>
    obtain ⟨first, others, rfl⟩ := List.exists_cons_of_ne_nil longest.nonempty
    have found := longest.found_eq
    rw [List.cons_append] at found ⊢
    rw [Token.scanFrom, found]
    simpa using ih done
  | @take chars rest _ _ _ kind longest _ ih =>
    obtain ⟨first, others, rfl⟩ := List.exists_cons_of_ne_nil longest.nonempty
    have found := longest.found_eq
    rw [List.cons_append] at found ⊢
    rw [Token.scanFrom, found]
    simp [ih]
  | @illegal chars rest _ _ _ stuck farthest _ ih =>
    obtain ⟨first, others, rfl⟩ := List.exists_cons_of_length_pos farthest.least_le
    have found := stuck.found_eq
    have reached := farthest.reached_eq
    rw [List.cons_append] at found reached ⊢
    rw [Token.scanFrom, found]
    simp [reached, ih]

/-- At least one character is cut off from a text that no rule matches. -/
theorem exists_farthest (text : List Char) (some_ : text ≠ []) :
    ∃ chars, Farthest Rules.all text chars 1 := by
  obtain ⟨-, reached, -, farthest⟩ := longest_spec text
  cases reached with
  | nil =>
    obtain ⟨first, others, rfl⟩ := List.exists_cons_of_ne_nil some_
    refine ⟨[first], by simp, le_refl _, .inl rfl, fun longer isStart less => ?_⟩
    exact farthest.farthest longer isStart (zero_lt_of_lt less)
  | cons c reached =>
    exact ⟨c :: reached, farthest.start, by simp, .inr (farthest.begins.resolve_left nofun),
      farthest.farthest⟩

/-- Every text can be cut, by induction on its length: what is cut off is not empty. -/
theorem exists_cuts (file : UInt16) (text : List Char) (offset : Nat) (newline : Bool) :
    ∃ tokens, Cuts file text offset newline tokens := by
  induction length : text.length using Nat.strong_induction_on generalizing text offset newline with
  | _ length' ih =>
    subst length
    have behind : ∀ {chars rest : List Char}, chars ++ rest = text → chars ≠ [] →
        ∀ offset newline, ∃ tokens, Cuts file rest offset newline tokens := by
      rintro chars rest rfl some_ offset newline
      have less : rest.length < (chars ++ rest).length := by
        simpa using List.length_pos_of_ne_nil some_
      exact ih _ less rest offset newline rfl
    have finds := (longest_spec text).1
    generalize (Scan.longest Rules.all text).found = found at finds
    cases finds with
    | @some lexeme chars longest =>
      obtain ⟨rest, rfl⟩ := longest.start
      cases lexeme with
      | skipped =>
        exact (behind rfl longest.nonempty _ _).imp fun tokens later => .skip longest later
      | token kind =>
        obtain ⟨tokens, later⟩ := behind rfl longest.nonempty (offset + byteLength chars) false
        exact ⟨_, .take longest later⟩
    | none stuck =>
      by_cases none : text = []
      · subst none
        exact ⟨_, .stop ..⟩
      · obtain ⟨chars, farthest⟩ := exists_farthest text none
        obtain ⟨rest, rfl⟩ := farthest.start
        obtain ⟨tokens, later⟩ := behind rfl (List.ne_nil_of_length_pos farthest.least_le)
          (offset + byteLength chars) false
        exact ⟨_, .illegal stuck farthest later⟩

theorem CharSet.contains_anyOf (chars : List Char) (c : Char) :
    (anyOf chars).contains c = chars.contains c := by
  change ((chars.map fun d => (d, d)).any fun range => range.1 ≤ c && c ≤ range.2) = _
  induction chars with
  | nil => rfl
  | cons d chars ih =>
    rw [List.map_cons, List.any_cons, ih, List.contains_cons]
    congr 1
    rw [Bool.eq_iff_iff, Bool.and_eq_true, decide_eq_true_iff, decide_eq_true_iff, beq_iff_eq]
    exact ⟨fun both => Char.le_antisymm both.2 both.1,
      fun same => same ▸ ⟨Char.le_refl c, Char.le_refl c⟩⟩

theorem CharSet.contains_noneOf (chars : List Char) (c : Char) :
    (noneOf chars).contains c = !chars.contains c := by
  rw [← contains_anyOf]
  rfl

namespace Rules

open Pattern

/-- What is left of a block comment when it has been opened. -/
def openComment : Pattern := blockComment.afterAll ['/', '*']

theorem openComment_eq : openComment = Pattern.sequence
    [.star (.alt (.one (.noneOf ['*']))
        (.seq (plus (.one (.anyOf ['*']))) (.one (.noneOf ['*', '/'])))),
      plus (.one (.anyOf ['*'])), .one (.anyOf ['/'])] := by
  decide +kernel

variable {c : Char}

theorem openComment_after (other : c ≠ '*') : openComment.after c = openComment := by
  have star : (CharSet.anyOf ['*']).contains c = false := by simp [CharSet.contains_anyOf, other]
  have noStar : (CharSet.noneOf ['*']).contains c = true := by simp [CharSet.contains_noneOf, other]
  rw [openComment_eq]
  simp [Pattern.sequence, plus, after, nullable, star, noStar, andThen, orElse]

/-- Behind stars, a slash closes the comment and anything but a star leads back into it. -/
theorem openComment_after_star (other : c ≠ '*') :
    (openComment.after '*').after c = if c = '/' then .blank else openComment := by
  have starred : openComment.after '*' = .alt
      (.seq (.seq (.seq (.star (.one (.anyOf ['*']))) (.one (.noneOf ['*', '/'])))
          (.star (.alt (.one (.noneOf ['*']))
            (.seq (plus (.one (.anyOf ['*']))) (.one (.noneOf ['*', '/']))))))
        (.seq (plus (.one (.anyOf ['*']))) (.one (.anyOf ['/']))))
      (.seq (.star (.one (.anyOf ['*']))) (.one (.anyOf ['/']))) := by decide +kernel
  have star : (CharSet.anyOf ['*']).contains c = false := by simp [CharSet.contains_anyOf, other]
  have slash : (CharSet.anyOf ['/']).contains c = decide (c = '/') := by
    simp [CharSet.contains_anyOf]
  have neither : (CharSet.noneOf ['*', '/']).contains c = !decide (c = '/') := by
    simp [CharSet.contains_noneOf, other]
  rw [starred, openComment_eq]
  by_cases isSlash : c = '/'
  · subst isSlash
    decide +kernel
  · simp [Pattern.sequence, plus, after, nullable, star, slash, neither, andThen, orElse, isSlash]

/-- A text that ends with its first star and slash. -/
def Closes (text : List Char) : Prop :=
  ∃ body, text = body ++ ['*', '/'] ∧ ¬ ['*', '/'] <:+: body ++ ['*']

theorem closes_cons :
    Closes (c :: text) ↔
      c = '*' ∧ text = ['/'] ∨ ¬ (c = '*' ∧ text.head? = some '/') ∧ Closes text := by
  constructor
  · rintro ⟨body, joined, first⟩
    cases body with
    | nil =>
      obtain ⟨rfl, rfl⟩ := List.cons.inj joined
      exact .inl ⟨rfl, rfl⟩
    | cons d body =>
      obtain ⟨rfl, rfl⟩ := List.cons.inj joined
      rw [List.cons_append, List.infix_cons_iff, not_or] at first
      refine .inr ⟨?_, body, rfl, first.2⟩
      rintro ⟨rfl, slash⟩
      refine first.1 (List.cons_prefix_cons.2 ⟨rfl, ?_⟩)
      cases body <;> simp_all
  · rintro (⟨rfl, rfl⟩ | ⟨apart, body, rfl, first⟩)
    · exact ⟨[], rfl, by decide⟩
    · refine ⟨c :: body, rfl, ?_⟩
      rw [List.cons_append, List.infix_cons_iff, not_or]
      refine ⟨fun start => apart ?_, first⟩
      obtain ⟨rfl, slash⟩ := List.cons_prefix_cons.1 start
      refine ⟨rfl, ?_⟩
      cases body <;> simp_all [eq_comm]

theorem mem_openComment (text : List Char) :
    (text ∈ openComment.language ↔ Closes text)
      ∧ ('*' :: text ∈ openComment.language ↔ Closes ('*' :: text)) := by
  have none : ¬ Closes [] := by rintro ⟨body, joined, _⟩; simp at joined
  induction text with
  | nil =>
    constructor
    · rw [← nullable_iff]
      exact iff_of_false (by decide) none
    · rw [← mem_language_after, ← nullable_iff, closes_cons]
      exact iff_of_false (by decide +kernel) (by simp [none])
  | cons c text ih =>
    by_cases isStar : c = '*'
    · subst isStar
      refine ⟨ih.2, ?_⟩
      have again : (openComment.after '*').after '*' = openComment.after '*' := by decide +kernel
      rw [← mem_language_after, ← mem_language_after, again, mem_language_after, ih.2,
        @closes_cons ('*' :: text) '*']
      simp
    · constructor
      · rw [← mem_language_after, openComment_after isStar, ih.1, closes_cons]
        simp [isStar]
      · rw [← mem_language_after, ← mem_language_after, openComment_after_star isStar, closes_cons]
        by_cases isSlash : c = '/'
        · simp [isSlash, language]
        · simp [isSlash, ih.1, closes_cons, isStar]

/-- Once a block comment is open, no other rule can match. -/
theorem live_comment : live all ['/', '*'] = [(.skipped, openComment)] := by decide +kernel

theorem matches_comment : Matches all ('/' :: '*' :: text) ↔ Closes text := by
  rw [← (mem_openComment text).1]
  simpa [live_comment, Matches] using (@matches_live _ all ['/', '*'] text).symm

variable {body : List Char}

theorem longest_comment (first : ¬ ['*', '/'] <:+: body ++ ['*']) (rest : List Char) :
    Longest all ('/' :: '*' :: (body ++ '*' :: '/' :: rest)) ('/' :: '*' :: (body ++ ['*', '/']))
      .skipped := by
  refine ⟨⟨rest, by simp⟩, by simp, ?_, fun longer isStart less found => ?_⟩
  · refine @picks_live _ all ['/', '*'] _ _ ?_
    rw [live_comment]
    exact .here ((mem_openComment _).1.2 ⟨body, rfl, first⟩)
  · obtain ⟨more, rfl⟩ : '/' :: '*' :: (body ++ ['*', '/']) <+: longer :=
      List.prefix_of_prefix_length_le ⟨rest, by simp⟩ isStart less.le
    have some_ : more ≠ [] := by rintro rfl; simp at less
    obtain ⟨body', joined, first'⟩ := matches_comment.1 found
    have shorter := congrArg List.dropLast joined
    rw [List.append_eq, List.dropLast_append_of_ne_nil some_,
      List.dropLast_append_of_ne_nil (by simp)] at shorter
    exact first' ⟨body, more.dropLast, by simpa using shorter⟩

theorem picks_of_live {kind : Lexeme}
    (picked : ((live all text).find? fun rule => rule.2.nullable).map Prod.fst = some kind) :
    Picks text all kind := by
  obtain ⟨rule, found, rfl⟩ := Option.map_eq_some_iff.1 picked
  simpa using picks_live (picks_of_find? found)

theorem picks_keyword (keyword : Keyword) :
    Picks keyword.text.toList all (.token (.keyword keyword)) := by
  have each : ∀ keyword ∈ Keyword.all, ((live all keyword.text.toList).find? fun rule =>
      rule.2.nullable).map Prod.fst = some (.token (.keyword keyword)) := by decide +kernel
  exact picks_of_live (each keyword (by cases keyword <;> decide))

theorem picks_mark (mark : Mark) : Picks mark.text.toList all (.token (.mark mark)) := by
  have each : ∀ mark ∈ Mark.all, ((live all mark.text.toList).find? fun rule =>
      rule.2.nullable).map Prod.fst = some (.token (.mark mark)) := by decide +kernel
  exact picks_of_live (each mark (by cases mark <;> decide))

/-- A block comment that is not closed is a slash with something else behind it. -/
theorem longest_unclosed (unclosed : ¬ ['*', '/'] <:+: body) :
    Longest all ('/' :: '*' :: body) ['/'] (.token (.mark .quo)) := by
  refine ⟨⟨_, rfl⟩, by simp, picks_mark .quo, fun longer isStart less found => ?_⟩
  obtain ⟨text, rfl⟩ : ['/', '*'] <+: longer :=
    List.prefix_of_prefix_length_le ⟨body, rfl⟩ isStart less
  obtain ⟨closed, rfl, _⟩ := matches_comment.1 found
  have inside : closed ++ ['*', '/'] <+: body := by simpa using isStart
  exact unclosed ((List.suffix_append ..).isInfix.trans inside.isInfix)

end Rules

/-- The tokens of a text are its cuts, one longest match after the other. A fixed text is a match of
its own kind, a block comment is skipped up to its first star and slash, the slash of a comment that
is never closed is a mark, and where digits, an exponent, a base or points do not go on as a rule
says, the longest match before that place is taken. -/
theorem scan_eq_iff_cuts (text : String) (file : UInt16) (tokens : List Token) :
    (Token.scan text file = tokens ↔ Cuts file text.toList 0 false tokens)
      ∧ (∀ keyword : Keyword, Picks keyword.text.toList Rules.all (.token (.keyword keyword)))
      ∧ (∀ mark : Mark, Picks mark.text.toList Rules.all (.token (.mark mark)))
      ∧ (∀ body rest : List Char, ¬ ['*', '/'] <:+: body ++ ['*'] →
        Longest Rules.all ('/' :: '*' :: (body ++ '*' :: '/' :: rest))
          ('/' :: '*' :: (body ++ ['*', '/'])) .skipped)
      ∧ (∀ body : List Char, ¬ ['*', '/'] <:+: body →
        Longest Rules.all ('/' :: '*' :: body) ['/'] (.token (.mark .quo)))
      ∧ ["1e+", "0xg", "1...", "a.b"].map (fun text => (Token.scan text 0).map fun token =>
          (token.kind, token.text)) =
        [[(.int, "1"), (.ident, "e"), (.mark .add, "+"), (.endOfFile, "")],
          [(.int, "0"), (.ident, "xg"), (.endOfFile, "")],
          [(.int, "1"), (.mark .ellipsis, "..."), (.endOfFile, "")],
          [(.ident, "a"), (.mark .period, "."), (.ident, "b"), (.endOfFile, "")]] := by
  refine ⟨⟨?_, fun cuts => by simpa [Token.scan] using cuts.scanFrom_eq #[]⟩, Rules.picks_keyword,
    Rules.picks_mark, fun body rest first => Rules.longest_comment first rest,
    fun body unclosed => Rules.longest_unclosed unclosed, by decide +kernel⟩
  rintro rfl
  obtain ⟨tokens, cuts⟩ := exists_cuts file text.toList 0 false
  have same : Token.scan text file = tokens := by simpa [Token.scan] using cuts.scanFrom_eq #[]
  rwa [same]

end Skiff
