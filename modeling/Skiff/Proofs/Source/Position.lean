import Mathlib
import Skiff.Source.File

/-!
# Lines and columns

The line of an offset is told by the line feeds before it, and its column by the bytes behind the
last of them. Of the places at which lines start, those that are not behind the offset are the ones
of the text before it, and the last of these is where the line of the offset starts.
-/

namespace Skiff

open List

/-- The bytes behind the last line feed. -/
def lastLine (bytes : List UInt8) : List UInt8 := bytes.rtakeWhile (· ≠ 10)

variable {before after : List UInt8}

/-- Lines start at the beginning and behind each line feed. -/
theorem toList_lineStarts (bytes : List UInt8) :
    (lineStarts bytes.toArray).toList = 0 :: bytes.idxsOf 10 1 := by
  have fold (found : Array Nat) (offset : Nat) : (bytes.foldl (fun state byte =>
      (if byte = 10 then state.1.push (state.2 + 1) else state.1, state.2 + 1))
        (found, offset)).1.toList = found.toList ++ bytes.idxsOf 10 (offset + 1) := by
    induction bytes generalizing found offset with
    | nil => simp
    | cons byte bytes ih =>
      rw [foldl_cons, ih, idxsOf_cons]
      by_cases feed : byte = 10 <;> simp [feed]
  rw [lineStarts, foldl_toArray]
  exact fold #[0] 0

theorem lastLine_append (before : List UInt8) (none : 10 ∉ after) :
    lastLine (before ++ after) = lastLine before ++ after := by
  have all : ∀ byte ∈ after.reverse, decide (byte ≠ 10) = true := by
    intro byte member
    exact decide_eq_true fun same => none (same ▸ mem_reverse.1 member)
  rw [lastLine, rtakeWhile, reverse_append, takeWhile_append_of_pos all, reverse_append,
    reverse_reverse]
  rfl

theorem exists_last_cut {α : Type} {mark : α} {items : List α} (member : mark ∈ items) :
    ∃ front last, items = front ++ mark :: last ∧ mark ∉ last := by
  obtain ⟨last, front, split, none⟩ := eq_append_cons_of_mem (mem_reverse.2 member)
  refine ⟨front.reverse, last.reverse, ?_, mt mem_reverse.1 none⟩
  rw [← reverse_reverse items, split]
  simp

/-- There is no line feed, or the bytes are cut at the last one. -/
theorem lastLine_cases (bytes : List UInt8) : 10 ∉ bytes ∧ lastLine bytes = bytes ∨
    ∃ lines line, bytes = lines ++ 10 :: line ∧ 10 ∉ line ∧ lastLine bytes = line := by
  by_cases feed : 10 ∈ bytes
  · obtain ⟨lines, line, rfl, none⟩ := exists_last_cut feed
    refine .inr ⟨lines, line, rfl, none, ?_⟩
    rw [append_cons, lastLine_append _ none, lastLine, rtakeWhile_concat_neg _ _ _ (by simp)]
    rfl
  · exact .inl ⟨feed, lastLine_append [] feed⟩

/-- The last line starts so that it ends with the bytes. -/
theorem lastLine_start (bytes : List UInt8) :
    ∃ start, (0 :: bytes.idxsOf 10 1)[bytes.count 10]? = some start ∧
      start + (lastLine bytes).length = bytes.length := by
  rcases lastLine_cases bytes with ⟨none, same⟩ | ⟨lines, line, rfl, none, same⟩
  · exact ⟨0, by rw [count_eq_zero.2 none]; rfl, by rw [same, Nat.zero_add]⟩
  · refine ⟨1 + lines.length, ?_, ?_⟩
    · simp [idxsOf_append, count_eq_zero.2 none]
    · rw [same]
      simp
      omega

/-- Whether it finds the offset or not, the search ends at the last of the places that are not
behind it. -/
theorem findPlace_last {places : Array Nat} {front back : List Nat} {offset low high : Nat}
    (split : places.toList = front ++ back) (ascending : front.Pairwise (· < ·))
    (reached : ∀ place ∈ front, place ≤ offset) (behind : ∀ place ∈ back, offset < place)
    (above : low ≤ front.length) (below : front.length ≤ high) (inside : high ≤ places.size) :
    findPlace places offset low high = .ok (front.length - 1) ∨
      findPlace places offset low high = .error front.length := by
  have size : places.size = front.length + back.length := by
    rw [← Array.length_toList, split, length_append]
  have early {index : Nat} (less : index < front.length) : places.getD index 0 = front[index] := by
    simp [← Array.getElem?_toList, split, getElem?_append_left less, less]
  have late {index : Nat} (more : ¬index < front.length) (less : index < places.size) :
      offset < places.getD index 0 := by
    have inside : index - front.length < back.length := by omega
    rw [Array.getD_eq_getD_getElem?, ← Array.getElem?_toList, split,
      getElem?_append_right (Nat.not_lt.1 more), getElem?_eq_getElem inside]
    exact behind _ (getElem_mem inside)
  fun_induction findPlace places offset low high with
  | case1 low high less middle place found =>
    -- The places ascend, so one behind this one would be behind the offset.
    refine .inl (congrArg _ ?_)
    have before : middle < front.length := by
      by_contra more
      exact Nat.ne_of_gt (late more (by omega)) found
    by_contra other
    have next : middle + 1 < front.length := by omega
    have less := pairwise_iff_getElem.1 ascending middle
        (middle + 1) before next (Nat.lt_succ_self _)
    rw [← early before] at less
    exact absurd (reached _ (getElem_mem next)) (by omega)
  | case2 low high less middle place other smaller ih =>
    refine ih ?_ below inside
    by_contra more
    exact Nat.lt_asymm smaller (late (by omega) (by omega))
  | case3 low high less middle place other larger ih =>
    refine ih above ?_ (by omega)
    by_contra more
    have := reached _ (getElem_mem (Nat.not_le.1 more))
    rw [← early] at this
    omega
  | case4 low high done => exact .inr (congrArg _ (by omega))

theorem SourceFile.lineColumn_append {file : SourceFile}
    (starts : file.lineStarts.toList = 0 :: (before ++ after).idxsOf 10 1) :
    file.lineColumn before.length = (1 + before.count 10, 1 + (lastLine before).length) := by
  obtain ⟨start, found, length⟩ := lastLine_start before
  rw [idxsOf_append, ← cons_append] at starts
  have size : (0 :: before.idxsOf 10 1).length = before.count 10 + 1 := by
    rw [length_cons, length_idxsOf]
  have line := @findPlace_last _ _ _ before.length 0 file.lineStarts.size starts
    (pairwise_cons.2 ⟨fun _ member => ge_of_mem_idxsOf _ member, pairwise_idxsOf⟩)
    (forall_mem_cons.2 ⟨Nat.zero_le _, fun _ member =>
      Nat.le_of_lt_succ (lt_add_of_mem_idxsOf _ member)⟩)
    (fun _ member => Nat.lt_of_lt_of_le (by omega) (ge_of_mem_idxsOf _ member)) (Nat.zero_le _)
    (by simp [← Array.length_toList, starts]) le_rfl
  rw [size, Nat.add_sub_cancel] at line
  have place : file.lineStarts.getD (before.count 10) 0 = start := by
    rw [Array.getD_eq_getD_getElem?, ← Array.getElem?_toList, starts,
      getElem?_append_left (by omega), found, Option.getD_some]
  have both : file.lineColumn before.length = (before.count 10 + 1, before.length - start + 1) := by
    unfold lineColumn
    rcases line with line | line <;> simp only [line, place, Nat.add_sub_cancel]
  rw [both, ← length, Nat.add_sub_cancel_left, Nat.add_comm 1, Nat.add_comm 1]

theorem sum_splitOn (bytes : List UInt8) : (bytes.splitOn 10).length = bytes.count 10 + 1 ∧
    ((bytes.splitOn 10).map (·.length + 1)).sum = bytes.length + 1 := by
  induction bytes with
  | nil => exact ⟨rfl, rfl⟩
  | cons byte bytes ih =>
    obtain ⟨first, others, split⟩ := exists_cons_of_ne_nil (splitOn_ne_nil 10 bytes)
    rw [splitOn_cons_eq_if_modifyHead, split]
    rw [split] at ih
    by_cases feed : byte = 10 <;> simp [feed] at ih ⊢ <;> omega

/-- The lines before the last line feed, each with its line feed, and the bytes behind it are all
bytes. -/
theorem length_lines (before after : List UInt8) :
    (lastLine before).length + ((((before ++ after).splitOn 10).take (before.count 10)).map
      (·.length + 1)).sum = before.length := by
  rcases lastLine_cases before with ⟨none, same⟩ | ⟨lines, line, rfl, none, same⟩
  · rw [count_eq_zero.2 none, same]
    rfl
  · obtain ⟨length, sum⟩ := sum_splitOn lines
    have count : (lines ++ 10 :: line).count 10 = (lines.splitOn 10).length := by
      simp [length, count_eq_zero.2 none]
    rw [same, count, append_assoc, cons_append, splitOn_append_cons_self, take_left, sum]
    simp
    omega

/-- The line and the column of an offset are counted from the start of the text. So they tell the
offset: it lies in its line, behind all lines before that one, and a later offset is on a later line
or in a later column of the same one. -/
theorem lineColumn_exact (name text : String) :
    let file := SourceFile.ofText name text
    let bytes := text.toUTF8.data.toList
    (∀ offset ≤ file.byteSize,
      file.lineColumn offset =
          (1 + (bytes.take offset).count 10, 1 + (lastLine (bytes.take offset)).length) ∧
        offset = (file.lineColumn offset).2 - 1 +
          (((bytes.splitOn 10).take ((file.lineColumn offset).1 - 1)).map (·.length + 1)).sum ∧
        (file.lineColumn offset).1 ≤ file.lineCount) ∧
      ∀ offset offset', offset < offset' → offset' ≤ file.byteSize →
        toLex (file.lineColumn offset) < toLex (file.lineColumn offset') := by
  intro file bytes
  have length : ∀ offset ≤ file.byteSize, (bytes.take offset).length = offset :=
    fun offset inside => length_take_of_le inside
  have counted : ∀ offset ≤ file.byteSize, file.lineColumn offset =
      (1 + (bytes.take offset).count 10, 1 + (lastLine (bytes.take offset)).length) := by
    intro offset inside
    have starts :
        file.lineStarts.toList = 0 :: (bytes.take offset ++ bytes.drop offset).idxsOf 10 1 := by
      rw [take_append_drop]
      exact toList_lineStarts bytes
    simpa only [length offset inside] using SourceFile.lineColumn_append starts
  constructor
  · intro offset inside
    refine ⟨counted offset inside, ?_, ?_⟩
    · have sum := length_lines (bytes.take offset) (bytes.drop offset)
      rw [take_append_drop, length offset inside] at sum
      rw [counted offset inside]
      simpa using sum.symm
    · have lines : file.lineCount = 1 + bytes.count 10 := by
        rw [SourceFile.lineCount, ← Array.length_toList, Nat.add_comm, ← length_idxsOf]
        exact congrArg List.length (toList_lineStarts bytes)
      rw [counted offset inside, lines]
      exact Nat.add_le_add_left ((take_sublist offset bytes).count_le 10) 1
  · intro offset offset' less inside
    rw [counted offset (by omega), counted offset' inside, Prod.Lex.toLex_lt_toLex]
    obtain ⟨more, split⟩ : bytes.take offset <+: bytes.take offset' :=
      take_prefix_take_left (by omega)
    rw [← split, count_append]
    by_cases feed : 10 ∈ more
    · exact .inl (by simpa using feed)
    · have longer : (bytes.take offset).length < (bytes.take offset').length := by
        rw [length offset (by omega), length offset' inside]
        exact less
      rw [← split, length_append] at longer
      refine .inr ⟨by rw [count_eq_zero.2 feed, Nat.add_zero], ?_⟩
      rw [lastLine_append _ feed, length_append]
      omega

/-- An empty line, a letter of two bytes, and the end behind a line feed. -/
theorem lineColumn_exact_lines :
    let file := SourceFile.ofText "" "\né\n"
    4 ≤ file.byteSize ∧ file.lineColumn 4 = (3, 1) ∧ (file.lineColumn 4).1 ≤ file.lineCount ∧
      toLex (file.lineColumn 3) < toLex (file.lineColumn 4) := by
  intro file
  obtain ⟨each, ascend⟩ := lineColumn_exact "" "\né\n"
  have inside : 4 ≤ file.byteSize := by decide +kernel
  exact ⟨inside, by decide +kernel, (each 4 inside).2.2, ascend 3 4 (by decide) inside⟩

end Skiff
