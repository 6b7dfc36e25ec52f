import Mathlib
import XdebugFst.Lib.Bytes
import XdebugFst.Lists.Samples

/-!
# Exporting a list of signals

`list.export` writes one file for each signal. A row of the file has a time, the value and the mask
of the known bits, in words of 64 bits: the words go from the right end of the value to the left.
The first row is the settled value at the start of the range, and each change in the range
adds a row.

`reconstructs_exportFile` says that reading the file gives the settled value at every time of the
range.
-/

namespace XdebugFst.Lists

open Lib Lib.History Waveform

/-! ### Writing -/

/-- The states that are written as a one. -/
def isOne (state : Char) : Bool := state = '1' || state = 'H' || state = 'h'

/-- The states that are written as known. -/
def isKnown (state : Char) : Bool :=
  state = '0' || state = '1' || state = 'L' || state = 'l' || state = 'H' || state = 'h'

/-- Set a bit in a list of words. -/
def setMask (words : List ℕ) (bit : ℕ) : List ℕ :=
  words.modify (bit / 64) fun word => word ||| 1 <<< (bit % 64)

/-- The loop of `write_logic_row` over the bits with a property, from the right end. -/
def maskWords (p : Char → Bool) (bits : List Char) (wordCount : ℕ) : List ℕ :=
  (List.range bits.length).foldl (fun words bit =>
    if p (bits.getD (bits.length - bit - 1) ' ') then setMask words bit else words)
    (List.replicate wordCount 0)

/-- A row as it is written and read. -/
structure LogicRow where
  time : ℕ
  values : List ℕ
  known : List ℕ
  deriving DecidableEq, Repr

/-- The row of `write_logic_row`. -/
def logicRow (time : ℕ) (bits : String) (wordCount : ℕ) : LogicRow where
  time := time
  values := maskWords isOne bits.toList wordCount
  known := maskWords isKnown bits.toList wordCount

/-- The bytes of a row. -/
def writeRow (row : LogicRow) : List UInt8 :=
  leBytes 8 row.time ++ row.values.flatMap (leBytes 8) ++ row.known.flatMap (leBytes 8)

/-- `write_logic_row`. -/
def writeLogicRow (time : ℕ) (bits : String) (wordCount : ℕ) : List UInt8 :=
  writeRow (logicRow time bits wordCount)

/-- A signal of bit vectors. -/
structure BitVectorSignal (table : TimeTable) extends WaveSignal table where
  texts : ∀ c ∈ changes, c.value.text.toList.length = width

section Export

variable {table : TimeTable} (signal : BitVectorSignal table) (first last : ℕ)

/-- The number of words of a value. -/
def wordCount : ℕ := max 1 ((signal.width + 63) / 64)

/-- The values that `ListExportHandler::run` writes for a signal, with their times. -/
def exportRows : List (ℕ × String) :=
  ((sampleRaw signal.changes (table.timeIdxOf first)).map fun value => (first, value.text)).toList ++
    signal.timeIndicesOf.filterMap fun ti =>
      let time := table.timeAt ti
      if time ≤ first || time > last then none
      else (sampleRaw signal.changes ti).map fun value => (time, value.text)

/-- The file of a signal. -/
def exportFile : List UInt8 :=
  (exportRows signal first last).flatMap fun row => writeLogicRow row.1 row.2 (wordCount signal)

end Export

/-! ### Reading -/

/-- Read one row. -/
def readRow (words : ℕ) (file : List UInt8) (pos : ℕ) : Option LogicRow := do
  let time ← readU64 file pos
  let values ← (List.range' 0 words).mapM fun k => readU64 file (pos + 8 + k * 8)
  let known ← (List.range' 0 words).mapM fun k => readU64 file (pos + 8 + words * 8 + k * 8)
  return { time, values, known }

/-- The bytes of a row. -/
def rowSize (words : ℕ) : ℕ := 8 * (1 + 2 * words)

/-- Read all rows of a file. -/
def readRows (words : ℕ) (file : List UInt8) : Option (List LogicRow) :=
  (List.range' 0 (file.length / rowSize words)).mapM fun k => readRow words file (k * rowSize words)

/-- A bit of a list of words. -/
def wordsBit (words : List ℕ) (i : ℕ) : Bool := (words.getD (i / 64) 0).testBit (i % 64)

/-- A bit of a row: a zero, a one, or not known. -/
def LogicRow.bit (row : LogicRow) (i : ℕ) : Option Bool :=
  if wordsBit row.known i then some (wordsBit row.values i) else none

/-- What a state of a bit says. -/
def stateBit (state : Char) : Option Bool :=
  if state = '0' || state = 'L' || state = 'l' then some false
  else if state = '1' || state = 'H' || state = 'h' then some true
  else none

/-! ### Words -/

section Words

variable {words : List ℕ} {bit i : ℕ}

@[simp]
lemma length_setMask (words : List ℕ) (bit : ℕ) : (setMask words bit).length = words.length :=
  List.length_modify _ _ _

lemma wordsBit_setMask (hbit : bit / 64 < words.length) :
    wordsBit (setMask words bit) i = (wordsBit words i || decide (i = bit)) := by
  rw [wordsBit, wordsBit, setMask, List.getD_eq_getElem?_getD, List.getD_eq_getElem?_getD,
    List.getElem?_modify]
  by_cases hword : bit / 64 = i / 64
  · have hi : i / 64 < words.length := hword ▸ hbit
    simp only [if_pos hword, List.getElem?_eq_getElem hi, Option.map_eq_map, Option.map_some,
      Option.getD_some, Nat.testBit_or, Nat.one_shiftLeft, Nat.testBit_two_pow]
    congr 1
    exact decide_eq_decide.2 ⟨fun h => by omega, fun h => by rw [h]⟩
  · have hne : i ≠ bit := fun h => hword (by rw [h])
    simp only [if_neg hword, decide_eq_false hne, Bool.or_false, Option.map_eq_map,
      Option.map_id_fun', id_eq]

lemma setMask_lt (h : ∀ word ∈ words, word < 2 ^ 64) : ∀ word ∈ setMask words bit, word < 2 ^ 64 := by
  intro word hword
  obtain ⟨k, hk, rfl⟩ := List.getElem_of_mem hword
  have hk' : k < words.length := by rwa [length_setMask] at hk
  have hlt := h _ (List.getElem_mem hk')
  simp only [setMask, List.getElem_modify]
  split_ifs
  · refine Nat.or_lt_two_pow hlt ?_
    rw [Nat.one_shiftLeft]
    exact Nat.pow_lt_pow_right (by decide) (Nat.mod_lt _ (by decide))
  · exact hlt

end Words

section Masks

variable {p : Char → Bool} {bits : List Char} {wordCount : ℕ}

/-- The words after the loop has seen the `n` rightmost bits. -/
lemma foldl_setMask_spec (hfits : bits.length ≤ 64 * wordCount) {n : ℕ} (hn : n ≤ bits.length) :
    let words := (List.range n).foldl (fun words bit =>
      if p (bits.getD (bits.length - bit - 1) ' ') then setMask words bit else words)
      (List.replicate wordCount 0)
    words.length = wordCount ∧ (∀ word ∈ words, word < 2 ^ 64) ∧
      ∀ i, wordsBit words i = (decide (i < n) && p (bits.getD (bits.length - i - 1) ' ')) := by
  induction n with
  | zero =>
      refine ⟨List.length_replicate, fun word hword => ?_, fun i => ?_⟩
      · rw [(List.mem_replicate.1 hword).2]
        exact Nat.two_pow_pos 64
      · have hzero : (List.replicate wordCount 0).getD (i / 64) 0 = 0 := by
          rw [List.getD_eq_getElem?_getD, List.getElem?_replicate]
          split_ifs <;> rfl
        rw [List.range_zero, List.foldl_nil, wordsBit, hzero, Nat.zero_testBit]
        simp
  | succ n ih =>
      obtain ⟨hlength, hlt, hbits⟩ := ih (Nat.le_of_succ_le hn)
      dsimp only
      rw [List.range_succ, List.foldl_append, List.foldl_cons, List.foldl_nil]
      split_ifs with hp
      · refine ⟨(length_setMask _ _).trans hlength, setMask_lt hlt, fun i => ?_⟩
        rw [wordsBit_setMask (by rw [hlength]; omega), hbits]
        by_cases hi : i = n
        · rw [hi, hp]
          simp
        · have hiff : i < n + 1 ↔ i < n := by omega
          simp [hi, hiff]
      · refine ⟨hlength, hlt, fun i => ?_⟩
        rw [hbits]
        by_cases hi : i = n
        · rw [hi, Bool.eq_false_iff.2 hp, Bool.and_false, Bool.and_false]
        · have hiff : i < n + 1 ↔ i < n := by omega
          simp [hiff]

lemma maskWords_spec (hfits : bits.length ≤ 64 * wordCount) :
    (maskWords p bits wordCount).length = wordCount ∧
      (∀ word ∈ maskWords p bits wordCount, word < 2 ^ 64) ∧
      ∀ i, wordsBit (maskWords p bits wordCount) i =
        (decide (i < bits.length) && p (bits.getD (bits.length - i - 1) ' ')) :=
  foldl_setMask_spec hfits le_rfl

lemma stateBit_eq (state : Char) :
    stateBit state = if isKnown state then some (isOne state) else none := by
  rw [stateBit, isKnown, isOne]
  by_cases hzero : (state = '0' || state = 'L' || state = 'l') = true
  · rw [if_pos hzero]
    simp only [Bool.or_eq_true, decide_eq_true_eq] at hzero
    rcases hzero with (rfl | rfl) | rfl <;> rfl
  · rw [if_neg hzero]
    simp only [Bool.or_eq_true, decide_eq_true_eq, not_or] at hzero
    obtain ⟨⟨h0, hL⟩, hl⟩ := hzero
    simp only [h0, hL, hl, decide_false, Bool.false_or, Bool.or_false]
    split_ifs with hone
    · rw [hone]
    · rfl

/-- Each bit of the row of a value is the state of that bit, counted from the right. -/
lemma bit_logicRow {time : ℕ} {text : String} (hfits : text.toList.length ≤ 64 * wordCount) {i : ℕ}
    (hi : i < text.toList.length) :
    (logicRow time text wordCount).bit i =
      stateBit (text.toList.getD (text.toList.length - i - 1) ' ') := by
  have hknown := (maskWords_spec (p := isKnown) hfits).2.2 i
  have hone := (maskWords_spec (p := isOne) hfits).2.2 i
  rw [decide_eq_true hi, Bool.true_and] at hknown hone
  rw [LogicRow.bit, logicRow, hknown, hone, stateBit_eq]

end Masks

/-! ### Reading what is written -/

section Reading

variable {file : List UInt8} {words : ℕ}

/-- A row that fits its words. -/
structure LogicRow.Fits (row : LogicRow) (words : ℕ) : Prop where
  time_lt : row.time < 2 ^ 64
  length_values : row.values.length = words
  length_known : row.known.length = words
  values_lt : ∀ word ∈ row.values, word < 2 ^ 64
  known_lt : ∀ word ∈ row.known, word < 2 ^ 64

lemma length_flatMap_leBytes (l : List ℕ) : (l.flatMap (leBytes 8)).length = l.length * 8 :=
  length_flatMap_of_forall fun n _ => length_leBytes 8 n

lemma LogicRow.Fits.length_writeRow {row : LogicRow} (h : row.Fits words) :
    (writeRow row).length = rowSize words := by
  rw [writeRow, List.length_append, List.length_append, length_leBytes, length_flatMap_leBytes,
    length_flatMap_leBytes, h.length_values, h.length_known, rowSize]
  omega

/-- Words are read back. -/
lemma mapM_readU64 {l : List ℕ} {pos : ℕ} (h : Placed file pos (l.flatMap (leBytes 8)))
    (hlt : ∀ word ∈ l, word < 2 ^ 64) :
    (List.range' 0 l.length).mapM (fun k => readU64 file (pos + k * 8)) = some l := by
  refine mapM_range' fun k hk => ?_
  have hplaced := h.flatMap (fun n _ => length_leBytes 8 n) hk
  rw [Nat.zero_add]
  exact hplaced.readU64 (hlt _ (List.getElem_mem hk))

lemma readRow_of_placed {row : LogicRow} (h : row.Fits words) {pos : ℕ}
    (hplaced : Placed file pos (writeRow row)) : readRow words file pos = some row := by
  have htime := hplaced.left.left.readU64 h.time_lt
  have hvalues := mapM_readU64 (hplaced.left.rightAt (by rw [length_leBytes])) h.values_lt
  have hseam : pos + (leBytes 8 row.time ++ row.values.flatMap (leBytes 8)).length =
      pos + 8 + words * 8 := by
    rw [List.length_append, length_leBytes, length_flatMap_leBytes, h.length_values]
    omega
  have hknown := mapM_readU64 (hplaced.rightAt hseam) h.known_lt
  rw [h.length_values] at hvalues
  rw [h.length_known] at hknown
  rw [readRow, htime, hvalues, hknown]
  rfl

/-- A file of rows is read back. -/
lemma readRows_flatMap {rows : List LogicRow} (h : ∀ row ∈ rows, row.Fits words) :
    readRows words (rows.flatMap writeRow) = some rows := by
  have hsize : ∀ row ∈ rows, (writeRow row).length = rowSize words :=
    fun row hrow => (h row hrow).length_writeRow
  have hcount : (rows.flatMap writeRow).length / rowSize words = rows.length := by
    rw [length_flatMap_of_forall hsize]
    exact Nat.mul_div_cancel _ (by rw [rowSize]; omega)
  rw [readRows, hcount]
  refine mapM_range' fun k hk => ?_
  have hplaced : Placed (rows.flatMap writeRow) 0 (rows.flatMap writeRow) := by
    rw [Placed, List.drop_zero]
  have hrow := hplaced.flatMap hsize hk
  rw [Nat.zero_add] at hrow ⊢
  exact readRow_of_placed (h _ (List.getElem_mem hk)) hrow

end Reading

/-! ### The rows of a signal -/

section Rows

variable {table : TimeTable} {signal : BitVectorSignal table} {first last : ℕ}

/-- The rows are the value at the start and those at the changes in the range. -/
lemma mem_exportRows {row : ℕ × String} : row ∈ exportRows signal first last ↔
    (∃ value, signal.rawAt first = some value ∧ row = (first, value.text)) ∨
      ∃ ti ∈ signal.timeIndicesOf, (first < table.timeAt ti ∧ table.timeAt ti ≤ last) ∧
        ∃ value, signal.rawAt (table.timeAt ti) = some value ∧
          row = (table.timeAt ti, value.text) := by
  rw [exportRows, List.mem_append, Option.mem_toList, List.mem_filterMap]
  refine or_congr ?_ ?_
  · rw [Option.map_eq_some_iff]
    exact exists_congr fun value => and_congr_right fun _ => eq_comm
  · refine exists_congr fun ti => and_congr_right fun hti => ?_
    rw [WaveSignal.rawAt_timeAt hti]
    dsimp only
    split_ifs with hrange
    · simp only [Bool.or_eq_true, decide_eq_true_eq] at hrange
      exact iff_of_false nofun fun h => by omega
    · simp only [Bool.or_eq_true, decide_eq_true_eq] at hrange
      rw [and_iff_right (by omega), Option.map_eq_some_iff]
      exact exists_congr fun value => and_congr_right fun _ => eq_comm

/-- The rows are in the order of their times. -/
lemma pairwise_exportRows :
    (exportRows signal first last).Pairwise fun a b => a.1 ≤ b.1 := by
  have hsome : ∀ {ti : ℕ} {row : ℕ × String},
      (if table.timeAt ti ≤ first || table.timeAt ti > last then none
        else (sampleRaw signal.changes ti).map fun value => (table.timeAt ti, value.text)) =
        some row → first < table.timeAt ti ∧ row.1 = table.timeAt ti := by
    intro ti row hrow
    split_ifs at hrow with hrange
    obtain ⟨value, -, rfl⟩ := Option.map_eq_some_iff.1 hrow
    simp only [Bool.or_eq_true, decide_eq_true_eq] at hrange
    exact ⟨by omega, rfl⟩
  rw [exportRows, List.pairwise_append]
  refine ⟨?_, ?_, ?_⟩
  · cases sampleRaw signal.changes (table.timeIdxOf first) with
    | none => exact List.Pairwise.nil
    | some value => exact List.pairwise_singleton _ _
  · rw [List.pairwise_filterMap]
    refine List.Pairwise.imp_of_mem (fun {ti tj} _ hj hle row hrow row' hrow' => ?_)
      (WaveSignal.pairwise_timeIndicesOf signal.toWaveSignal)
    rw [(hsome hrow).2, (hsome hrow').2]
    exact TimeTable.timeAt_le hle (WaveSignal.timeIndicesOf_lt hj)
  · intro row hrow row' hrow'
    rw [Option.mem_toList] at hrow
    obtain ⟨value, -, rfl⟩ := Option.map_eq_some_iff.1 hrow
    obtain ⟨ti, -, hti⟩ := List.mem_filterMap.1 hrow'
    have htime := hsome hti
    exact htime.2 ▸ htime.1.le

/-- Every row has the settled value of its time. -/
lemma rawAt_of_mem_exportRows {row : ℕ × String} (h : row ∈ exportRows signal first last) :
    ∃ value, signal.rawAt row.1 = some value ∧ row.2 = value.text := by
  rcases mem_exportRows.1 h with ⟨value, hvalue, rfl⟩ | ⟨ti, -, -, value, hvalue, rfl⟩
  · exact ⟨value, hvalue, rfl⟩
  · exact ⟨value, hvalue, rfl⟩

lemma range_of_mem_exportRows (hle : first ≤ last) {row : ℕ × String}
    (h : row ∈ exportRows signal first last) : first ≤ row.1 ∧ row.1 ≤ last := by
  rcases mem_exportRows.1 h with ⟨value, -, rfl⟩ | ⟨ti, -, hrange, value, -, rfl⟩
  · exact ⟨le_rfl, hle⟩
  · exact ⟨hrange.1.le, hrange.2⟩

/-- A settled value in the range has a row, and no row is between the two. -/
lemma exists_row {t : ℕ} {value : WaveformValue} (hfirst : first ≤ t) (hlast : t ≤ last)
    (hvalue : signal.rawAt t = some value) :
    ∃ row ∈ exportRows signal first last, row.1 ≤ t ∧ row.2 = value.text ∧
      ∀ row' ∈ exportRows signal first last, row'.1 ≤ t → row'.1 ≤ row.1 := by
  rcases WaveSignal.rawAt_of_changes signal.toWaveSignal hfirst with
    ⟨hnone, hsame⟩ | ⟨ti, hti, hrange, hmax, hsame⟩
  · refine ⟨(first, value.text), mem_exportRows.2 (Or.inl ⟨value, hsame ▸ hvalue, rfl⟩), hfirst,
      rfl, fun row' hrow' hle => ?_⟩
    rcases mem_exportRows.1 hrow' with ⟨_, -, rfl⟩ | ⟨tj, hj, hrange, _, -, rfl⟩
    · exact le_rfl
    · exact hnone tj hj hle
  · refine ⟨(table.timeAt ti, value.text), mem_exportRows.2 (Or.inr ⟨ti, hti,
      ⟨hrange.1, hrange.2.trans hlast⟩, value, hsame ▸ hvalue, rfl⟩), hrange.2, rfl,
      fun row' hrow' hle => ?_⟩
    rcases mem_exportRows.1 hrow' with ⟨_, -, rfl⟩ | ⟨tj, hj, -, _, -, rfl⟩
    · exact hrange.1.le
    · exact hmax tj hj hle

/-- A value of the signal fits its words. -/
lemma length_text_le {t : ℕ} {value : WaveformValue} (h : signal.rawAt t = some value) :
    value.text.toList.length = signal.width ∧
      value.text.toList.length ≤ 64 * wordCount signal := by
  obtain ⟨c, hc, rfl⟩ := exists_of_sampleRaw h
  refine ⟨signal.texts c hc, ?_⟩
  rw [signal.texts c hc, wordCount]
  omega

/-- The row of a value, as it is written. -/
def rowOf (signal : BitVectorSignal table) (row : ℕ × String) : LogicRow :=
  logicRow row.1 row.2 (wordCount signal)

lemma rowOf_fits (hle : first ≤ last) (hlast : last < 2 ^ 64) {row : ℕ × String}
    (h : row ∈ exportRows signal first last) : (rowOf signal row).Fits (wordCount signal) := by
  obtain ⟨value, hvalue, htext⟩ := rawAt_of_mem_exportRows h
  have hfits : row.2.toList.length ≤ 64 * wordCount signal := by
    rw [htext]
    exact (length_text_le hvalue).2
  have hvalues := maskWords_spec (p := isOne) hfits
  have hknown := maskWords_spec (p := isKnown) hfits
  exact ⟨(range_of_mem_exportRows hle h).2.trans_lt hlast, hvalues.1, hknown.1, hvalues.2.1,
    hknown.2.1⟩

/-- Reading the file gives the rows. -/
lemma readRows_exportFile (hle : first ≤ last) (hlast : last < 2 ^ 64) :
    readRows (wordCount signal) (exportFile signal first last) =
      some ((exportRows signal first last).map (rowOf signal)) := by
  have hfile : exportFile signal first last =
      ((exportRows signal first last).map (rowOf signal)).flatMap writeRow := by
    rw [exportFile, List.flatMap_map]
    rfl
  rw [hfile]
  refine readRows_flatMap fun row hrow => ?_
  obtain ⟨entry, hentry, rfl⟩ := List.mem_map.1 hrow
  exact rowOf_fits hle hlast hentry

/-- The rows that are read from a file give the signal back. -/
structure Reconstructs (signal : BitVectorSignal table) (first last : ℕ) (rows : List LogicRow) :
    Prop where
  ordered : rows.Pairwise fun a b => a.time ≤ b.time
  inRange : ∀ row ∈ rows, first ≤ row.time ∧ row.time ≤ last
  same : ∀ row ∈ rows, ∀ row' ∈ rows, row.time = row'.time → row = row'
  value : ∀ t, first ≤ t → t ≤ last → ∀ value, signal.rawAt t = some value →
    ∃ row, lastWhere (fun row : LogicRow => row.time ≤ t) rows = some row ∧
      ∀ i < signal.width,
        row.bit i = stateBit (value.text.toList.getD (signal.width - i - 1) ' ')

/-- Each exported file reconstructs its signal: the last row up to a time has the bits of the
settled value at that time. -/
theorem reconstructs_exportFile (table : TimeTable) (signal : BitVectorSignal table)
    (first last : ℕ) (hle : first ≤ last) (hlast : last < 2 ^ 64) :
    ∃ rows, readRows (wordCount signal) (exportFile signal first last) = some rows ∧
      Reconstructs signal first last rows := by
  have hsame : ∀ row ∈ exportRows signal first last, ∀ row' ∈ exportRows signal first last,
      row.1 = row'.1 → row = row' := by
    intro row hrow row' hrow' htime
    obtain ⟨value, hvalue, htext⟩ := rawAt_of_mem_exportRows hrow
    obtain ⟨value', hvalue', htext'⟩ := rawAt_of_mem_exportRows hrow'
    rw [htime, hvalue'] at hvalue
    rw [Prod.ext_iff, htext, htext', Option.some.inj hvalue]
    exact ⟨htime, rfl⟩
  have hordered : ((exportRows signal first last).map (rowOf signal)).Pairwise
      fun a b => a.time ≤ b.time := List.pairwise_map.2 pairwise_exportRows
  refine ⟨_, readRows_exportFile hle hlast, hordered, ?_, ?_, ?_⟩
  · intro row hrow
    obtain ⟨entry, hentry, rfl⟩ := List.mem_map.1 hrow
    exact range_of_mem_exportRows hle hentry
  · intro row hrow row' hrow' htime
    obtain ⟨entry, hentry, rfl⟩ := List.mem_map.1 hrow
    obtain ⟨entry', hentry', rfl⟩ := List.mem_map.1 hrow'
    rw [hsame entry hentry entry' hentry' htime]
  · intro t hfirst ht value hvalue
    obtain ⟨entry, hentry, htime, htext, hmax⟩ := exists_row hfirst ht hvalue
    refine ⟨rowOf signal entry, ?_, fun i hi => ?_⟩
    · refine lastWhere_eq_of_max hordered (List.mem_map_of_mem hentry) htime ?_ ?_
      · intro row hrow hrowt
        obtain ⟨entry', hentry', rfl⟩ := List.mem_map.1 hrow
        exact hmax entry' hentry' hrowt
      · intro row hrow htime'
        obtain ⟨entry', hentry', rfl⟩ := List.mem_map.1 hrow
        rw [hsame entry' hentry' entry hentry htime']
    · obtain ⟨hwidth, hfits⟩ := length_text_le hvalue
      rw [rowOf, htext, bit_logicRow hfits (by omega), hwidth]

end Rows

/-! ### A bus with a delta -/

lemma busTimes_sorted : [0, 5, 9].Pairwise (· < ·) := by decide

lemma busTimes_lt : ∀ t ∈ [0, 5, 9], t < 2 ^ 64 := by decide

def busTable : TimeTable := ⟨[0, 5, 9], busTimes_sorted, busTimes_lt⟩

/-- A bus of two bits that settles at the time 5 after a delta. -/
def busChanges : List Change :=
  [⟨0, { text := "0x" }⟩, ⟨1, { text := "11" }⟩, ⟨1, { text := "z1" }⟩]

lemma busChanges_sorted : busChanges.Pairwise fun a b => a.timeIdx ≤ b.timeIdx := by decide

lemma busChanges_inTable : ∀ c ∈ busChanges, c.timeIdx < busTable.times.length := by decide

lemma busChanges_texts : ∀ c ∈ busChanges, c.value.text.toList.length = 2 := by decide

def busSignal : BitVectorSignal busTable where
  width := 2
  changes := busChanges
  sorted := busChanges_sorted
  inTable := busChanges_inTable
  texts := busChanges_texts

/-- The export of the bus from the time 2 on. -/
theorem reconstructs_busSignal : (2 ≤ 9 ∧ 9 < 2 ^ 64) ∧
    ∃ rows, readRows (wordCount busSignal) (exportFile busSignal 2 9) = some rows ∧
      Reconstructs busSignal 2 9 rows :=
  ⟨by decide, reconstructs_exportFile busTable busSignal 2 9 (by decide) (by decide)⟩

/-- Both deltas at the time 5 add the same row. -/
example : exportRows busSignal 2 9 = [(2, "0x"), (5, "z1"), (5, "z1")] := by decide +kernel

end XdebugFst.Lists
