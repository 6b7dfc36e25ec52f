import Mathlib
import XdebugFst.DesignDb.Layout

/-!
# Reading a converted design

The file of a design holds the sections of the image (`Holds`). From that follow, in this order,
the texts that the offsets lead to, the records at their places, the acceptance of the file and
what the accessors answer.
-/

namespace XdebugFst.DesignDb

open Lib

/-! ### Records -/

section Records

variable {m : List UInt8} {pos : ℕ}

lemma readSignalRecord_eq {name type file : ℕ} {s : SourceSignal}
    (h : Placed m pos (packSignal name type file s)) (hname : name < 2 ^ 32)
    (htype : type < 2 ^ 32) (hfile : file < 2 ^ 32) :
    readSignalRecord m pos = some ⟨name, type, file, s.width.toInt, s.line.toInt,
      s.direction.toInt⟩ := by
  have h₁ : Placed m (pos + 4) (leBytes 4 type) := h.left.left.left.left.rightAt (by simp)
  have h₂ : Placed m (pos + 8) (leBytes 4 file) := h.left.left.left.rightAt (by simp)
  have h₃ : Placed m (pos + 12) (packI32 s.width) := h.left.left.rightAt (by simp)
  have h₄ : Placed m (pos + 16) (packI32 s.line) := h.left.rightAt (by simp)
  have h₅ : Placed m (pos + 20) (packI32 s.direction) := h.rightAt (by simp)
  rw [readSignalRecord, h.left.left.left.left.left.readU32 hname, h₁.readU32 htype,
    h₂.readU32 hfile, h₃.readI32, h₄.readI32, h₅.readI32]
  rfl

lemma readNameIndexRecord_eq {name index : ℕ} (h : Placed m pos (packName name index))
    (hname : name < 2 ^ 32) (hindex : index < 2 ^ 31) :
    readNameIndexRecord m pos = some ⟨name, index⟩ := by
  have h₁ : Placed m (pos + 4) (leBytes 4 index) := h.rightAt (by simp)
  rw [readNameIndexRecord, h.left.readU32 hname, h₁.readI32_nat hindex]
  rfl

lemma readDriverRecord_eq {index kind role predicate file : ℕ} {d : SourceDriver}
    (h : Placed m pos (packDriver index kind role predicate file d)) (hindex : index < 2 ^ 31)
    (hkind : kind < 2 ^ 32) (hrole : role < 2 ^ 32) (hpredicate : predicate < 2 ^ 32)
    (hfile : file < 2 ^ 32) :
    readDriverRecord m pos =
      some ⟨index, d.related.toInt, kind, role, predicate, file, d.line.toInt⟩ := by
  have h₁ : Placed m (pos + 4) (packI32 d.related) :=
    h.left.left.left.left.left.rightAt (by simp)
  have h₂ : Placed m (pos + 8) (leBytes 4 kind) := h.left.left.left.left.rightAt (by simp)
  have h₃ : Placed m (pos + 12) (leBytes 4 role) := h.left.left.left.rightAt (by simp)
  have h₄ : Placed m (pos + 16) (leBytes 4 predicate) := h.left.left.rightAt (by simp)
  have h₅ : Placed m (pos + 20) (leBytes 4 file) := h.left.rightAt (by simp)
  have h₆ : Placed m (pos + 24) (packI32 d.line) := h.rightAt (by simp)
  rw [readDriverRecord, h.left.left.left.left.left.left.readI32_nat hindex, h₁.readI32,
    h₂.readU32 hkind, h₃.readU32 hrole, h₄.readU32 hpredicate, h₅.readU32 hfile, h₆.readI32]
  rfl

lemma readLoadRecord_eq {index kind file : ℕ} {l : SourceLoad}
    (h : Placed m pos (packLoad index kind file l)) (hindex : index < 2 ^ 31)
    (hkind : kind < 2 ^ 32) (hfile : file < 2 ^ 32) :
    readLoadRecord m pos = some ⟨index, l.related.toInt, kind, file, l.line.toInt⟩ := by
  have h₁ : Placed m (pos + 4) (packI32 l.related) := h.left.left.left.rightAt (by simp)
  have h₂ : Placed m (pos + 8) (leBytes 4 kind) := h.left.left.rightAt (by simp)
  have h₃ : Placed m (pos + 12) (leBytes 4 file) := h.left.rightAt (by simp)
  have h₄ : Placed m (pos + 16) (packI32 l.line) := h.rightAt (by simp)
  rw [readLoadRecord, h.left.left.left.left.readI32_nat hindex, h₁.readI32, h₂.readU32 hkind,
    h₃.readU32 hfile, h₄.readI32]
  rfl

lemma readPortRecord_eq {index kind : ℕ} {p : SourcePort}
    (h : Placed m pos (packPort index kind p)) (hindex : index < 2 ^ 31) (hkind : kind < 2 ^ 32) :
    readPortRecord m pos = some ⟨index, p.related.toInt, kind⟩ := by
  have h₁ : Placed m (pos + 4) (packI32 p.related) := h.left.rightAt (by simp)
  have h₂ : Placed m (pos + 8) (leBytes 4 kind) := h.rightAt (by simp)
  rw [readPortRecord, h.left.left.readI32_nat hindex, h₁.readI32, h₂.readU32 hkind]
  rfl

end Records

/-! ### Grouped records -/

/-- The starts of a file cut its records into the given groups. -/
structure GroupsOf {α : Type} (db : BinaryDesignBackend) (starts records : SectionIndex)
    (groups : List (List α)) : Prop where
  length_eq : db.count .signals = groups.length
  startAt_eq : ∀ k ≤ groups.length, db.startAt starts k = some (groupStart groups k)
  count_eq : db.count records = (grouped groups).length
  small : (grouped groups).length ≤ 2 ^ 31 - 1

namespace GroupsOf

variable {α : Type} {db : BinaryDesignBackend} {starts records : SectionIndex}
  {groups : List (List α)} (h : GroupsOf db starts records groups)

include h

lemma accepts_validateStarts :
    Accepts (db.validateStarts starts (db.count records)) fun _ => True := by
  have hcut := isCut_groupStart groups
  rw [BinaryDesignBackend.validateStarts, h.length_eq]
  refine Accepts.load (h.startAt_eq 0 (Nat.zero_le _)) ?_
  refine Accepts.require (groupStart_zero groups) ?_
  refine Accepts.load (h.startAt_eq _ le_rfl) ?_
  refine Accepts.require (hcut.last.trans h.count_eq.symm) ?_
  refine Accepts.forFrom_unit fun j hj hlt => ?_
  obtain ⟨k, rfl⟩ := Nat.exists_eq_add_of_le' hj
  rw [BinaryDesignBackend.validateStart]
  refine Accepts.load (h.startAt_eq _ (by omega)) ?_
  refine Accepts.load (h.startAt_eq k (by omega)) ?_
  refine Accepts.require (hcut.step k (by omega)) ?_
  refine Accepts.load (h.startAt_eq _ (by omega)) ?_
  refine ⟨(), ?_, trivial⟩
  rw [require, if_pos]
  rw [h.count_eq]
  exact hcut.le (by omega)

/-- The owner that is found for a record is the group it came from. -/
lemma accepts_validateGrouped {check : ℕ → ℕ → Except Stop Unit}
    (hcheck : ∀ owner j x, (grouped groups)[j]? = some (owner, x) →
      Accepts (check owner j) fun _ => True) :
    Accepts (forFrom (db.validateGrouped starts check) (db.count records) 0 0)
      fun _ => True := by
  have hcut : IsCut _ _ _ := isCut_groupStart groups
  suffices hrun : Accepts (forFrom (db.validateGrouped starts check) (db.count records) 0 0)
      fun owner => owner ≤ groups.length ∧ groupStart groups owner ≤ 0 + db.count records by
    obtain ⟨owner, hok, -⟩ := hrun
    exact ⟨owner, hok, trivial⟩
  refine Accepts.forFrom (I := fun j owner => owner ≤ groups.length ∧
    groupStart groups owner ≤ j) ⟨Nat.zero_le _, le_rfl⟩ ?_
  rintro j owner - hj ⟨howner, hstart⟩
  rw [h.count_eq, Nat.zero_add] at hj
  obtain ⟨owner', hwalk, hlt, hle, hbefore⟩ := walkTo_yields hcut h.startAt_eq hj howner
    groups.length (by omega) hstart
  obtain ⟨x, -, hget⟩ := exists_of_mem_piece hlt hle hbefore
  obtain ⟨⟨⟩, hok, -⟩ := hcheck owner' j x hget
  rw [BinaryDesignBackend.validateGrouped, h.length_eq]
  refine Accepts.load hwalk (Accepts.require hlt ?_)
  rw [hok]
  exact .pure ⟨hlt.le, by omega⟩

lemma groupedRange_eq {k : ℕ} (hk : k < groups.length) :
    db.groupedRange starts records k =
      some (some (groupStart groups k, groupStart groups (k + 1))) := by
  have hcut : IsCut _ _ _ := isCut_groupStart groups
  have hvalid : db.validSignal k = true := by
    rw [BinaryDesignBackend.validSignal, h.length_eq]
    simpa using hk
  rw [BinaryDesignBackend.groupedRange, if_pos hvalid, Int.toNat_natCast,
    h.startAt_eq k hk.le, h.startAt_eq (k + 1) hk]
  show some (if _ ≤ db.count records then _ else _) = _
  rw [if_pos]
  rw [h.count_eq]
  exact hcut.le hk

lemma length_group_le {k : ℕ} (hk : k < groups.length) :
    (groups.get ⟨k, hk⟩).length < 2 ^ 31 := by
  have hcut : IsCut _ _ _ := isCut_groupStart groups
  have hle := hcut.le (a := k + 1) hk
  rw [groupStart_succ hk] at hle
  have := h.small
  omega

lemma groupedCount_eq {k : ℕ} (hk : k < groups.length) :
    db.groupedCount starts records k = some ((groups.get ⟨k, hk⟩).length : ℤ) := by
  have hlen := h.length_group_le hk
  rw [BinaryDesignBackend.groupedCount, h.groupedRange_eq hk]
  show some (toInt32 ((groupStart groups (k + 1) + 2 ^ 64 - groupStart groups k) % 2 ^ 64)) = _
  rw [groupStart_succ hk, show groupStart groups k + (groups.get ⟨k, hk⟩).length + 2 ^ 64 -
    groupStart groups k = (groups.get ⟨k, hk⟩).length + 2 ^ 64 by omega, Nat.add_mod_right,
    Nat.mod_eq_of_lt (by omega), toInt32_of_lt hlen]

lemma groupedRecords_eq {β : Type} {convert : ℕ → Option β} {f : ℕ × α → β}
    (hconvert : ∀ j entry, (grouped groups)[j]? = some entry → convert j = some (f entry))
    {k : ℕ} (hk : k < groups.length) :
    db.groupedRecords starts records convert k =
      some (((groups.get ⟨k, hk⟩).length : ℤ), (groups.get ⟨k, hk⟩).map fun x => f (k, x)) := by
  have hlen := h.length_group_le hk
  set out := (groups.get ⟨k, hk⟩).map fun x => f (k, x) with hout
  have houtlen : out.length = (groups.get ⟨k, hk⟩).length := List.length_map _
  have hrun : (List.range' (groupStart groups k) (groups.get ⟨k, hk⟩).length).mapM convert =
      some out := by
    rw [← houtlen]
    refine mapM_range' fun i hi => ?_
    rw [houtlen] at hi
    rw [hconvert _ _ (getElem?_grouped hk hi)]
    simp [hout]
  rw [BinaryDesignBackend.groupedRecords, h.groupedRange_eq hk]
  show ((List.range' (groupStart groups k) (groupStart groups (k + 1) - _)).mapM convert >>=
    fun out => some (toInt32 out.length, out)) = _
  rw [groupStart_succ hk, Nat.add_sub_cancel_left, hrun]
  show some (toInt32 out.length, out) = _
  rw [houtlen, toInt32_of_lt hlen]

end GroupsOf

/-! ### The name index -/

lemma nameLe_iff {a b : String × ℕ} : nameLe a b = true ↔ a.1.toList ≤ b.1.toList := by
  rw [nameLe, decide_eq_true_eq]

/-- The text of an entry of the name index. -/
lemma mem_of_sortedNames {signals : List SourceSignal} {entry : String × ℕ}
    (hentry : entry ∈ sortedNames signals) :
    entry.1 ∈ designTexts signals ∧ entry.2 < signals.length := by
  obtain ⟨s, hs, hname⟩ := mem_sortedNames hentry
  obtain ⟨hlt, rfl⟩ := List.getElem?_eq_some_iff.1 hs
  refine ⟨mem_of_signal (List.getElem_mem hlt) (SourceSignal.mem_texts.2 (.inl (.inl ?_))), hlt⟩
  exact hname.symm

lemma nodup_fst_sortedNames {signals : List SourceSignal}
    (h : (signals.map SourceSignal.name).Nodup) : ((sortedNames signals).map Prod.fst).Nodup := by
  have hperm := (List.mergeSort_perm (signals.map SourceSignal.name).zipIdx nameLe).map Prod.fst
  rw [List.zipIdx_map_fst] at hperm
  exact hperm.nodup_iff.2 h

lemma nodup_snd_sortedNames (signals : List SourceSignal) :
    ((sortedNames signals).map Prod.snd).Nodup := by
  have hperm := (List.mergeSort_perm (signals.map SourceSignal.name).zipIdx nameLe).map Prod.snd
  rw [List.zipIdx_map_snd] at hperm
  exact hperm.nodup_iff.2 List.nodup_range'

/-- The names of the index increase, as texts and therefore for `strcmp`. -/
lemma pairwise_sortedNames {signals : List SourceSignal}
    (h : (signals.map SourceSignal.name).Nodup) :
    (sortedNames signals).Pairwise fun a b =>
      compare (utf8 a.1.toList) (utf8 b.1.toList) = .lt := by
  have hle : (sortedNames signals).Pairwise fun a b => nameLe a b = true := by
    refine List.pairwise_mergeSort ?_ ?_ _
    · intro a b c hab hbc
      exact nameLe_iff.2 ((nameLe_iff.1 hab).trans (nameLe_iff.1 hbc))
    · intro a b
      rw [Bool.or_eq_true, nameLe_iff, nameLe_iff]
      exact le_total _ _
  have hne := List.pairwise_map.1 (nodup_fst_sortedNames h)
  refine (hle.and hne).imp ?_
  rintro a b ⟨hab, hne⟩
  refine compare_utf8 (lt_of_le_of_ne (nameLe_iff.1 hab) ?_)
  intro heq
  exact hne (String.toList_inj.1 heq)

/-! ### The designs and their files -/

/-- What the converter relies on: the names tell the signals apart, the numbers are in range and
the texts can end with a zero. -/
structure Convertible (signals : List SourceSignal) : Prop where
  names : (signals.map SourceSignal.name).Nodup
  directions : ∀ s ∈ signals, 0 ≤ s.direction.toInt ∧ s.direction.toInt ≤ 3
  sources : ∀ s ∈ signals, ∀ d ∈ s.drivers,
    -1 ≤ d.related.toInt ∧ d.related.toInt < signals.length
  consumers : ∀ s ∈ signals, ∀ l ∈ s.loads,
    0 ≤ l.related.toInt ∧ l.related.toInt < signals.length
  connected : ∀ s ∈ signals, ∀ p ∈ s.ports,
    0 ≤ p.related.toInt ∧ p.related.toInt < signals.length
  texts : ∀ t ∈ designTexts signals, '\x00' ∉ t.toList
  signals_le : signals.length ≤ 2 ^ 31 - 1
  drivers_le : groupTotal (signals.map SourceSignal.drivers) ≤ 2 ^ 31 - 1
  loads_le : groupTotal (signals.map SourceSignal.loads) ≤ 2 ^ 31 - 1
  ports_le : groupTotal (signals.map SourceSignal.ports) ≤ 2 ^ 31 - 1
  pool_lt : poolSize signals < 2 ^ 32

/-- A mapped file that holds the image of a design. -/
structure ImageOf (signals : List SourceSignal) (pool : Strings) (db : BinaryDesignBackend) :
    Prop where
  design : Convertible signals
  interned : FullPool signals pool
  holds : Holds db (sectionBytes pool signals) (sectionCount pool signals)

/-- The address of a text in the mapped file. -/
def textAddress (pool : Strings) (db : BinaryDesignBackend) (t : String) : ℕ :=
  (db.header.sections .strings).offset + pool.offset t

/-- What the loop over the name index knows before the entry `j`: the previous name, and that
the signals of the entries to come have no name yet. -/
structure NameInv (signals : List SourceSignal) (pool : Strings) (db : BinaryDesignBackend)
    (j : ℕ) (st : BinaryDesignBackend.NameState) : Prop where
  prior : match j with
    | 0 => st.prior = none
    | k + 1 => ∃ entry, (sortedNames signals)[k]? = some entry ∧
        st.prior = some (textAddress pool db entry.1)
  fresh : ∀ k entry, j ≤ k → (sortedNames signals)[k]? = some entry →
    st.indexedSignals[entry.2]? = some false

/-- The characters behind the pointer that an accessor returns. -/
def BinaryDesignBackend.pointee (db : BinaryDesignBackend) :
    Option (Option ℕ) → Option (List UInt8)
  | some (some value) => db.stringValue value
  | _ => none

def SourceDriver.entry (d : SourceDriver) : BinaryDesignBackend.DriverEntry where
  srcSignal := d.related.toInt
  kind := utf8 d.kind.toList
  dependencyRole := utf8 d.role.toList
  activationPredicate := utf8 d.predicate.toList
  file := utf8 d.file.toList
  line := d.line.toInt

def SourceLoad.entry (l : SourceLoad) : BinaryDesignBackend.LoadEntry where
  consumer := l.related.toInt
  kind := utf8 l.kind.toList
  file := utf8 l.file.toList
  line := l.line.toInt

/-- The port connection of a signal. -/
def SourcePort.connection (p : SourcePort) (i : ℕ) : BinaryDesignBackend.PortConnection where
  portSignal := i
  connectedSignal := p.related.toInt
  kind := utf8 p.kind.toList

namespace ImageOf

variable {signals : List SourceSignal} {pool : Strings} {db : BinaryDesignBackend}
  (h : ImageOf signals pool db)

include h

/-! ### Texts -/

lemma mem_offsets {t : String} (ht : t ∈ designTexts signals) :
    (t, pool.offset t) ∈ pool.offsets := by
  obtain ⟨offset, hoffset⟩ := Option.isSome_iff_exists.1 (h.interned.full t ht)
  have heq : pool.offset t = offset := by
    rw [Strings.offset, hoffset]
    rfl
  rw [heq]
  exact mem_of_lookup hoffset

lemma offset_add_le {t : String} (ht : t ∈ designTexts signals) :
    pool.offset t + (utf8 t.toList).length < pool.data.length := by
  have hle := (h.interned.placed _ (h.mem_offsets ht)).le (by simp)
  rw [List.length_append, List.length_singleton] at hle
  exact hle

lemma offset_lt {t : String} (ht : t ∈ designTexts signals) : pool.offset t < 2 ^ 32 := by
  have hle := h.offset_add_le ht
  have hdata : pool.data.length ≤ poolSize signals := h.interned.length_data_le
  have hpool := h.design.pool_lt
  omega

lemma placed_text {t : String} (ht : t ∈ designTexts signals) :
    Placed db.bytes (textAddress pool db t) (utf8 t.toList ++ [0]) := by
  have hsection : sectionBytes pool signals .strings = pool.data := rfl
  have hplaced := h.interned.placed _ (h.mem_offsets ht)
  rw [← hsection] at hplaced
  exact (h.holds.placed .strings).trans hplaced

lemma stringAt_eq {t : String} (ht : t ∈ designTexts signals) :
    db.stringAt (pool.offset t) = some (some (textAddress pool db t)) := by
  have hle := h.offset_add_le ht
  have hcount : (db.header.sections .strings).count = pool.data.length := h.holds.count_eq .strings
  have hfound : memchr ((db.header.sections .strings).count - pool.offset t)
      (db.bytes.drop (textAddress pool db t)) = some true :=
    (h.placed_text ht).memchr (by omega)
  rw [BinaryDesignBackend.stringAt]
  dsimp only
  rw [if_neg (by omega)]
  show (memchr _ (db.bytes.drop (textAddress pool db t)) >>= _) = _
  rw [hfound]
  rfl

lemma stringValue_eq {t : String} (ht : t ∈ designTexts signals) :
    db.stringValue (textAddress pool db t) = some (utf8 t.toList) :=
  (h.placed_text ht).cString (zero_notMem_utf8 (h.design.texts t ht))

lemma derefString_eq {t : String} (ht : t ∈ designTexts signals) :
    db.derefString (pool.offset t) = some (utf8 t.toList) := by
  rw [BinaryDesignBackend.derefString, h.stringAt_eq ht]
  exact h.stringValue_eq ht

lemma requireString_eq {t : String} (ht : t ∈ designTexts signals) :
    db.requireString (pool.offset t) = .ok (textAddress pool db t) := by
  rw [BinaryDesignBackend.requireString, h.stringAt_eq ht]
  rfl

/-! ### Records at their places -/

lemma count_signals : db.count .signals = signals.length := h.holds.count_eq .signals

lemma readSignal {i : ℕ} {s : SourceSignal} (hi : signals[i]? = some s) :
    readSignalRecord db.bytes (db.recordPos .signals i) =
      some ⟨pool.offset s.name, pool.offset s.type, pool.offset s.file, s.width.toInt,
        s.line.toInt, s.direction.toInt⟩ := by
  obtain ⟨hlt, rfl⟩ := List.getElem?_eq_some_iff.1 hi
  have hmem : ∀ t, t = signals[i].name ∨ t = signals[i].type ∨ t = signals[i].file →
      pool.offset t < 2 ^ 32 := by
    intro t ht
    exact h.offset_lt (mem_of_signal (List.getElem_mem hlt) (SourceSignal.mem_texts.2 (.inl ht)))
  have hplaced := (h.holds.placed .signals).flatMap (fun s _ => length_signalBytes _ s) hlt
  exact readSignalRecord_eq hplaced (hmem _ (by simp)) (hmem _ (by simp)) (hmem _ (by simp))

lemma readName {k : ℕ} {entry : String × ℕ} (hk : (sortedNames signals)[k]? = some entry) :
    readNameIndexRecord db.bytes (db.recordPos .nameIndex k) =
      some ⟨pool.offset entry.1, entry.2⟩ := by
  obtain ⟨hlt, rfl⟩ := List.getElem?_eq_some_iff.1 hk
  obtain ⟨htext, hindex⟩ := mem_of_sortedNames (List.getElem_mem hlt)
  have hplaced := (h.holds.placed .nameIndex).flatMap (fun e _ => length_nameBytes _ e) hlt
  have hle := h.design.signals_le
  exact readNameIndexRecord_eq hplaced (h.offset_lt htext) (by omega)

/-- The starts of some groups, with what belongs to them. -/
lemma groupsOf {α : Type} {starts records : SectionIndex} (field : SourceSignal → List α)
    (hwidth : starts.width = 8) (hstarts : sectionBytes pool signals starts =
      startsBytes (signals.map field) (signals.length + 1))
    (hcount : sectionCount pool signals records = groupTotal (signals.map field))
    (hsmall : groupTotal (signals.map field) ≤ 2 ^ 31 - 1) :
    GroupsOf db starts records (signals.map field) where
  length_eq := by rw [h.count_signals, List.length_map]
  startAt_eq k hk := by
    rw [List.length_map] at hk
    have hcut : IsCut _ _ _ := isCut_groupStart (signals.map field)
    have hle : groupStart (signals.map field) k ≤ _ := hcut.le (by rwa [List.length_map])
    rw [length_grouped] at hle
    have hplaced := h.holds.placed starts
    rw [hstarts] at hplaced
    have hlt : k < (List.range (signals.length + 1)).length := by
      rw [List.length_range]
      omega
    have hrec := hplaced.flatMap (fun k _ => length_leBytes 8 _) hlt
    rw [List.getElem_range] at hrec
    rw [BinaryDesignBackend.startAt, BinaryDesignBackend.recordPos, hwidth]
    rw [groupTotal] at hsmall
    exact hrec.readU64 (by omega)
  count_eq := by
    rw [h.holds.count_eq records, hcount, length_grouped]
    rfl
  small := by
    rw [length_grouped]
    exact hsmall

lemma driverGroups : GroupsOf db .driverStarts .drivers (signals.map SourceSignal.drivers) :=
  h.groupsOf SourceSignal.drivers rfl rfl rfl h.design.drivers_le

lemma loadGroups : GroupsOf db .loadStarts .loads (signals.map SourceSignal.loads) :=
  h.groupsOf SourceSignal.loads rfl rfl rfl h.design.loads_le

lemma portGroups : GroupsOf db .portStarts .ports (signals.map SourceSignal.ports) :=
  h.groupsOf SourceSignal.ports rfl rfl rfl h.design.ports_le

/-- A record of a table, with the signal that it belongs to. -/
lemma placed_record {α : Type} (records : SectionIndex) {field : SourceSignal → List α}
    {record : ℕ × α → List UInt8} (hwidth : ∀ entry, (record entry).length = records.width)
    (hrecords : sectionBytes pool signals records = tableBytes record (signals.map field))
    {j : ℕ} {entry : ℕ × α} (hj : (grouped (signals.map field))[j]? = some entry) :
    Placed db.bytes (db.recordPos records j) (record entry) ∧ entry.1 < signals.length ∧
      ∃ s ∈ signals, entry.2 ∈ field s := by
  obtain ⟨howner, hmem⟩ := mem_of_getElem?_grouped hj
  obtain ⟨hlt, rfl⟩ := List.getElem?_eq_some_iff.1 hj
  have hplaced := h.holds.placed records
  rw [hrecords, tableBytes] at hplaced
  refine ⟨hplaced.flatMap (fun entry _ => hwidth entry) hlt, by simpa using howner, ?_⟩
  rw [List.get_eq_getElem, List.getElem_map] at hmem
  exact ⟨_, List.getElem_mem _, hmem⟩

lemma readDriver {j : ℕ} {entry : ℕ × SourceDriver}
    (hj : (grouped (signals.map SourceSignal.drivers))[j]? = some entry) :
    readDriverRecord db.bytes (db.recordPos .drivers j) =
        some ⟨entry.1, entry.2.related.toInt, pool.offset entry.2.kind,
          pool.offset entry.2.role, pool.offset entry.2.predicate, pool.offset entry.2.file,
          entry.2.line.toInt⟩ ∧
      ∀ t ∈ entry.2.texts, t ∈ designTexts signals := by
  obtain ⟨hplaced, howner, s, hs, hd⟩ := h.placed_record .drivers (length_driverBytes pool.offset) rfl hj
  have htexts : ∀ t ∈ entry.2.texts, t ∈ designTexts signals := by
    intro t ht
    exact mem_of_signal hs (SourceSignal.mem_texts.2 (.inr (.inl ⟨entry.2, hd, ht⟩)))
  have hle := h.design.signals_le
  refine ⟨readDriverRecord_eq hplaced (by omega) ?_ ?_ ?_ ?_, htexts⟩
  all_goals exact h.offset_lt (htexts _ (by simp [SourceDriver.texts]))

lemma readLoad {j : ℕ} {entry : ℕ × SourceLoad}
    (hj : (grouped (signals.map SourceSignal.loads))[j]? = some entry) :
    readLoadRecord db.bytes (db.recordPos .loads j) =
        some ⟨entry.1, entry.2.related.toInt, pool.offset entry.2.kind,
          pool.offset entry.2.file, entry.2.line.toInt⟩ ∧
      ∀ t ∈ entry.2.texts, t ∈ designTexts signals := by
  obtain ⟨hplaced, howner, s, hs, hl⟩ := h.placed_record .loads (length_loadBytes pool.offset) rfl hj
  have htexts : ∀ t ∈ entry.2.texts, t ∈ designTexts signals := by
    intro t ht
    exact mem_of_signal hs (SourceSignal.mem_texts.2 (.inr (.inr (.inl ⟨entry.2, hl, ht⟩))))
  have hle := h.design.signals_le
  refine ⟨readLoadRecord_eq hplaced (by omega) ?_ ?_, htexts⟩
  all_goals exact h.offset_lt (htexts _ (by simp [SourceLoad.texts]))

lemma readPort {j : ℕ} {entry : ℕ × SourcePort}
    (hj : (grouped (signals.map SourceSignal.ports))[j]? = some entry) :
    readPortRecord db.bytes (db.recordPos .ports j) =
        some ⟨entry.1, entry.2.related.toInt, pool.offset entry.2.kind⟩ ∧
      ∀ t ∈ entry.2.texts, t ∈ designTexts signals := by
  obtain ⟨hplaced, howner, s, hs, hp⟩ := h.placed_record .ports (length_portBytes pool.offset) rfl hj
  have htexts : ∀ t ∈ entry.2.texts, t ∈ designTexts signals := by
    intro t ht
    exact mem_of_signal hs (SourceSignal.mem_texts.2 (.inr (.inr (.inr ⟨entry.2, hp, ht⟩))))
  have hle := h.design.signals_le
  refine ⟨readPortRecord_eq hplaced (by omega) ?_, htexts⟩
  exact h.offset_lt (htexts _ (by simp [SourcePort.texts]))

/-! ### Acceptance -/

lemma accepts_validateSignal {i : ℕ} (hi : i < signals.length) :
    Accepts (db.validateSignal i) fun _ => True := by
  have hs : signals[i] ∈ signals := List.getElem_mem hi
  have hmem : ∀ t, t = signals[i].name ∨ t = signals[i].type ∨ t = signals[i].file →
      t ∈ designTexts signals :=
    fun t ht => mem_of_signal hs (SourceSignal.mem_texts.2 (.inl ht))
  rw [BinaryDesignBackend.validateSignal]
  refine Accepts.load (h.readSignal (List.getElem?_eq_getElem hi)) ?_
  dsimp only
  rw [h.requireString_eq (hmem _ (by simp)), h.requireString_eq (hmem _ (by simp)),
    h.requireString_eq (hmem _ (by simp))]
  exact ⟨(), if_pos (h.design.directions _ hs), trivial⟩

lemma accepts_validateDriver {owner j : ℕ} {d : SourceDriver}
    (hj : (grouped (signals.map SourceSignal.drivers))[j]? = some (owner, d)) :
    Accepts (db.validateDriver owner j) fun _ => True := by
  obtain ⟨hread, htexts⟩ := h.readDriver hj
  obtain ⟨-, -, s, hs, hd⟩ := h.placed_record .drivers (length_driverBytes pool.offset) rfl hj
  have hrange := h.design.sources s hs d hd
  have hcount := h.count_signals
  rw [BinaryDesignBackend.validateDriver]
  refine Accepts.load hread ?_
  refine Accepts.require ⟨Int.natCast_nonneg _, Int.toNat_natCast _⟩ ?_
  refine Accepts.require ⟨hrange.1, ?_⟩ ?_
  · rintro ⟨hpos, hge⟩
    dsimp only at hpos hge
    omega
  · dsimp only
    rw [h.requireString_eq (htexts _ (by simp [SourceDriver.texts])),
      h.requireString_eq (htexts _ (by simp [SourceDriver.texts])),
      h.requireString_eq (htexts _ (by simp [SourceDriver.texts])),
      h.requireString_eq (htexts _ (by simp [SourceDriver.texts]))]
    exact .pure trivial

lemma accepts_validateLoad {owner j : ℕ} {l : SourceLoad}
    (hj : (grouped (signals.map SourceSignal.loads))[j]? = some (owner, l)) :
    Accepts (db.validateLoad owner j) fun _ => True := by
  obtain ⟨hread, htexts⟩ := h.readLoad hj
  obtain ⟨-, -, s, hs, hl⟩ := h.placed_record .loads (length_loadBytes pool.offset) rfl hj
  have hrange := h.design.consumers s hs l hl
  have hcount := h.count_signals
  rw [BinaryDesignBackend.validateLoad]
  refine Accepts.load hread ?_
  refine Accepts.require ⟨Int.natCast_nonneg _, hrange.1, Int.toNat_natCast _, ?_⟩ ?_
  · dsimp only
    omega
  · dsimp only
    rw [h.requireString_eq (htexts _ (by simp [SourceLoad.texts])),
      h.requireString_eq (htexts _ (by simp [SourceLoad.texts]))]
    exact .pure trivial

lemma accepts_validatePort {owner j : ℕ} {p : SourcePort}
    (hj : (grouped (signals.map SourceSignal.ports))[j]? = some (owner, p)) :
    Accepts (db.validatePort owner j) fun _ => True := by
  obtain ⟨hread, htexts⟩ := h.readPort hj
  obtain ⟨-, -, s, hs, hp⟩ := h.placed_record .ports (length_portBytes pool.offset) rfl hj
  have hrange := h.design.connected s hs p hp
  have hcount := h.count_signals
  rw [BinaryDesignBackend.validatePort]
  refine Accepts.load hread ?_
  refine Accepts.require ⟨Int.natCast_nonneg _, hrange.1, Int.toNat_natCast _, ?_⟩ ?_
  · dsimp only
    omega
  · dsimp only
    rw [h.requireString_eq (htexts _ (by simp [SourcePort.texts]))]
    exact .pure trivial

lemma accepts_validateName {j : ℕ} {st : BinaryDesignBackend.NameState} (hj : j < signals.length)
    (hst : NameInv signals pool db j st) :
    Accepts (db.validateName j st) (NameInv signals pool db (j + 1)) := by
  have hlt : j < (sortedNames signals).length := by rwa [length_sortedNames]
  set entry := (sortedNames signals)[j] with hentry
  have hget : (sortedNames signals)[j]? = some entry := List.getElem?_eq_getElem hlt
  obtain ⟨htext, hindex⟩ := mem_of_sortedNames (List.getElem_mem hlt)
  have hafter : db.requireAfter st.prior (textAddress pool db entry.1) = .ok () := by
    have hprior := hst.prior
    cases j with
    | zero =>
        rw [hprior]
        rfl
    | succ k =>
        obtain ⟨before, hbefore, hprior⟩ := hprior
        obtain ⟨hlt', rfl⟩ := List.getElem?_eq_some_iff.1 hbefore
        obtain ⟨htext', -⟩ := mem_of_sortedNames (List.getElem_mem hlt')
        have hless := List.pairwise_iff_getElem.1 (pairwise_sortedNames h.design.names) k (k + 1)
          hlt' hlt (Nat.lt_succ_self k)
        rw [hprior, BinaryDesignBackend.requireAfter, h.stringValue_eq htext',
          h.stringValue_eq htext]
        exact if_pos hless
  rw [BinaryDesignBackend.validateName]
  refine Accepts.load (h.readName hget) ?_
  dsimp only
  rw [h.requireString_eq htext]
  refine Accepts.require ⟨Int.natCast_nonneg _, ?_⟩ ?_
  · rw [h.count_signals, Int.toNat_natCast]
    exact hindex
  rw [Int.toNat_natCast]
  refine Accepts.load (hst.fresh j entry le_rfl hget) ?_
  refine Accepts.require rfl ?_
  rw [hafter]
  refine .pure ⟨⟨entry, hget, rfl⟩, ?_⟩
  -- the mark that is set is not that of a later entry
  intro k entry' hk hget'
  obtain ⟨hlt', rfl⟩ := List.getElem?_eq_some_iff.1 hget'
  have hne := List.pairwise_iff_getElem.1 (List.pairwise_map.1 (nodup_snd_sortedNames signals))
    j k hlt hlt' hk
  rw [List.getElem?_set_ne hne]
  exact hst.fresh k _ (Nat.le_of_succ_le hk) hget'

lemma accepts_names : Accepts (forFrom db.validateName (db.count .signals) 0
    { prior := none, indexedSignals := List.replicate (db.count .signals) false })
      fun _ => True := by
  rw [h.count_signals]
  suffices hrun : Accepts (forFrom db.validateName signals.length 0
      { prior := none, indexedSignals := List.replicate signals.length false })
      (NameInv signals pool db (0 + signals.length)) by
    obtain ⟨st, hok, -⟩ := hrun
    exact ⟨st, hok, trivial⟩
  refine Accepts.forFrom (I := NameInv signals pool db) ⟨rfl, ?_⟩ ?_
  · intro k entry _ hk
    obtain ⟨hlt, rfl⟩ := List.getElem?_eq_some_iff.1 hk
    obtain ⟨-, hindex⟩ := mem_of_sortedNames (List.getElem_mem hlt)
    exact List.getElem?_replicate_of_lt hindex
  · intro j st _ hj hst
    exact h.accepts_validateName (by omega) hst

/-- The file passes every check. -/
lemma validate_eq (hgood : GoodHeader db) : db.validate = .ok () := by
  have hcount := h.holds.count_eq
  suffices hrun : Accepts db.validate fun _ => True by
    obtain ⟨⟨⟩, hok, -⟩ := hrun
    exact hok
  rw [BinaryDesignBackend.validate]
  refine Accepts.require hgood.fields (Accepts.require hgood.sections ?_)
  refine Accepts.require ?_ ?_
  · simp only [hcount]
    refine ⟨h.design.signals_le, h.design.drivers_le, h.design.loads_le, h.design.ports_le, rfl,
      rfl, rfl, rfl, ?_⟩
    have hlt := h.offset_add_le (mem_designTexts.2 (.inl rfl))
    show pool.data.length ≠ 0
    omega
  rw [hgood.layout]
  have hsignals : Accepts (forFrom (fun i _ => db.validateSignal i) (db.count .signals) 0 ())
      fun _ => True := by
    refine Accepts.forFrom_unit fun j _ hj => ?_
    rw [h.count_signals] at hj
    exact h.accepts_validateSignal (by omega)
  refine hsignals.bind fun _ _ => h.accepts_names.bind fun _ _ => ?_
  refine h.driverGroups.accepts_validateStarts.bind fun _ _ => ?_
  refine h.loadGroups.accepts_validateStarts.bind fun _ _ => ?_
  refine h.portGroups.accepts_validateStarts.bind fun _ _ => ?_
  refine (h.driverGroups.accepts_validateGrouped fun _ _ _ =>
    h.accepts_validateDriver).bind fun _ _ => ?_
  refine (h.loadGroups.accepts_validateGrouped fun _ _ _ =>
    h.accepts_validateLoad).bind fun _ _ => ?_
  refine (h.portGroups.accepts_validateGrouped fun _ _ _ =>
    h.accepts_validatePort).bind fun _ _ => ?_
  exact .pure trivial

/-! ### Accessors -/

lemma validSignal_eq {i : ℕ} (hi : i < signals.length) : db.validSignal i = true := by
  rw [BinaryDesignBackend.validSignal, h.count_signals]
  simpa using hi

lemma signalRecord_eq {i : ℕ} {s : SourceSignal} (hi : signals[i]? = some s) :
    db.signalRecord i = some ⟨pool.offset s.name, pool.offset s.type, pool.offset s.file,
      s.width.toInt, s.line.toInt, s.direction.toInt⟩ := by
  rw [BinaryDesignBackend.signalRecord, Int.toNat_natCast]
  exact h.readSignal hi

lemma signalField_eq {i : ℕ} {s : SourceSignal} (hi : signals[i]? = some s)
    (field : SignalRecord → ℤ) :
    db.signalField field i = some (field ⟨pool.offset s.name, pool.offset s.type,
      pool.offset s.file, s.width.toInt, s.line.toInt, s.direction.toInt⟩) := by
  obtain ⟨hlt, -⟩ := List.getElem?_eq_some_iff.1 hi
  rw [BinaryDesignBackend.signalField, if_pos (h.validSignal_eq hlt), h.signalRecord_eq hi]
  rfl

lemma pointee_signalString {i : ℕ} {s : SourceSignal} (hi : signals[i]? = some s)
    {field : SignalRecord → ℕ} {t : String} (ht : t = s.name ∨ t = s.type ∨ t = s.file)
    (hfield : field ⟨pool.offset s.name, pool.offset s.type, pool.offset s.file, s.width.toInt,
      s.line.toInt, s.direction.toInt⟩ = pool.offset t) :
    db.pointee (db.signalString field i) = some (utf8 t.toList) := by
  obtain ⟨hlt, hget⟩ := List.getElem?_eq_some_iff.1 hi
  have hmem : t ∈ designTexts signals :=
    mem_of_signal (hget ▸ List.getElem_mem hlt) (SourceSignal.mem_texts.2 (.inl ht))
  rw [BinaryDesignBackend.signalString, if_pos (h.validSignal_eq hlt), h.signalRecord_eq hi]
  show db.pointee (db.stringAt (field _)) = _
  rw [hfield, h.stringAt_eq hmem]
  exact h.stringValue_eq hmem

lemma driverEntry_eq {j : ℕ} {entry : ℕ × SourceDriver}
    (hj : (grouped (signals.map SourceSignal.drivers))[j]? = some entry) :
    db.driverEntry j = some entry.2.entry := by
  obtain ⟨hread, htexts⟩ := h.readDriver hj
  rw [BinaryDesignBackend.driverEntry, hread]
  show (db.derefString (pool.offset entry.2.kind) >>= _) = _
  rw [h.derefString_eq (htexts _ (by simp [SourceDriver.texts]))]
  show (db.derefString (pool.offset entry.2.role) >>= _) = _
  rw [h.derefString_eq (htexts _ (by simp [SourceDriver.texts]))]
  show (db.derefString (pool.offset entry.2.predicate) >>= _) = _
  rw [h.derefString_eq (htexts _ (by simp [SourceDriver.texts]))]
  show (db.derefString (pool.offset entry.2.file) >>= _) = _
  rw [h.derefString_eq (htexts _ (by simp [SourceDriver.texts]))]
  rfl

lemma loadEntry_eq {j : ℕ} {entry : ℕ × SourceLoad}
    (hj : (grouped (signals.map SourceSignal.loads))[j]? = some entry) :
    db.loadEntry j = some entry.2.entry := by
  obtain ⟨hread, htexts⟩ := h.readLoad hj
  rw [BinaryDesignBackend.loadEntry, hread]
  show (db.derefString (pool.offset entry.2.kind) >>= _) = _
  rw [h.derefString_eq (htexts _ (by simp [SourceLoad.texts]))]
  show (db.derefString (pool.offset entry.2.file) >>= _) = _
  rw [h.derefString_eq (htexts _ (by simp [SourceLoad.texts]))]
  rfl

lemma portConnection_eq {j : ℕ} {entry : ℕ × SourcePort}
    (hj : (grouped (signals.map SourceSignal.ports))[j]? = some entry) :
    db.portConnection j = some (entry.2.connection entry.1) := by
  obtain ⟨hread, htexts⟩ := h.readPort hj
  rw [BinaryDesignBackend.portConnection, hread]
  show (db.derefString (pool.offset entry.2.kind) >>= _) = _
  rw [h.derefString_eq (htexts _ (by simp [SourcePort.texts]))]
  rfl

/-- The binary search finds the entry `p`, whose name it looks for. -/
lemma exactBetween_eq {p : ℕ} {entry : String × ℕ}
    (hp : (sortedNames signals)[p]? = some entry) {fuel low high : ℕ} (hlow : low ≤ p)
    (hhigh : p < high) (hlen : high ≤ signals.length) (hfuel : high ≤ low + fuel) :
    db.exactBetween (utf8 entry.1.toList) fuel low high = some (entry.2 : ℤ) := by
  obtain ⟨hltp, rfl⟩ := List.getElem?_eq_some_iff.1 hp
  have hpairwise := List.pairwise_iff_getElem.1 (pairwise_sortedNames h.design.names)
  induction fuel generalizing low high with
  | zero => omega
  | succ fuel ih =>
      set mid := low + (high - low) / 2 with hmid
      have hltm : mid < (sortedNames signals).length := by
        rw [length_sortedNames]
        omega
      obtain ⟨htext, -⟩ := mem_of_sortedNames (List.getElem_mem hltm)
      rw [BinaryDesignBackend.exactBetween, if_pos (by omega)]
      dsimp only
      rw [← hmid, h.readName (List.getElem?_eq_getElem hltm)]
      show (db.derefString (pool.offset _) >>= _) = _
      rw [h.derefString_eq htext]
      dsimp only [Option.bind_eq_bind, Option.bind_some]
      rw [BinaryDesignBackend.strcmp]
      rcases lt_trichotomy p mid with hlt | heq | hgt
      · rw [hpairwise p mid hltp hltm hlt]
        exact ih hlow hlt (by omega) (by omega)
      · subst heq
        rw [Std.ReflOrd.compare_self]
        rfl
      · rw [Std.OrientedCmp.gt_iff_lt.2 (hpairwise mid p hltm hltp hgt)]
        exact ih hgt hhigh hlen (by omega)

/-- A name leads to its signal. -/
lemma resolve_eq {i : ℕ} {s : SourceSignal} (hi : signals[i]? = some s) (hname : s.name ≠ "") :
    db.resolve (some (utf8 s.name.toList)) = some (i : ℤ) := by
  obtain ⟨hlt, hget⟩ := List.getElem?_eq_some_iff.1 hi
  have hmem : s.name ∈ designTexts signals :=
    mem_of_signal (hget ▸ List.getElem_mem hlt) (SourceSignal.mem_texts.2 (.inl (.inl rfl)))
  have hentry : (s.name, i) ∈ sortedNames signals := by
    rw [sortedNames, List.mem_mergeSort, List.mem_zipIdx_iff_getElem?, List.getElem?_map, hi]
    rfl
  obtain ⟨p, hp⟩ := List.mem_iff_getElem?.1 hentry
  obtain ⟨hltp, -⟩ := List.getElem?_eq_some_iff.1 hp
  rw [length_sortedNames] at hltp
  have hexact : db.exact (utf8 s.name.toList) = some (i : ℤ) := by
    have hcount : db.count .nameIndex = signals.length := h.holds.count_eq .nameIndex
    rw [BinaryDesignBackend.exact, hcount]
    exact h.exactBetween_eq hp (Nat.zero_le p) hltp le_rfl (by omega)
  have hzero := zero_notMem_utf8 (h.design.texts _ hmem)
  have hquery : (utf8 s.name.toList).takeWhile (· ≠ 0) = utf8 s.name.toList := by
    rw [List.takeWhile_eq_self_iff]
    intro c hc
    rw [decide_eq_true_eq]
    rintro rfl
    exact hzero hc
  obtain ⟨c, rest, hcons⟩ :=
    List.exists_cons_of_ne_nil (utf8_ne_nil (mt String.toList_eq_nil_iff.1 hname))
  rw [BinaryDesignBackend.resolve, Option.map_some, hquery, hcons]
  dsimp only
  rw [← hcons, hexact]
  simp only [Option.bind_eq_bind, Option.bind_some, ge_iff_le, Int.natCast_nonneg, if_true]
  rfl

end ImageOf

/-- The accessors of a reader answer with what the design says about a signal. -/
structure ReadsSignal (db : BinaryDesignBackend) (i : ℕ) (s : SourceSignal) : Prop where
  name : db.pointee (db.signalName i) = some (utf8 s.name.toList)
  type : db.pointee (db.signalType i) = some (utf8 s.type.toList)
  file : db.pointee (db.signalFile i) = some (utf8 s.file.toList)
  width : db.signalWidth i = some s.width.toInt
  line : db.signalLine i = some s.line.toInt
  direction : db.signalDirection i = some s.direction.toInt
  driverCount : db.traceDriverCount i = some (s.drivers.length : ℤ)
  drivers : db.traceDriver i = some ((s.drivers.length : ℤ), s.drivers.map SourceDriver.entry)
  loadCount : db.traceLoadCount i = some (s.loads.length : ℤ)
  loads : db.traceLoad i = some ((s.loads.length : ℤ), s.loads.map SourceLoad.entry)
  portCount : db.portConnCount i = some (s.ports.length : ℤ)
  ports : db.portConnections i =
    some ((s.ports.length : ℤ), s.ports.map fun p => p.connection i)

lemma ImageOf.readsSignal {signals : List SourceSignal} {pool : Strings}
    {db : BinaryDesignBackend} (h : ImageOf signals pool db) {i : ℕ} {s : SourceSignal}
    (hi : signals[i]? = some s) : ReadsSignal db i s := by
  obtain ⟨hlt, rfl⟩ := List.getElem?_eq_some_iff.1 hi
  have hgroup : ∀ {α : Type} (field : SourceSignal → List α), i < (signals.map field).length := by
    intro α field
    rwa [List.length_map]
  constructor
  · exact h.pointee_signalString hi (.inl rfl) rfl
  · exact h.pointee_signalString hi (.inr (.inl rfl)) rfl
  · exact h.pointee_signalString hi (.inr (.inr rfl)) rfl
  · exact h.signalField_eq hi _
  · exact h.signalField_eq hi _
  · exact h.signalField_eq hi _
  · have heq := h.driverGroups.groupedCount_eq (hgroup SourceSignal.drivers)
    rw [List.get_eq_getElem, List.getElem_map] at heq
    exact heq
  · have heq := h.driverGroups.groupedRecords_eq (f := fun entry => entry.2.entry)
      (fun _ _ => h.driverEntry_eq) (hgroup SourceSignal.drivers)
    rw [List.get_eq_getElem, List.getElem_map] at heq
    exact heq
  · have heq := h.loadGroups.groupedCount_eq (hgroup SourceSignal.loads)
    rw [List.get_eq_getElem, List.getElem_map] at heq
    exact heq
  · have heq := h.loadGroups.groupedRecords_eq (f := fun entry => entry.2.entry)
      (fun _ _ => h.loadEntry_eq) (hgroup SourceSignal.loads)
    rw [List.get_eq_getElem, List.getElem_map] at heq
    exact heq
  · have heq := h.portGroups.groupedCount_eq (hgroup SourceSignal.ports)
    rw [List.get_eq_getElem, List.getElem_map] at heq
    exact heq
  · have heq := h.portGroups.groupedRecords_eq (f := fun entry => entry.2.connection entry.1)
      (fun _ _ => h.portConnection_eq) (hgroup SourceSignal.ports)
    rw [List.get_eq_getElem, List.getElem_map] at heq
    exact heq

/-! ### The round trip -/

/-- The file is far smaller than what 64-bit offsets can reach. -/
lemma packBody_lt {signals : List SourceSignal} {pool : Strings} (hdesign : Convertible signals)
    (hpool : FullPool signals pool) :
    (packBody headerBytes (blobsOf (sectionBytes pool signals) (sectionCount pool signals)
      SectionIndex.all)).2.2 < 2 ^ 64 := by
  refine (packBody_le _ _).trans_lt ?_
  have hdata : pool.data.length ≤ poolSize signals := hpool.length_data_le
  have hlt := hdesign.pool_lt
  have hsignals := hdesign.signals_le
  have hdrivers := hdesign.drivers_le
  have hloads := hdesign.loads_le
  have hports := hdesign.ports_le
  simp only [blobsOf, SectionIndex.all, List.map_cons, List.map_nil, List.sum_cons, List.sum_nil,
    length_sectionBytes, sectionCount, SectionIndex.width, headerBytes]
  omega

/-- What the converter writes is accepted by the reader, which gives the design back. -/
theorem convert_openFile {signals : List SourceSignal} (hdesign : Convertible signals) :
    ∃ bytes db, convert signals = .ok bytes ∧ openFile bytes = .ok db ∧
      db.signalCount = signals.length ∧ ∀ i s, signals[i]? = some s →
        ReadsSignal db i s ∧
          (s.name ≠ "" → db.resolve (some (utf8 s.name.toList)) = some (i : ℤ)) := by
  obtain ⟨pool, hpool, hconvert⟩ := convert_eq hdesign.pool_lt.le
  obtain ⟨db, hbytes, hholds, hgood⟩ := exists_backend (length_sectionBytes pool signals)
    (packBody_lt hdesign hpool)
  have himage : ImageOf signals pool db := ⟨hdesign, hpool, hholds⟩
  refine ⟨db.bytes, db, ?_, openFile_eq hgood.long (himage.validate_eq hgood), ?_, ?_⟩
  · rw [hconvert, hbytes]
    rfl
  · rw [BinaryDesignBackend.signalCount, himage.count_signals]
    have hle := hdesign.signals_le
    exact toInt32_of_lt (by omega)
  · intro i s hi
    exact ⟨himage.readsSignal hi, himage.resolve_eq hi⟩

/-- A design of two signals, in which one drives the other. -/
def twoSignals : List SourceSignal :=
  [{ name := "top.q", type := "reg", file := "a.sv", width := 8, line := 3, direction := 2
     drivers := [⟨1, "assign", "data", "", "a.sv", 4⟩, ⟨-1, "const", "", "en", "a.sv", 5⟩]
     loads := [], ports := [⟨1, "port"⟩] },
   { name := "top.a", type := "wire", file := "b.sv", width := 8, line := 1, direction := 1
     drivers := [], loads := [⟨0, "assign", "a.sv", 4⟩], ports := [] }]

lemma twoSignals_convertible : Convertible twoSignals where
  names := by decide
  directions := by decide
  sources := by decide
  consumers := by decide
  connected := by decide
  texts := by decide
  signals_le := by decide
  drivers_le := by decide
  loads_le := by decide
  ports_le := by decide
  pool_lt := by decide

theorem twoSignals_openFile : Convertible twoSignals ∧
    ∃ bytes db, convert twoSignals = .ok bytes ∧ openFile bytes = .ok db ∧
      db.signalCount = 2 ∧ ∀ i s, twoSignals[i]? = some s → ReadsSignal db i s ∧
        (s.name ≠ "" → db.resolve (some (utf8 s.name.toList)) = some (i : ℤ)) :=
  ⟨twoSignals_convertible, convert_openFile twoSignals_convertible⟩

/-- A design of one signal without a name. -/
def unnamedSignal : SourceSignal :=
  { name := "", type := "", file := "", width := 1, line := 0, direction := 0
    drivers := [], loads := [], ports := [] }

lemma unnamed_convertible : Convertible [unnamedSignal] where
  names := by decide
  directions := by decide
  sources := by decide
  consumers := by decide
  connected := by decide
  texts := by decide
  signals_le := by decide
  drivers_le := by decide
  loads_le := by decide
  ports_le := by decide
  pool_lt := by decide

/-- The empty name is stored and indexed, but `resolve` does not look for it. -/
theorem not_forall_resolve : ¬ ∀ signals, Convertible signals →
    ∃ bytes db, convert signals = .ok bytes ∧ openFile bytes = .ok db ∧
      ∀ i s, signals[i]? = some s →
        ReadsSignal db i s ∧ db.resolve (some (utf8 s.name.toList)) = some (i : ℤ) := by
  intro hall
  obtain ⟨bytes, db, -, -, hread⟩ := hall [unnamedSignal] unnamed_convertible
  have hresolve := (hread 0 unnamedSignal rfl).2
  have hminus : db.resolve (some (utf8 unnamedSignal.name.toList)) = some (-1) := rfl
  rw [hminus] at hresolve
  cases hresolve

end XdebugFst.DesignDb
