import Mathlib
import XdebugFst.DesignDb.Binary

/-!
Memory safety of the compact design database.

The file is whatever is on the disk. The reader looks at it once, in
`validate`, and trusts it afterwards; so what `validate` establishes
must be all that the accessors rely on, and `validate` itself must not
follow anything it has not yet checked.

Every step of the validation gets one lemma of the form `Checks`, which
says both that the step does not fault, given what the steps before it
established, and what its success means. They add up to `Valid`, the
facts that an accepted file satisfies, and every accessor is shown not
to fault on a file with those facts. The owner walk of `validate` and
the ranges of `grouped_range` meet in `Grouped`: the walk arrives at the
one group whose range contains the record.
-/

namespace XdebugFst.DesignDb

open Lib

namespace BinaryDesignBackend

variable (db : BinaryDesignBackend)

/-! ### What a sound file satisfies -/

/-- The first byte of a section. -/
def offset (i : SectionIndex) : ℕ := (db.header.sections i).offset

/-- The bytes of a section. -/
def extent (i : SectionIndex) : Set ℕ :=
  Set.Ico (db.offset i) (db.offset i + db.count i * i.width)

/-- The sections lie behind the header and inside the file. -/
def Inside : Prop :=
  ∀ i, headerBytes ≤ db.offset i ∧ db.offset i + db.count i * i.width ≤ db.bytes.length

/-- An address inside the string section from which a terminating zero
of the same section can be reached. -/
def IsString (value : ℕ) : Prop :=
  db.offset .strings ≤ value ∧
    ∃ stop ∈ db.extent .strings, value ≤ stop ∧ db.bytes[stop]? = some 0

/-- The offset leads to a string. -/
def HasString (offset : ℕ) : Prop :=
  ∃ value, db.stringAt offset = some (some value) ∧ db.IsString value

/-- The answer of an accessor that hands out a string of the signal
`idx`: a string, or null when there is no such signal. -/
def StringAnswer (idx : ℤ) (p : Option ℕ) : Prop :=
  if db.validSignal idx then ∃ value, p = some value ∧ db.IsString value else p = none

/-- The strings of a signal record are strings. -/
def SignalOk (i : ℕ) : Prop :=
  Yields (readSignalRecord db.bytes (db.recordPos .signals i)) fun r =>
    db.HasString r.name ∧ db.HasString r.type ∧ db.HasString r.file

/-- An entry of the name index names a signal of the database. -/
def NameOk (i : ℕ) : Prop :=
  Yields (readNameIndexRecord db.bytes (db.recordPos .nameIndex i)) fun r =>
    db.HasString r.name ∧ db.validSignal r.signal = true

/-- A driver record that belongs to the signal `owner`. -/
def DriverOk (owner i : ℕ) : Prop :=
  Yields (readDriverRecord db.bytes (db.recordPos .drivers i)) fun r =>
    r.target = owner ∧ (r.source = -1 ∨ db.validSignal r.source = true) ∧
      db.HasString r.kind ∧ db.HasString r.role ∧ db.HasString r.predicate ∧ db.HasString r.file

/-- A load record that belongs to the signal `owner`. -/
def LoadOk (owner i : ℕ) : Prop :=
  Yields (readLoadRecord db.bytes (db.recordPos .loads i)) fun r =>
    r.source = owner ∧ db.validSignal r.consumer = true ∧
      db.HasString r.kind ∧ db.HasString r.file

/-- A port record that belongs to the signal `owner`. -/
def PortOk (owner i : ℕ) : Prop :=
  Yields (readPortRecord db.bytes (db.recordPos .ports i)) fun r =>
    r.signal = owner ∧ db.validSignal r.connected = true ∧ db.HasString r.kind

/-- The prefix sums of `starts` cut the section `records` into one range
for each signal, and the records of a range are good records of its
signal. -/
def Grouped (starts records : SectionIndex) (ok : ℕ → ℕ → Prop) : Prop :=
  ∃ s : ℕ → ℕ, (∀ a ≤ db.count .signals, db.startAt starts a = some (s a)) ∧
    IsCut s (db.count .signals) (db.count records) ∧
    ∀ a < db.count .signals, ∀ j, s a ≤ j → j < s (a + 1) → ok a j

/-- What `validate` establishes. -/
structure Valid : Prop where
  inside : db.Inside
  aligned : ∀ i, db.offset i % 8 = 0
  disjoint : ∀ i j, i ≠ j → Disjoint (db.extent i) (db.extent j)
  signals_count : db.count .signals < 2 ^ 31
  drivers_count : db.count .drivers < 2 ^ 31
  loads_count : db.count .loads < 2 ^ 31
  ports_count : db.count .ports < 2 ^ 31
  names_count : db.count .nameIndex = db.count .signals
  signal : ∀ i < db.count .signals, db.SignalOk i
  name : ∀ i < db.count .signals, db.NameOk i
  drivers : db.Grouped .driverStarts .drivers db.DriverOk
  loads : db.Grouped .loadStarts .loads db.LoadOk
  ports : db.Grouped .portStarts .ports db.PortOk

variable {db}

/-! ### Loads inside the file -/

lemma Inside.recordPos_le (h : db.Inside) {i : SectionIndex} {k : ℕ} (hk : k < db.count i) :
    db.recordPos i k + i.width ≤ db.bytes.length := by
  have hend := (h i).2
  have hmul : (k + 1) * i.width ≤ db.count i * i.width := Nat.mul_le_mul_right _ hk
  rw [Nat.succ_mul] at hmul
  unfold recordPos
  unfold offset at hend
  omega

lemma Inside.startAt_yields (h : db.Inside) {starts : SectionIndex} {k : ℕ}
    (hw : starts.width = 8) (hk : k < db.count starts) :
    Yields (db.startAt starts k) fun _ => True := by
  have hpos := h.recordPos_le hk
  rw [hw] at hpos
  exact (readU64_yields hpos).mono fun _ _ => trivial

/-- `string_at` does not fault, and what it answers is null or a
string. -/
lemma Inside.stringAt_yields (h : db.Inside) (offset : ℕ) :
    Yields (db.stringAt offset) fun p => ∀ value, p = some value → db.IsString value := by
  unfold stringAt
  dsimp only
  split
  · exact .pure (by simp)
  next hlt =>
    have hend := (h .strings).2
    unfold BinaryDesignBackend.offset count at hend
    simp only [SectionIndex.width, mul_one] at hend
    refine (memchr_yields ?_).bind fun found hfound => .pure ?_
    · rw [List.length_drop]
      omega
    · intro value hvalue
      cases found with
      | false => simp at hvalue
      | true =>
          obtain rfl : (db.header.sections .strings).offset + offset = value := by
            simpa using hvalue
          obtain ⟨k, hk, hbk⟩ := hfound rfl
          rw [List.getElem?_drop] at hbk
          refine ⟨Nat.le_add_right _ _, _, ?_, Nat.le_add_right _ k, hbk⟩
          simp only [extent, BinaryDesignBackend.offset, count, SectionIndex.width, mul_one,
            Set.mem_Ico]
          omega

lemma Inside.requireString_value (h : db.Inside) (offset : ℕ) :
    Checks (db.requireString offset) fun value =>
      db.stringAt offset = some (some value) ∧ db.IsString value := by
  obtain ⟨p, hp, hstr⟩ := h.stringAt_yields offset
  refine Checks.load_bind hp ?_
  cases p with
  | none => exact .reject
  | some value => exact .pure ⟨hp, hstr value rfl⟩

lemma Inside.requireString_checks (h : db.Inside) (offset : ℕ) :
    Checks (db.requireString offset) fun value => db.HasString offset ∧ db.IsString value :=
  (h.requireString_value offset).mono fun value ⟨hvalue, hstr⟩ => ⟨⟨value, hvalue, hstr⟩, hstr⟩

/-- The characters of a string can be read. -/
lemma IsString.stringValue_yields {value : ℕ} (h : db.IsString value) :
    Yields (db.stringValue value) fun _ => True := by
  obtain ⟨-, stop, -, hle, hzero⟩ := h
  refine (cString_yields (k := stop - value) ?_).mono fun _ _ => trivial
  rw [List.getElem?_drop, Nat.add_sub_of_le hle]
  exact hzero

lemma HasString.derefString_yields {offset : ℕ} (h : db.HasString offset) :
    Yields (db.derefString offset) fun _ => True := by
  obtain ⟨value, hvalue, hstr⟩ := h
  unfold derefString
  rw [hvalue]
  exact hstr.stringValue_yields

lemma validSignal_iff {idx : ℤ} :
    db.validSignal idx = true ↔ 0 ≤ idx ∧ idx.toNat < db.count .signals := by
  simp [validSignal]

/-! ### The steps of the validation -/

/-- A section that passes `valid_section` ends inside the file, and the
computation of its end does not overflow. -/
lemma offset_le_of_validSection {header : Header} {fileSize : ℕ} {i : SectionIndex}
    (h : validSection header fileSize i = true) :
    headerBytes ≤ (header.sections i).offset ∧
      (header.sections i).offset + (header.sections i).count * i.width ≤ fileSize := by
  unfold validSection at h
  dsimp only at h
  split_ifs at h with hbounds hcount
  have hw : 0 < i.width := by cases i <;> decide
  have hmul : (header.sections i).count * i.width ≤ 2 ^ 64 - 1 :=
    (Nat.le_div_iff_mul_le hw).mp (not_lt.mp hcount)
  rw [decide_eq_true_eq, Nat.mod_eq_of_lt (by omega)] at h
  omega

/-- The loop over the section table leaves the sections aligned, in
order and apart. -/
lemma validateLayout_checks {header : Header} {fileSize : ℕ} (hsize : fileSize < 2 ^ 64)
    (hsections : ∀ i, (header.sections i).offset +
      (header.sections i).count * i.width ≤ fileSize)
    (l : List SectionIndex) (previous : ℕ) :
    Checks (validateLayout header l previous) fun _ =>
      (∀ i ∈ l, previous ≤ (header.sections i).offset ∧ (header.sections i).offset % 8 = 0) ∧
      l.Pairwise fun i j => (header.sections i).offset + (header.sections i).count * i.width ≤
        (header.sections j).offset := by
  induction l generalizing previous with
  | nil => exact .pure ⟨by simp, .nil⟩
  | cons i rest ih =>
      refine Checks.require.bind fun _ hprevious => ?_
      refine Checks.require.bind fun _ haligned => ?_
      refine (ih _).mono fun _ ⟨hrest, hpair⟩ => ?_
      have hend : sectionEnd header i =
          (header.sections i).offset + (header.sections i).count * i.width :=
        Nat.mod_eq_of_lt (lt_of_le_of_lt (hsections i) hsize)
      rw [hend] at hrest
      refine ⟨?_, List.pairwise_cons.mpr ⟨fun j hj => (hrest j hj).1, hpair⟩⟩
      intro j hj
      rcases List.mem_cons.mp hj with rfl | hmem
      · exact ⟨hprevious, haligned⟩
      · have := (hrest j hmem).1
        exact ⟨by omega, (hrest j hmem).2⟩

/-- Sections in order and apart are disjoint. -/
lemma disjoint_extent_of_pairwise
    (h : SectionIndex.all.Pairwise fun i j => db.offset i + db.count i * i.width ≤ db.offset j)
    (i j : SectionIndex) (hij : i ≠ j) : Disjoint (db.extent i) (db.extent j) := by
  have hapart : SectionIndex.all.Pairwise fun i j => Disjoint (db.extent i) (db.extent j) := by
    refine h.imp fun {a b} hab => Set.disjoint_left.mpr fun x hxa hxb => ?_
    have ha := hxa.2
    have hb := hxb.1
    omega
  have : Std.Symm fun i j => Disjoint (db.extent i) (db.extent j) := ⟨fun _ _ hd => hd.symm⟩
  exact hapart.forall i.mem_all j.mem_all hij

lemma Inside.validateSignal_checks (h : db.Inside) {i : ℕ} (hi : i < db.count .signals) :
    Checks (db.validateSignal i) fun _ => db.SignalOk i := by
  obtain ⟨r, hr, -⟩ := readSignalRecord_yields (h.recordPos_le hi)
  refine Checks.load_bind hr ?_
  refine (h.requireString_checks _).bind fun _ hname => ?_
  refine (h.requireString_checks _).bind fun _ htype => ?_
  refine (h.requireString_checks _).bind fun _ hfile => ?_
  exact Checks.require.mono fun _ _ => ⟨r, hr, hname.1, htype.1, hfile.1⟩

/-- What the loop over the name index keeps: the marks are there, the
previous name is a string, and the entries so far are good. -/
structure NameInv (db : BinaryDesignBackend) (i : ℕ) (st : NameState) : Prop where
  marks : st.indexedSignals.length = db.count .signals
  prior : ∀ value, st.prior = some value → db.IsString value
  names : ∀ j < i, db.NameOk j

lemma Inside.validateName_checks (h : db.Inside) (hcount : db.count .nameIndex = db.count .signals)
    {i : ℕ} (hi : i < db.count .signals) {st : NameState} (hinv : NameInv db i st) :
    Checks (db.validateName i st) (NameInv db (i + 1)) := by
  obtain ⟨r, hr, -⟩ := readNameIndexRecord_yields (h.recordPos_le (i := .nameIndex) (hcount ▸ hi))
  refine Checks.load_bind hr ?_
  refine (h.requireString_checks _).bind fun name ⟨hhas, hstring⟩ => ?_
  refine Checks.require.bind fun _ hrange => ?_
  have hmark : r.signal.toNat < st.indexedSignals.length := hinv.marks ▸ hrange.2
  refine Checks.load_bind (List.getElem?_eq_getElem hmark) ?_
  refine Checks.require.bind fun _ _ => ?_
  refine Checks.bind (Q := fun _ => True) ?_ fun _ _ => .pure ?_
  · cases hprior : st.prior with
    | none => exact .pure trivial
    | some prior =>
        unfold requireAfter
        refine (Checks.load (hinv.prior prior hprior).stringValue_yields).bind fun _ _ => ?_
        refine (Checks.load hstring.stringValue_yields).bind fun _ _ => ?_
        exact Checks.require.mono fun _ _ => trivial
  · refine ⟨by simp [hinv.marks], ?_, ?_⟩
    · rintro value hvalue
      obtain rfl := Option.some.inj hvalue
      exact hstring
    · intro j hj
      rcases Nat.lt_succ_iff_lt_or_eq.mp hj with hlt | rfl
      · exact hinv.names j hlt
      · exact ⟨r, hr, hhas, validSignal_iff.mpr hrange⟩

/-- The prefix sums that pass `validate_starts` cut the records. -/
lemma Inside.validateStarts_checks (h : db.Inside) {starts records : SectionIndex}
    (hw : starts.width = 8) (hcount : db.count starts = db.count .signals + 1) :
    Checks (db.validateStarts starts (db.count records)) fun _ => ∃ s : ℕ → ℕ,
      (∀ a ≤ db.count .signals, db.startAt starts a = some (s a)) ∧
        IsCut s (db.count .signals) (db.count records) := by
  have hread : ∀ a ≤ db.count .signals,
      db.startAt starts a = some ((db.startAt starts a).getD 0) := by
    intro a ha
    obtain ⟨v, hv, -⟩ := h.startAt_yields hw (k := a) (by omega)
    rw [hv]
    rfl
  refine Checks.load_bind (hread 0 (Nat.zero_le _)) ?_
  refine Checks.require.bind fun _ hfirst => ?_
  refine Checks.load_bind (hread _ le_rfl) ?_
  refine Checks.require.bind fun _ hlast => ?_
  refine (Checks.forFrom_forall (P := fun i => (db.startAt starts (i - 1)).getD 0 ≤
    (db.startAt starts i).getD 0) fun i hi hle => ?_).mono fun _ hsteps => ?_
  · refine Checks.load_bind (hread i (by omega)) ?_
    refine Checks.load_bind (hread (i - 1) (by omega)) ?_
    refine Checks.require.bind fun _ hstep => ?_
    refine Checks.load_bind (hread i (by omega)) ?_
    exact Checks.require.mono fun _ _ => hstep
  · refine ⟨fun a => (db.startAt starts a).getD 0, hread, hfirst, hlast, ?_⟩
    intro a ha
    exact hsteps (a + 1) (by omega) (by omega)

/-- The owner walk checks every record against the group it lies in. -/
lemma validateGrouped_checks {starts records : SectionIndex}
    {check : ℕ → ℕ → Except Stop Unit} {ok : ℕ → ℕ → Prop}
    (hstarts : ∃ s : ℕ → ℕ, (∀ a ≤ db.count .signals, db.startAt starts a = some (s a)) ∧
      IsCut s (db.count .signals) (db.count records))
    (hcheck : ∀ owner i, i < db.count records → Checks (check owner i) fun _ => ok owner i) :
    Checks (forFrom (db.validateGrouped starts check) (db.count records) 0 0) fun _ =>
      db.Grouped starts records ok := by
  obtain ⟨s, hread, hcut⟩ := hstarts
  -- the owner never lies beyond the next record, and the records so far are checked
  have hloop : Checks (forFrom (db.validateGrouped starts check) (db.count records) 0 0) _ :=
    Checks.forFrom (I := fun i owner => owner ≤ db.count .signals ∧ s owner ≤ i ∧
      ∀ j < i, ∃ a < db.count .signals, s a ≤ j ∧ j < s (a + 1) ∧ ok a j)
    ⟨Nat.zero_le _, by rw [hcut.first], by omega⟩ ?_
  · refine hloop.mono fun _ ⟨_, _, hall⟩ => ⟨s, hread, hcut, fun a ha j haj hja => ?_⟩
    obtain ⟨b, hb, hbj, hjb, hok⟩ := hall j (by
      have := hcut.le (a := a + 1) ha
      omega)
    obtain rfl := hcut.eq_of_mem ha hb ⟨haj, hja⟩ ⟨hbj, hjb⟩
    exact hok
  · intro i owner _ hi ⟨hle, hs, hall⟩
    have hwalk := walkTo_yields hcut hread (j := i) (by omega) hle
      (db.count .signals) (by omega) hs
    refine (Checks.load hwalk).bind fun next ⟨hnext, hsn, hns⟩ => ?_
    refine Checks.require.bind fun _ _ => ?_
    refine (hcheck next i (by omega)).bind fun _ hok => .pure ⟨hnext.le, by omega, ?_⟩
    intro j hj
    rcases Nat.lt_succ_iff_lt_or_eq.mp hj with hlt | rfl
    · exact hall j hlt
    · exact ⟨next, hnext, hsn, hns, hok⟩

lemma Inside.validateDriver_checks (h : db.Inside) (owner : ℕ) {i : ℕ}
    (hi : i < db.count .drivers) : Checks (db.validateDriver owner i) fun _ => db.DriverOk owner i := by
  obtain ⟨r, hr, -⟩ := readDriverRecord_yields (h.recordPos_le hi)
  refine Checks.load_bind hr ?_
  refine Checks.require.bind fun _ htarget => ?_
  refine Checks.require.bind fun _ hsource => ?_
  refine (h.requireString_checks _).bind fun _ hkind => ?_
  refine (h.requireString_checks _).bind fun _ hrole => ?_
  refine (h.requireString_checks _).bind fun _ hpredicate => ?_
  refine (h.requireString_checks _).bind fun _ hfile => .pure ?_
  refine ⟨r, hr, by omega, ?_, hkind.1, hrole.1, hpredicate.1, hfile.1⟩
  rw [validSignal_iff]
  omega

lemma Inside.validateLoad_checks (h : db.Inside) (owner : ℕ) {i : ℕ}
    (hi : i < db.count .loads) : Checks (db.validateLoad owner i) fun _ => db.LoadOk owner i := by
  obtain ⟨r, hr, -⟩ := readLoadRecord_yields (h.recordPos_le hi)
  refine Checks.load_bind hr ?_
  refine Checks.require.bind fun _ hrange => ?_
  refine (h.requireString_checks _).bind fun _ hkind => ?_
  refine (h.requireString_checks _).bind fun _ hfile => .pure ?_
  exact ⟨r, hr, by omega, validSignal_iff.mpr ⟨hrange.2.1, hrange.2.2.2⟩, hkind.1, hfile.1⟩

lemma Inside.validatePort_checks (h : db.Inside) (owner : ℕ) {i : ℕ}
    (hi : i < db.count .ports) : Checks (db.validatePort owner i) fun _ => db.PortOk owner i := by
  obtain ⟨r, hr, -⟩ := readPortRecord_yields (h.recordPos_le hi)
  refine Checks.load_bind hr ?_
  refine Checks.require.bind fun _ hrange => ?_
  refine (h.requireString_checks _).bind fun _ hkind => .pure ?_
  exact ⟨r, hr, by omega, validSignal_iff.mpr ⟨hrange.2.1, hrange.2.2.2⟩, hkind.1⟩

/-- The validation of a mapping that is long enough for a header does
not fault, and a file that passes it is valid. -/
lemma validate_checks (hlen : headerBytes ≤ db.bytes.length) :
    Checks db.validate fun _ => db.Valid := by
  obtain ⟨header, hheader, hfile⟩ := readHeader_yields hlen
  obtain rfl : db.header = header := Option.some.inj (db.header_eq.symm.trans hheader)
  refine Checks.require.bind fun _ ⟨_, _, _, _, _, hsize⟩ => ?_
  refine Checks.require.bind fun _ hsections => ?_
  refine Checks.require.bind fun _ ⟨hsignals, hdrivers, hloads, hports, hnames, hds, hls, hps, _⟩ => ?_
  have hinside : db.Inside := fun i => offset_le_of_validSection (hsections i i.mem_all)
  refine (validateLayout_checks (hsize ▸ hfile) (fun i => (hinside i).2) _ _).bind
    fun _ ⟨hlayout, hpair⟩ => ?_
  refine (Checks.forFrom_forall (P := db.SignalOk) fun i _ hi =>
    hinside.validateSignal_checks (by omega)).bind fun _ hsignal => ?_
  refine (Checks.forFrom (I := NameInv db) ?_ fun i st _ hi hinv =>
    hinside.validateName_checks hnames (by omega) hinv).bind fun _ hname => ?_
  · exact ⟨by simp, by simp, by omega⟩
  refine (hinside.validateStarts_checks rfl hds).bind fun _ hdriverStarts => ?_
  refine (hinside.validateStarts_checks rfl hls).bind fun _ hloadStarts => ?_
  refine (hinside.validateStarts_checks rfl hps).bind fun _ hportStarts => ?_
  refine (validateGrouped_checks hdriverStarts fun owner i hi =>
    hinside.validateDriver_checks owner hi).bind fun _ hdriver => ?_
  refine (validateGrouped_checks hloadStarts fun owner i hi =>
    hinside.validateLoad_checks owner hi).bind fun _ hload => ?_
  refine (validateGrouped_checks hportStarts fun owner i hi =>
    hinside.validatePort_checks owner hi).bind fun _ hport => .pure ?_
  exact {
    inside := hinside
    aligned := fun i => (hlayout i i.mem_all).2
    disjoint := disjoint_extent_of_pairwise hpair
    signals_count := by omega
    drivers_count := by omega
    loads_count := by omega
    ports_count := by omega
    names_count := hnames
    signal := fun i hi => hsignal i (Nat.zero_le _) (by omega)
    name := fun i hi => hname.names i (by omega)
    drivers := hdriver
    loads := hload
    ports := hport }

/-! ### The accessors on a valid file -/

lemma Valid.signalString_yields (h : db.Valid) {field : SignalRecord → ℕ}
    (hfield : ∀ r, db.HasString r.name ∧ db.HasString r.type ∧ db.HasString r.file →
      db.HasString (field r)) (idx : ℤ) :
    Yields (db.signalString field idx) (db.StringAnswer idx) := by
  unfold signalString StringAnswer
  split
  next hvalid =>
    have hok := h.signal idx.toNat (validSignal_iff.mp hvalid).2
    refine hok.bind fun r hr => ?_
    obtain ⟨value, hvalue, hstr⟩ := hfield r hr
    exact ⟨some value, hvalue, value, rfl, hstr⟩
  · exact .pure rfl

lemma Valid.signalField_yields (h : db.Valid) (field : SignalRecord → ℤ) (idx : ℤ) :
    Yields (db.signalField field idx) fun _ => True := by
  unfold signalField
  split
  next hvalid =>
    obtain ⟨r, hr, -⟩ := h.signal idx.toNat (validSignal_iff.mp hvalid).2
    exact ⟨field r, by rw [signalRecord, hr]; rfl, trivial⟩
  · exact .pure trivial

/-- The answers of `resolve`: no signal, or a signal of the
database. -/
def SignalAnswer (db : BinaryDesignBackend) (r : ℤ) : Prop := r = -1 ∨ db.validSignal r = true

/-- The binary search stays inside the name index and comes to its
end. -/
lemma Valid.exactBetween_yields (h : db.Valid) (query : List UInt8) {fuel low high : ℕ}
    (hfuel : high ≤ low + fuel) (hhigh : high ≤ db.count .signals) :
    Yields (db.exactBetween query fuel low high) db.SignalAnswer := by
  induction fuel generalizing low high with
  | zero =>
      unfold exactBetween
      rw [if_neg (by omega)]
      exact .pure (.inl rfl)
  | succ fuel ih =>
      unfold exactBetween
      split
      next hlt =>
        refine (h.name _ (by omega)).bind fun r ⟨hname, hsignal⟩ => ?_
        refine hname.derefString_yields.bind fun name _ => ?_
        cases strcmp query name with
        | eq => exact .pure (.inr hsignal)
        | lt => exact ih (by omega) (by omega)
        | gt => exact ih (by omega) hhigh
      · exact .pure (.inl rfl)

lemma Valid.exact_yields (h : db.Valid) (query : List UInt8) :
    Yields (db.exact query) db.SignalAnswer :=
  h.exactBetween_yields query (by omega) h.names_count.le

lemma Valid.resolveAlias_yields (h : db.Valid) (query : List UInt8) :
    Yields (db.resolveAlias query) db.SignalAnswer := by
  unfold resolveAlias
  split
  · exact h.exact_yields _
  · refine (h.exact_yields _).bind fun r hr => ?_
    split
    · exact .pure hr
    · refine (h.exact_yields _).bind fun r' hr' => ?_
      split
      · exact .pure hr'
      · exact .pure (.inl rfl)

lemma Valid.resolve_yields (h : db.Valid) (name : Option (List UInt8)) :
    Yields (db.resolve name) db.SignalAnswer := by
  unfold resolve
  split
  · exact .pure (.inl rfl)
  · exact .pure (.inl rfl)
  next query _ _ =>
    refine (h.exact_yields _).bind fun r hr => ?_
    split
    · exact .pure hr
    · split
      · refine (h.exact_yields _).bind fun r' hr' => ?_
        split
        · exact .pure hr'
        · exact h.resolveAlias_yields _
      · exact h.resolveAlias_yields _

/-- The records that an accessor hands out, and the number that its
`…_count` companion announces. -/
def RecordsAnswer {β : Type} (answer : Option (ℤ × List β)) (announced : Option ℤ)
    (P : β → Prop) : Prop :=
  ∃ out, answer = some ((out.length : ℤ), out) ∧ announced = some (out.length : ℤ) ∧
    ∀ e ∈ out, P e

/-- An accessor reads exactly the range of its signal, and the range
lies inside the section. -/
lemma Grouped.recordsAnswer {β : Type} {starts records : SectionIndex} {ok : ℕ → ℕ → Prop}
    (h : db.Grouped starts records ok) (hcount : db.count records < 2 ^ 31)
    {convert : ℕ → Option β} {P : β → Prop} (hconvert : ∀ a j, ok a j → Yields (convert j) P)
    (idx : ℤ) :
    RecordsAnswer (db.groupedRecords starts records convert idx)
      (db.groupedCount starts records idx) P := by
  unfold groupedRecords groupedCount groupedRange
  split
  next hvalid =>
    obtain ⟨s, hread, hcut, hok⟩ := h
    have hidx := (validSignal_iff.mp hvalid).2
    have hle := hcut.le (a := idx.toNat + 1) hidx
    have hstep := hcut.step idx.toNat hidx
    obtain ⟨out, hout, hlen, hall⟩ := Yields.mapM (g := convert) (R := P)
      (l := List.range' (s idx.toNat) (s (idx.toNat + 1) - s idx.toNat)) fun j hj => by
        rw [List.mem_range'_1] at hj
        exact hconvert idx.toNat j (hok idx.toNat hidx j hj.1 (by omega))
    rw [List.length_range'] at hlen
    have hint : toInt32 out.length = out.length := toInt32_of_lt (by omega)
    have hwrap : (s (idx.toNat + 1) + 2 ^ 64 - s idx.toNat) % 2 ^ 64 = out.length := by omega
    refine ⟨out, ?_, ?_, hall⟩
    · simp only [hread _ hidx.le, hread _ hidx, Option.bind_eq_bind, Option.bind_some,
        Option.pure_def, if_pos hle, hout, hint]
    · simp only [hread _ hidx.le, hread _ hidx, Option.bind_eq_bind, Option.bind_some,
        Option.pure_def, if_pos hle, hwrap, hint]
  · exact ⟨[], rfl, rfl, by simp⟩

lemma DriverOk.driverEntry_yields {owner i : ℕ} (h : db.DriverOk owner i) :
    Yields (db.driverEntry i) fun e => db.SignalAnswer e.srcSignal := by
  refine h.bind fun r ⟨_, hsource, hkind, hrole, hpredicate, hfile⟩ => ?_
  refine hkind.derefString_yields.bind fun _ _ => ?_
  refine hrole.derefString_yields.bind fun _ _ => ?_
  refine hpredicate.derefString_yields.bind fun _ _ => ?_
  exact hfile.derefString_yields.bind fun _ _ => .pure hsource

lemma LoadOk.loadEntry_yields {owner i : ℕ} (h : db.LoadOk owner i) :
    Yields (db.loadEntry i) fun e => db.validSignal e.consumer = true := by
  refine h.bind fun r ⟨_, hconsumer, hkind, hfile⟩ => ?_
  refine hkind.derefString_yields.bind fun _ _ => ?_
  exact hfile.derefString_yields.bind fun _ _ => .pure hconsumer

lemma PortOk.portConnection_yields {owner i : ℕ} (h : db.PortOk owner i) :
    Yields (db.portConnection i) fun e => db.validSignal e.connectedSignal = true := by
  refine h.bind fun r ⟨_, hconnected, hkind⟩ => ?_
  exact hkind.derefString_yields.bind fun _ _ => .pure hconnected

/-! ### Memory safety -/

/-- The ranges of the signals partition a section of records, and each
record names the signal in whose range it lies as its owner. -/
def Partitioned (db : BinaryDesignBackend) (starts records : SectionIndex)
    (ok : ℕ → ℕ → Prop) : Prop :=
  ∃ s : ℕ → ℕ, (∀ a ≤ db.count .signals, db.startAt starts a = some (s a)) ∧
    (∀ a < db.count .signals, s a ≤ s (a + 1) ∧ s (a + 1) ≤ db.count records) ∧
    (∀ j < db.count records, ∃! a, a < db.count .signals ∧ s a ≤ j ∧ j < s (a + 1)) ∧
    ∀ a < db.count .signals, ∀ j, s a ≤ j → j < s (a + 1) → ok a j

lemma Grouped.partitioned {starts records : SectionIndex} {ok : ℕ → ℕ → Prop}
    (h : db.Grouped starts records ok) : db.Partitioned starts records ok := by
  obtain ⟨s, hread, hcut, hok⟩ := h
  refine ⟨s, hread, fun a ha => ⟨hcut.step a ha, hcut.le ha⟩, fun j hj => ?_, hok⟩
  obtain ⟨a, ha, haj⟩ := hcut.exists_mem hj
  refine ⟨a, ⟨ha, haj⟩, ?_⟩
  rintro b ⟨hb, hbj⟩
  exact hcut.eq_of_mem hb ha hbj haj

/-- A file on which the reader is memory safe: the sections are where
they should be, no accessor faults whatever index or name it is asked
for, the strings it hands out are strings of the string section, and
the indices it hands out are signals. -/
structure MemorySafe (db : BinaryDesignBackend) : Prop where
  inside : db.Inside
  aligned : ∀ i, db.offset i % 8 = 0
  disjoint : ∀ i j, i ≠ j → Disjoint (db.extent i) (db.extent j)
  drivers : db.Partitioned .driverStarts .drivers db.DriverOk
  loads : db.Partitioned .loadStarts .loads db.LoadOk
  ports : db.Partitioned .portStarts .ports db.PortOk
  signalCount : db.signalCount = db.count .signals
  signalName : ∀ idx, Yields (db.signalName idx) (db.StringAnswer idx)
  signalType : ∀ idx, Yields (db.signalType idx) (db.StringAnswer idx)
  signalFile : ∀ idx, Yields (db.signalFile idx) (db.StringAnswer idx)
  signalWidth : ∀ idx, Yields (db.signalWidth idx) fun _ => True
  signalLine : ∀ idx, Yields (db.signalLine idx) fun _ => True
  signalDirection : ∀ idx, Yields (db.signalDirection idx) fun _ => True
  resolve : ∀ name, Yields (db.resolve name) db.SignalAnswer
  traceDriver : ∀ idx, RecordsAnswer (db.traceDriver idx) (db.traceDriverCount idx)
    fun e => db.SignalAnswer e.srcSignal
  traceLoad : ∀ idx, RecordsAnswer (db.traceLoad idx) (db.traceLoadCount idx)
    fun e => db.validSignal e.consumer = true
  portConnections : ∀ idx, RecordsAnswer (db.portConnections idx) (db.portConnCount idx)
    fun e => db.validSignal e.connectedSignal = true

lemma Valid.memorySafe (h : db.Valid) : db.MemorySafe where
  inside := h.inside
  aligned := h.aligned
  disjoint := h.disjoint
  drivers := h.drivers.partitioned
  loads := h.loads.partitioned
  ports := h.ports.partitioned
  signalCount := toInt32_of_lt h.signals_count
  signalName := h.signalString_yields fun _ hr => hr.1
  signalType := h.signalString_yields fun _ hr => hr.2.1
  signalFile := h.signalString_yields fun _ hr => hr.2.2
  signalWidth := h.signalField_yields _
  signalLine := h.signalField_yields _
  signalDirection := h.signalField_yields _
  resolve := h.resolve_yields
  traceDriver := h.drivers.recordsAnswer h.drivers_count fun _ _ => DriverOk.driverEntry_yields
  traceLoad := h.loads.recordsAnswer h.loads_count fun _ _ => LoadOk.loadEntry_yields
  portConnections := h.ports.recordsAnswer h.ports_count fun _ _ => PortOk.portConnection_yields

end BinaryDesignBackend

/-- The reader is memory safe on every file: opening it does not fault,
and if it is accepted then no accessor ever faults. -/
theorem openFile_memorySafe (bytes : List UInt8) :
    Checks (openFile bytes) fun db => db.bytes = bytes ∧ db.MemorySafe := by
  unfold openFile
  split
  · exact .reject
  next hlen =>
    obtain ⟨header, hheader, -⟩ := readHeader_yields (not_lt.mp hlen)
    split
    next hnone => simp [hheader] at hnone
    next header hsome =>
      refine (BinaryDesignBackend.validate_checks (not_lt.mp hlen)).bind fun _ hvalid => ?_
      exact .pure ⟨rfl, hvalid.memorySafe⟩

/-- A little-endian number of the given width. -/
def encodeLE : ℕ → ℕ → List UInt8
  | 0, _ => []
  | width + 1, n => UInt8.ofNat n :: encodeLE width (n / 256)

/-- A database of one signal, called `a`, which drives, loads and is
connected to itself. -/
def oneSignalFile : List UInt8 :=
  let u32 := encodeLE 4
  let u64 := encodeLE 8
  kMagic ++ u32 1 ++ u32 0 ++ u32 0x01020304 ++ u32 176 ++ u64 330 ++
    u64 176 ++ u64 1 ++ u64 200 ++ u64 1 ++ u64 208 ++ u64 1 ++ u64 240 ++ u64 2 ++
    u64 256 ++ u64 1 ++ u64 280 ++ u64 2 ++ u64 296 ++ u64 1 ++ u64 312 ++ u64 2 ++
    u64 328 ++ u64 2 ++
    (u32 0 ++ u32 1 ++ u32 1 ++ u32 8 ++ u32 1 ++ u32 1) ++ (u32 0 ++ u32 0) ++
    (u32 0 ++ u32 0 ++ u32 1 ++ u32 1 ++ u32 1 ++ u32 1 ++ u32 7 ++ u32 0) ++ (u64 0 ++ u64 1) ++
    (u32 0 ++ u32 0 ++ u32 1 ++ u32 1 ++ u32 7 ++ u32 0) ++ (u64 0 ++ u64 1) ++
    (u32 0 ++ u32 0 ++ u32 1 ++ u32 0) ++ (u64 0 ++ u64 1) ++ [0x61, 0]

/-- Files are accepted, so the safety of accepted files is not about
nothing. -/
theorem oneSignalFile_memorySafe :
    ∃ db, openFile oneSignalFile = .ok db ∧ db.bytes = oneSignalFile ∧ db.MemorySafe := by
  have hok : (openFile oneSignalFile).toBool = true := by decide +kernel
  cases hopen : openFile oneSignalFile with
  | error e =>
      rw [hopen] at hok
      cases hok
  | ok db => exact ⟨db, rfl, (openFile_memorySafe oneSignalFile).2 db hopen⟩

end XdebugFst.DesignDb
