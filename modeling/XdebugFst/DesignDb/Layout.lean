import Mathlib
import XdebugFst.DesignDb.Image

/-!
# The layout of a converted file

`_pack_sections` puts the sections one after the other, each on a multiple of eight, and the
header that it writes says where. `LaidOut` is what the loop over the section table of the
reader asks for, with the bytes of the sections at their places.
-/

namespace XdebugFst.DesignDb

open Lib

/-- The sections stand one after the other from `previous` on. -/
def LaidOut (m : List UInt8) (sections : SectionIndex → Section)
    (blob : SectionIndex → List UInt8) : List SectionIndex → ℕ → Prop
  | [], _ => True
  | i :: rest, previous =>
      previous ≤ (sections i).offset ∧ (sections i).offset % 8 = 0 ∧
        Placed m (sections i).offset (blob i) ∧
        (sections i).offset + (blob i).length ≤ m.length ∧
        LaidOut m sections blob rest ((sections i).offset + (blob i).length)

section LaidOut

variable {m : List UInt8} {sections sections' : SectionIndex → Section}
  {blob : SectionIndex → List UInt8} {l : List SectionIndex} {previous : ℕ}

lemma LaidOut.congr (h : LaidOut m sections blob l previous)
    (hsections : ∀ i ∈ l, sections' i = sections i) : LaidOut m sections' blob l previous := by
  induction l generalizing previous with
  | nil => trivial
  | cons i rest ih =>
      obtain ⟨hprev, halign, hplaced, hend, hrest⟩ := h
      rw [LaidOut, hsections i List.mem_cons_self]
      exact ⟨hprev, halign, hplaced, hend,
        ih hrest fun j hj => hsections j (List.mem_cons_of_mem i hj)⟩

/-- One section of the layout. -/
lemma LaidOut.of_mem (h : LaidOut m sections blob l previous) {i : SectionIndex} (hi : i ∈ l) :
    previous ≤ (sections i).offset ∧ Placed m (sections i).offset (blob i) ∧
      (sections i).offset + (blob i).length ≤ m.length := by
  induction l generalizing previous with
  | nil => cases hi
  | cons j rest ih =>
      obtain ⟨hprev, -, hplaced, hend, hrest⟩ := h
      rcases List.mem_cons.1 hi with rfl | hi
      · exact ⟨hprev, hplaced, hend⟩
      · obtain ⟨hle, hin⟩ := ih hrest hi
        exact ⟨by omega, hin⟩

end LaidOut

/-! ### Packing -/

section PackBody

variable (blob : SectionIndex → List UInt8) (count : SectionIndex → ℕ)

/-- The sections of a list, as they are packed. -/
def blobsOf (l : List SectionIndex) : List (List UInt8 × ℕ) := l.map fun i => (blob i, count i)

/-- The bytes of a descriptor table. -/
def tableOf (sections : SectionIndex → Section) (l : List SectionIndex) : List (ℕ × ℕ) :=
  l.map fun i => ((sections i).offset, (sections i).count)

/-- The locations that the loop finds are a layout of what it has written. -/
lemma exists_laidOut {l : List SectionIndex} (hl : l.Nodup) (offset : ℕ) :
    ∃ sections : SectionIndex → Section,
      (packBody offset (blobsOf blob count l)).1 = tableOf sections l ∧
      (∀ i ∈ l, (sections i).count = count i) ∧
      ∀ pre : List UInt8, pre.length = offset →
        LaidOut (pre ++ (packBody offset (blobsOf blob count l)).2.1) sections blob l offset := by
  induction l generalizing offset with
  | nil => exact ⟨fun _ => ⟨0, 0⟩, rfl, by simp, fun _ _ => trivial⟩
  | cons i rest ih =>
      obtain ⟨hi, hrest⟩ := List.nodup_cons.1 hl
      set start := offset + (8 - offset % 8) % 8 with hstart
      -- the rest is packed behind this blob, whose location is added to that of the rest
      obtain ⟨sections, htable, hcount, hlaid⟩ := ih hrest (start + (blob i).length)
      have hother : ∀ j ∈ rest,
          Function.update sections i ⟨start, count i⟩ j = sections j := by
        intro j hj
        rw [Function.update_of_ne]
        rintro rfl
        exact hi hj
      refine ⟨Function.update sections i ⟨start, count i⟩, ?_, ?_, ?_⟩
      · show (start, count i) :: (packBody (start + (blob i).length) (blobsOf blob count rest)).1 =
          (_, _) :: tableOf _ rest
        rw [htable, Function.update_self]
        refine congrArg _ (List.map_congr_left ?_)
        intro j hj
        rw [hother j hj]
      · intro j hj
        rcases List.mem_cons.1 hj with rfl | hj
        · rw [Function.update_self]
        · rw [hother j hj]
          exact hcount j hj
      · intro pre hpre
        set padding := List.replicate ((8 - offset % 8) % 8) (0 : UInt8) with hpadding
        have hlen : (pre ++ padding).length = start := by
          rw [List.length_append, hpadding, List.length_replicate, hpre]
        have hnext := hlaid (pre ++ padding ++ blob i) (by rw [List.length_append, hlen])
        have hbody : pre ++ (packBody offset (blobsOf blob count (i :: rest))).2.1 =
            pre ++ padding ++ blob i ++
              (packBody (start + (blob i).length) (blobsOf blob count rest)).2.1 := by
          show pre ++ (padding ++ (blob i ++ _)) = _
          simp only [List.append_assoc]
          rfl
        rw [hbody, LaidOut, Function.update_self]
        refine ⟨?_, ?_, ?_, ?_, hnext.congr hother⟩
        · show offset ≤ start
          omega
        · show start % 8 = 0
          omega
        · show Placed _ start (blob i)
          rw [List.append_assoc _ (blob i), ← hlen]
          exact placed_append _ _
        · show start + (blob i).length ≤ _
          rw [List.length_append, List.length_append, hlen]
          omega

lemma length_packBody (l : List (List UInt8 × ℕ)) (offset : ℕ) :
    offset + (packBody offset l).2.1.length = (packBody offset l).2.2 := by
  induction l generalizing offset with
  | nil => rfl
  | cons entry l ih =>
      obtain ⟨bytes, n⟩ := entry
      have hrest := ih (offset + (8 - offset % 8) % 8 + bytes.length)
      show offset + (List.replicate _ _ ++ (bytes ++ (packBody _ l).2.1)).length =
        (packBody _ l).2.2
      rw [← hrest, List.length_append, List.length_append, List.length_replicate]
      omega

/-- Padding takes at most seven bytes for each section. -/
lemma packBody_le (l : List (List UInt8 × ℕ)) (offset : ℕ) :
    (packBody offset l).2.2 ≤ offset + (l.map fun entry => entry.1.length + 7).sum := by
  induction l generalizing offset with
  | nil => exact Nat.le_add_right _ _
  | cons entry l ih =>
      obtain ⟨bytes, n⟩ := entry
      have hrest := ih (offset + (8 - offset % 8) % 8 + bytes.length)
      show (packBody (offset + (8 - offset % 8) % 8 + bytes.length) l).2.2 ≤ _
      rw [List.map_cons, List.sum_cons]
      dsimp only
      omega

end PackBody

/-! ### The header -/

/-- The header that is written. -/
def imageHeader (fileSize : ℕ) (sections : SectionIndex → Section) : Header :=
  { magic := kMagic, major := kMajor, minor := kMinor, endianTag := kEndianTag,
    headerSize := headerBytes, fileSize, sections }

section Header

variable {m : List UInt8} {fileSize : ℕ} {sections : SectionIndex → Section}

lemma length_packHeaderPrefix (fileSize : ℕ) : (packHeaderPrefix fileSize).length = 32 := by
  simp [packHeaderPrefix, kMagic]

lemma length_packSection (location : ℕ × ℕ) : (packSection location).length = 16 := by
  simp [packSection]

lemma length_flatMap_packSection (sections : SectionIndex → Section) :
    ((tableOf sections SectionIndex.all).flatMap packSection).length = 144 := by
  rw [length_flatMap_of_forall fun location _ => length_packSection location, tableOf,
    List.length_map]
  rfl

lemma readSection_eq (h : Placed m 32 ((tableOf sections SectionIndex.all).flatMap packSection))
    (i : SectionIndex) (hoffset : (sections i).offset < 2 ^ 64)
    (hcount : (sections i).count < 2 ^ 64) : readSection m i = some (sections i) := by
  have hlt : i.toNat < (tableOf sections SectionIndex.all).length := by
    rw [tableOf, List.length_map]
    exact i.toNat_lt
  have hrec := h.flatMap (fun location _ => length_packSection location) hlt
  have hget : (tableOf sections SectionIndex.all)[i.toNat] =
      ((sections i).offset, (sections i).count) := by
    cases i <;> rfl
  rw [hget, Nat.mul_comm] at hrec
  have hsecond : Placed m (32 + 16 * i.toNat + 8) (leBytes 8 (sections i).count) :=
    hrec.rightAt (by simp)
  rw [readSection, hrec.left.readU64 hoffset, hsecond.readU64 hcount]
  rfl

lemma readHeader_eq (hhead : Placed m 0 (packHeaderPrefix fileSize))
    (htable : Placed m 32 ((tableOf sections SectionIndex.all).flatMap packSection))
    (hsize : fileSize < 2 ^ 64) (hoffset : ∀ i, (sections i).offset < 2 ^ 64)
    (hcount : ∀ i, (sections i).count < 2 ^ 64) :
    readHeader m = some (imageHeader fileSize sections) := by
  have hsection : ∀ i, readSection m i = some (sections i) :=
    fun i => readSection_eq htable i (hoffset i) (hcount i)
  have hmagic : (List.range 8).mapM (fun k => m[k]?) = some kMagic := by
    rw [List.range_eq_range']
    refine mapM_range' (l := kMagic) fun k hk => ?_
    have hmagic : Placed m 0 kMagic := hhead.left.left.left.left.left
    exact hmagic.getElem? hk
  have hmajor : Placed m 8 (leBytes 4 kMajor) :=
    hhead.left.left.left.left.rightAt (by simp [kMagic])
  have hminor : Placed m 12 (leBytes 4 kMinor) := hhead.left.left.left.rightAt (by simp [kMagic])
  have hendian : Placed m 16 (leBytes 4 kEndianTag) := hhead.left.left.rightAt (by simp [kMagic])
  have hheader : Placed m 20 (leBytes 4 headerBytes) := hhead.left.rightAt (by simp [kMagic])
  have hfile : Placed m 24 (leBytes 8 fileSize) := hhead.rightAt (by simp [kMagic])
  rw [readHeader, hmagic, hmajor.readU32 (by decide), hminor.readU32 (by decide),
    hendian.readU32 (by decide), hheader.readU32 (by decide), hfile.readU64 hsize,
    hsection, hsection, hsection, hsection, hsection, hsection, hsection, hsection, hsection]
  show some _ = some _
  congr
  funext i
  cases i <;> rfl

end Header

/-! ### The mapped file -/

/-- A mapped file that holds the given sections. -/
structure Holds (db : BinaryDesignBackend) (blob : SectionIndex → List UInt8)
    (count : SectionIndex → ℕ) : Prop where
  placed : ∀ i, Placed db.bytes (db.header.sections i).offset (blob i)
  count_eq : ∀ i, db.count i = count i

/-- What `validate` looks at before the counts and the records. -/
structure GoodHeader (db : BinaryDesignBackend) : Prop where
  long : headerBytes ≤ db.bytes.length
  fields : db.header.magic = kMagic ∧ db.header.major = kMajor ∧ db.header.minor = kMinor ∧
    db.header.endianTag = kEndianTag ∧ db.header.headerSize = headerBytes ∧
    db.header.fileSize = db.bytes.length
  sections : ∀ i ∈ SectionIndex.all,
    BinaryDesignBackend.validSection db.header db.bytes.length i = true
  layout : BinaryDesignBackend.validateLayout db.header SectionIndex.all headerBytes = .ok ()

section Backend

variable {m : List UInt8} {header : Header} {blob : SectionIndex → List UInt8}

lemma LaidOut.sectionEnd {i : SectionIndex} {l : List SectionIndex} {previous : ℕ}
    (h : LaidOut m header.sections blob l previous) (hi : i ∈ l)
    (hwidth : (blob i).length = (header.sections i).count * i.width) (hm : m.length < 2 ^ 64) :
    BinaryDesignBackend.sectionEnd header i = (header.sections i).offset + (blob i).length := by
  obtain ⟨-, -, hend⟩ := h.of_mem hi
  rw [BinaryDesignBackend.sectionEnd, ← hwidth, Nat.mod_eq_of_lt (by omega)]

lemma LaidOut.validateLayout {l : List SectionIndex} {previous : ℕ}
    (h : LaidOut m header.sections blob l previous)
    (hwidth : ∀ i, (blob i).length = (header.sections i).count * i.width)
    (hm : m.length < 2 ^ 64) :
    BinaryDesignBackend.validateLayout header l previous = .ok () := by
  induction l generalizing previous with
  | nil => rfl
  | cons i rest ih =>
      have hend := h.sectionEnd List.mem_cons_self (hwidth i) hm
      obtain ⟨hprev, halign, -, -, hrest⟩ := h
      rw [BinaryDesignBackend.validateLayout, require, if_pos hprev, require, if_pos halign, hend]
      exact ih hrest

lemma LaidOut.validSection {i : SectionIndex} {l : List SectionIndex}
    (h : LaidOut m header.sections blob l headerBytes) (hi : i ∈ l)
    (hwidth : (blob i).length = (header.sections i).count * i.width) (hm : m.length < 2 ^ 64) :
    BinaryDesignBackend.validSection header m.length i = true := by
  obtain ⟨hprev, -, hend⟩ := h.of_mem hi
  rw [hwidth] at hend
  have hpos : 0 < i.width := by cases i <;> decide
  have hcount : (header.sections i).count ≤ (2 ^ 64 - 1) / i.width := by
    rw [Nat.le_div_iff_mul_le hpos]
    omega
  rw [BinaryDesignBackend.validSection, if_neg (by omega), if_neg (by omega),
    Nat.mod_eq_of_lt (by omega), decide_eq_true_eq]
  omega

end Backend

/-- What is packed can be mapped, and passes the checks on the header. -/
lemma exists_backend {blob : SectionIndex → List UInt8} {count : SectionIndex → ℕ}
    (hwidth : ∀ i, (blob i).length = count i * i.width)
    (hsize : (packBody headerBytes (blobsOf blob count SectionIndex.all)).2.2 < 2 ^ 64) :
    ∃ db : BinaryDesignBackend,
      db.bytes = packSections (blobsOf blob count SectionIndex.all) ∧ Holds db blob count ∧
        GoodHeader db := by
  obtain ⟨sections, htable, hcount, hlaid⟩ :=
    exists_laidOut blob count (show SectionIndex.all.Nodup by decide) headerBytes
  set total := (packBody headerBytes (blobsOf blob count SectionIndex.all)).2.2 with htotal
  set body := (packBody headerBytes (blobsOf blob count SectionIndex.all)).2.1 with hbody
  set pre := packHeaderPrefix total ++ (tableOf sections SectionIndex.all).flatMap packSection
    with hpre
  have hprelen : pre.length = headerBytes := by
    rw [hpre, List.length_append, length_packHeaderPrefix, length_flatMap_packSection]
    rfl
  have hbytes : packSections (blobsOf blob count SectionIndex.all) = pre ++ body := by
    rw [hpre, ← htable]
    rfl
  have hlen : (pre ++ body).length = total := by
    rw [List.length_append, hprelen, htotal, ← length_packBody]
  -- the body follows the header at the offset that it was packed for
  have hlaid' := hlaid pre hprelen
  have hplaced : Placed (pre ++ body) 0 pre := List.prefix_append pre body
  have hends : ∀ i, (sections i).offset + (sections i).count * i.width ≤ total := by
    intro i
    obtain ⟨-, -, hend⟩ := hlaid'.of_mem (SectionIndex.mem_all i)
    rw [hlen, hwidth i, ← hcount i (SectionIndex.mem_all i)] at hend
    exact hend
  have hpos : ∀ i : SectionIndex, 0 < i.width := by
    intro i
    cases i <;> decide
  have hheader : readHeader (pre ++ body) = some (imageHeader total sections) := by
    -- the fields are within the 64 bits that they are written with, as the file is
    refine readHeader_eq hplaced.left (hplaced.rightAt ?_) hsize ?_ ?_
    · rw [length_packHeaderPrefix]
    · intro i
      have := hends i
      omega
    · intro i
      have hle := Nat.le_mul_of_pos_right (sections i).count (hpos i)
      have := hends i
      omega
  have hwidth' : ∀ i, (blob i).length =
      ((imageHeader total sections).sections i).count * i.width := by
    intro i
    show _ = (sections i).count * i.width
    rw [hwidth i, hcount i (SectionIndex.mem_all i)]
  refine ⟨⟨pre ++ body, imageHeader total sections, hheader⟩, hbytes.symm, ⟨?_, ?_⟩,
    ⟨?_, ?_, ?_, ?_⟩⟩
  · intro i
    exact (hlaid'.of_mem (SectionIndex.mem_all i)).2.1
  · intro i
    exact hcount i (SectionIndex.mem_all i)
  · show headerBytes ≤ (pre ++ body).length
    rw [List.length_append, hprelen]
    exact Nat.le_add_right _ _
  · exact ⟨rfl, rfl, rfl, rfl, rfl, hlen.symm⟩
  · intro i hi
    exact hlaid'.validSection hi (hwidth' i) (by rw [hlen]; exact hsize)
  · exact hlaid'.validateLayout hwidth' (by rw [hlen]; exact hsize)

/-- Opening a file whose header can be read is validating it. -/
lemma openFile_eq {db : BinaryDesignBackend} (hlong : headerBytes ≤ db.bytes.length)
    (hvalid : db.validate = .ok ()) : openFile db.bytes = .ok db := by
  obtain ⟨bytes, header, hheader⟩ := db
  rw [openFile, if_neg (not_lt.2 hlong)]
  split
  next hnone =>
    rw [hheader] at hnone
    cases hnone
  next header' hsome =>
    have heq : header' = header := by
      rw [hheader] at hsome
      exact (Option.some.inj hsome).symm
    subst heq
    show (BinaryDesignBackend.validate _ >>= _) = _
    rw [hvalid]
    rfl

end XdebugFst.DesignDb
