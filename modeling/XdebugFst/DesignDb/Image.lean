import Mathlib
import XdebugFst.Lib.Grouped
import XdebugFst.DesignDb.Convert

/-!
# What the converter writes

The converter interns texts while it packs records. An offset that `intern` has returned stays
the offset of its text, so the whole file can be said in terms of the pool at the end:
`convert_eq` gives the bytes as the sections of `sectionBytes`, with one offset for each text
of the design.

`Packs` is the statement about a computation that interns texts: it comes to its end within
the limit of the pool, and its result is a function of the offsets in any later pool.
-/

namespace XdebugFst.DesignDb

open Lib

/-! ### The texts of a design -/

/-- The bytes of a text in the pool. -/
def textSize (text : String) : ℕ := (utf8 text.toList).length + 1

def SourceDriver.texts (d : SourceDriver) : List String := [d.kind, d.role, d.predicate, d.file]

def SourceLoad.texts (l : SourceLoad) : List String := [l.kind, l.file]

def SourcePort.texts (p : SourcePort) : List String := [p.kind]

/-- The texts of a signal. -/
def SourceSignal.texts (s : SourceSignal) : List String :=
  [s.name, s.type, s.file] ++ s.drivers.flatMap SourceDriver.texts ++
    s.loads.flatMap SourceLoad.texts ++ s.ports.flatMap SourcePort.texts

lemma SourceSignal.mem_texts {s : SourceSignal} {t : String} :
    t ∈ s.texts ↔ (t = s.name ∨ t = s.type ∨ t = s.file) ∨ (∃ d ∈ s.drivers, t ∈ d.texts) ∨
      (∃ l ∈ s.loads, t ∈ l.texts) ∨ ∃ p ∈ s.ports, t ∈ p.texts := by
  simp [SourceSignal.texts, or_assoc]

/-- The different texts of a design, with the empty one. -/
def designTexts (signals : List SourceSignal) : Finset String :=
  insert "" (signals.flatMap SourceSignal.texts).toFinset

/-- The size of the string pool of a design. -/
def poolSize (signals : List SourceSignal) : ℕ := ∑ text ∈ designTexts signals, textSize text

/-! ### Pools -/

/-- The offset of a text. -/
def Strings.offset (pool : Strings) (text : String) : ℕ := (pool.offsets.lookup text).getD 0

/-- A pool that holds some of the texts, each once and at its offset. -/
structure GoodPool (texts : Finset String) (pool : Strings) : Prop where
  nodup : (pool.offsets.map Prod.fst).Nodup
  mem : ∀ entry ∈ pool.offsets, entry.1 ∈ texts
  placed : ∀ entry ∈ pool.offsets, Placed pool.data entry.2 (utf8 entry.1.toList ++ [0])
  size : pool.data.length = (pool.offsets.map fun entry => textSize entry.1).sum

/-- Every text keeps its offset. -/
def Extends (pool pool' : Strings) : Prop :=
  ∀ text offset, pool.offsets.lookup text = some offset →
    pool'.offsets.lookup text = some offset

lemma Extends.refl (pool : Strings) : Extends pool pool := fun _ _ h => h

lemma Extends.trans {pool pool' pool'' : Strings} (h : Extends pool pool')
    (h' : Extends pool' pool'') : Extends pool pool'' := fun text offset hget =>
  h' text offset (h text offset hget)

/-- The computation interns the texts of `used`, and its result is `result` of the offsets. -/
def Packs {α : Type} (texts : Finset String) (used : Set String) (x : Pool α)
    (result : (String → ℕ) → α) : Prop :=
  ∀ pool, GoodPool texts pool → ∃ a pool', x pool = .ok (a, pool') ∧ GoodPool texts pool' ∧
    Extends pool pool' ∧ (∀ text ∈ used, (pool'.offsets.lookup text).isSome = true) ∧
    ∀ later, Extends pool' later → a = result later.offset

section Packs

variable {α β : Type} {texts : Finset String} {used used' : Set String} {x : Pool α}
  {f : α → Pool β} {r : (String → ℕ) → α} {r' : α → (String → ℕ) → β}

lemma Packs.pure (a : α) : Packs texts ∅ (Pure.pure a : Pool α) fun _ => a := by
  intro pool hpool
  exact ⟨a, pool, rfl, hpool, .refl pool, fun _ h => absurd h (Set.notMem_empty _), fun _ _ => rfl⟩

lemma Packs.bind (hx : Packs texts used x r) (hf : ∀ a, Packs texts used' (f a) (r' a)) :
    Packs texts (used ∪ used') (x >>= f) fun off => r' (r off) off := by
  intro pool hpool
  obtain ⟨a, pool₁, hrun₁, hpool₁, hext₁, hused₁, hres₁⟩ := hx pool hpool
  obtain ⟨b, pool₂, hrun₂, hpool₂, hext₂, hused₂, hres₂⟩ := hf a pool₁ hpool₁
  refine ⟨b, pool₂, ?_, hpool₂, hext₁.trans hext₂, ?_, ?_⟩
  · show (x pool >>= fun p => f p.1 p.2) = _
    rw [hrun₁]
    exact hrun₂
  · rintro text (htext | htext)
    · obtain ⟨offset, hoffset⟩ := Option.isSome_iff_exists.1 (hused₁ text htext)
      rw [hext₂ text offset hoffset]
      rfl
    · exact hused₂ text htext
  · intro later hlater
    show b = r' (r later.offset) later.offset
    rw [← hres₁ later (hext₂.trans hlater)]
    exact hres₂ later hlater

lemma Packs.mono (hx : Packs texts used x r) {s : (String → ℕ) → α} (hused : used' ⊆ used)
    (hr : r = s) : Packs texts used' x s := by
  intro pool hpool
  obtain ⟨a, pool', hrun, hpool', hext, hin, hres⟩ := hx pool hpool
  exact ⟨a, pool', hrun, hpool', hext, fun text htext => hin text (hused htext), hr ▸ hres⟩

/-- A loop that interns texts. -/
lemma Packs.foldlM {γ : Type} {step : β → γ → Pool β} {uses : γ → Set String}
    {g : (String → ℕ) → β → γ → β} {l : List γ}
    (h : ∀ c ∈ l, ∀ b, Packs texts (uses c) (step b c) fun off => g off b c) (b : β) :
    Packs texts (⋃ c ∈ l, uses c) (l.foldlM step b) fun off => l.foldl (g off) b := by
  induction l generalizing b with
  | nil =>
      refine (Packs.pure b).mono ?_ rfl
      simp
  | cons c l ih =>
      rw [List.foldlM_cons]
      refine ((h c List.mem_cons_self b).bind
        (ih fun d hd => h d (List.mem_cons_of_mem c hd))).mono ?_ rfl
      simp

end Packs

lemma lookup_isSome_iff {l : List (String × ℕ)} {text : String} :
    (l.lookup text).isSome = true ↔ text ∈ l.map Prod.fst := by
  induction l with
  | nil => simp
  | cons entry l ih =>
      obtain ⟨key, value⟩ := entry
      rw [List.lookup_cons, List.map_cons, List.mem_cons]
      by_cases hkey : text = key
      · simp [hkey]
      · simp [hkey, ih, beq_eq_false_iff_ne.2 hkey]

lemma mem_of_lookup {l : List (String × ℕ)} {text : String} {offset : ℕ}
    (h : l.lookup text = some offset) : (text, offset) ∈ l := by
  induction l with
  | nil => cases h
  | cons entry l ih =>
      obtain ⟨key, value⟩ := entry
      rw [List.lookup_cons] at h
      by_cases hkey : text = key
      · subst hkey
        rw [beq_self_eq_true] at h
        cases h
        exact List.mem_cons_self
      · rw [beq_eq_false_iff_ne.2 hkey] at h
        exact List.mem_cons_of_mem _ (ih h)

/-- The texts that a pool holds. -/
def Strings.texts (pool : Strings) : Finset String := (pool.offsets.map Prod.fst).toFinset

lemma GoodPool.length_data {texts : Finset String} {pool : Strings} (h : GoodPool texts pool) :
    pool.data.length = ∑ t ∈ pool.texts, textSize t := by
  rw [h.size, Strings.texts, List.sum_toFinset _ h.nodup, List.map_map]
  rfl

lemma GoodPool.texts_subset {texts : Finset String} {pool : Strings} (h : GoodPool texts pool) :
    pool.texts ⊆ texts := by
  intro t ht
  obtain ⟨entry, hentry, rfl⟩ := List.mem_map.1 (List.mem_toFinset.1 ht)
  exact h.mem entry hentry

/-- The pool is never larger than all texts together. -/
lemma GoodPool.length_data_le {texts : Finset String} {pool : Strings}
    (h : GoodPool texts pool) : pool.data.length ≤ ∑ t ∈ texts, textSize t := by
  rw [h.length_data]
  exact Finset.sum_le_sum_of_subset h.texts_subset

/-- There is room for a text that the pool does not hold. -/
lemma GoodPool.room {texts : Finset String} {pool : Strings} (h : GoodPool texts pool)
    {text : String} (htext : text ∈ texts) (hnew : text ∉ pool.offsets.map Prod.fst) :
    pool.data.length + textSize text ≤ ∑ t ∈ texts, textSize t := by
  have hnew' : text ∉ pool.texts := by
    rwa [Strings.texts, List.mem_toFinset]
  rw [h.length_data, Nat.add_comm, ← Finset.sum_insert hnew']
  exact Finset.sum_le_sum_of_subset (Finset.insert_subset htext h.texts_subset)

lemma length_text (text : String) : (utf8 text.toList ++ [0]).length = textSize text := by
  rw [List.length_append]
  rfl

/-- The pool after a new text. -/
lemma GoodPool.push {texts : Finset String} {pool : Strings} (h : GoodPool texts pool)
    {text : String} (htext : text ∈ texts) (hnew : text ∉ pool.offsets.map Prod.fst) :
    GoodPool texts
      { data := pool.data ++ (utf8 text.toList ++ [0])
        offsets := (text, pool.data.length) :: pool.offsets } := by
  constructor
  · rw [List.map_cons, List.nodup_cons]
    exact ⟨hnew, h.nodup⟩
  · rintro entry (_ | ⟨_, hentry⟩)
    · exact htext
    · exact h.mem entry hentry
  · rintro entry (_ | ⟨_, hentry⟩)
    · show utf8 text.toList ++ [0] <+: List.drop _ (pool.data ++ _)
      rw [List.drop_left]
    · -- the texts before it stay where they are
      obtain ⟨t, ht⟩ := h.placed entry hentry
      have hle := Placed.le ⟨t, ht⟩ (by simp)
      refine ⟨t ++ (utf8 text.toList ++ [0]), ?_⟩
      rw [List.drop_append_of_le_length (by omega), ← ht, ← List.append_assoc]
  · rw [List.length_append, length_text, h.size, List.map_cons, List.sum_cons, Nat.add_comm]

lemma packs_intern {texts : Finset String} (hlimit : ∑ t ∈ texts, textSize t ≤ 2 ^ 32)
    {text : String} (htext : text ∈ texts) :
    Packs texts {text} (intern text) fun off => off text := by
  intro pool hpool
  cases hlookup : pool.offsets.lookup text with
  | some found =>
      refine ⟨found, pool, ?_, hpool, .refl pool, ?_, ?_⟩
      · rw [intern, hlookup]
      · rintro t rfl
        rw [hlookup]
        rfl
      · intro later hlater
        show found = (later.offsets.lookup text).getD 0
        rw [hlater text found hlookup]
        rfl
  | none =>
      -- the text is new, and there is room for it since the pool has only texts of `texts`
      have hnew : text ∉ pool.offsets.map Prod.fst := by
        rw [← lookup_isSome_iff, hlookup]
        exact Bool.false_ne_true
      have hfits : ¬ (pool.data.length > 0xFFFFFFFF ∨
          pool.data.length + (utf8 text.toList ++ [0]).length > 0x100000000) := by
        have hsize := hpool.room htext hnew
        have hpos : 0 < textSize text := Nat.succ_pos _
        rw [length_text]
        omega
      have hself : ((text, pool.data.length) :: pool.offsets).lookup text =
          some pool.data.length := by
        rw [List.lookup_cons, beq_self_eq_true]
      refine ⟨pool.data.length,
        { data := pool.data ++ (utf8 text.toList ++ [0])
          offsets := (text, pool.data.length) :: pool.offsets }, ?_, hpool.push htext hnew, ?_, ?_, ?_⟩
      · rw [intern, hlookup]
        exact if_neg hfits
      · intro t offset ht
        rw [List.lookup_cons]
        have hne : t ≠ text := by
          rintro rfl
          rw [hlookup] at ht
          cases ht
        rw [beq_eq_false_iff_ne.2 hne]
        exact ht
      · rintro t rfl
        rw [hself]
        rfl
      · intro later hlater
        show pool.data.length = (later.offsets.lookup text).getD 0
        rw [hlater text _ hself]
        rfl

/-! ### The walk, with the offsets given -/

lemma foldl_append_eq_flatMap {γ : Type} (record : γ → List UInt8) (l : List γ)
    (blob : List UInt8) :
    l.foldl (fun b c => b ++ record c) blob = blob ++ l.flatMap record := by
  induction l generalizing blob with
  | nil => simp
  | cons c l ih => rw [List.foldl_cons, ih, List.flatMap_cons, List.append_assoc]

section Image

variable (off : String → ℕ)

def signalBytes (s : SourceSignal) : List UInt8 :=
  packSignal (off s.name) (off s.type) (off s.file) s

def nameBytes (entry : String × ℕ) : List UInt8 := packName (off entry.1) entry.2

def driverBytes (entry : ℕ × SourceDriver) : List UInt8 :=
  packDriver entry.1 (off entry.2.kind) (off entry.2.role) (off entry.2.predicate)
    (off entry.2.file) entry.2

def loadBytes (entry : ℕ × SourceLoad) : List UInt8 :=
  packLoad entry.1 (off entry.2.kind) (off entry.2.file) entry.2

def portBytes (entry : ℕ × SourcePort) : List UInt8 :=
  packPort entry.1 (off entry.2.kind) entry.2

/-- The starts of the groups, `n` of them. -/
def startsBytes {α : Type} (groups : List (List α)) (n : ℕ) : List UInt8 :=
  (List.range n).flatMap fun k => packStart (groupStart groups k)

@[simp]
lemma length_signalBytes (s : SourceSignal) : (signalBytes off s).length = 24 := by
  simp [signalBytes, packSignal]

@[simp]
lemma length_nameBytes (entry : String × ℕ) : (nameBytes off entry).length = 8 := by
  simp [nameBytes, packName]

@[simp]
lemma length_driverBytes (entry : ℕ × SourceDriver) : (driverBytes off entry).length = 28 := by
  simp [driverBytes, packDriver]

@[simp]
lemma length_loadBytes (entry : ℕ × SourceLoad) : (loadBytes off entry).length = 20 := by
  simp [loadBytes, packLoad]

@[simp]
lemma length_portBytes (entry : ℕ × SourcePort) : (portBytes off entry).length = 12 := by
  simp [portBytes, packPort]

/-- One record for each element of the groups. -/
def tableBytes {α : Type} (record : ℕ × α → List UInt8) (groups : List (List α)) : List UInt8 :=
  (grouped groups).flatMap record

lemma tableBytes_concat {α : Type} (record : ℕ × α → List UInt8) (groups : List (List α))
    (group : List α) : tableBytes record (groups ++ [group]) =
      tableBytes record groups ++ group.flatMap fun x => record (groups.length, x) := by
  rw [tableBytes, grouped_concat, List.flatMap_append, List.flatMap_map]
  rfl

lemma length_tableBytes {α : Type} {record : ℕ × α → List UInt8} {width : ℕ}
    (hwidth : ∀ entry, (record entry).length = width) (groups : List (List α)) :
    (tableBytes record groups).length = groupStart groups groups.length * width := by
  rw [tableBytes, length_flatMap_of_forall fun entry _ => hwidth entry, length_grouped]

lemma startsBytes_concat {α : Type} (groups : List (List α)) (group : List α) :
    startsBytes (groups ++ [group]) (groups.length + 1) =
      startsBytes groups groups.length ++ packStart (groupStart groups groups.length) := by
  rw [startsBytes, List.range_succ, List.flatMap_append, List.flatMap_singleton,
    groupStart_append le_rfl]
  congr 1
  refine List.flatMap_congr ?_
  intro k hk
  rw [groupStart_append (List.mem_range.1 hk).le]

/-- What the walk has built up after some signals. -/
def imageBlobs (signals : List SourceSignal) : Blobs where
  signals := signals.flatMap (signalBytes off)
  drivers := tableBytes (driverBytes off) (signals.map SourceSignal.drivers)
  loads := tableBytes (loadBytes off) (signals.map SourceSignal.loads)
  ports := tableBytes (portBytes off) (signals.map SourceSignal.ports)
  driverStarts := startsBytes (signals.map SourceSignal.drivers) signals.length
  loadStarts := startsBytes (signals.map SourceSignal.loads) signals.length
  portStarts := startsBytes (signals.map SourceSignal.ports) signals.length
  names := (signals.map SourceSignal.name).zipIdx

/-- `addSignal` with the offsets given. -/
def addBytes (b : Blobs) (entry : SourceSignal × ℕ) : Blobs where
  signals := b.signals ++ signalBytes off entry.1
  drivers := b.drivers ++ entry.1.drivers.flatMap fun d => driverBytes off (entry.2, d)
  loads := b.loads ++ entry.1.loads.flatMap fun l => loadBytes off (entry.2, l)
  ports := b.ports ++ entry.1.ports.flatMap fun p => portBytes off (entry.2, p)
  driverStarts := b.driverStarts ++ packStart (b.drivers.length / 28)
  loadStarts := b.loadStarts ++ packStart (b.loads.length / 20)
  portStarts := b.portStarts ++ packStart (b.ports.length / 12)
  names := b.names ++ [(entry.1.name, entry.2)]

/-- The start that is written down is the number of the records so far. -/
lemma length_tableBytes_div {α : Type} {record : ℕ × α → List UInt8} {width : ℕ}
    (hwidth : ∀ entry, (record entry).length = width) (hpos : 0 < width)
    (groups : List (List α)) :
    (tableBytes record groups).length / width = groupStart groups groups.length := by
  rw [length_tableBytes hwidth, Nat.mul_div_cancel _ hpos]

lemma addBytes_imageBlobs (signals : List SourceSignal) (s : SourceSignal) :
    addBytes off (imageBlobs off signals) (s, signals.length) =
      imageBlobs off (signals ++ [s]) := by
  have hdrivers := length_tableBytes_div (length_driverBytes off) (by norm_num)
    (signals.map SourceSignal.drivers)
  have hloads := length_tableBytes_div (length_loadBytes off) (by norm_num)
    (signals.map SourceSignal.loads)
  have hports := length_tableBytes_div (length_portBytes off) (by norm_num)
    (signals.map SourceSignal.ports)
  rw [List.length_map] at hdrivers hloads hports
  have htable : ∀ {α : Type} (record : ℕ × α → List UInt8) (field : SourceSignal → List α),
      tableBytes record ((signals ++ [s]).map field) = tableBytes record (signals.map field) ++
        (field s).flatMap fun x => record (signals.length, x) := by
    intro α record field
    rw [List.map_append, List.map_singleton, tableBytes_concat, List.length_map]
  have hstarts : ∀ {α : Type} (field : SourceSignal → List α),
      startsBytes ((signals ++ [s]).map field) (signals ++ [s]).length =
        startsBytes (signals.map field) signals.length ++
          packStart (groupStart (signals.map field) signals.length) := by
    intro α field
    have h := startsBytes_concat (signals.map field) (field s)
    rw [List.length_map] at h
    rw [List.map_append, List.map_singleton, List.length_append, List.length_singleton, h]
  have hnames : ((signals ++ [s]).map SourceSignal.name).zipIdx =
      (signals.map SourceSignal.name).zipIdx ++ [(s.name, signals.length)] := by
    rw [List.map_append, List.map_singleton, List.zipIdx_append, List.length_map, Nat.zero_add,
      List.zipIdx_singleton]
  simp only [imageBlobs, addBytes, htable, hstarts, hnames, hdrivers, hloads, hports,
    List.flatMap_append, List.flatMap_singleton]

lemma foldl_addBytes (signals : List SourceSignal) :
    signals.zipIdx.foldl (addBytes off) {} = imageBlobs off signals := by
  induction signals using List.reverseRecOn with
  | nil => rfl
  | append_singleton signals s ih =>
      rw [List.zipIdx_append, List.foldl_append, ih, ← addBytes_imageBlobs]
      simp

end Image

/-! ### The walk, with the pool -/

section Walk

variable {texts : Finset String} (hlimit : ∑ t ∈ texts, textSize t ≤ 2 ^ 32)

include hlimit

lemma packs_addDriver {d : SourceDriver} (hd : ∀ t ∈ d.texts, t ∈ texts) (index : ℕ)
    (blob : List UInt8) : Packs texts {t | t ∈ d.texts} (addDriver index blob d) fun off =>
      blob ++ driverBytes off (index, d) := by
  have hintern : ∀ t ∈ d.texts, Packs texts {t} (intern t) fun off => off t :=
    fun t ht => packs_intern hlimit (hd t ht)
  refine ((hintern d.kind (by simp [SourceDriver.texts])).bind fun _ =>
    (hintern d.role (by simp [SourceDriver.texts])).bind fun _ =>
    (hintern d.predicate (by simp [SourceDriver.texts])).bind fun _ =>
    (hintern d.file (by simp [SourceDriver.texts])).bind fun _ => .pure _).mono ?_ rfl
  intro t ht
  simp only [Set.mem_ofPred_eq, SourceDriver.texts, List.mem_cons, List.not_mem_nil] at ht
  simp only [Set.mem_union, Set.mem_singleton_iff]
  tauto

lemma packs_addLoad {l : SourceLoad} (hl : ∀ t ∈ l.texts, t ∈ texts) (index : ℕ)
    (blob : List UInt8) : Packs texts {t | t ∈ l.texts} (addLoad index blob l) fun off =>
      blob ++ loadBytes off (index, l) := by
  have hintern : ∀ t ∈ l.texts, Packs texts {t} (intern t) fun off => off t :=
    fun t ht => packs_intern hlimit (hl t ht)
  refine ((hintern l.kind (by simp [SourceLoad.texts])).bind fun _ =>
    (hintern l.file (by simp [SourceLoad.texts])).bind fun _ => .pure _).mono ?_ rfl
  intro t ht
  simp only [Set.mem_ofPred_eq, SourceLoad.texts, List.mem_cons, List.not_mem_nil] at ht
  simp only [Set.mem_union, Set.mem_singleton_iff]
  tauto

lemma packs_addPort {p : SourcePort} (hp : ∀ t ∈ p.texts, t ∈ texts) (index : ℕ)
    (blob : List UInt8) : Packs texts {t | t ∈ p.texts} (addPort index blob p) fun off =>
      blob ++ portBytes off (index, p) := by
  refine ((packs_intern hlimit (hp p.kind (by simp [SourcePort.texts]))).bind fun _ =>
    .pure _).mono ?_ rfl
  intro t ht
  simpa [SourcePort.texts] using ht

lemma packs_addName {entry : String × ℕ} (h : entry.1 ∈ texts) (blob : List UInt8) :
    Packs texts ∅ (addName blob entry) fun off => blob ++ nameBytes off entry :=
  ((packs_intern hlimit h).bind fun _ => .pure _).mono (Set.empty_subset _) rfl

end Walk

/-- A loop that appends the records of a list. -/
lemma Packs.foldlM_append {γ : Type} {texts : Finset String}
    {step : List UInt8 → γ → Pool (List UInt8)} {used : γ → Set String}
    {record : (String → ℕ) → γ → List UInt8} {l : List γ}
    (h : ∀ c ∈ l, ∀ blob, Packs texts (used c) (step blob c) fun off => blob ++ record off c)
    (blob : List UInt8) :
    Packs texts (⋃ c ∈ l, used c) (l.foldlM step blob) fun off =>
      blob ++ l.flatMap (record off) := by
  refine (Packs.foldlM (g := fun off b c => b ++ record off c) h blob).mono subset_rfl ?_
  funext off
  exact foldl_append_eq_flatMap _ l blob

lemma packs_addSignal {texts : Finset String} (hlimit : ∑ t ∈ texts, textSize t ≤ 2 ^ 32)
    {entry : SourceSignal × ℕ} (hs : ∀ t ∈ entry.1.texts, t ∈ texts) (b : Blobs) :
    Packs texts {t | t ∈ entry.1.texts} (addSignal b entry) fun off => addBytes off b entry := by
  obtain ⟨s, index⟩ := entry
  have hmem : ∀ t, t ∈ s.texts ↔ _ := fun _ => SourceSignal.mem_texts
  have hintern : ∀ t, t = s.name ∨ t = s.type ∨ t = s.file →
      Packs texts {t} (intern t) fun off => off t :=
    fun t ht => packs_intern hlimit (hs t ((hmem t).2 (.inl ht)))
  have hdrivers := Packs.foldlM_append (l := s.drivers)
    (fun d hd => packs_addDriver hlimit (fun t ht =>
      hs t ((hmem t).2 (.inr (.inl ⟨d, hd, ht⟩)))) index) b.drivers
  have hloads := Packs.foldlM_append (l := s.loads)
    (fun l hl => packs_addLoad hlimit (fun t ht =>
      hs t ((hmem t).2 (.inr (.inr (.inl ⟨l, hl, ht⟩))))) index) b.loads
  have hports := Packs.foldlM_append (l := s.ports)
    (fun p hp => packs_addPort hlimit (fun t ht =>
      hs t ((hmem t).2 (.inr (.inr (.inr ⟨p, hp, ht⟩))))) index) b.ports
  refine ((hintern s.name (by simp)).bind fun _ => (hintern s.type (by simp)).bind fun _ =>
    (hintern s.file (by simp)).bind fun _ => hdrivers.bind fun _ => hloads.bind fun _ =>
    hports.bind fun _ => .pure _).mono ?_ rfl
  intro t ht
  rcases (hmem t).1 ht with h | h | h | h
  · rcases h with h | h | h
    · exact .inl h
    · exact .inr (.inl h)
    · exact .inr (.inr (.inl h))
  · exact .inr (.inr (.inr (.inl (Set.mem_iUnion₂.2 (by simpa using h)))))
  · exact .inr (.inr (.inr (.inr (.inl (Set.mem_iUnion₂.2 (by simpa using h))))))
  · exact .inr (.inr (.inr (.inr (.inr (.inl (Set.mem_iUnion₂.2 (by simpa using h)))))))

/-! ### The sections of the file -/

/-- The name index before it is packed. -/
def sortedNames (signals : List SourceSignal) : List (String × ℕ) :=
  (signals.map SourceSignal.name).zipIdx.mergeSort nameLe

/-- The bytes of each section. -/
def sectionBytes (pool : Strings) (signals : List SourceSignal) : SectionIndex → List UInt8
  | .signals => signals.flatMap (signalBytes pool.offset)
  | .nameIndex => (sortedNames signals).flatMap (nameBytes pool.offset)
  | .drivers => tableBytes (driverBytes pool.offset) (signals.map SourceSignal.drivers)
  | .driverStarts => startsBytes (signals.map SourceSignal.drivers) (signals.length + 1)
  | .loads => tableBytes (loadBytes pool.offset) (signals.map SourceSignal.loads)
  | .loadStarts => startsBytes (signals.map SourceSignal.loads) (signals.length + 1)
  | .ports => tableBytes (portBytes pool.offset) (signals.map SourceSignal.ports)
  | .portStarts => startsBytes (signals.map SourceSignal.ports) (signals.length + 1)
  | .strings => pool.data

/-- The number of elements of some groups. -/
def groupTotal {α : Type} (groups : List (List α)) : ℕ := groupStart groups groups.length

/-- The number of records of each section. -/
def sectionCount (pool : Strings) (signals : List SourceSignal) : SectionIndex → ℕ
  | .signals => signals.length
  | .nameIndex => signals.length
  | .drivers => groupTotal (signals.map SourceSignal.drivers)
  | .driverStarts => signals.length + 1
  | .loads => groupTotal (signals.map SourceSignal.loads)
  | .loadStarts => signals.length + 1
  | .ports => groupTotal (signals.map SourceSignal.ports)
  | .portStarts => signals.length + 1
  | .strings => pool.data.length

/-- The names of the index are names of the design. -/
lemma mem_sortedNames {signals : List SourceSignal} {entry : String × ℕ}
    (hentry : entry ∈ sortedNames signals) :
    ∃ s, signals[entry.2]? = some s ∧ s.name = entry.1 := by
  rw [sortedNames, List.mem_mergeSort, List.mem_zipIdx_iff_getElem?, List.getElem?_map,
    Option.map_eq_some_iff] at hentry
  exact hentry

lemma length_startsBytes {α : Type} (groups : List (List α)) (n : ℕ) :
    (startsBytes groups n).length = n * 8 := by
  have hwidth : ∀ k ∈ List.range n, (packStart (groupStart groups k)).length = 8 :=
    fun k _ => length_leBytes 8 _
  rw [startsBytes, length_flatMap_of_forall hwidth, List.length_range]

lemma length_sortedNames (signals : List SourceSignal) :
    (sortedNames signals).length = signals.length := by
  rw [sortedNames, List.length_mergeSort, List.length_zipIdx, List.length_map]

/-- The number of records of a section says how long it is. -/
lemma length_sectionBytes (pool : Strings) (signals : List SourceSignal) (i : SectionIndex) :
    (sectionBytes pool signals i).length = sectionCount pool signals i * i.width := by
  cases i with
  | signals => exact length_flatMap_of_forall fun s _ => length_signalBytes _ s
  | nameIndex =>
      rw [sectionBytes, length_flatMap_of_forall fun entry _ => length_nameBytes _ entry,
        length_sortedNames]
      rfl
  | drivers => exact length_tableBytes (length_driverBytes _) _
  | loads => exact length_tableBytes (length_loadBytes _) _
  | ports => exact length_tableBytes (length_portBytes _) _
  | driverStarts => exact length_startsBytes _ _
  | loadStarts => exact length_startsBytes _ _
  | portStarts => exact length_startsBytes _ _
  | strings => exact (Nat.mul_one _).symm

/-- The file of a design, with the offsets of a pool. -/
def imageBytes (pool : Strings) (signals : List SourceSignal) : List UInt8 :=
  packSections (SectionIndex.all.map fun i =>
    (sectionBytes pool signals i, sectionCount pool signals i))

lemma mem_designTexts {signals : List SourceSignal} {t : String} :
    t ∈ designTexts signals ↔ t = "" ∨ ∃ s ∈ signals, t ∈ s.texts := by
  rw [designTexts, Finset.mem_insert, List.mem_toFinset, List.mem_flatMap]

lemma mem_of_signal {signals : List SourceSignal} {s : SourceSignal} (hs : s ∈ signals)
    {t : String} (ht : t ∈ s.texts) : t ∈ designTexts signals :=
  mem_designTexts.2 (.inr ⟨s, hs, ht⟩)

lemma goodPool_init (signals : List SourceSignal) : GoodPool (designTexts signals) {} where
  nodup := List.nodup_singleton _
  mem entry hentry := by
    obtain rfl := List.mem_singleton.1 hentry
    exact mem_designTexts.2 (.inl rfl)
  placed entry hentry := by
    obtain rfl := List.mem_singleton.1 hentry
    exact List.prefix_rfl
  size := rfl

/-- A pool that holds every text of a design. -/
structure FullPool (signals : List SourceSignal) (pool : Strings) : Prop
    extends GoodPool (designTexts signals) pool where
  full : ∀ t ∈ designTexts signals, (pool.offsets.lookup t).isSome = true

lemma pool_bind {α β : Type} {x : Pool α} {f : α → Pool β} {pool pool' : Strings} {a : α}
    (h : x pool = .ok (a, pool')) : (x >>= f) pool = f a pool' := by
  show (x pool >>= fun p => f p.1 p.2) = _
  rw [h]
  rfl

/-- The starts with the last one, which is written after the walk. -/
lemma startsBytes_last {α : Type} {record : ℕ × α → List UInt8} {width : ℕ}
    (hwidth : ∀ entry, (record entry).length = width) (hpos : 0 < width)
    (groups : List (List α)) :
    startsBytes groups groups.length ++ packStart ((tableBytes record groups).length / width) =
      startsBytes groups (groups.length + 1) := by
  rw [length_tableBytes_div hwidth hpos, startsBytes, startsBytes, List.range_succ,
    List.flatMap_append, List.flatMap_singleton]

/-- What is packed at the end of the walk are the sections of the image. -/
lemma packSections_imageBlobs (pool : Strings) (signals : List SourceSignal) :
    (let b := imageBlobs pool.offset signals
     packSections [
      (b.signals, signals.length), (sectionBytes pool signals .nameIndex, signals.length),
      (b.drivers, b.drivers.length / 28),
      (b.driverStarts ++ packStart (b.drivers.length / 28), signals.length + 1),
      (b.loads, b.loads.length / 20),
      (b.loadStarts ++ packStart (b.loads.length / 20), signals.length + 1),
      (b.ports, b.ports.length / 12),
      (b.portStarts ++ packStart (b.ports.length / 12), signals.length + 1),
      (pool.data, pool.data.length)]) = imageBytes pool signals := by
  have hdrivers := startsBytes_last (length_driverBytes pool.offset) (by norm_num)
    (signals.map SourceSignal.drivers)
  have hloads := startsBytes_last (length_loadBytes pool.offset) (by norm_num)
    (signals.map SourceSignal.loads)
  have hports := startsBytes_last (length_portBytes pool.offset) (by norm_num)
    (signals.map SourceSignal.ports)
  rw [List.length_map] at hdrivers hloads hports
  simp only [imageBlobs, hdrivers, hloads, hports]
  simp only [
    length_tableBytes_div (length_driverBytes pool.offset) (show 0 < 28 by norm_num),
    length_tableBytes_div (length_loadBytes pool.offset) (show 0 < 20 by norm_num),
    length_tableBytes_div (length_portBytes pool.offset) (show 0 < 12 by norm_num)]
  rfl

/-- The converter writes the image of the design. -/
theorem convert_eq {signals : List SourceSignal} (hlimit : poolSize signals ≤ 2 ^ 32) :
    ∃ pool, FullPool signals pool ∧ convert signals = .ok (imageBytes pool signals) := by
  have hsignal : ∀ entry ∈ signals.zipIdx, ∀ t ∈ entry.1.texts, t ∈ designTexts signals := by
    intro entry hentry t ht
    exact mem_designTexts.2 (.inr ⟨entry.1, List.fst_mem_of_mem_zipIdx hentry, ht⟩)
  obtain ⟨b, pool₁, hrun₁, hpool₁, hext₁, hused₁, hres₁⟩ :=
    Packs.foldlM (fun entry hentry => packs_addSignal hlimit (hsignal entry hentry)) {} {}
      (goodPool_init signals)
  have hb₁ : b = imageBlobs pool₁.offset signals :=
    (hres₁ pool₁ (.refl pool₁)).trans (foldl_addBytes _ signals)
  have hname : ∀ entry ∈ b.names.mergeSort nameLe, entry.1 ∈ designTexts signals := by
    intro entry hentry
    rw [List.mem_mergeSort, hb₁] at hentry
    obtain ⟨s, hs, heq⟩ := List.mem_map.1 (List.fst_mem_of_mem_zipIdx hentry)
    refine mem_designTexts.2 (.inr ⟨s, hs, ?_⟩)
    rw [← heq]
    simp [SourceSignal.texts]
  obtain ⟨names, pool, hrun₂, hpool₂, hext₂, -, hres₂⟩ :=
    Packs.foldlM_append (fun entry hentry => packs_addName hlimit (hname entry hentry)) [] pool₁
      hpool₁
  have hb : b = imageBlobs pool.offset signals :=
    (hres₁ pool hext₂).trans (foldl_addBytes _ signals)
  have hnames : names = sectionBytes pool signals .nameIndex := by
    rw [hres₂ pool (.refl pool), hb]
    rfl
  refine ⟨pool, ⟨hpool₂, ?_⟩, ?_⟩
  · intro t ht
    rcases mem_designTexts.1 ht with rfl | ⟨s, hs, hin⟩
    · rw [hext₂ "" 0 (hext₁ "" 0 rfl)]
      rfl
    · obtain ⟨k, hk, hget⟩ := List.mem_iff_getElem.1 hs
      have hentry : (s, k) ∈ signals.zipIdx := by
        rw [List.mk_mem_zipIdx_iff_getElem?, List.getElem?_eq_getElem hk, hget]
      have hsome := hused₁ t (Set.mem_iUnion₂.2 ⟨(s, k), hentry, hin⟩)
      obtain ⟨offset, hoffset⟩ := Option.isSome_iff_exists.1 hsome
      rw [hext₂ t offset hoffset]
      rfl
  · have hrun : convertPool signals {} = .ok (imageBytes pool signals, pool) := by
      rw [convertPool, pool_bind hrun₁, pool_bind hrun₂, hnames, hb]
      exact congrArg (fun bytes => Except.ok (bytes, pool)) (packSections_imageBlobs pool signals)
    rw [convert, hrun]
    rfl

end XdebugFst.DesignDb
