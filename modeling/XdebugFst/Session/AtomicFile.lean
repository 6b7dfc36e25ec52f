import Mathlib
import XdebugFst.Lib.Disk
import XdebugFst.Session.Registry

/-!
# Files that are replaced as a whole

The record of a session and the marker of its generation are written by `write_atomic_file` and
`xdebug_design_write_generation_marker`: the new text goes to a file with a temporary name, which is
synced, closed and renamed, and then the directory is synced. Many processes do this at the same
time, a system call may fail or write only a part, a process may be killed between any two of them,
and the machine may stop.

`Run.whole` says what is left of this in a file with the proper name: at any time, and after any
number of crashes, it holds the text of one whole write, a reader gets the text of one whole write,
and a write that was reported as done is not undone.
-/

namespace XdebugFst.Session.AtomicFile

open Lib

/-! ### The two functions -/

/-- What the two functions do not share. -/
structure AtomicWrite where
  path : String
  data : List UInt8
  /-- The names that the temporary file may get. -/
  temps : Set String
  chmods : Bool
  /-- The temporary file is also removed when the directory cannot be synced. -/
  cleansUp : Bool

/-- `write_atomic_file`. The name is made by `mkstemp`. -/
def writeAtomicFile (path : String) (data : List UInt8) : AtomicWrite where
  path := path
  data := data
  temps := {temp | ∃ letters : List Char, letters.length = 6 ∧ (∀ c ∈ letters, c.isAlphanum) ∧
    temp = path ++ ".tmp." ++ String.ofList letters}
  chmods := true
  cleansUp := false

/-- `xdebug_design_write_generation_marker`, in the directory of a session and for a valid
generation. -/
def writeGenerationMarker (sessionDir generation : String) : AtomicWrite where
  path := sessionDir ++ "/generation"
  data := (generation ++ "\n").toUTF8.data.toList
  temps := {sessionDir ++ "/generation" ++ ".tmp." ++ generation}
  chmods := false
  cleansUp := true

/-- The directory that is synced, `path.substr(0, path.rfind('/'))`. -/
def directory (path : String) : String :=
  if '/' ∈ path.toList then
    String.ofList ((path.toList.reverse.dropWhile (· ≠ '/')).drop 1).reverse
  else "."

/-- Where a write is, with its temporary name, its file, and the stamp of its rename. -/
inductive Phase (ι : Type)
  | idle
  | opened (temp : String) (file : ι)
  | writing (temp : String) (file : ι) (offset : ℕ)
  | closing (temp : String) (file : ι) (ok : Bool)
  | closed (temp : String) (file : ι)
  | failing (temp : String) (file : ι)
  | renamed (temp : String) (stamp : ℕ)
  | cleaning (temp : String) (stamp : ℕ)
  | returned (ok : Bool) (stamp : Option ℕ)
  | killed (stamp : Option ℕ)

namespace Phase

variable {ι : Type}

/-- The temporary name and the file that the write still works on. -/
def active : Phase ι → Option (String × ι)
  | opened temp i | writing temp i _ | closing temp i _ | closed temp i | failing temp i =>
    some (temp, i)
  | _ => none

/-- When the file got its proper name. -/
def stamp : Phase ι → Option ℕ
  | renamed _ k | cleaning _ k => some k
  | returned _ k | killed k => k
  | _ => none

/-- The process ends. -/
def stop : Phase ι → Phase ι
  | idle => idle
  | returned ok k => returned ok k
  | p => killed p.stamp

@[simp] lemma active_stop (p : Phase ι) : p.stop.active = none := by cases p <;> rfl

@[simp] lemma stamp_stop (p : Phase ι) : p.stop.stamp = p.stamp := by cases p <;> rfl

end Phase

variable {ι : Type}

open Phase in
/-- The steps of a write. A failing `close` counts as failed whatever was before it. -/
inductive WriteStep [DecidableEq ι] (w : AtomicWrite) :
    Phase ι → Disk String ι UInt8 → Phase ι → Disk String ι UInt8 → Prop
  | openFails {d : Disk String ι UInt8} : WriteStep w idle d (returned false none) d
  | opens {d : Disk String ι UInt8} {temp : String} {i : ι} (htemp : temp ∈ w.temps)
      (hfree : (d.links temp).file = none) (hi : i ∉ d.created) :
      WriteStep w idle d (opened temp i) (d.create temp i)
  | ready {d : Disk String ι UInt8} {temp : String} {i : ι} :
      WriteStep w (opened temp i) d (writing temp i 0) d
  | chmodFails {d : Disk String ι UInt8} {temp : String} {i : ι} (h : w.chmods = true) :
      WriteStep w (opened temp i) d (closing temp i false) d
  | interrupted {d : Disk String ι UInt8} {temp : String} {i : ι} {offset : ℕ}
      (h : offset < w.data.length) :
      WriteStep w (writing temp i offset) d (writing temp i offset) d
  | writes {d : Disk String ι UInt8} {temp : String} {i : ι} {offset count : ℕ} (hpos : 0 < count)
      (h : offset + count ≤ w.data.length) :
      WriteStep w (writing temp i offset) d (writing temp i (offset + count))
        (d.append i ((w.data.drop offset).take count))
  | writeFails {d : Disk String ι UInt8} {temp : String} {i : ι} {offset : ℕ}
      (h : offset < w.data.length) :
      WriteStep w (writing temp i offset) d (closing temp i false) d
  | syncs {d : Disk String ι UInt8} {temp : String} {i : ι} {offset : ℕ}
      (h : ¬ offset < w.data.length) :
      WriteStep w (writing temp i offset) d (closing temp i true) (d.sync i)
  | syncFails {d : Disk String ι UInt8} {temp : String} {i : ι} {offset : ℕ}
      (h : ¬ offset < w.data.length) :
      WriteStep w (writing temp i offset) d (closing temp i false) d
  | closes {d : Disk String ι UInt8} {temp : String} {i : ι} :
      WriteStep w (closing temp i true) d (closed temp i) d
  | closeFails {d : Disk String ι UInt8} {temp : String} {i : ι} {ok : Bool} :
      WriteStep w (closing temp i ok) d (failing temp i) d
  | renames {d : Disk String ι UInt8} {temp : String} {i j : ι}
      (h : (d.links temp).file = some j) :
      WriteStep w (closed temp i) d (renamed temp (d.clock + 1)) (d.rename temp w.path)
  | renameFails {d : Disk String ι UInt8} {temp : String} {i : ι} :
      WriteStep w (closed temp i) d (failing temp i) d
  | unlinks {d : Disk String ι UInt8} {temp : String} {i : ι} :
      WriteStep w (failing temp i) d (returned false none) (d.unlink temp)
  | unlinkFails {d : Disk String ι UInt8} {temp : String} {i : ι} :
      WriteStep w (failing temp i) d (returned false none) d
  | directorySynced {d : Disk String ι UInt8} {temp : String} {k : ℕ} :
      WriteStep w (renamed temp k) d (returned true (some k))
        (d.settle {name | directory name = directory w.path})
  /-- Opening the directory or syncing it fails, or only closing it does. -/
  | directoryFails {d d' : Disk String ι UInt8} {temp : String} {k : ℕ}
      (h : d' = d ∨ d' = d.settle {name | directory name = directory w.path}) :
      WriteStep w (renamed temp k) d
        (if w.cleansUp then cleaning temp k else returned false (some k)) d'
  | cleans {d : Disk String ι UInt8} {temp : String} {k : ℕ} :
      WriteStep w (cleaning temp k) d (returned false (some k)) (d.unlink temp)
  | cleanFails {d : Disk String ι UInt8} {temp : String} {k : ℕ} :
      WriteStep w (cleaning temp k) d (returned false (some k)) d

/-- A reader of a whole file, as in `parse_record_file` and
`xdebug_design_read_generation_marker`. -/
inductive Reading (ι : Type)
  | idle
  | reading (file : ι) (got : List UInt8)
  | finished (text : Option (List UInt8))
  | failed

namespace Reading

/-- The steps of a reader. -/
inductive Step (path : String) (d : Disk String ι UInt8) : Reading ι → Reading ι → Prop
  | notFound (h : (d.links path).file = none) : Step path d idle (finished none)
  | opens {i : ι} (h : (d.links path).file = some i) : Step path d idle (reading i [])
  | reads {i : ι} {got : List UInt8} (count : ℕ) :
      Step path d (reading i got) (reading i (got ++ ((d.content i).drop got.length).take count))
  | ends {i : ι} {got : List UInt8} (h : (d.content i).length ≤ got.length) :
      Step path d (reading i got) (finished (some got))
  | fails {r : Reading ι} : Step path d r failed

/-- The process ends. -/
def stop : Reading ι → Reading ι
  | reading _ _ => failed
  | r => r

end Reading

/-! ### The system -/

/-- All writes and all readers, on one disk. -/
structure System (ι : Type) where
  disk : Disk String ι UInt8
  phase : ℕ → Phase ι
  reader : ℕ → Reading ι
  /-- The stamps of the names that were taken away. -/
  retirements : Set ℕ

namespace System

variable (s : System ι) (n : ℕ) (p : Phase ι) (d : Disk String ι UInt8)

/-- The write `n` goes on. -/
def advance : System ι := { s with disk := d, phase := Function.update s.phase n p }

@[simp] lemma disk_advance : (s.advance n p d).disk = d := rfl

@[simp] lemma phase_advance_self : (s.advance n p d).phase n = p := Function.update_self _ _ _

@[simp] lemma phase_advance_of_ne {m : ℕ} (h : m ≠ n) : (s.advance n p d).phase m = s.phase m :=
  Function.update_of_ne h _ _

end System

/-- A step of the system. `jobs` are the writes, `paths` is what the readers read, and `targets` are
the proper names. -/
inductive Step [DecidableEq ι] (jobs : ℕ → AtomicWrite) (paths : ℕ → String)
    (targets : Set String) (s : System ι) : System ι → Prop
  | write (n : ℕ) {p : Phase ι} {d : Disk String ι UInt8}
      (h : WriteStep (jobs n) (s.phase n) s.disk p d) :
      Step jobs paths targets s (s.advance n p d)
  | read (r : ℕ) {x : Reading ι} (h : (s.reader r).Step (paths r) s.disk x) :
      Step jobs paths targets s { s with reader := Function.update s.reader r x }
  /-- `remove_if_generation` removes a record. -/
  | retire {path : String} (h : path ∈ targets) :
      Step jobs paths targets s { s with
        disk := s.disk.unlink path, retirements := insert (s.disk.clock + 1) s.retirements }
  /-- A directory is synced by something else. -/
  | settle (names : Set String) : Step jobs paths targets s { s with disk := s.disk.settle names }
  | kill (n : ℕ) :
      Step jobs paths targets s (s.advance n (s.phase n).stop s.disk)
  | crash {d : Disk String ι UInt8} (h : s.disk.Crash d) :
      Step jobs paths targets s { s with
        disk := d, phase := fun n => (s.phase n).stop, reader := fun r => (s.reader r).stop }

variable {jobs : ℕ → AtomicWrite} {paths : ℕ → String} {targets : Set String}
  {initial : Disk String ι UInt8} {s : System ι}

/-- The runs of the system. -/
inductive Run [DecidableEq ι] (jobs : ℕ → AtomicWrite) (paths : ℕ → String)
    (targets : Set String) (initial : Disk String ι UInt8) : System ι → Prop
  | init : Run jobs paths targets initial
      { disk := initial, phase := fun _ => .idle, reader := fun _ => .idle, retirements := ∅ }
  | step {s s' : System ι} (h : Run jobs paths targets initial s)
      (hstep : Step jobs paths targets s s') : Run jobs paths targets initial s'

/-- No temporary name is a proper name, and a write that may remove its temporary name late does
not share it. -/
structure Separate (jobs : ℕ → AtomicWrite) (targets : Set String) : Prop where
  path_mem : ∀ n, (jobs n).path ∈ targets
  temp_notMem : ∀ n, ∀ temp ∈ (jobs n).temps, temp ∉ targets
  private_temp : ∀ n m, (jobs n).cleansUp = true → n ≠ m → ∀ temp ∈ (jobs n).temps,
    temp ∉ (jobs m).temps

/-- The disk before the first write: the files with proper names are on it. -/
structure Settled (targets : Set String) (d : Disk String ι UInt8) : Prop where
  durable : ∀ path ∈ targets, ∀ l ∈ d.durable path, l = d.links path
  stamp : ∀ path ∈ targets, (d.links path).stamp = 0
  synced : ∀ path ∈ targets, ∀ i, (d.links path).file = some i → i ∈ d.synced

/-! ### What holds in every state -/

/-- A text that was there in the beginning, or one whole write. -/
def Published (jobs : ℕ → AtomicWrite) (initial : Disk String ι UInt8) (s : System ι)
    (path : String) (text : List UInt8) : Prop :=
  initial.read path = some text ∨
    ∃ n, (jobs n).path = path ∧ (s.phase n).stamp.isSome = true ∧ text = (jobs n).data

/-- What a proper name may refer to. -/
def Version (jobs : ℕ → AtomicWrite) (initial : Disk String ι UInt8) (s : System ι)
    (path : String) (l : Link ι) : Prop :=
  (l.stamp = 0 ∧ l.file.map s.disk.content = initial.read path) ∨
  (l.file = none ∧ l.stamp ∈ s.retirements) ∨
  ∃ n, (jobs n).path = path ∧ (s.phase n).stamp = some l.stamp ∧
    l.file.map s.disk.content = some (jobs n).data

/-- A file that nobody writes any more. -/
structure Safe (s : System ι) (i : ι) : Prop where
  created : i ∈ s.disk.created
  synced : i ∈ s.disk.synced
  unused : ∀ n temp, (s.phase n).active ≠ some (temp, i)

/-- How far a write has got. -/
def Progress (w : AtomicWrite) (d : Disk String ι UInt8) : Phase ι → Prop
  | .opened _ i => d.content i = []
  | .writing _ i offset => offset ≤ w.data.length ∧ d.content i = w.data.take offset
  | .closing _ i true | .closed _ i => d.content i = w.data ∧ i ∈ d.synced
  | .renamed temp k => temp ∈ w.temps ∧ k ≤ (d.links w.path).stamp
  | .cleaning temp _ => temp ∈ w.temps ∧ w.cleansUp = true
  | .returned true k => ∃ j, k = some j ∧ d.Since w.path j
  | _ => True

/-- How far a reader has got. -/
def Reads (jobs : ℕ → AtomicWrite) (initial : Disk String ι UInt8) (s : System ι) (path : String) :
    Reading ι → Prop
  | .reading i got =>
    Safe s i ∧ Published jobs initial s path (s.disk.content i) ∧ got <+: s.disk.content i
  | .finished (some text) => Published jobs initial s path text
  | _ => True

/-- The file of a write that is going on has its temporary name and no other. -/
structure Owns (w : AtomicWrite) (targets : Set String) (d : Disk String ι UInt8) (temp : String)
    (i : ι) : Prop where
  temp_mem : temp ∈ w.temps
  file_eq : (d.links temp).file = some i
  created : i ∈ d.created
  unlinked : ∀ path ∈ targets, ∀ l ∈ d.durable path, l.file ≠ some i

structure Consistent (jobs : ℕ → AtomicWrite) (paths : ℕ → String) (targets : Set String)
    (initial : Disk String ι UInt8) (s : System ι) : Prop where
  owns : ∀ n temp i, (s.phase n).active = some (temp, i) → Owns (jobs n) targets s.disk temp i
  distinct : ∀ n m temp temp' i, (s.phase n).active = some (temp, i) →
    (s.phase m).active = some (temp', i) → n = m
  progress : ∀ n, Progress (jobs n) s.disk (s.phase n)
  version : ∀ path ∈ targets, ∀ l ∈ s.disk.durable path, Version jobs initial s path l
  safe : ∀ path ∈ targets, ∀ l ∈ s.disk.durable path, ∀ i, l.file = some i → Safe s i
  reads : ∀ r, paths r ∈ targets → Reads jobs initial s (paths r) (s.reader r)

/-- A step in which the writes of `own` go on and the other ones stay as they are. -/
structure Transition (jobs : ℕ → AtomicWrite) (targets : Set String)
    (initial : Disk String ι UInt8) (own : Set ℕ) (s s' : System ι) : Prop where
  phase : ∀ m ∉ own, s'.phase m = s.phase m
  stamp : ∀ m k, (s.phase m).stamp = some k → (s'.phase m).stamp = some k
  retirements : s.retirements ⊆ s'.retirements
  owns : ∀ m ∈ own, ∀ temp i, (s'.phase m).active = some (temp, i) →
    Owns (jobs m) targets s'.disk temp i ∧ ∀ n ≠ m, ∀ temp', (s'.phase n).active ≠ some (temp', i)
  progress : ∀ m ∈ own, Progress (jobs m) s'.disk (s'.phase m)
  safe : ∀ i, Safe s i → Safe s' i ∧ s'.disk.content i = s.disk.content i
  others : ∀ m ∉ own, ∀ temp i, (s.phase m).active = some (temp, i) →
    s'.disk.links temp = s.disk.links temp ∧ s'.disk.content i = s.disk.content i ∧
      (i ∈ s.disk.synced → i ∈ s'.disk.synced) ∧ i ∈ s'.disk.created
  links : ∀ m ∉ own, ∀ k ≤ (s.disk.links (jobs m).path).stamp,
    k ≤ (s'.disk.links (jobs m).path).stamp
  since : ∀ path ∈ targets, ∀ k, s.disk.Since path k → s'.disk.Since path k
  durable : ∀ path ∈ targets, ∀ l ∈ s'.disk.durable path, l ∈ s.disk.durable path ∨
    Version jobs initial s' path l ∧ ∀ i, l.file = some i → Safe s' i

namespace Transition

variable {own : Set ℕ} {s' : System ι}

lemma published (h : Transition jobs targets initial own s s') {path : String} {text : List UInt8}
    (hp : Published jobs initial s path text) : Published jobs initial s' path text := by
  rcases hp with hp | ⟨n, hpath, hstamp, hdata⟩
  · exact Or.inl hp
  · obtain ⟨k, hk⟩ := Option.isSome_iff_exists.1 hstamp
    exact Or.inr ⟨n, hpath, by simp [h.stamp n k hk], hdata⟩

lemma version (h : Transition jobs targets initial own s s') {path : String} {l : Link ι}
    (hv : Version jobs initial s path l) (hsafe : ∀ i, l.file = some i → Safe s i) :
    Version jobs initial s' path l := by
  have hmap : l.file.map s'.disk.content = l.file.map s.disk.content := by
    cases hfile : l.file with
    | none => rfl
    | some i => rw [Option.map_some, Option.map_some, (h.safe i (hsafe i hfile)).2]
  rcases hv with ⟨hzero, hinitial⟩ | ⟨hnone, hretired⟩ | ⟨n, hpath, hstamp, hdata⟩
  · exact Or.inl ⟨hzero, by rw [hmap, hinitial]⟩
  · exact Or.inr (Or.inl ⟨hnone, h.retirements hretired⟩)
  · exact Or.inr (Or.inr ⟨n, hpath, h.stamp n _ hstamp, by rw [hmap, hdata]⟩)

lemma reads (h : Transition jobs targets initial own s s') {path : String} {x : Reading ι}
    (hx : Reads jobs initial s path x) : Reads jobs initial s' path x := by
  cases x with
  | reading i got =>
    obtain ⟨hsafe, hp, hgot⟩ := hx
    obtain ⟨hsafe', hcontent⟩ := h.safe i hsafe
    exact ⟨hsafe', by rw [hcontent]; exact h.published hp, by rwa [hcontent]⟩
  | finished text =>
    cases text with
    | none => trivial
    | some text => exact h.published hx
  | idle | failed => trivial

/-- A write that the step does not belong to is where it was. -/
lemma progress_of_notMem (h : Transition jobs targets initial own s s') {m : ℕ} (hm : m ∉ own)
    (hpath : (jobs m).path ∈ targets) (hp : Progress (jobs m) s.disk (s.phase m)) :
    Progress (jobs m) s'.disk (s'.phase m) := by
  rw [h.phase m hm]
  have hothers := h.others m hm
  cases hphase : s.phase m with
  | opened temp i =>
    rw [hphase] at hp hothers
    obtain ⟨-, hcontent, -⟩ := hothers temp i rfl
    exact hcontent.trans hp
  | writing temp i offset =>
    rw [hphase] at hp hothers
    obtain ⟨-, hcontent, -⟩ := hothers temp i rfl
    exact ⟨hp.1, hcontent.trans hp.2⟩
  | closing temp i ok =>
    cases ok with
    | false => trivial
    | true =>
      rw [hphase] at hp hothers
      obtain ⟨-, hcontent, hsynced, -⟩ := hothers temp i rfl
      exact ⟨hcontent.trans hp.1, hsynced hp.2⟩
  | closed temp i =>
    rw [hphase] at hp hothers
    obtain ⟨-, hcontent, hsynced, -⟩ := hothers temp i rfl
    exact ⟨hcontent.trans hp.1, hsynced hp.2⟩
  | renamed temp k =>
    rw [hphase] at hp
    exact ⟨hp.1, h.links m hm k hp.2⟩
  | cleaning temp k =>
    rw [hphase] at hp
    exact hp
  | returned ok k =>
    cases ok with
    | false => trivial
    | true =>
      rw [hphase] at hp
      obtain ⟨j, hj, hsince⟩ := hp
      exact ⟨j, hj, h.since _ hpath j hsince⟩
  | idle | failing | killed => trivial

end Transition

/-- What holds before a transition holds after it. -/
lemma Consistent.transition {own : Set ℕ} {s' : System ι}
    (h : Consistent jobs paths targets initial s) (hsep : Separate jobs targets)
    (ht : Transition jobs targets initial own s s') (hreader : s'.reader = s.reader) :
    Consistent jobs paths targets initial s' where
  owns m temp i hi := by
    by_cases hm : m ∈ own
    · exact (ht.owns m hm temp i hi).1
    · rw [ht.phase m hm] at hi
      obtain ⟨hlinks, -, -, hcreated⟩ := ht.others m hm temp i hi
      have hown := h.owns m temp i hi
      refine ⟨hown.temp_mem, by rw [hlinks, hown.file_eq], hcreated, fun path hpath l hl hfile => ?_⟩
      rcases ht.durable path hpath l hl with hl | ⟨-, hsafe⟩
      · exact hown.unlinked path hpath l hl hfile
      · exact (hsafe i hfile).unused m temp (by rw [ht.phase m hm, hi])
  distinct n m temp temp' i hn hm := by
    by_contra hne
    by_cases hnown : n ∈ own
    · exact (ht.owns n hnown temp i hn).2 m (Ne.symm hne) temp' hm
    by_cases hmown : m ∈ own
    · exact (ht.owns m hmown temp' i hm).2 n hne temp hn
    · rw [ht.phase n hnown] at hn
      rw [ht.phase m hmown] at hm
      exact hne (h.distinct n m temp temp' i hn hm)
  progress m := by
    by_cases hm : m ∈ own
    · exact ht.progress m hm
    · exact ht.progress_of_notMem hm (hsep.path_mem m) (h.progress m)
  version path hpath l hl := by
    rcases ht.durable path hpath l hl with hl | ⟨hversion, -⟩
    · exact ht.version (h.version path hpath l hl) (h.safe path hpath l hl)
    · exact hversion
  safe path hpath l hl i hi := by
    rcases ht.durable path hpath l hl with hl | ⟨-, hsafe⟩
    · exact (ht.safe i (h.safe path hpath l hl i hi)).1
    · exact hsafe i hi
  reads r hr := by
    rw [hreader]
    exact ht.reads (h.reads r hr)

/-! ### The steps of a write -/

/-- The disk changes where only the write `n` can see it. -/
structure Quiet (targets : Set String) (s : System ι) (n : ℕ) (d : Disk String ι UInt8) :
    Prop where
  content : ∀ i ∈ s.disk.created, (∀ temp, (s.phase n).active ≠ some (temp, i)) →
    d.content i = s.disk.content i ∧ (i ∈ s.disk.synced → i ∈ d.synced)
  created : s.disk.created ⊆ d.created
  links : ∀ m ≠ n, ∀ temp i, (s.phase m).active = some (temp, i) →
    d.links temp = s.disk.links temp
  stamps : ∀ path ∈ targets, ∀ k ≤ (s.disk.links path).stamp, k ≤ (d.links path).stamp
  since : ∀ path ∈ targets, ∀ k, s.disk.Since path k → d.Since path k

namespace Quiet

variable {n : ℕ} {temp : String} {i : ι}

lemma refl : Quiet targets s n s.disk where
  content _ _ _ := ⟨rfl, id⟩
  created := subset_rfl
  links _ _ _ _ _ := rfl
  stamps _ _ _ hk := hk
  since _ _ _ hk := hk

lemma settle {names : Set String} : Quiet targets s n (s.disk.settle names) where
  content _ _ _ := ⟨rfl, id⟩
  created := subset_rfl
  links _ _ _ _ _ := rfl
  stamps _ _ _ hk := hk
  since _ _ _ hk := hk.settle names

lemma sync : Quiet targets s n (s.disk.sync i) where
  content _ _ _ := ⟨rfl, fun h => Disk.mem_synced_sync.2 (Or.inr h)⟩
  created := subset_rfl
  links _ _ _ _ _ := rfl
  stamps _ _ _ hk := hk
  since _ _ _ hk := hk

lemma append [DecidableEq ι] {chunk : List UInt8} (hi : (s.phase n).active = some (temp, i)) :
    Quiet targets s n (s.disk.append i chunk) where
  content j _ hj := by
    have hne : j ≠ i := by
      rintro rfl
      exact hj temp hi
    simp [hne]
  created := subset_rfl
  links _ _ _ _ _ := rfl
  stamps _ _ _ hk := hk
  since _ _ _ hk := hk

lemma create [DecidableEq ι] (h : Consistent jobs paths targets initial s) (htemp : temp ∉ targets)
    (hfree : (s.disk.links temp).file = none) (hi : i ∉ s.disk.created) :
    Quiet targets s n (s.disk.create temp i) where
  content j hj _ := by
    have hne : j ≠ i := by
      rintro rfl
      exact hi hj
    simp [hne]
  created j hj := Disk.mem_created_create.2 (Or.inr hj)
  links m _ temp' i' hm := by
    have hne : temp' ≠ temp := by
      rintro rfl
      simp [(h.owns m temp' i' hm).file_eq] at hfree
    exact Disk.links_create_of_ne hne
  stamps path hpath k hk := by
    have hne : path ≠ temp := ne_of_mem_of_not_mem hpath htemp
    rwa [Disk.links_create_of_ne hne]
  since path _ k hk := hk.create temp i

lemma unlink (h : ∀ m ≠ n, ∀ temp' i, (s.phase m).active = some (temp', i) → temp' ≠ temp)
    (htemp : temp ∉ targets) : Quiet targets s n (s.disk.unlink temp) where
  content _ _ _ := ⟨rfl, id⟩
  created := subset_rfl
  links m hm temp' i hi := Disk.links_unlink_of_ne (h m hm temp' i hi)
  stamps path hpath k hk := by
    have hne : path ≠ temp := ne_of_mem_of_not_mem hpath htemp
    rwa [Disk.links_unlink_of_ne hne]
  since path _ k hk := hk.unlink temp

lemma rename {path : String}
    (h : ∀ m ≠ n, ∀ temp' i, (s.phase m).active = some (temp', i) → temp' ≠ temp ∧ temp' ≠ path)
    (htemp : temp ∉ targets) : Quiet targets s n (s.disk.rename temp path) where
  content _ _ _ := ⟨rfl, id⟩
  created := subset_rfl
  links m hm temp' i hi := Disk.links_rename_of_ne (h m hm temp' i hi).1 (h m hm temp' i hi).2
  stamps path' hpath' k hk := by
    have hne : path' ≠ temp := ne_of_mem_of_not_mem hpath' htemp
    rw [Disk.rename, Disk.links_unlink_of_ne hne]
    exact Disk.le_links_relink _ _ _ hk
  since path' _ k hk := hk.rename temp path

end Quiet

/-- A write goes on, and the disk changes where only this write can see it or gets a new version of
a file. -/
lemma Transition.write {n : ℕ} {p : Phase ι} {d : Disk String ι UInt8}
    (h : Consistent jobs paths targets initial s) (hsep : Separate jobs targets)
    (hstamp : ∀ k, (s.phase n).stamp = some k → p.stamp = some k)
    (hprogress : Progress (jobs n) d p) (hquiet : Quiet targets s n d)
    (howns : ∀ temp i, p.active = some (temp, i) → Owns (jobs n) targets d temp i ∧
      ((s.phase n).active = some (temp, i) ∨ i ∉ s.disk.created))
    (hdurable : ∀ path ∈ targets, ∀ l ∈ d.durable path, l ∈ s.disk.durable path ∨
      Version jobs initial (s.advance n p d) path l ∧
        ∀ i, l.file = some i → Safe (s.advance n p d) i) :
    Transition jobs targets initial {n} s (s.advance n p d) where
  phase m hm := s.phase_advance_of_ne n p d hm
  stamp m k hk := by
    by_cases hm : m = n
    · subst hm
      simpa using hstamp k hk
    · simpa [hm] using hk
  retirements := subset_rfl
  owns m hm temp i hi := by
    obtain rfl : m = n := hm
    rw [s.phase_advance_self] at hi
    obtain ⟨hown, hold⟩ := howns temp i hi
    refine ⟨hown, fun m' hm' temp' hi' => ?_⟩
    rw [s.phase_advance_of_ne _ _ _ hm'] at hi'
    rcases hold with hold | hnew
    · exact hm' (h.distinct m' m temp' temp i hi' hold)
    · exact hnew (h.owns m' temp' i hi').created
  progress m hm := by
    obtain rfl : m = n := hm
    simpa using hprogress
  safe i hi := by
    obtain ⟨hcontent, hsynced⟩ := hquiet.content i hi.created (hi.unused n)
    refine ⟨⟨hquiet.created hi.created, hsynced hi.synced, fun m temp hm => ?_⟩, hcontent⟩
    by_cases hmn : m = n
    · subst hmn
      rw [s.phase_advance_self] at hm
      rcases (howns temp i hm).2 with hold | hnew
      · exact hi.unused m temp hold
      · exact hnew hi.created
    · rw [s.phase_advance_of_ne _ _ _ hmn] at hm
      exact hi.unused m temp hm
  others m hm temp i hi := by
    obtain ⟨hcontent, hsynced⟩ := hquiet.content i (h.owns m temp i hi).created
      fun temp' hn => hm (h.distinct m n temp temp' i hi hn)
    exact ⟨hquiet.links m hm temp i hi, hcontent, hsynced,
      hquiet.created (h.owns m temp i hi).created⟩
  links m _ k hk := hquiet.stamps _ (hsep.path_mem m) k hk
  since := hquiet.since
  durable := hdurable

/-- A write goes on without a change of the disk that others can see. -/
lemma Transition.quiet {n : ℕ} {p : Phase ι} {d : Disk String ι UInt8}
    (h : Consistent jobs paths targets initial s) (hsep : Separate jobs targets)
    (hstamp : ∀ k, (s.phase n).stamp = some k → p.stamp = some k)
    (hprogress : Progress (jobs n) d p) (hquiet : Quiet targets s n d)
    (hactive : p.active = none ∨ p.active = (s.phase n).active ∧ d.links = s.disk.links)
    (hdurable : ∀ path ∈ targets, d.durable path ⊆ s.disk.durable path) :
    Transition jobs targets initial {n} s (s.advance n p d) := by
  refine .write h hsep hstamp hprogress hquiet (fun temp i hi => ?_)
    fun path hpath l hl => Or.inl (hdurable path hpath hl)
  rcases hactive with hnone | ⟨hsame, hlinks⟩
  · rw [hnone] at hi
    cases hi
  · rw [hsame] at hi
    obtain ⟨htemp, hfile, hcreated, hunlinked⟩ := h.owns n temp i hi
    exact ⟨⟨htemp, by rw [hlinks, hfile], hquiet.created hcreated,
      fun path hpath l hl => hunlinked path hpath l (hdurable path hpath hl)⟩, Or.inl hi⟩

section Steps

variable {n : ℕ} {temp : String} {i : ι}

/-- A step that only goes on. -/
lemma Transition.setPhase {p : Phase ι} (h : Consistent jobs paths targets initial s)
    (hsep : Separate jobs targets) (hstamp : ∀ k, (s.phase n).stamp = some k → p.stamp = some k)
    (hprogress : Progress (jobs n) s.disk p)
    (hactive : p.active = none ∨ p.active = (s.phase n).active) :
    Transition jobs targets initial {n} s (s.advance n p s.disk) :=
  .quiet h hsep hstamp hprogress .refl (hactive.imp_right fun h => ⟨h, rfl⟩)
    fun _ _ => subset_rfl

lemma Transition.opens [DecidableEq ι] (h : Consistent jobs paths targets initial s)
    (hsep : Separate jobs targets) (hphase : s.phase n = .idle) (htemp : temp ∈ (jobs n).temps)
    (hfree : (s.disk.links temp).file = none) (hi : i ∉ s.disk.created) :
    Transition jobs targets initial {n} s
      (s.advance n (.opened temp i) (s.disk.create temp i)) := by
  have htarget : temp ∉ targets := hsep.temp_notMem n temp htemp
  have hdurable : ∀ path ∈ targets, ∀ l ∈ (s.disk.create temp i).durable path,
      l ∈ s.disk.durable path := by
    intro path hpath l hl
    rcases Disk.mem_durable_create.1 hl with ⟨rfl, -⟩ | hl
    · exact absurd hpath htarget
    · exact hl
  refine .write h hsep (by simp [hphase, Phase.stamp]) (Disk.content_allocate_self i)
    (.create h htarget hfree hi) (fun temp' i' hi' => ?_)
    fun path hpath l hl => Or.inl (hdurable path hpath l hl)
  cases hi'
  refine ⟨⟨htemp, by rw [Disk.links_create_self], by simp, fun path hpath l hl hfile => ?_⟩,
    Or.inr hi⟩
  exact hi (s.disk.file_mem path l (hdurable path hpath l hl) i hfile)

lemma Transition.writes [DecidableEq ι] {offset count : ℕ}
    (h : Consistent jobs paths targets initial s) (hsep : Separate jobs targets)
    (hphase : s.phase n = .writing temp i offset) (hcount : offset + count ≤ (jobs n).data.length) :
    Transition jobs targets initial {n} s (s.advance n (.writing temp i (offset + count))
      (s.disk.append i (((jobs n).data.drop offset).take count))) := by
  have hprogress := h.progress n
  rw [hphase] at hprogress
  refine .quiet h hsep (by simp [hphase, Phase.stamp]) ⟨hcount, ?_⟩
    (.append (show (s.phase n).active = some (temp, i) by rw [hphase]; rfl))
    (Or.inr ⟨by rw [hphase]; rfl, rfl⟩)
    fun _ _ => subset_rfl
  rw [Disk.content_append_self, hprogress.2, List.take_add]

lemma Transition.syncs {offset : ℕ} (h : Consistent jobs paths targets initial s)
    (hsep : Separate jobs targets) (hphase : s.phase n = .writing temp i offset)
    (hoffset : ¬ offset < (jobs n).data.length) :
    Transition jobs targets initial {n} s (s.advance n (.closing temp i true) (s.disk.sync i)) := by
  have hprogress := h.progress n
  rw [hphase] at hprogress
  refine .quiet h hsep (by simp [hphase, Phase.stamp]) ⟨?_, Disk.mem_synced_sync.2 (Or.inl rfl)⟩
    .sync (Or.inr ⟨by rw [hphase]; rfl, rfl⟩) fun _ _ => subset_rfl
  rw [Disk.content_sync, hprogress.2, List.take_of_length_le (not_lt.1 hoffset)]

/-- The file gets its proper name. -/
lemma Transition.renames [DecidableEq ι] (h : Consistent jobs paths targets initial s)
    (hsep : Separate jobs targets) (hphase : s.phase n = .closed temp i) :
    Transition jobs targets initial {n} s (s.advance n (.renamed temp (s.disk.clock + 1))
      (s.disk.rename temp (jobs n).path)) := by
  have hactive : (s.phase n).active = some (temp, i) := by
    rw [hphase]
    rfl
  have hown := h.owns n temp i hactive
  have hprogress := h.progress n
  rw [hphase] at hprogress
  obtain ⟨hcontent, hsynced⟩ := hprogress
  have htarget : temp ∉ targets := hsep.temp_notMem n temp hown.temp_mem
  have hne : (jobs n).path ≠ temp := ne_of_mem_of_not_mem (hsep.path_mem n) htarget
  have hlinks : (s.disk.rename temp (jobs n).path).links (jobs n).path =
      ⟨some i, s.disk.clock + 1⟩ := by
    rw [Disk.links_rename hne, hown.file_eq]
  refine .write h hsep (by simp [hphase, Phase.stamp]) ⟨hown.temp_mem, by rw [hlinks]⟩
    (.rename (fun m hm temp' i' hi' => ⟨?_, ?_⟩) htarget) (fun _ _ hi => by cases hi)
    fun path hpath l hl => ?_
  · rintro rfl
    obtain rfl : i' = i := Option.some.inj ((h.owns m temp' i' hi').file_eq.symm.trans hown.file_eq)
    exact hm (h.distinct m n _ _ _ hi' hactive)
  · rintro rfl
    exact hsep.temp_notMem m _ (h.owns m _ i' hi').temp_mem (hsep.path_mem n)
  · rw [Disk.mem_durable_rename (ne_of_mem_of_not_mem hpath htarget), hown.file_eq] at hl
    rcases hl with ⟨rfl, rfl⟩ | hl
    · refine Or.inr ⟨Or.inr (Or.inr ⟨n, rfl, by simp [Phase.stamp], by simp [hcontent]⟩), ?_⟩
      rintro j ⟨⟩
      refine ⟨hown.created, hsynced, fun m temp' hm => ?_⟩
      by_cases hmn : m = n
      · subst hmn
        simp [Phase.active] at hm
      · rw [s.phase_advance_of_ne _ _ _ hmn] at hm
        exact hmn (h.distinct m n _ _ _ hm hactive)
    · exact Or.inl hl

/-- A write removes its temporary name, or what may be left of it. -/
lemma Transition.unlinks {p : Phase ι} (h : Consistent jobs paths targets initial s)
    (hsep : Separate jobs targets) (hstamp : ∀ k, (s.phase n).stamp = some k → p.stamp = some k)
    (hprogress : Progress (jobs n) (s.disk.unlink temp) p) (hactive : p.active = none)
    (htemp : temp ∈ (jobs n).temps)
    (hne : ∀ m ≠ n, ∀ temp' i, (s.phase m).active = some (temp', i) → temp' ≠ temp) :
    Transition jobs targets initial {n} s (s.advance n p (s.disk.unlink temp)) := by
  have htarget : temp ∉ targets := hsep.temp_notMem n temp htemp
  refine .quiet h hsep hstamp hprogress (.unlink hne htarget) (Or.inl hactive)
    fun path hpath l hl => ?_
  rcases Disk.mem_durable_unlink.1 hl with ⟨rfl, -⟩ | hl
  · exact absurd hpath htarget
  · exact hl

end Steps

/-- Every step of a write is a transition. -/
lemma Transition.writeStep [DecidableEq ι] {n : ℕ} {p : Phase ι} {d : Disk String ι UInt8}
    (h : Consistent jobs paths targets initial s) (hsep : Separate jobs targets)
    (hstep : WriteStep (jobs n) (s.phase n) s.disk p d) :
    Transition jobs targets initial {n} s (s.advance n p d) := by
  have hprogress := h.progress n
  generalize hphase : s.phase n = q at hstep hprogress
  generalize hdisk : s.disk = e at hstep hprogress
  cases hstep with
  | openFails =>
    subst hdisk
    exact .setPhase h hsep (by simp [hphase, Phase.stamp]) trivial (Or.inl rfl)
  | opens htemp hfree hi =>
    subst hdisk
    exact .opens h hsep hphase htemp hfree hi
  | ready =>
    subst hdisk
    exact .setPhase h hsep (by simp [hphase, Phase.stamp]) ⟨Nat.zero_le _, hprogress⟩
      (Or.inr (by rw [hphase]; rfl))
  | interrupted =>
    subst hdisk
    exact .setPhase h hsep (by simp [hphase]) hprogress (Or.inr (by rw [hphase]))
  | writes hpos hcount =>
    subst hdisk
    exact .writes h hsep hphase hcount
  | syncs hoffset =>
    subst hdisk
    exact .syncs h hsep hphase hoffset
  | closes =>
    subst hdisk
    exact .setPhase h hsep (by simp [hphase, Phase.stamp]) hprogress (Or.inr (by rw [hphase]; rfl))
  | renames =>
    subst hdisk
    exact .renames h hsep hphase
  | chmodFails | writeFails | syncFails | closeFails | renameFails =>
    subst hdisk
    exact .setPhase h hsep (by simp [hphase, Phase.stamp]) trivial (Or.inr (by rw [hphase]; rfl))
  | unlinks =>
    subst hdisk
    rename_i temp i
    have hactive : (s.phase n).active = some (temp, i) := by
      rw [hphase]
      rfl
    refine .unlinks h hsep (by simp [hphase, Phase.stamp]) trivial rfl
      (h.owns n temp i hactive).temp_mem fun m hm temp' i' hi' => ?_
    rintro rfl
    obtain rfl : i' = i := Option.some.inj
      ((h.owns m temp' i' hi').file_eq.symm.trans (h.owns n temp' i hactive).file_eq)
    exact hm (h.distinct m n _ _ _ hi' hactive)
  | unlinkFails =>
    subst hdisk
    exact .setPhase h hsep (by simp [hphase, Phase.stamp]) trivial (Or.inl rfl)
  | directorySynced =>
    subst hdisk
    exact .quiet h hsep (by simp [hphase, Phase.stamp])
      ⟨_, rfl, Disk.since_settle rfl hprogress.2⟩ .settle (Or.inl rfl) fun _ _ l hl => hl.1
  | directoryFails hd =>
    subst hdisk
    have hquiet : Quiet targets s n d ∧ ∀ path ∈ targets, d.durable path ⊆ s.disk.durable path := by
      rcases hd with rfl | rfl
      · exact ⟨.refl, fun _ _ => subset_rfl⟩
      · exact ⟨.settle, fun _ _ l hl => hl.1⟩
    split
    · rename_i hclean
      exact .quiet h hsep (by simp [hphase, Phase.stamp]) ⟨hprogress.1, hclean⟩ hquiet.1
        (Or.inl rfl) hquiet.2
    · exact .quiet h hsep (by simp [hphase, Phase.stamp]) trivial hquiet.1 (Or.inl rfl) hquiet.2
  | cleans =>
    subst hdisk
    refine .unlinks h hsep (by simp [hphase, Phase.stamp]) trivial rfl hprogress.1
      fun m hm temp' i' hi' => ?_
    rintro rfl
    exact hsep.private_temp n m hprogress.2 hm.symm _ hprogress.1 (h.owns m _ i' hi').temp_mem
  | cleanFails =>
    subst hdisk
    exact .setPhase h hsep (by simp [hphase, Phase.stamp]) trivial (Or.inl rfl)

/-! ### The other steps -/

lemma Transition.retire {path : String} (h : Consistent jobs paths targets initial s)
    (hsep : Separate jobs targets) (hpath : path ∈ targets) :
    Transition jobs targets initial ∅ s { s with
      disk := s.disk.unlink path, retirements := insert (s.disk.clock + 1) s.retirements } where
  phase _ _ := rfl
  stamp _ _ hk := hk
  retirements := Set.subset_insert _ _
  owns _ hm := hm.elim
  progress _ hm := hm.elim
  safe _ hi := ⟨⟨hi.created, hi.synced, hi.unused⟩, rfl⟩
  others m _ temp i hi := by
    have hown := h.owns m temp i hi
    have hne : temp ≠ path := by
      rintro rfl
      exact hsep.temp_notMem m temp hown.temp_mem hpath
    exact ⟨Disk.links_unlink_of_ne hne, rfl, id, hown.created⟩
  links m _ k hk := Disk.le_links_relink path none nofun hk
  since path' _ k hk := hk.unlink path
  durable path' _ l hl := by
    rcases Disk.mem_durable_unlink.1 hl with ⟨rfl, rfl⟩ | hl
    · exact Or.inr ⟨Or.inr (Or.inl ⟨rfl, Set.mem_insert _ _⟩), nofun⟩
    · exact Or.inl hl

lemma Transition.settle {names : Set String} (h : Consistent jobs paths targets initial s) :
    Transition jobs targets initial ∅ s { s with disk := s.disk.settle names } where
  phase _ _ := rfl
  stamp _ _ hk := hk
  retirements := subset_rfl
  owns _ hm := hm.elim
  progress _ hm := hm.elim
  safe _ hi := ⟨⟨hi.created, hi.synced, hi.unused⟩, rfl⟩
  others m _ temp i hi := ⟨rfl, rfl, id, (h.owns m temp i hi).created⟩
  links _ _ _ hk := hk
  since _ _ _ hk := hk.settle names
  durable _ _ _ hl := Or.inl hl.1

lemma progress_stop {w : AtomicWrite} {d d' : Disk String ι UInt8} {p : Phase ι}
    (hsince : ∀ k, d.Since w.path k → d'.Since w.path k) (h : Progress w d p) :
    Progress w d' p.stop := by
  cases p with
  | returned ok k =>
    cases ok with
    | false => trivial
    | true =>
      obtain ⟨j, hj, hj'⟩ := h
      exact ⟨j, hj, hsince j hj'⟩
  | _ => trivial

/-- After a crash no write goes on, and what was safe is still there. -/
lemma Transition.crash {d : Disk String ι UInt8} (h : Consistent jobs paths targets initial s)
    (hcrash : s.disk.Crash d) :
    Transition jobs targets initial Set.univ s
      { s with disk := d, phase := fun n => (s.phase n).stop } where
  phase m hm := absurd (Set.mem_univ m) hm
  stamp m k hk := by simpa using hk
  retirements := subset_rfl
  owns m _ temp i hi := by simp at hi
  progress m _ := progress_stop (fun k hk => hk.crash hcrash) (h.progress m)
  safe i hi := ⟨⟨by rw [hcrash.created]; exact hi.created, hcrash.synced hi.synced, by simp⟩,
    hcrash.content i hi.synced⟩
  others m hm := absurd (Set.mem_univ m) hm
  links m hm := absurd (Set.mem_univ m) hm
  since _ _ _ hk := hk.crash hcrash
  durable path _ l hl := by
    rw [hcrash.durable, Set.mem_singleton_iff] at hl
    subst hl
    exact Or.inl (hcrash.links_mem path)

/-- The text under a proper name at any time is a whole one. -/
lemma Consistent.published (h : Consistent jobs paths targets initial s) {path : String} {i : ι}
    (hpath : path ∈ targets) (hfile : (s.disk.links path).file = some i) :
    Published jobs initial s path (s.disk.content i) := by
  rcases h.version path hpath _ (s.disk.links_mem path) with
    ⟨-, hinitial⟩ | ⟨hnone, -⟩ | ⟨n, hn, hstamp, hdata⟩
  · exact Or.inl (by rw [← hinitial, hfile, Option.map_some])
  · rw [hnone] at hfile
    cases hfile
  · rw [hfile, Option.map_some] at hdata
    exact Or.inr ⟨n, hn, by simp [hstamp], Option.some.inj hdata⟩

/-- A step of a reader. -/
lemma Reads.step {path : String} {x y : Reading ι} (h : Consistent jobs paths targets initial s)
    (hpath : path ∈ targets) (hx : Reads jobs initial s path x) (hstep : x.Step path s.disk y) :
    Reads jobs initial s path y := by
  cases hstep with
  | notFound | fails => trivial
  | opens hfile =>
    exact ⟨h.safe path hpath _ (s.disk.links_mem path) _ hfile, h.published hpath hfile,
      List.nil_prefix⟩
  | reads count =>
    obtain ⟨hsafe, hp, hgot⟩ := hx
    refine ⟨hsafe, hp, ?_⟩
    obtain ⟨rest, hrest⟩ := hgot
    rw [← hrest, List.drop_left]
    exact (List.prefix_append_right_inj _).2 (List.take_prefix _ _)
  | ends hlength =>
    obtain ⟨-, hp, hgot⟩ := hx
    rwa [← hgot.eq_of_length (le_antisymm hgot.length_le hlength)] at hp

lemma reads_stop {path : String} {x : Reading ι} (h : Reads jobs initial s path x) :
    Reads jobs initial s path x.stop := by
  cases x with
  | finished text => exact h
  | _ => trivial

lemma Reads.congr {s' : System ι} {path : String} {x : Reading ι} (hdisk : s'.disk = s.disk)
    (hphase : s'.phase = s.phase) (h : Reads jobs initial s path x) :
    Reads jobs initial s' path x := by
  have hpublished : ∀ text, Published jobs initial s path text →
      Published jobs initial s' path text := by
    intro text htext
    rwa [Published, hphase]
  cases x with
  | reading i got =>
    obtain ⟨⟨hcreated, hsynced, hunused⟩, htext, hgot⟩ := h
    rw [← hdisk] at hcreated hsynced htext hgot
    exact ⟨⟨hcreated, hsynced, by rwa [hphase]⟩, hpublished _ htext, hgot⟩
  | finished text =>
    cases text with
    | none => trivial
    | some text => exact hpublished text h
  | _ => trivial

/-- The readers go on. -/
lemma Consistent.setReader {reader : ℕ → Reading ι} (h : Consistent jobs paths targets initial s)
    (hreader : ∀ r, paths r ∈ targets → Reads jobs initial s (paths r) (reader r)) :
    Consistent jobs paths targets initial { s with reader := reader } where
  owns := h.owns
  distinct := h.distinct
  progress := h.progress
  version := h.version
  safe path hpath l hl i hi := by
    obtain ⟨hcreated, hsynced, hunused⟩ := h.safe path hpath l hl i hi
    exact ⟨hcreated, hsynced, hunused⟩
  reads r hr := .congr (s := s) rfl rfl (hreader r hr)

lemma consistent_init (hsettled : Settled targets initial) :
    Consistent jobs paths targets initial
      { disk := initial, phase := fun _ => .idle, reader := fun _ => .idle, retirements := ∅ } where
  owns n temp i hi := by cases hi
  distinct n m temp temp' i hn := by cases hn
  progress _ := trivial
  version path hpath l hl := by
    obtain rfl := hsettled.durable path hpath l hl
    exact Or.inl ⟨hsettled.stamp path hpath, rfl⟩
  safe path hpath l hl i hi := by
    obtain rfl := hsettled.durable path hpath l hl
    exact ⟨initial.file_mem path _ hl i hi, hsettled.synced path hpath i hi, nofun⟩
  reads _ _ := trivial

section Runs

variable [DecidableEq ι]

lemma Consistent.step {s' : System ι} (h : Consistent jobs paths targets initial s)
    (hsep : Separate jobs targets) (hstep : Step jobs paths targets s s') :
    Consistent jobs paths targets initial s' := by
  cases hstep with
  | write n hwrite => exact h.transition hsep (.writeStep h hsep hwrite) rfl
  | read r hread =>
    refine h.setReader fun r' hr' => ?_
    by_cases hr : r' = r
    · subst hr
      rw [Function.update_self]
      exact (h.reads r' hr').step h hr' hread
    · rw [Function.update_of_ne hr]
      exact h.reads r' hr'
  | retire hpath => exact h.transition hsep (.retire h hsep hpath) rfl
  | settle names => exact h.transition hsep (.settle h) rfl
  | kill n =>
    exact h.transition hsep (.setPhase h hsep (by simp) (progress_stop (fun _ => id) (h.progress n))
      (Or.inl (by simp))) rfl
  | crash hcrash =>
    have hmid := h.transition hsep (.crash h hcrash) rfl
    exact hmid.setReader fun r hr => reads_stop (hmid.reads r hr)

lemma Run.consistent (hsep : Separate jobs targets) (hsettled : Settled targets initial)
    (h : Run jobs paths targets initial s) : Consistent jobs paths targets initial s := by
  induction h with
  | init => exact consistent_init hsettled
  | step _ hstep ih => exact ih.step hsep hstep

end Runs

/-! ### The names -/

/-- The two kinds of writes: a record of a session, in `state.json` or in its history, and the
marker of a generation. -/
inductive IsJob : AtomicWrite → Prop
  | record {path : String} {data : List UInt8} (h : ".json".toList <:+ path.toList) :
      IsJob (writeAtomicFile path data)
  | marker {sessionDir generation : String} (h : validGeneration generation = true) :
      IsJob (writeGenerationMarker sessionDir generation)

/-- The names of records and markers. -/
def properNames : Set String :=
  {path | ".json".toList <:+ path.toList ∨ "/generation".toList <:+ path.toList}

lemma length_of_validGeneration {generation : String} (h : validGeneration generation = true) :
    generation.toList.length = 64 := by
  simp only [validGeneration, isHex256, Bool.and_eq_true, decide_eq_true_eq] at h
  exact h.1

lemma notMem_of_validGeneration {generation : String} (h : validGeneration generation = true)
    {c : Char} (hc : ('0' ≤ c && c ≤ '9' || 'a' ≤ c && c ≤ 'f') = false) :
    c ∉ generation.toList := by
  intro hmem
  simp only [validGeneration, isHex256, Bool.and_eq_true, List.all_eq_true] at h
  exact Bool.false_ne_true (hc.symm.trans (h.2 c hmem))

/-- A text that ends with a long enough text does not end with one that has other letters. -/
lemma not_suffix_append {pre tail suffix : List Char} {c : Char} (hc : c ∈ suffix)
    (htail : c ∉ tail) (hlength : suffix.length ≤ tail.length) : ¬ suffix <:+ pre ++ tail :=
  fun h => htail
    ((List.suffix_of_suffix_length_le h (List.suffix_append pre tail) hlength).subset hc)

/-- The letters that `mkstemp` takes are none of these. -/
lemma notMem_of_isAlphanum {letters : List Char} (h : ∀ c ∈ letters, c.isAlphanum = true) {c : Char}
    (hc : c.isAlphanum = false) : c ∉ letters :=
  fun hmem => Bool.false_ne_true (hc.symm.trans (h c hmem))

lemma toList_temp (path tail : String) :
    (path ++ ".tmp." ++ tail).toList = path.toList ++ ".tmp.".toList ++ tail.toList := by
  rw [String.toList_append, String.toList_append]

lemma temp_notMem_properNames {w : AtomicWrite} (h : IsJob w) {temp : String} (ht : temp ∈ w.temps) :
    temp ∉ properNames := by
  cases h with
  | record =>
    obtain ⟨letters, hlength, hletters, rfl⟩ := ht
    have hlist : (String.ofList letters).toList = letters := String.toList_ofList
    rintro (hjson | hmarker)
    · rw [toList_temp, hlist] at hjson
      exact not_suffix_append (show '.' ∈ ".json".toList by decide)
        (notMem_of_isAlphanum hletters (by decide)) (by rw [hlength]; decide) hjson
    · rw [toList_temp, hlist, List.append_assoc] at hmarker
      have hslash : '/' ∉ ".tmp.".toList ++ letters := by
        rw [List.mem_append, not_or]
        exact ⟨by decide, notMem_of_isAlphanum hletters (by decide)⟩
      exact not_suffix_append (show '/' ∈ "/generation".toList by decide) hslash
        (by rw [List.length_append, hlength]; decide) hmarker
  | marker hgeneration =>
    cases ht
    have hlength := length_of_validGeneration hgeneration
    rintro (hjson | hmarker)
    · rw [toList_temp] at hjson
      exact not_suffix_append (show '.' ∈ ".json".toList by decide)
        (notMem_of_validGeneration hgeneration (by decide)) (by rw [hlength]; decide) hjson
    · rw [toList_temp] at hmarker
      exact not_suffix_append (show '/' ∈ "/generation".toList by decide)
        (notMem_of_validGeneration hgeneration (by decide)) (by rw [hlength]; decide) hmarker

/-- The temporary name of a marker belongs to no record. -/
lemma markerTemp_notMem {path sessionDir generation : String} {data : List UInt8}
    (h : validGeneration generation = true) :
    sessionDir ++ "/generation" ++ ".tmp." ++ generation ∉ (writeAtomicFile path data).temps := by
  rintro ⟨letters, hlength, -, heq⟩
  have hlist : (String.ofList letters).toList = letters := String.toList_ofList
  have hlists := congrArg String.toList heq
  rw [toList_temp, toList_temp, hlist, List.append_assoc path.toList] at hlists
  have hsuffix : ".tmp.".toList ++ letters <:+
      (sessionDir ++ "/generation").toList ++ ".tmp.".toList ++ generation.toList := by
    rw [hlists]
    exact List.suffix_append _ _
  exact not_suffix_append (List.mem_append_left letters (show '.' ∈ ".tmp.".toList by decide))
    (notMem_of_validGeneration h (by decide))
    (by rw [List.length_append, hlength, length_of_validGeneration h]; decide) hsuffix

/-- Two markers with one temporary name are in one directory and of one generation. -/
lemma marker_eq_of_temp {sessionDir generation sessionDir' generation' : String}
    (h : validGeneration generation = true) (h' : validGeneration generation' = true)
    (heq : sessionDir ++ "/generation" ++ ".tmp." ++ generation =
      sessionDir' ++ "/generation" ++ ".tmp." ++ generation') :
    writeGenerationMarker sessionDir generation = writeGenerationMarker sessionDir' generation' := by
  have hlists := congrArg String.toList heq
  rw [toList_temp, toList_temp] at hlists
  have hlength : generation.toList.length = generation'.toList.length := by
    rw [length_of_validGeneration h, length_of_validGeneration h']
  obtain ⟨hdir, hgeneration⟩ := List.append_inj' hlists hlength
  obtain ⟨hdir, -⟩ := List.append_inj' hdir rfl
  rw [String.toList_append, String.toList_append] at hdir
  obtain ⟨hdir, -⟩ := List.append_inj' hdir rfl
  rw [String.toList_inj.1 hdir, String.toList_inj.1 hgeneration]

/-- The writes of the program do not get in each other's way, when no generation gets two
markers. -/
lemma separate_properNames (hjobs : ∀ n, IsJob (jobs n))
    (hmarkers : ∀ n m, (jobs n).cleansUp = true → jobs n = jobs m → n = m) :
    Separate jobs properNames where
  path_mem n := by
    have hjob := hjobs n
    generalize jobs n = w at hjob
    cases hjob with
    | record h => exact Or.inl h
    | marker h =>
      refine Or.inr ?_
      rw [writeGenerationMarker, String.toList_append]
      exact List.suffix_append _ _
  temp_notMem n temp := temp_notMem_properNames (hjobs n)
  private_temp n m hclean hne temp hn hm := by
    have hjobn := hjobs n
    have hjobm := hjobs m
    generalize hjn : jobs n = w at *
    generalize hjm : jobs m = w' at *
    cases hjobn with
    | record => cases hclean
    | marker h =>
      cases hn
      cases hjobm with
      | record => exact markerTemp_notMem h hm
      | marker h' =>
        refine hne (hmarkers n m (by rw [hjn]; rfl) ?_)
        rw [hjn, hjm]
        exact marker_eq_of_temp h h' hm

/-- Whatever fails, is killed or crashes: under a proper name there is what was there at first, the
text of one whole write that was renamed, or nothing after the name was taken away; a write that
returned `true` is not undone; and a reader that gets to the end has a whole text. -/
theorem Run.whole [DecidableEq ι] (hjobs : ∀ n, IsJob (jobs n))
    (hmarkers : ∀ n m, (jobs n).cleansUp = true → jobs n = jobs m → n = m)
    (hsettled : Settled properNames initial) (h : Run jobs paths properNames initial s)
    {path : String} (hpath : path ∈ properNames) :
    (((s.disk.links path).stamp = 0 ∧ s.disk.read path = initial.read path) ∨
      ((s.disk.links path).stamp ∈ s.retirements ∧ s.disk.read path = none) ∨
      ∃ n, (jobs n).path = path ∧ (s.phase n).stamp = some (s.disk.links path).stamp ∧
        s.disk.read path = some (jobs n).data) ∧
    (∀ n k, (jobs n).path = path → s.phase n = .returned true k →
      ∃ j, k = some j ∧ j ≤ (s.disk.links path).stamp) ∧
    ∀ r text, paths r = path → s.reader r = .finished (some text) →
      Published jobs initial s path text := by
  have hcons := h.consistent (separate_properNames hjobs hmarkers) hsettled
  refine ⟨?_, fun n k hn hphase => ?_, fun r text hr hreader => ?_⟩
  · rcases hcons.version path hpath _ (s.disk.links_mem path) with
      hinitial | ⟨hnone, hretired⟩ | hwrite
    · exact Or.inl hinitial
    · exact Or.inr (Or.inl ⟨hretired, by rw [Disk.read, hnone, Option.map_none]⟩)
    · exact Or.inr (Or.inr hwrite)
  · have hprogress := hcons.progress n
    rw [hphase, Progress] at hprogress
    obtain ⟨j, hj, hsince⟩ := hprogress
    exact ⟨j, hj, hn ▸ hsince.le_links⟩
  · have hreads := hcons.reads r (by rwa [hr])
    rwa [hreader, Reads, hr] at hreads

/-! ### One record, and a crash -/

lemma stamp_le_of_mem_singleton (_ : String) (l : Link ℕ) (hl : l ∈ ({⟨none, 0⟩} : Set (Link ℕ))) :
    l.stamp ≤ 0 := by
  obtain rfl := Set.mem_singleton_iff.1 hl
  exact le_rfl

lemma file_mem_of_mem_singleton (_ : String) (l : Link ℕ) (hl : l ∈ ({⟨none, 0⟩} : Set (Link ℕ)))
    (i : ℕ) (hi : l.file = some i) : i ∈ (∅ : Set ℕ) := by
  obtain rfl := Set.mem_singleton_iff.1 hl
  cases hi

lemma mem_singleton_none (_ : String) : (⟨none, 0⟩ : Link ℕ) ∈ ({⟨none, 0⟩} : Set (Link ℕ)) :=
  Set.mem_singleton _

/-- A disk without files. -/
def emptyDisk : Disk String ℕ UInt8 where
  content _ := []
  synced := ∅
  created := ∅
  links _ := ⟨none, 0⟩
  durable _ := {⟨none, 0⟩}
  clock := 0
  links_mem := mem_singleton_none
  stamp_le := stamp_le_of_mem_singleton
  file_mem := file_mem_of_mem_singleton

lemma settled_emptyDisk : Settled properNames emptyDisk where
  durable _ _ _ hl := hl
  stamp _ _ := rfl
  synced _ _ _ hi := by cases hi

def recordPath : String := "s/state.json"

/-- Every write writes the same record. -/
def recordJobs (_ : ℕ) : AtomicWrite := writeAtomicFile recordPath [123, 125, 10]

lemma isJob_recordJobs (n : ℕ) : IsJob (recordJobs n) := .record (by decide)

lemma Run.write [DecidableEq ι] {n : ℕ} {p p' : Phase ι} {d : Disk String ι UInt8}
    (h : Run jobs paths targets initial s) (hphase : s.phase n = p)
    (hstep : WriteStep (jobs n) p s.disk p' d) :
    Run jobs paths targets initial (s.advance n p' d) := by
  subst hphase
  exact h.step (.write n hstep)

/-- The record is written, and the machine stops and starts again. -/
lemma exists_run_crashed : ∃ s, Run recordJobs (fun _ => recordPath) properNames emptyDisk s ∧
    s.phase 0 = .returned true (some 2) ∧ s.retirements = ∅ := by
  have htemp : recordPath ++ ".tmp." ++ String.ofList (List.replicate 6 'a') ∈
      (recordJobs 0).temps :=
    ⟨List.replicate 6 'a', rfl, fun c hc => by rw [List.eq_of_mem_replicate hc]; decide, rfl⟩
  have h₀ := @Run.init ℕ inferInstance recordJobs (fun _ => recordPath) properNames emptyDisk
  have h₁ := h₀.write rfl (.opens (i := 0) htemp rfl (Set.notMem_empty _))
  have h₂ := h₁.write (System.phase_advance_self _ _ _ _) .ready
  have h₃ := h₂.write (System.phase_advance_self _ _ _ _) (.writes three_pos le_rfl)
  have h₄ := h₃.write (System.phase_advance_self _ _ _ _) (.syncs (lt_irrefl _))
  have h₅ := h₄.write (System.phase_advance_self _ _ _ _) .closes
  have h₆ := h₅.write (System.phase_advance_self _ _ _ _) (.renames (j := 0) (by simp))
  have h₇ := h₆.write (System.phase_advance_self _ _ _ _) .directorySynced
  exact ⟨_, h₇.step (.crash (Disk.crash_settle_univ _)), by simp [Phase.stop]; rfl, rfl⟩

/-- The record is there after the crash. -/
theorem run_whole_crashed : ∃ s,
    Run recordJobs (fun _ => recordPath) properNames emptyDisk s ∧
      s.disk.read recordPath = some [123, 125, 10] := by
  obtain ⟨s, hrun, hphase, hretired⟩ := exists_run_crashed
  obtain ⟨hread, hdone, -⟩ := hrun.whole isJob_recordJobs (fun n _ hclean _ => by cases hclean)
    settled_emptyDisk (show recordPath ∈ properNames from Or.inl (by decide))
  obtain ⟨j, hj, hstamp⟩ := hdone 0 _ rfl hphase
  rcases hread with ⟨hzero, -⟩ | ⟨hmem, -⟩ | ⟨n, -, -, hdata⟩
  · cases hj
    omega
  · rw [hretired] at hmem
    cases hmem
  · exact ⟨s, hrun, hdata⟩

end XdebugFst.Session.AtomicFile
