import Mathlib
import XdebugFst.Lib.History
import XdebugFst.Lib.OrderedMap
import XdebugFst.Stream.Load

/-!
# Loading signal lists

`list.load` reads a document with signal lists into the `ListManager`. A first loop over the
document looks up all its signals in the waveform, and a second one stores the lists. The first
loop only reads the signals of an item, and it takes whatever a loop over a JSON value can visit:
an item without a name, or whose signals are not an array, is refused by the second loop, when the
items in front of it have been stored already.

`listLoad_allOrNothing_iff` says for which documents a refused one leaves the lists as they were.
-/

namespace XdebugFst.Lists

open Lib Lib.History Waveform
open XdebugFst.Stream.Load (Failure jsonAt getString jsonItems orTypeError)

/-! ### The list manager -/

/-- `SignalList`. -/
structure SignalList where
  name : String
  /-- In the order in which they were added. -/
  signals : List String
  createdFrom : String
  deriving DecidableEq, Repr

/-- `ListManager`. There is no list without a name. -/
@[ext]
structure ListManager where
  lists : OrderedMap String SignalList
  named : lists.find? "" = none

namespace ListManager

variable (m : ListManager)

/-- `exists`. -/
def exists_ (name : String) : Bool := (m.lists.find? name).isSome

/-- A new list. -/
def newList (name : String) : SignalList := { name, signals := [], createdFrom := "user" }

variable {m}

lemma named_insert {name : String} (hname : name ≠ "") (list : SignalList) :
    (m.lists.insert name list).find? "" = none := by
  rw [OrderedMap.find?_insert_of_ne _ hname.symm, m.named]

lemma ne_empty_of_find? {name : String} {list : SignalList} (h : m.lists.find? name = some list) :
    name ≠ "" := by
  rintro rfl
  rw [m.named] at h
  cases h

lemma named_erase (name : String) : (m.lists.erase name).find? "" = none := by
  by_cases hname : "" = name
  · rw [← hname, OrderedMap.find?_erase_self]
  · rw [OrderedMap.find?_erase_of_ne _ hname, m.named]

variable (m)

/-- `create`. -/
def create (name : String) : Except String ListManager :=
  if h : name = "" then .error "list name is required"
  else if m.exists_ name then .error ("list already exists: " ++ name)
  else .ok ⟨m.lists.insert name (newList name), named_insert h _⟩

/-- The loop of `add`: empty names and those that are there already are skipped. -/
def addSignals (existing signals : List String) : List String :=
  signals.foldl (fun kept s => if s = "" then kept else if s ∈ kept then kept else kept ++ [s])
    existing

/-- `add`. -/
def add (name : String) (signals : List String) : Except String ListManager :=
  match h : m.lists.find? name with
  | none => .error ("list not found: " ++ name)
  | some list =>
      .ok ⟨m.lists.insert name { list with signals := addSignals list.signals signals },
        named_insert (ne_empty_of_find? h) _⟩

/-- `erase`. -/
def erase (name : String) : ListManager := ⟨m.lists.erase name, named_erase name⟩

end ListManager

/-! ### The action -/

/-- The waveform and the files that the action can read: a file that cannot be opened, or one with
the message of a parse error or a document. -/
structure ListEngine where
  waveform : Option Backend
  readFile : String → Option (Except String Json)

/-- What the action reads first. -/
structure ListRequest where
  wf : Backend
  document : Json
  mode : String

/-- The document of a request. -/
def readListDocument (engine : ListEngine) (args : Json) : Except Failure Json :=
  if args.contains "config" then jsonAt args "config"
  else do
    let path ← getString (← jsonAt args "config_path")
    match engine.readFile path with
    | none => .error (.error "CONFIG_READ_FAILED" "cannot open list config")
    | some (.error message) => .error (.error "CONFIG_PARSE_FAILED" message)
    | some (.ok document) => return document

def readListRequest (engine : ListEngine) (req : Json) : Except Failure ListRequest := do
  match engine.waveform with
  | none => .error (.error "WAVEFORM_NOT_LOADED" "action requires waveform file: list.load")
  | some wf =>
      let args ← orTypeError (req.jsonValue "args" (.object []))
      let document ← readListDocument engine args
      let mode ← orTypeError (args.stringValue "mode" "replace")
      return { wf, document, mode }

/-- The inner loop over the signals of an item. -/
def checkSignals (wf : Backend) : List Json → Except Failure Unit
  | [] => return ()
  | value :: rest => do
      let signal ← getString value
      if wf.findSignal signal = 0 then
        .error (.error "SIGNAL_NOT_FOUND" ("signal not found in waveform: " ++ signal))
      else checkSignals wf rest

/-- The first loop over the items. -/
def checkItems (wf : Backend) : List Json → Except Failure Unit
  | [] => return ()
  | item :: rest => do
      checkSignals wf (jsonItems (← jsonAt item "signals"))
      checkItems wf rest

/-- `get<std::vector<std::string>>`. -/
def getStrings (value : Json) : Except Failure (List String) :=
  match value with
  | .array items => items.mapM getString
  | _ => .error .typeError

/-- The name and the signals of an item. -/
def readItem (item : Json) : Except Failure (String × List String) := do
  let name ← getString (← jsonAt item "name")
  let signals ← getStrings (← jsonAt item "signals")
  return (name, signals)

/-- In the mode `replace`, erase a list that is there. -/
def clearList (mode name : String) (m : ListManager) : ListManager :=
  if mode = "replace" && m.exists_ name then m.erase name else m

/-- Create a list that is not there. -/
def openList (name : String) (m : ListManager) : Except String ListManager :=
  if !m.exists_ name then m.create name else .ok m

/-- Store the list of an item. -/
def storeList (mode : String) (name : String) (signals : List String) (m : ListManager) :
    Except Failure Unit × ListManager :=
  let m := clearList mode name m
  match openList name m with
  | .error message => (.error (.error "ACTION_FAILED" message), m)
  | .ok m =>
      match m.add name signals with
      | .error message => (.error (.error "ACTION_FAILED" message), m)
      | .ok m => (.ok (), m)

/-- The second loop over the items: the lists that are reported, and those that are stored. -/
def storeItems (mode : String) :
    List Json → List (String × List String) → ListManager →
      Except Failure (List (String × List String)) × ListManager
  | [], loaded, m => (.ok loaded, m)
  | item :: rest, loaded, m =>
      match readItem item with
      | .error failure => (.error failure, m)
      | .ok entry =>
          match storeList mode entry.1 entry.2 m with
          | (.error failure, m) => (.error failure, m)
          | (.ok (), m) => storeItems mode rest (loaded ++ [entry]) m

/-- The two loops of a request. -/
def listLoadRequest (request : ListRequest) (m : ListManager) :
    Except Failure (List (String × List String)) × ListManager :=
  match do
    let items ← jsonAt request.document "lists"
    checkItems request.wf (jsonItems items)
    return jsonItems items with
  | .error failure => (.error failure, m)
  | .ok items => storeItems request.mode items [] m

/-- `list.load`: the lists that it reports or the failure, and the stored lists afterwards. -/
def listLoad (engine : ListEngine) (req : Json) (m : ListManager) :
    Except Failure (List (String × List String)) × ListManager :=
  match readListRequest engine req with
  | .error failure => (.error failure, m)
  | .ok request => listLoadRequest request m

/-! ### All or nothing -/

/-- A failure leaves the stored lists as they were. -/
def ListLoadAllOrNothing (engine : ListEngine) (req : Json) (m : ListManager) : Prop :=
  (listLoad engine req m).1.isOk = false → (listLoad engine req m).2 = m

/-- The item has a name and an array of signals. -/
def WellFormed (item : Json) : Prop := ∃ entry, readItem item = .ok entry ∧ entry.1 ≠ ""

/-- The lists of the items ahead of the first one that is not well-formed. -/
def entriesAhead : List Json → List (String × List String)
  | [] => []
  | item :: rest =>
      match readItem item with
      | .error _ => []
      | .ok entry => if entry.1 = "" then [] else entry :: entriesAhead rest

/-- Storing the lists changes nothing. In the mode `replace` the last one of each name is stored as
it is, and in the other modes the signals of each one are in the list of that name. -/
def Harmless (mode : String) (entries : List (String × List String)) (m : ListManager) : Prop :=
  if mode = "replace" then
    ∀ name entry, lastWhere (fun entry => entry.1 = name) entries = some entry →
      m.lists.find? name =
        some { ListManager.newList name with signals := ListManager.addSignals [] entry.2 }
  else
    ∀ entry ∈ entries, ∃ list, m.lists.find? entry.1 = some list ∧
      ∀ s ∈ entry.2, s ≠ "" → s ∈ list.signals

/-- What a list is stored as. -/
def storedList (mode : String) (m : ListManager) (entry : String × List String) : SignalList :=
  let base := if mode = "replace" then ListManager.newList entry.1
    else (m.lists.find? entry.1).getD (ListManager.newList entry.1)
  { base with signals := ListManager.addSignals base.signals entry.2 }

section Loops

variable {mode : String} {m : ListManager}

lemma ListManager.add_of_find? {name : String} {list : SignalList}
    (h : m.lists.find? name = some list) (signals : List String) :
    ∃ m', m.add name signals = .ok m' ∧ m'.lists =
      m.lists.insert name { list with signals := addSignals list.signals signals } := by
  rw [add]
  split
  · rename_i hnone
    rw [hnone] at h
    cases h
  · rename_i list' hlist'
    obtain rfl := Option.some.inj (h.symm.trans hlist')
    exact ⟨_, rfl, rfl⟩

lemma find?_clearList (name name' : String) : (clearList mode name m).lists.find? name' =
    if name' = name ∧ mode = "replace" then none else m.lists.find? name' := by
  rw [clearList]
  by_cases hmode : mode = "replace" ∧ m.exists_ name = true
  · rw [if_pos (by simpa using hmode)]
    by_cases hsame : name' = name
    · rw [if_pos ⟨hsame, hmode.1⟩, hsame]
      exact OrderedMap.find?_erase_self _ _
    · rw [if_neg fun h => hsame h.1]
      exact OrderedMap.find?_erase_of_ne _ hsame
  · rw [if_neg (by simpa using hmode)]
    split_ifs with hboth
    · rw [hboth.1]
      have hexists : ¬ m.exists_ name = true := fun h => hmode ⟨hboth.2, h⟩
      simpa [ListManager.exists_] using hexists
    · rfl

/-- After `openList` the list is there, a new one if it was not. -/
lemma openList_named {name : String} (hname : name ≠ "") :
    ∃ m', openList name m = .ok m' ∧ ∀ name', m'.lists.find? name' =
      if name' = name then some ((m.lists.find? name).getD (ListManager.newList name))
      else m.lists.find? name' := by
  rw [openList]
  cases hfind : m.lists.find? name with
  | none =>
      have hexists : m.exists_ name = false := by rw [ListManager.exists_, hfind]; rfl
      simp only [hexists, Bool.not_false, if_true, ListManager.create, hname, dite_false,
        Bool.false_eq_true, if_false]
      refine ⟨_, rfl, fun name' => ?_⟩
      by_cases hsame : name' = name
      · rw [if_pos hsame, hsame]
        exact OrderedMap.find?_insert_self _ _ _
      · rw [if_neg hsame]
        exact OrderedMap.find?_insert_of_ne _ hsame _
  | some list =>
      have hexists : m.exists_ name = true := by rw [ListManager.exists_, hfind]; rfl
      simp only [hexists, Bool.not_true, Bool.false_eq_true, if_false]
      refine ⟨m, rfl, fun name' => ?_⟩
      split_ifs with hsame
      · rw [hsame, hfind]
        rfl
      · rfl

/-- A list without a name is refused before anything is stored. -/
lemma storeList_empty (signals : List String) :
    storeList mode "" signals m =
      (.error (.error "ACTION_FAILED" "list name is required"), m) := by
  have hexists : m.exists_ "" = false := by
    rw [ListManager.exists_, m.named]
    rfl
  have hclear : clearList mode "" m = m := by
    rw [clearList, hexists, Bool.and_false]
    rfl
  rw [storeList, hclear, openList, hexists]
  rfl

variable (mode m) in
/-- Any other list is stored. -/
lemma storeList_named {entry : String × List String} (hname : entry.1 ≠ "") :
    ∃ m', storeList mode entry.1 entry.2 m = (.ok (), m') ∧ ∀ name, m'.lists.find? name =
      if name = entry.1 then some (storedList mode m entry) else m.lists.find? name := by
  obtain ⟨m₁, hopen, hfind⟩ := openList_named (m := clearList mode entry.1 m) hname
  have hhere := hfind entry.1
  rw [if_pos rfl] at hhere
  obtain ⟨m₂, hadd, hlists⟩ := ListManager.add_of_find? hhere entry.2
  refine ⟨m₂, ?_, fun name => ?_⟩
  · rw [storeList, hopen]
    simp only [hadd]
  · rw [hlists]
    by_cases hsame : name = entry.1
    · rw [if_pos hsame, hsame, OrderedMap.find?_insert_self, storedList, find?_clearList]
      by_cases hmode : mode = "replace"
      · simp [hmode]
      · simp [hmode]
    · rw [if_neg hsame, OrderedMap.find?_insert_of_ne _ hsame, hfind, if_neg hsame,
        find?_clearList, if_neg fun h => hsame h.1]

/-- The stored lists after the items of a document: the entries are those in front of the first
item that is refused. -/
lemma storeItems_spec (mode : String) (items : List Json) (loaded : List (String × List String))
    (m : ListManager) :
    (storeItems mode items loaded m).2 =
        (entriesAhead items).foldl (fun m entry => (storeList mode entry.1 entry.2 m).2) m ∧
      ((storeItems mode items loaded m).1.isOk = true ↔ ∀ item ∈ items, WellFormed item) := by
  induction items generalizing loaded m with
  | nil => exact ⟨rfl, iff_of_true rfl nofun⟩
  | cons item rest ih =>
      rw [storeItems, entriesAhead]
      cases hread : readItem item with
      | error failure =>
          refine ⟨rfl, iff_of_false nofun fun hall => ?_⟩
          obtain ⟨entry, hentry, -⟩ := hall item List.mem_cons_self
          rw [hread] at hentry
          cases hentry
      | ok entry =>
          by_cases hname : entry.1 = ""
          · simp only [hname, storeList_empty, if_true, List.foldl_nil, true_and]
            refine iff_of_false nofun fun hall => ?_
            obtain ⟨entry', hentry', hne⟩ := hall item List.mem_cons_self
            rw [hread] at hentry'
            obtain rfl := Except.ok.inj hentry'
            exact hne hname
          · obtain ⟨m', hstore, -⟩ := storeList_named mode m hname
            simp only [hname, hstore, if_false, List.foldl_cons]
            obtain ⟨hlists, hok⟩ := ih (loaded ++ [entry]) m'
            refine ⟨hlists, hok.trans ?_⟩
            rw [List.forall_mem_cons]
            exact (and_iff_right ⟨entry, hread, hname⟩).symm

lemma ne_empty_of_mem_entriesAhead {items : List Json} {entry : String × List String}
    (h : entry ∈ entriesAhead items) : entry.1 ≠ "" := by
  induction items with
  | nil => cases h
  | cons item rest ih =>
      rw [entriesAhead] at h
      split at h
      · cases h
      · split_ifs at h with hname
        · cases h
        · rcases List.mem_cons.1 h with rfl | h
          · exact hname
          · exact ih h

variable (mode) in
/-- The lists that are stored, one after the other. -/
def storeEntries (entries : List (String × List String)) (m : ListManager) : ListManager :=
  entries.foldl (fun m entry => (storeList mode entry.1 entry.2 m).2) m

lemma find?_storeList {entry : String × List String} (hname : entry.1 ≠ "") (name : String) :
    (storeList mode entry.1 entry.2 m).2.lists.find? name =
      if name = entry.1 then some (storedList mode m entry) else m.lists.find? name := by
  obtain ⟨m', hstore, hfind⟩ := storeList_named mode m hname
  rw [hstore]
  exact hfind name

/-- In the mode `replace` the last list of a name remains. -/
lemma find?_storeEntries_replace {entries : List (String × List String)}
    (hnamed : ∀ entry ∈ entries, entry.1 ≠ "") (m : ListManager) (name : String) :
    (storeEntries "replace" entries m).lists.find? name =
      ((lastWhere (fun entry => entry.1 = name) entries).map fun entry =>
        { ListManager.newList name with signals := ListManager.addSignals [] entry.2 }).or
      (m.lists.find? name) := by
  induction entries generalizing m with
  | nil => rfl
  | cons entry entries ih =>
      obtain ⟨hname, hnamed⟩ := List.forall_mem_cons.1 hnamed
      have hstep : storeEntries "replace" (entry :: entries) m =
        storeEntries "replace" entries (storeList "replace" entry.1 entry.2 m).2 := rfl
      rw [hstep, ih hnamed, find?_storeList hname, lastWhere, lastWhere, List.filter_cons]
      by_cases hsame : name = entry.1
      · rw [if_pos hsame, if_pos (by simpa using hsame.symm), List.getLast?_cons]
        cases (entries.filter fun entry => entry.1 = name).getLast? with
        | none => rw [hsame]; rfl
        | some last => rfl
      · rw [if_neg hsame, if_neg (by simpa using Ne.symm hsame)]

/-! ### Adding to lists -/

lemma addSignals_cons (existing : List String) (s : String) (signals : List String) :
    ListManager.addSignals existing (s :: signals) = ListManager.addSignals
      (if s = "" then existing else if s ∈ existing then existing else existing ++ [s])
      signals := rfl

lemma mem_addSignals {existing signals : List String} {s : String} :
    s ∈ ListManager.addSignals existing signals ↔ s ∈ existing ∨ s ∈ signals ∧ s ≠ "" := by
  induction signals generalizing existing with
  | nil => exact ⟨Or.inl, fun h => h.resolve_right nofun⟩
  | cons s' signals ih =>
      rw [addSignals_cons, ih, List.mem_cons]
      split_ifs with hempty hmem
      · refine or_congr_right ⟨fun h => ⟨Or.inr h.1, h.2⟩, fun h => ⟨h.1.resolve_left ?_, h.2⟩⟩
        rintro rfl
        exact h.2 hempty
      · constructor
        · exact Or.imp_right fun h => ⟨Or.inr h.1, h.2⟩
        · rintro (h | ⟨rfl | h, hne⟩)
          · exact Or.inl h
          · exact Or.inl hmem
          · exact Or.inr ⟨h, hne⟩
      · rw [List.mem_append, List.mem_singleton]
        constructor
        · rintro ((h | rfl) | h)
          · exact Or.inl h
          · exact Or.inr ⟨Or.inl rfl, hempty⟩
          · exact Or.inr ⟨Or.inr h.1, h.2⟩
        · rintro (h | ⟨rfl | h, hne⟩)
          · exact Or.inl (Or.inl h)
          · exact Or.inl (Or.inr rfl)
          · exact Or.inr ⟨h, hne⟩

/-- Signals that are there already are not added again. -/
lemma addSignals_eq_self {existing signals : List String}
    (h : ∀ s ∈ signals, s ≠ "" → s ∈ existing) :
    ListManager.addSignals existing signals = existing := by
  induction signals with
  | nil => rfl
  | cons s signals ih =>
      obtain ⟨hs, hsignals⟩ := List.forall_mem_cons.1 h
      rw [addSignals_cons]
      split_ifs with hempty hmem
      · exact ih hsignals
      · exact ih hsignals
      · exact absurd (hs hempty) hmem

/-- The signals of an entry are in the list of its name. -/
def Contains (m : ListManager) (entry : String × List String) : Prop :=
  ∃ list, m.lists.find? entry.1 = some list ∧ ∀ s ∈ entry.2, s ≠ "" → s ∈ list.signals

lemma contains_storeList {entry : String × List String} (hname : entry.1 ≠ "") :
    Contains (storeList mode entry.1 entry.2 m).2 entry := by
  refine ⟨storedList mode m entry, ?_, fun s hs hne => ?_⟩
  · rw [find?_storeList hname, if_pos rfl]
  · exact mem_addSignals.2 (Or.inr ⟨hs, hne⟩)

/-- Unless it is replaced, a list keeps its signals. -/
lemma Contains.storeList (hmode : mode ≠ "replace") {entry entry' : String × List String}
    (hname : entry'.1 ≠ "") (h : Contains m entry) :
    Contains (Lists.storeList mode entry'.1 entry'.2 m).2 entry := by
  obtain ⟨list, hlist, hsignals⟩ := h
  rw [Contains, find?_storeList hname]
  split_ifs with hsame
  · refine ⟨_, rfl, fun s hs hne => ?_⟩
    rw [storedList, if_neg hmode, ← hsame, hlist]
    exact mem_addSignals.2 (Or.inl (hsignals s hs hne))
  · exact ⟨list, hlist, hsignals⟩

lemma contains_storeEntries (hmode : mode ≠ "replace") {entries : List (String × List String)}
    (hnamed : ∀ entry ∈ entries, entry.1 ≠ "") {entry : String × List String}
    (h : entry ∈ entries ∨ Contains m entry) : Contains (storeEntries mode entries m) entry := by
  induction entries generalizing m with
  | nil => exact h.resolve_left nofun
  | cons entry' entries ih =>
      obtain ⟨hname, hnamed⟩ := List.forall_mem_cons.1 hnamed
      refine ih hnamed ?_
      rcases h with h | h
      · rcases List.mem_cons.1 h with rfl | h
        · exact Or.inr (contains_storeList hname)
        · exact Or.inl h
      · exact Or.inr (h.storeList hmode hname)

/-- Storing signals that are there already changes nothing. -/
lemma storeList_of_contains (hmode : mode ≠ "replace") {entry : String × List String}
    (hname : entry.1 ≠ "") (h : Contains m entry) : (storeList mode entry.1 entry.2 m).2 = m := by
  obtain ⟨list, hlist, hsignals⟩ := h
  refine ListManager.ext (OrderedMap.ext_find? fun name => ?_)
  rw [find?_storeList hname]
  split_ifs with hsame
  · rw [hsame, hlist, storedList, if_neg hmode, hlist, Option.getD_some,
      addSignals_eq_self hsignals]
  · rfl

lemma storeEntries_of_contains (hmode : mode ≠ "replace") {entries : List (String × List String)}
    (hnamed : ∀ entry ∈ entries, entry.1 ≠ "") (h : ∀ entry ∈ entries, Contains m entry) :
    storeEntries mode entries m = m := by
  induction entries with
  | nil => rfl
  | cons entry entries ih =>
      obtain ⟨hname, hnamed⟩ := List.forall_mem_cons.1 hnamed
      obtain ⟨hentry, hentries⟩ := List.forall_mem_cons.1 h
      have hstep : storeEntries mode (entry :: entries) m =
        storeEntries mode entries (storeList mode entry.1 entry.2 m).2 := rfl
      rw [hstep, storeList_of_contains hmode hname hentry]
      exact ih hnamed hentries

variable (mode m) in
/-- When storing lists changes nothing. -/
lemma storeEntries_eq_self_iff {entries : List (String × List String)}
    (hnamed : ∀ entry ∈ entries, entry.1 ≠ "") :
    storeEntries mode entries m = m ↔ Harmless mode entries m := by
  rw [Harmless]
  split_ifs with hmode
  · rw [hmode]
    constructor
    · intro hsame name entry hlast
      have hfind := find?_storeEntries_replace hnamed m name
      rw [hsame, hlast] at hfind
      exact hfind
    · intro h
      refine ListManager.ext (OrderedMap.ext_find? fun name => ?_)
      rw [find?_storeEntries_replace hnamed]
      cases hlast : lastWhere (fun entry : String × List String => entry.1 = name) entries with
      | none => rfl
      | some entry => exact (h name entry hlast).symm
  · constructor
    · intro hsame entry hentry
      have hcontains := contains_storeEntries (m := m) hmode hnamed (Or.inl hentry)
      rwa [hsame] at hcontains
    · exact storeEntries_of_contains hmode hnamed

end Loops

/-- A document that the first loop accepts goes to the second one. -/
lemma listLoadRequest_of_checked {request : ListRequest} {items : Json}
    (hitems : jsonAt request.document "lists" = .ok items)
    (hcheck : checkItems request.wf (jsonItems items) = .ok ()) (m : ListManager) :
    listLoadRequest request m = storeItems request.mode (jsonItems items) [] m := by
  rw [listLoadRequest, hitems]
  simp only [bind, Except.bind, hcheck, pure, Except.pure]

/-- Any other document changes nothing. -/
lemma listLoadRequest_of_refused {request : ListRequest}
    (h : ¬ ∃ items, jsonAt request.document "lists" = .ok items ∧
      checkItems request.wf (jsonItems items) = .ok ()) (m : ListManager) :
    (listLoadRequest request m).2 = m := by
  rw [listLoadRequest]
  cases hitems : jsonAt request.document "lists" with
  | error failure => rfl
  | ok items =>
      cases hcheck : checkItems request.wf (jsonItems items) with
      | error failure => simp only [bind, Except.bind, hcheck]
      | ok done => exact absurd ⟨items, hitems, hcheck⟩ h

/-- `list.load` is all or nothing exactly if its first loop refuses the document, or every item has a
name and an array of signals, or storing the lists in front of the first item without them changes
nothing. -/
theorem listLoad_allOrNothing_iff (engine : ListEngine) (req : Json) (m : ListManager) :
    ListLoadAllOrNothing engine req m ↔
      ∀ request items, readListRequest engine req = .ok request →
        jsonAt request.document "lists" = .ok items →
        checkItems request.wf (jsonItems items) = .ok () →
        (∀ item ∈ jsonItems items, WellFormed item) ∨
          Harmless request.mode (entriesAhead (jsonItems items)) m := by
  rw [ListLoadAllOrNothing, listLoad]
  cases hread : readListRequest engine req with
  | error failure => exact iff_of_true (fun _ => rfl) nofun
  | ok request =>
      dsimp only
      by_cases hchecked : ∃ items, jsonAt request.document "lists" = .ok items ∧
          checkItems request.wf (jsonItems items) = .ok ()
      · obtain ⟨items, hitems, hcheck⟩ := hchecked
        obtain ⟨hlists, hok⟩ := storeItems_spec request.mode (jsonItems items) [] m
        rw [listLoadRequest_of_checked hitems hcheck, hlists, ← Bool.not_eq_true, hok]
        have hsame := storeEntries_eq_self_iff request.mode m
          fun entry (h : entry ∈ entriesAhead (jsonItems items)) => ne_empty_of_mem_entriesAhead h
        rw [storeEntries] at hsame
        rw [hsame, ← or_iff_not_imp_left]
        constructor
        · rintro h request' items' hrequest hitems' -
          obtain rfl := Except.ok.inj hrequest
          obtain rfl := Except.ok.inj (hitems.symm.trans hitems')
          exact h
        · intro h
          exact h request items rfl hitems hcheck
      · refine iff_of_true (fun _ => listLoadRequest_of_refused hchecked m) ?_
        rintro request' items hrequest hitems hcheck
        obtain rfl := Except.ok.inj hrequest
        exact absurd ⟨items, hitems, hcheck⟩ hchecked

/-! ### A document with an item that has no name -/

/-- A file with a list without signals, and an item that is no list. -/
def unnamedEngine : ListEngine where
  waveform := some Stream.Load.emptyWave
  readFile _ := some (.ok (.object [("lists", .array [
    .object [("name", .string "bus"), ("signals", .array [])],
    .object [("signals", .array [])]])]))

def unnamedRequest : Json :=
  .object [("args", .object [("config_path", .string "lists.json")])]

/-- Nothing is stored. -/
def noLists : ListManager := ⟨.empty, OrderedMap.find?_empty ""⟩

/-- The list `bus` is stored before the action throws. -/
theorem unnamedRequest_not_allOrNothing :
    ¬ ListLoadAllOrNothing unnamedEngine unnamedRequest noLists := by
  intro h
  have hfailed : (listLoad unnamedEngine unnamedRequest noLists).1.isOk = false := by
    decide +kernel
  have hstored :
      ((listLoad unnamedEngine unnamedRequest noLists).2.lists.find? "bus").isSome = true := by
    decide +kernel
  rw [h hfailed] at hstored
  cases hstored

end XdebugFst.Lists
