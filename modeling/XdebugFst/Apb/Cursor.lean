import XdebugFst.Apb.Unknown
import XdebugFst.Axi.Cursor

/-!
# The APB transaction cursor

`apb.transaction.cursor` keeps a position for each configuration and direction, and loading a
configuration erases its positions. Every request scans the waveform anew. The scan has no time
range, so that the list only changes with the configuration.

A position therefore never leaves its list: `cursor_safe`. Going on from the beginning shows the
transactions one after the other, whatever other requests come in between: `cursor_enumerates`.
-/

namespace XdebugFst.Apb

open Lib Waveform Clock Window

open Axi (Direction CursorOp)

/-! ### Requests -/

/-- The source of a configuration. -/
structure ConfigSource where
  clock : String
  edge : EdgeSelect := .negedge
  samplePoint : String := ""
  reset : String
  resetPolarity : Axi.ResetPolarity
  paddr : String
  psel : String
  penable : String
  pwrite : String
  pwdata : String
  prdata : String
  pready : String := ""
  pslverr : String := ""

/-- `parse_config` -/
def parseConfig (name : String) (source : ConfigSource) : Except ScanError ApbConfig :=
  if source.edge = .negedge && source.samplePoint ≠ "" then
    .error ⟨"INVALID_ARGUMENT",
      "APB config sample_point is only valid with edge:posedge or edge:dual"⟩
  else .ok {
    name, clock := source.clock, edge := source.edge, sampleAfter := source.samplePoint = "after"
    reset := source.reset, resetPolarity := source.resetPolarity, paddr := source.paddr
    psel := source.psel, penable := source.penable, pwrite := source.pwrite
    pwdata := source.pwdata, prdata := source.prdata, pready := source.pready
    pslverr := source.pslverr }

/-- `apb_configs` and `apb_cursors`. -/
structure ApbState where
  configs : OrderedMap String ApbConfig := .empty
  cursors : OrderedMap String ℕ := .empty

/-- The key of a position. -/
def cursorKey (name : String) (direction : Direction) : String := name ++ ":" ++ direction.text

/-- `ApbConfigLoadHandler::run` on a source that was read. -/
def loadConfig (wf : Backend) (name : String) (source : ConfigSource) (st : ApbState) :
    Except ScanError ApbConfig × ApbState :=
  match parseConfig name source with
  | .error error => (.error error, st)
  | .ok config =>
      match loadRef wf config.reset "reset" with
      | .error error => (.error error, st)
      | .ok reset =>
          if reset.2 ≠ 1 then
            (.error ⟨"INVALID_FIELD", "APB reset signal must resolve to one bit"⟩, st)
          else (.ok config, {
            configs := st.configs.insert config.name config
            cursors := ((st.cursors.erase (cursorKey config.name .all)).erase
              (cursorKey config.name .read)).erase (cursorKey config.name .write) })

/-- A request to `apb.transaction.cursor`, with the error of its render options if there is one. -/
structure CursorRequest where
  name : String
  direction : Direction := .all
  op : CursorOp
  renderError : Option ScanError := none

/-- The part of the response that is about the cursor. -/
structure CursorResponse where
  found : Bool
  index : Option ℕ
  atBegin : Bool
  atEnd : Bool
  scanComplete : Bool
  totalCount : ℕ
  /-- `*matches[position]`, nothing when it is not read or read outside the vector. -/
  transaction : Option ApbTransaction
  deriving DecidableEq

/-- `direction_matches` -/
def directionMatches (direction : Direction) (txn : ApbTransaction) : Bool :=
  match direction with
  | .all => true
  | .write => txn.isWrite
  | .read => !txn.isWrite

/-- The transactions that a cursor moves over. -/
def matching (direction : Direction) (scan : ApbScan) : List ApbTransaction :=
  scan.transactions.filter (directionMatches direction)

/-- `apb_cursors()[key]`, which is zero at first. -/
def position (st : ApbState) (name : String) (direction : Direction) : ℕ :=
  (st.cursors.find? (cursorKey name direction)).getD 0

/-- `require_config_and_scan`. The error of the memory budget is a parameter. -/
def requireConfigAndScan (wf : Backend) (budgetError : ApbConfig → Option ScanError)
    (name : String) (st : ApbState) : Except ScanError ApbScan :=
  match st.configs.find? name with
  | none => .error ⟨"CONFIG_NOT_FOUND", "apb config not found: " ++ name⟩
  | some config =>
      match budgetError config with
      | some error => .error error
      | none => scanTransactions wf config

/-- The response at a position of a scan. -/
def cursorResponse (scan : ApbScan) (direction : Direction) (moved : ℕ × Bool) : CursorResponse where
  found := moved.2
  index := if moved.2 then some (moved.1 + 1) else none
  atBegin := moved.2 && moved.1 = 0
  atEnd := moved.2 && moved.1 + 1 = (matching direction scan).length
  scanComplete := scan.complete
  totalCount := (matching direction scan).length
  transaction := if moved.2 then (matching direction scan)[moved.1]? else none

/-- `ApbTransactionCursorHandler::run` -/
def runCursor (wf : Backend) (budgetError : ApbConfig → Option ScanError) (req : CursorRequest)
    (st : ApbState) : Except ScanError CursorResponse × ApbState :=
  match requireConfigAndScan wf budgetError req.name st with
  | .error error => (.error error, st)
  | .ok scan =>
      match req.renderError with
      | some error => (.error error, st)
      | none =>
          let moved := Axi.move req.op (matching req.direction scan).length
            (position st req.name req.direction)
          (.ok (cursorResponse scan req.direction moved),
            { st with cursors := st.cursors.insert (cursorKey req.name req.direction) moved.1 })

/-- A request about configurations or cursors. -/
inductive Request
  | load (name : String) (source : ConfigSource)
  | cursor (req : CursorRequest)

variable (wf : Backend) (budgetError : ApbConfig → Option ScanError)

/-- The state after a request. -/
def step (st : ApbState) : Request → ApbState
  | .load name source => (loadConfig wf name source st).2
  | .cursor req => (runCursor wf budgetError req st).2

/-! ### Positions -/

lemma cursorKey_inj {name name' : String} {direction direction' : Direction}
    (h : cursorKey name direction = cursorKey name' direction') :
    name = name' ∧ direction = direction' := by
  have hlist := congrArg String.toList h
  simp only [cursorKey, String.toList_append] at hlist
  have hdirection : direction = direction' := by
    have hlast := congrArg List.getLast? hlist
    cases direction <;> cases direction' <;> first | rfl | simp [Direction.text] at hlast
  subst hdirection
  refine ⟨?_, rfl⟩
  rw [List.append_left_inj, List.append_left_inj] at hlist
  exact String.toList_inj.1 hlist

section Runs

variable {wf budgetError} {st : ApbState} {name : String} {direction : Direction}

lemma position_insert_self (p : ℕ) : position
    { st with cursors := st.cursors.insert (cursorKey name direction) p } name direction = p := by
  rw [position, OrderedMap.find?_insert_self]
  rfl

lemma position_insert_of_ne {name' : String} {direction' : Direction}
    (h : ¬ (name' = name ∧ direction' = direction)) (p : ℕ) : position
      { st with cursors := st.cursors.insert (cursorKey name direction) p } name' direction' =
      position st name' direction' := by
  rw [position, OrderedMap.find?_insert_of_ne _ fun hkey => h (cursorKey_inj hkey)]
  rfl

/-- Loading a configuration leaves it no position. -/
lemma find?_erase_positions (cursors : OrderedMap String ℕ) :
    (((cursors.erase (cursorKey name .all)).erase (cursorKey name .read)).erase
      (cursorKey name .write)).find? (cursorKey name direction) = none := by
  have hne : ∀ d, d ≠ direction → cursorKey name direction ≠ cursorKey name d :=
    fun d hd hkey => hd (cursorKey_inj hkey).2.symm
  cases direction with
  | all =>
      rw [OrderedMap.find?_erase_of_ne _ (hne .write (by decide)),
        OrderedMap.find?_erase_of_ne _ (hne .read (by decide)), OrderedMap.find?_erase_self]
  | read =>
      rw [OrderedMap.find?_erase_of_ne _ (hne .write (by decide)), OrderedMap.find?_erase_self]
  | write => rw [OrderedMap.find?_erase_self]

lemma find?_erase_positions_of_ne {name' : String} (h : name' ≠ name)
    (cursors : OrderedMap String ℕ) :
    (((cursors.erase (cursorKey name .all)).erase (cursorKey name .read)).erase
      (cursorKey name .write)).find? (cursorKey name' direction) =
      cursors.find? (cursorKey name' direction) := by
  have hne : ∀ d, cursorKey name' direction ≠ cursorKey name d :=
    fun d hkey => h (cursorKey_inj hkey).1
  rw [OrderedMap.find?_erase_of_ne _ (hne .write), OrderedMap.find?_erase_of_ne _ (hne .read),
    OrderedMap.find?_erase_of_ne _ (hne .all)]

/-- What loading a configuration does. -/
lemma loadConfig_cases (wf : Backend) (name : String) (source : ConfigSource) (st : ApbState) :
    (loadConfig wf name source st).2 = st ∨ ∃ config,
      (loadConfig wf name source st).2.configs = st.configs.insert name config ∧
      (∀ direction, position (loadConfig wf name source st).2 name direction = 0) ∧
      ∀ name' direction, name' ≠ name →
        position (loadConfig wf name source st).2 name' direction = position st name' direction := by
  rw [loadConfig]
  cases hparse : parseConfig name source with
  | error error => exact Or.inl rfl
  | ok config =>
      have hname : config.name = name := by
        rw [parseConfig] at hparse
        split_ifs at hparse
        cases hparse
        rfl
      dsimp only
      cases loadRef wf config.reset "reset" with
      | error error => exact Or.inl rfl
      | ok reset =>
          dsimp only
          split_ifs
          · exact Or.inl rfl
          refine Or.inr ⟨config, by rw [hname], fun direction => ?_, fun name' direction hne => ?_⟩
          · rw [hname, position]
            dsimp only
            rw [find?_erase_positions]
            cases direction <;> rfl
          · rw [hname, position]
            dsimp only
            rw [find?_erase_positions_of_ne hne]
            rfl

/-- What a cursor request does. -/
lemma runCursor_cases (wf : Backend) (budgetError : ApbConfig → Option ScanError)
    (req : CursorRequest) (st : ApbState) :
    (∃ error, runCursor wf budgetError req st = (.error error, st)) ∨ ∃ scan,
      requireConfigAndScan wf budgetError req.name st = .ok scan ∧ req.renderError = none ∧
      runCursor wf budgetError req st =
        (.ok (cursorResponse scan req.direction (Axi.move req.op
          (matching req.direction scan).length (position st req.name req.direction))),
        { st with cursors := st.cursors.insert (cursorKey req.name req.direction) (Axi.move req.op
          (matching req.direction scan).length (position st req.name req.direction)).1 }) := by
  rw [runCursor]
  cases hscan : requireConfigAndScan wf budgetError req.name st with
  | error error => exact Or.inl ⟨error, rfl⟩
  | ok scan =>
      cases hrender : req.renderError with
      | some error => exact Or.inl ⟨error, rfl⟩
      | none => exact Or.inr ⟨scan, rfl, rfl, rfl⟩

/-- Every position is the first one or points into the list of its configuration. -/
def Inside (wf : Backend) (budgetError : ApbConfig → Option ScanError) (st : ApbState) : Prop :=
  ∀ name direction scan, requireConfigAndScan wf budgetError name st = .ok scan →
    position st name direction = 0 ∨ position st name direction < (matching direction scan).length

/-- The list of a configuration only changes with the configuration. -/
lemma requireConfigAndScan_congr {st st' : ApbState}
    (h : st'.configs.find? name = st.configs.find? name) :
    requireConfigAndScan wf budgetError name st' = requireConfigAndScan wf budgetError name st := by
  rw [requireConfigAndScan, h, requireConfigAndScan]

lemma Inside.load (h : Inside wf budgetError st) (loaded : String) (source : ConfigSource) :
    Inside wf budgetError (loadConfig wf loaded source st).2 := by
  rcases loadConfig_cases wf loaded source st with hsame | ⟨config, hconfigs, hzero, hother⟩
  · rwa [hsame]
  intro name direction scan hscan
  by_cases hname : name = loaded
  · subst hname
    exact Or.inl (hzero direction)
  · have hfind := OrderedMap.find?_insert_of_ne st.configs hname config
    rw [← hconfigs] at hfind
    rw [hother name direction hname]
    exact h name direction scan (by rwa [requireConfigAndScan_congr hfind] at hscan)

lemma Inside.cursor (h : Inside wf budgetError st) (req : CursorRequest) :
    Inside wf budgetError (runCursor wf budgetError req st).2 := by
  rcases runCursor_cases wf budgetError req st with ⟨error, herror⟩ | ⟨scan, hscan, -, hrun⟩
  · rwa [herror]
  rw [hrun]
  intro name direction scan' hscan'
  replace hscan' : requireConfigAndScan wf budgetError name st = .ok scan' := hscan'
  by_cases hkey : name = req.name ∧ direction = req.direction
  · obtain ⟨rfl, rfl⟩ := hkey
    obtain rfl : scan = scan' := by
      rw [hscan] at hscan'
      exact Except.ok.inj hscan'
    rw [position_insert_self]
    exact Axi.move_inside (h req.name req.direction scan hscan)
  · rw [position_insert_of_ne hkey]
    exact h name direction scan' hscan'

lemma Inside.step (h : Inside wf budgetError st) (request : Request) :
    Inside wf budgetError (step wf budgetError st request) := by
  cases request with
  | load name source => exact h.load name source
  | cursor req => exact h.cursor req

lemma Inside.run (h : Inside wf budgetError st) (requests : List Request) :
    Inside wf budgetError (requests.foldl (Apb.step wf budgetError) st) := by
  induction requests generalizing st with
  | nil => exact h
  | cons request requests ih => exact ih (h.step request)

lemma inside_empty : Inside wf budgetError {} := fun _ _ _ _ => Or.inl rfl

end Runs

/-! ### Runs -/

/-- A source for the configuration of an access. -/
def accessSource : ConfigSource where
  clock := "clk"
  edge := .posedge
  reset := "rst_n"
  resetPolarity := .activeLow
  paddr := "paddr"
  psel := "psel"
  penable := "penable"
  pwrite := "pwrite"
  pwdata := "pwdata"
  prdata := "prdata"

/-- The state after that source is loaded. -/
def accessState : ApbState :=
  step (accessWave "1" "1" "1") (fun _ => none) {} (.load "apb0" accessSource)

/-- The beginning and on, with another move and another load in between. -/
def accessRequests : List Request :=
  [.cursor { name := "apb0", op := .begin },
    .cursor { name := "apb0", direction := .read, op := .last }, .load "apb1" accessSource,
    .cursor { name := "apb0", op := .next }]

/-- Whatever was loaded and moved before, a request that finds something answers with a
transaction of its list, and stores the position that it answers with. -/
theorem cursor_safe (requests : List Request) (req : CursorRequest) (response : CursorResponse)
    (hresponse : (runCursor wf budgetError req
      (requests.foldl (step wf budgetError) {})).1 = .ok response)
    (hfound : response.found = true) :
    ∃ scan p txn,
      requireConfigAndScan wf budgetError req.name (requests.foldl (step wf budgetError) {}) =
        .ok scan ∧
      position (step wf budgetError (requests.foldl (step wf budgetError) {}) (.cursor req))
        req.name req.direction = p ∧
      (matching req.direction scan)[p]? = some txn ∧
      response.transaction = some txn ∧ response.index = some (p + 1) ∧
      response.totalCount = (matching req.direction scan).length := by
  set st := requests.foldl (step wf budgetError) {} with hst
  have hinside : Inside wf budgetError st := inside_empty.run requests
  rcases runCursor_cases wf budgetError req st with ⟨error, herror⟩ | ⟨scan, hscan, -, hrun⟩
  · rw [herror] at hresponse
    cases hresponse
  rw [hrun] at hresponse
  cases hresponse
  set moved := Axi.move req.op (matching req.direction scan).length
    (position st req.name req.direction) with hmoved
  replace hfound : moved.2 = true := hfound
  have hlt : moved.1 < (matching req.direction scan).length := by
    refine Axi.move_lt_iff.2 (fun _ hsize => ?_) hfound
    have := hinside req.name req.direction scan hscan
    omega
  refine ⟨scan, moved.1, (matching req.direction scan)[moved.1], hscan, ?_,
    List.getElem?_eq_getElem hlt, ?_, ?_, rfl⟩
  · rw [step, hrun]
    exact position_insert_self moved.1
  · simp [cursorResponse, hfound, hlt]
  · simp [cursorResponse, hfound]

theorem cursor_safe_access : ∃ response,
    (runCursor (accessWave "1" "1" "1") (fun _ => none) { name := "apb0", op := .last }
      ((.load "apb0" accessSource :: accessRequests).foldl
        (step (accessWave "1" "1" "1") fun _ => none) {})).1 = .ok response ∧
    response.found = true ∧ ∃ txn, response.transaction = some txn := by
  refine ⟨_, rfl, by decide +kernel, ?_⟩
  obtain ⟨-, -, txn, -, -, -, htxn, -⟩ := cursor_safe (accessWave "1" "1" "1") (fun _ => none)
    (.load "apb0" accessSource :: accessRequests) { name := "apb0", op := .last } _ rfl
    (by decide +kernel)
  exact ⟨txn, htxn⟩

/-- The answers to the requests on one cursor in a run. -/
def answers (name : String) (direction : Direction) :
    ApbState → List Request → List (Except ScanError CursorResponse)
  | _, [] => []
  | st, .load loaded source :: requests =>
      answers name direction (step wf budgetError st (.load loaded source)) requests
  | st, .cursor req :: requests =>
      let rest := answers name direction (step wf budgetError st (.cursor req)) requests
      if req.name = name ∧ req.direction = direction then
        (runCursor wf budgetError req st).1 :: rest
      else rest

/-- The moves of one cursor. -/
def moves (name : String) (direction : Direction) (requests : List Request) : List CursorOp :=
  requests.filterMap fun
    | .load _ _ => none
    | .cursor req => if req.name = name ∧ req.direction = direction then some req.op else none

/-- The answers when nothing else happens. -/
def answersAlone (scan : ApbScan) (direction : Direction) :
    ℕ → List CursorOp → List CursorResponse
  | _, [] => []
  | p, op :: ops =>
      let moved := Axi.move op (matching direction scan).length p
      cursorResponse scan direction moved :: answersAlone scan direction moved.1 ops

/-- A run that neither loads the configuration of a cursor nor fails on its options. -/
def LeavesAlone (name : String) (direction : Direction) (requests : List Request) : Prop :=
  ∀ request ∈ requests, match request with
    | .load loaded _ => loaded ≠ name
    | .cursor req => req.name = name → req.direction = direction → req.renderError = none

section Runs

variable {wf budgetError} {name : String} {direction : Direction} {scan : ApbScan}

/-- Loads of other configurations and moves of other cursors make no difference. -/
lemma answers_eq_answersAlone (st : ApbState) {requests : List Request}
    (hscan : requireConfigAndScan wf budgetError name st = .ok scan)
    (h : LeavesAlone name direction requests) :
    answers wf budgetError name direction st requests =
      (answersAlone scan direction (position st name direction)
        (moves name direction requests)).map .ok := by
  induction requests generalizing st with
  | nil => rfl
  | cons request requests ih =>
      have hrest : LeavesAlone name direction requests := fun r hr => h r (List.mem_cons_of_mem _ hr)
      have hfirst := h request List.mem_cons_self
      cases request with
      | load loaded source =>
          have hne : name ≠ loaded := fun heq => hfirst heq.symm
          have hmoves : moves name direction (.load loaded source :: requests) =
              moves name direction requests := rfl
          rw [answers, hmoves, step]
          rcases loadConfig_cases wf loaded source st with hsame | ⟨config, hconfigs, -, hother⟩
          · rw [hsame]
            exact ih st hscan hrest
          · have hfind := OrderedMap.find?_insert_of_ne st.configs hne config
            rw [← hconfigs] at hfind
            rw [← hother name direction hne]
            exact ih _ (by rwa [requireConfigAndScan_congr hfind]) hrest
      | cursor req =>
          rw [answers, step]
          split_ifs with hkey
          · obtain ⟨rfl, rfl⟩ := hkey
            have hmoves : moves req.name req.direction (.cursor req :: requests) =
                req.op :: moves req.name req.direction requests := by
              simp [moves]
            rcases runCursor_cases wf budgetError req st with
              ⟨error, herror⟩ | ⟨scan', hscan', -, hrun⟩
            · rw [runCursor, hscan, hfirst rfl rfl] at herror
              simp at herror
            obtain rfl : scan' = scan := by
              rw [hscan] at hscan'
              exact (Except.ok.inj hscan').symm
            rw [hmoves, answersAlone, List.map_cons, hrun]
            refine congrArg₂ List.cons rfl ?_
            rw [ih { st with cursors := st.cursors.insert _ _ } hscan hrest, position_insert_self]
          · have hmoves : moves name direction (.cursor req :: requests) =
                moves name direction requests := by
              simp [moves, hkey]
            rw [hmoves]
            rcases runCursor_cases wf budgetError req st with ⟨error, herror⟩ | ⟨scan', -, -, hrun⟩
            · rw [herror]
              exact ih st hscan hrest
            · have hother : ¬ (name = req.name ∧ direction = req.direction) :=
                fun heq => hkey ⟨heq.1.symm, heq.2.symm⟩
              rw [hrun]
              rw [ih { st with cursors := st.cursors.insert _ _ } hscan hrest,
                position_insert_of_ne hother]

/-- The answer that shows the transaction `i`. -/
def shows (scan : ApbScan) (direction : Direction) (i : ℕ) : CursorResponse :=
  cursorResponse scan direction (i, decide (i < (matching direction scan).length))

/-- An answer that finds nothing does not depend on the position. -/
lemma cursorResponse_false (p q : ℕ) :
    cursorResponse scan direction (p, false) = cursorResponse scan direction (q, false) := rfl

lemma move_next {size p i : ℕ} (h : size ≠ 0 → p = min i (size - 1)) :
    (size ≠ 0 → (Axi.move .next size p).1 = min (i + 1) (size - 1)) ∧
      (Axi.move .next size p).2 = decide (i + 1 < size) ∧
      (i + 1 < size → (Axi.move .next size p).1 = i + 1) := by
  unfold Axi.move
  by_cases hsize : size = 0
  · simp [hsize]
  obtain rfl := h hsize
  by_cases hnext : i + 1 < size
  · have hmin : min i (size - 1) = i := by omega
    have hmin' : min (i + 1) (size - 1) = i + 1 := by omega
    simp [hsize, hnext, hmin, hmin']
  · have hmin : min i (size - 1) = size - 1 := by omega
    have hmin' : min (i + 1) (size - 1) = size - 1 := by omega
    have hlast : ¬ size - 1 + 1 < size := by omega
    simp [hsize, hnext, hmin, hmin', hlast]

/-- A move that finds the transaction `i`, or nothing when there is none. -/
lemma cursorResponse_eq_shows {moved : ℕ × Bool} {i : ℕ}
    (hfound : moved.2 = decide (i < (matching direction scan).length))
    (h : i < (matching direction scan).length → moved.1 = i) :
    cursorResponse scan direction moved = shows scan direction i := by
  obtain ⟨p, found⟩ := moved
  obtain rfl : found = decide (i < (matching direction scan).length) := hfound
  rw [shows]
  by_cases hi : i < (matching direction scan).length
  · rw [show p = i from h hi]
  · rw [decide_eq_false hi]
    exact cursorResponse_false p i

/-- Going on `k` times from a position that shows `i`. -/
lemma answersAlone_next (k i : ℕ) {p : ℕ}
    (h : (matching direction scan).length ≠ 0 → p = min i ((matching direction scan).length - 1)) :
    answersAlone scan direction p (List.replicate k .next) =
      (List.range' (i + 1) k).map (shows scan direction) := by
  induction k generalizing i p with
  | zero => rfl
  | succ k ih =>
      obtain ⟨hnext, hfound, hi⟩ := move_next h
      rw [List.replicate_succ, answersAlone, List.range'_succ, List.map_cons]
      exact congrArg₂ List.cons (cursorResponse_eq_shows hfound hi) (ih (i + 1) hnext)

/-- Going to the beginning and on `k` times, from anywhere. -/
lemma answersAlone_begin (p k : ℕ) :
    answersAlone scan direction p (.begin :: List.replicate k .next) =
      (List.range (k + 1)).map (shows scan direction) := by
  rw [answersAlone, List.range_eq_range', List.range'_succ, List.map_cons]
  have hmove : (Axi.move .begin (matching direction scan).length p).2 =
      decide (0 < (matching direction scan).length) := by
    by_cases hsize : (matching direction scan).length = 0
    · simp [Axi.move, hsize]
    · simp [Axi.move, hsize, Nat.pos_of_ne_zero hsize]
  have hzero : (matching direction scan).length ≠ 0 →
      (Axi.move .begin (matching direction scan).length p).1 = 0 := fun hsize => by
    simp [Axi.move, hsize]
  refine congrArg₂ List.cons (cursorResponse_eq_shows hmove fun hpos => hzero hpos.ne') ?_
  exact answersAlone_next k 0 fun hsize => by simp [hzero hsize]

end Runs

/-- Going to the beginning of the list and on `k` times shows its first transactions in order and
then nothing, whatever is loaded and moved in between. -/
theorem cursor_enumerates (name : String) (direction : Direction) (scan : ApbScan) (st : ApbState)
    (requests : List Request) (k : ℕ)
    (hscan : requireConfigAndScan wf budgetError name st = .ok scan)
    (h : LeavesAlone name direction requests)
    (hmoves : moves name direction requests = .begin :: List.replicate k .next) :
    (answers wf budgetError name direction st requests).length = k + 1 ∧ ∀ i ≤ k, ∃ response,
      (answers wf budgetError name direction st requests)[i]? = some (.ok response) ∧
      (response.found = true ↔ i < (matching direction scan).length) ∧
      response.transaction = (matching direction scan)[i]? ∧
      (response.found = true → response.index = some (i + 1)) := by
  have hanswers : answers wf budgetError name direction st requests =
      ((List.range (k + 1)).map (shows scan direction)).map .ok := by
    rw [answers_eq_answersAlone st hscan h, hmoves, answersAlone_begin]
  refine ⟨by simp [hanswers], fun i hi => ⟨shows scan direction i, ?_, ?_, ?_, ?_⟩⟩
  · simp [hanswers, Nat.lt_succ_of_le hi]
  · simp [shows, cursorResponse]
  · by_cases hlt : i < (matching direction scan).length
    · simp [shows, cursorResponse, hlt]
    · simp [shows, cursorResponse, hlt]
  · intro hfound
    simp_all [shows, cursorResponse]

/-- The one access, and nothing after it. -/
theorem cursor_enumerates_access : ∃ first second,
    (answers (accessWave "1" "1" "1") (fun _ => none) "apb0" .all accessState accessRequests)[0]? =
      some (.ok first) ∧
    (answers (accessWave "1" "1" "1") (fun _ => none) "apb0" .all accessState accessRequests)[1]? =
      some (.ok second) ∧
    first.transaction.isSome = true ∧ second.transaction = none := by
  obtain ⟨-, h⟩ := cursor_enumerates (accessWave "1" "1" "1") (fun _ => none) "apb0" .all _
    accessState accessRequests 1 rfl (by simp [LeavesAlone, accessRequests]) (by decide)
  obtain ⟨first, hfirst, -, hshown, -⟩ := h 0 (by decide)
  obtain ⟨second, hsecond, -, hnone, -⟩ := h 1 (by decide)
  refine ⟨first, second, hfirst, hsecond, ?_, ?_⟩
  · rw [hshown]
    decide +kernel
  · rw [hnone]
    decide +kernel

end XdebugFst.Apb
