import Mathlib
import XdebugFst.Lib.Levels

/-!
# Listing the scopes of a waveform

`scope.list` answers with the modules, ports and signals at one level below a scope. Scopes without
a name are left out, with all that is below them. Whether something is a port is known from the
design, when there is one.

`scopeList_levels` says that a client that asks for one level after the other gets the tree below the
scope, each of its objects as often as it is there, and that a limit on the rows takes the first of
them and says so.
-/

namespace XdebugFst.Waveform.Scopes

open Lib

/-! ### The backends -/

/-- What `IWaveformBackend` says about scopes. References are positive, and texts may be null
pointers. -/
structure ScopeBackend where
  roots : List ℕ
  scopes : List ℕ
  children : ℕ → List ℕ
  vars : ℕ → List ℕ
  scopeName : ℕ → Option String
  scopeFullName : ℕ → Option String
  scopeComponent : ℕ → Option String
  isInterface : ℕ → Bool
  varName : ℕ → Option String
  varFullName : ℕ → Option String
  varWidth : ℕ → ℕ

/-- A signal of the design, with where it is declared. -/
structure DesignSignal where
  name : Option String
  file : Option String
  line : ℤ

/-- What `IDesignBackend` says about signals. -/
structure ScopeDesign where
  signals : List DesignSignal
  /-- `resolve`, when it is not negative. -/
  resolve : String → Option ℕ
  direction : ℕ → ℤ
  /-- The texts of `trace_source_context`. -/
  sourceContext : String → ℤ → List String

/-! ### Names -/

/-- `text.rfind(start, 0) == 0`. -/
def startsWith (start text : String) : Bool := start.toList.isPrefixOf text.toList

/-- `text.substr(n)`. -/
def dropChars (n : ℕ) (text : String) : String := String.ofList (text.toList.drop n)

/-- A name that is there. -/
def nonempty (name : Option String) : Option String := name.filter (· ≠ "")

/-- `public_wave_path`. -/
def publicWavePath (path : String) : String :=
  if path = "TOP" then "top"
  else if startsWith "TOP." path then "top" ++ dropChars 3 path
  else path

/-- `matches_scope_path`. -/
def matchesScopePath (requested waveformPath : String) : Bool :=
  if requested = waveformPath ∨ requested = publicWavePath waveformPath then true
  else if startsWith "TOP." waveformPath then requested = dropChars 4 waveformPath
  else if startsWith "top." waveformPath then requested = dropChars 4 waveformPath
  else false

/-- `prefix.empty() ? name : prefix + "." + name`. -/
def relativeName (pre name : String) : String := if pre = "" then name else pre ++ "." ++ name

/-- `std::isspace`. -/
def isSpace (c : Char) : Bool := c ∈ [' ', '\t', '\n', '\x0b', '\x0c', '\r']

/-- `source_module_name`. -/
def sourceModuleName (text : String) : String :=
  let afterSpaces := text.toList.dropWhile isSpace
  if ! "module".toList.isPrefixOf afterSpaces then ""
  else
    let afterKeyword := afterSpaces.drop 6
    if ! afterKeyword.head?.any isSpace then ""
    else
      String.ofList ((afterKeyword.dropWhile isSpace).takeWhile fun c =>
        c.isAlphanum || c = '_' || c = '$' || c = '\\')

/-- `design_scope_component`. -/
def designScopeComponent (design : ScopeDesign) (waveformScope : String) : String :=
  let path := publicWavePath waveformScope
  let scope := if startsWith "top." path then path else "top." ++ path
  let texts := design.signals.flatMap fun signal =>
    if (signal.name.any (startsWith (scope ++ "."))) && (nonempty signal.file).isSome &&
        0 < signal.line then
      design.sourceContext (signal.file.getD "") signal.line
    else []
  ((texts.map sourceModuleName).find? (· ≠ "")).getD ""

/-! ### Rows -/

/-- `kind` of a request. A row is of one of the last three. -/
inductive Kind
  | all | module | port | signal
  deriving DecidableEq, Repr

/-- A row of the answer. A width or a direction may be missing. -/
inductive Row
  | module (name moduleName : String)
  | port (name direction : String) (width : Option ℕ)
  | signal (name : String) (width : Option ℕ)
  deriving DecidableEq, Repr

namespace Row

def name : Row → String
  | module n _ | port n _ _ | signal n _ => n

def kind : Row → Kind
  | module _ _ => .module
  | port _ _ _ => .port
  | signal _ _ => .signal

end Row

variable (wave : ScopeBackend) (design : Option ScopeDesign)

/-- The direction that the design has for a name, 0 when there is none. -/
def designDirection (name : String) : ℤ :=
  (design.bind fun d => (d.resolve name).map d.direction).getD 0

/-- The row of a child. -/
def childRow (child : ℕ) (name relative : String) : Row :=
  if wave.isInterface child then
    let full := ((wave.scopeFullName child).map publicWavePath).getD ""
    let designName := if full ≠ "" ∧ startsWith "top." full = false then "top." ++ full else full
    if designDirection design designName ≠ 0 then .port relative "interface" none
    else .signal relative none
  else
    let fromDesign := (design.bind fun d =>
      (nonempty (wave.scopeFullName child)).map (designScopeComponent d)).getD ""
    let component := (nonempty (wave.scopeComponent child)).getD fromDesign
    .module relative (if component = "" then name else component)

/-- `top` in front of what follows the first dot. -/
def designVarName (full : String) : String :=
  if '.' ∈ full.toList then "top" ++ String.ofList (full.toList.dropWhile (· ≠ '.')) else full

/-- The row of a variable. -/
def varRow (var : ℕ) (relative : String) : Row :=
  let width := if wave.varWidth var = 0 then none else some (wave.varWidth var)
  let direction := designDirection design (designVarName ((wave.varFullName var).getD ""))
  if direction ≠ 0 then
    .port relative (if direction = 1 then "input" else if direction = 2 then "output" else "inout")
      width
  else .signal relative width

/-- `ref ? scope_name(ref) : nullptr`, when it is not empty. -/
def scopeLabel (ref : ℕ) : Option String :=
  if ref = 0 then none else nonempty (wave.scopeName ref)

/-- The same for a variable. -/
def varLabel (ref : ℕ) : Option String := if ref = 0 then none else nonempty (wave.varName ref)

/-- The body of the loop over the selected scopes, with the prefix of the scope. -/
def scopeRows (scope : ℕ × String) : List Row :=
  ((wave.children scope.1).filterMap fun child => (scopeLabel wave child).map fun name =>
    childRow wave design child name (relativeName scope.2 name)) ++
  (wave.vars scope.1).filterMap fun var => (varLabel wave var).map fun name =>
    varRow wave design var (relativeName scope.2 name)

/-! ### The request -/

/-- The arguments and the limit. -/
structure Request where
  path : String := ""
  /-- What an `int` holds of the level, when that is not negative. -/
  level : ℕ := 0
  kind : Kind := .all
  includePatterns : List String := []
  excludePatterns : List String := []
  maxRows : Option ℕ := none

/-- `collect_depth`. -/
def collectDepth : ℕ → ℕ → String → List (ℕ × String)
  | 0, scope, pre => [(scope, pre)]
  | depth + 1, scope, pre => (wave.children scope).flatMap fun child =>
      match scopeLabel wave child with
      | none => []
      | some name => collectDepth depth child (relativeName pre name)

/-- The roots with a name. -/
def namedRoots : List (ℕ × String) :=
  wave.roots.filterMap fun root => (scopeLabel wave root).map fun name => (root, name)

/-- The scope that a path stands for. -/
def findBase (path : String) : Option ℕ :=
  wave.scopes.find? fun ref =>
    ref ≠ 0 ∧ (wave.scopeFullName ref).any (matchesScopePath path) = true

/-- The scopes whose objects are listed. -/
def selectScopes (path : String) (level : ℕ) : Option (List (ℕ × String)) :=
  if path = "" ∨ path = "." then
    if level = 0 then some (namedRoots wave)
    else some ((namedRoots wave).flatMap fun root => collectDepth wave (level - 1) root.1 root.2)
  else (findBase wave path).map fun base => collectDepth wave level base ""

/-- What is answered. -/
structure Response where
  modules : List Row
  ports : List Row
  signals : List Row
  scannedRowCount : ℕ
  totalModuleCount : ℕ
  totalPortCount : ℕ
  totalSignalCount : ℕ
  responseTruncated : Bool

/-- All returned rows. -/
def Response.rows (r : Response) : List Row := r.modules ++ r.ports ++ r.signals

-- `fnmatch` with a pattern and a name
variable (fnmatch : String → String → Bool)

/-- `included`. -/
def included (req : Request) (name : String) : Bool :=
  ! (req.excludePatterns.any fun pattern => fnmatch pattern name) &&
    (req.includePatterns.isEmpty || req.includePatterns.any fun pattern => fnmatch pattern name)

/-- `filter_rows`, for the kinds that are asked for. -/
def filterRows (req : Request) (kind : Kind) (rows : List Row) : List Row :=
  if req.kind = .all ∨ req.kind = kind then
    rows.filter fun row => included fnmatch req row.name
  else []

/-- The answer for the rows of the selected scopes and the eligible ones of each kind, cut by
`apply_limit` in this order. -/
def limitRows (rows modules ports signals : List Row) (maxRows : ℕ) : Response :=
  let modules' := modules.take maxRows
  let afterModules := maxRows - modules'.length
  let ports' := ports.take afterModules
  let afterPorts := afterModules - ports'.length
  let signals' := signals.take afterPorts
  { modules := modules'
    ports := ports'
    signals := signals'
    scannedRowCount := (rows.filter (·.kind = .module)).length +
      (rows.filter (·.kind = .port)).length + (rows.filter (·.kind = .signal)).length
    totalModuleCount := (rows.filter (·.kind = .module)).length
    totalPortCount := (rows.filter (·.kind = .port)).length
    totalSignalCount := (rows.filter (·.kind = .signal)).length
    responseTruncated := modules'.length + ports'.length + signals'.length <
      modules.length + ports.length + signals.length }

/-- `scope.list`. -/
def scopeList (req : Request) : Except String Response :=
  match selectScopes wave req.path req.level with
  | none => .error ("scope not found: " ++ req.path)
  | some selected =>
    let rows := selected.flatMap (scopeRows wave design)
    let modules := filterRows fnmatch req .module (rows.filter (·.kind = .module))
    let ports := filterRows fnmatch req .port (rows.filter (·.kind = .port))
    let signals := filterRows fnmatch req .signal (rows.filter (·.kind = .signal))
    .ok (limitRows rows modules ports signals
      (req.maxRows.getD (modules.length + ports.length + signals.length)))

variable {wave} {design} {fnmatch}

/-! ### Levels -/

variable (wave) in
/-- The children that `collect_depth` goes into, with their prefixes. -/
def namedChildren (scope : ℕ × String) : List (ℕ × String) :=
  (wave.children scope.1).filterMap fun child => (scopeLabel wave child).map fun name =>
    (child, relativeName scope.2 name)

lemma collectDepth_eq (depth scope : ℕ) (pre : String) :
    collectDepth wave depth scope pre = atDepth (namedChildren wave) depth (scope, pre) := by
  induction depth generalizing scope pre with
  | zero => rfl
  | succ depth ih =>
    rw [collectDepth, atDepth, namedChildren]
    induction wave.children scope with
    | nil => rfl
    | cons child children ihc =>
      rw [List.flatMap_cons, ihc, List.filterMap_cons]
      cases scopeLabel wave child with
      | none => rfl
      | some name => simp [ih]

variable (wave) in
/-- Where the levels begin. -/
def startScopes (path : String) : Option (List (ℕ × String)) :=
  if path = "" ∨ path = "." then some (namedRoots wave)
  else (findBase wave path).map fun base => [(base, "")]

/-- The roots are on no level, so that without a path the first level is asked for as 1. -/
def firstLevel (path : String) : ℕ := if path = "" ∨ path = "." then 1 else 0

lemma selectScopes_eq (path : String) (d : ℕ) :
    selectScopes wave path (d + firstLevel path) = (startScopes wave path).map fun start =>
      start.flatMap (atDepth (namedChildren wave) d) := by
  rw [selectScopes, startScopes, firstLevel]
  split
  · simp [collectDepth_eq]
  · simp [collectDepth_eq, Function.comp_def]

/-- Without a path level 0 is level 1. -/
lemma selectScopes_zero {path : String} (h : path = "" ∨ path = ".") :
    selectScopes wave path 0 = selectScopes wave path 1 := by
  simp [selectScopes, h, collectDepth]

lemma exists_selectScopes {path : String} {start : List (ℕ × String)}
    (h : startScopes wave path = some start) (level : ℕ) :
    ∃ selected, selectScopes wave path level = some selected := by
  have hall : ∀ d, ∃ selected, selectScopes wave path (d + firstLevel path) = some selected := by
    intro d
    rw [selectScopes_eq, h]
    exact ⟨_, rfl⟩
  by_cases hpath : path = "" ∨ path = "."
  · have hfirst : firstLevel path = 1 := if_pos hpath
    cases level with
    | zero =>
      rw [selectScopes_zero hpath, ← hfirst]
      simpa using hall 0
    | succ d =>
      rw [← hfirst]
      exact hall d
  · have hfirst : firstLevel path = 0 := if_neg hpath
    simpa [hfirst] using hall level

/-! ### Rows that are asked for -/

variable (fnmatch) in
/-- The rows of the kind that is asked for whose names are included. -/
def asked (req : Request) (row : Row) : Bool :=
  (req.kind = .all || req.kind = row.kind) && included fnmatch req row.name

lemma filterRows_filter (req : Request) (kind : Kind) (rows : List Row) :
    filterRows fnmatch req kind (rows.filter (·.kind = kind)) =
      (rows.filter (asked fnmatch req)).filter (·.kind = kind) := by
  rw [filterRows, List.filter_filter, List.filter_filter]
  split
  · rename_i hkind
    refine List.filter_congr fun row _ => ?_
    by_cases hrow : row.kind = kind
    · subst hrow
      rcases hkind with hkind | hkind <;> simp [asked, hkind]
    · simp [hrow]
  · rename_i hkind
    rw [eq_comm, List.filter_eq_nil_iff]
    intro row _ hrow
    simp only [asked, Bool.and_eq_true, Bool.or_eq_true, decide_eq_true_eq] at hrow
    obtain ⟨rfl, hasked, -⟩ := hrow
    exact hkind hasked

/-- The three kinds of rows are all rows. -/
lemma filter_kinds_perm (rows : List Row) :
    (rows.filter (·.kind = .module) ++ rows.filter (·.kind = .port) ++
      rows.filter (·.kind = .signal)).Perm rows := by
  induction rows with
  | nil => rfl
  | cons row rows ih =>
    cases row with
    | module n m => simpa [Row.kind] using ih
    | port n d w =>
      simp only [Row.kind, List.filter_cons, reduceCtorEq, decide_false, decide_true, if_true,
        Bool.false_eq_true, if_false]
      refine List.Perm.trans ?_ (ih.cons _)
      rw [List.append_assoc, List.append_assoc]
      exact List.perm_middle
    | signal n w =>
      simp only [Row.kind, List.filter_cons, reduceCtorEq, decide_false, decide_true, if_true,
        Bool.false_eq_true, if_false]
      exact List.perm_middle.trans (ih.cons _)

/-! ### Limits -/

/-- Three lists cut one after the other are their concatenation, cut. -/
lemma take_three {α : Type} (l m n : List α) (k : ℕ) :
    l.take k ++ m.take (k - (l.take k).length) ++
      n.take (k - (l.take k).length - (m.take (k - (l.take k).length)).length) =
        (l ++ m ++ n).take k := by
  rw [List.take_append, List.take_append, List.length_append]
  have hl : k - (l.take k).length = k - l.length := by
    rw [List.length_take]
    omega
  have hm : k - l.length - (m.take (k - l.length)).length = k - (l.length + m.length) := by
    rw [List.length_take]
    omega
  rw [hl, hm]

lemma rows_limitRows (rows modules ports signals : List Row) (k : ℕ) :
    (limitRows rows modules ports signals k).rows = (modules ++ ports ++ signals).take k :=
  take_three _ _ _ _

lemma responseTruncated_limitRows (rows modules ports signals : List Row) (k : ℕ) :
    (limitRows rows modules ports signals k).responseTruncated =
      decide (k < (modules ++ ports ++ signals).length) := by
  have hrows : ∀ l m n : List Row, (l ++ m ++ n).length = l.length + m.length + n.length := by
    intro l m n
    rw [List.length_append, List.length_append]
  have htake := congrArg List.length (take_three modules ports signals k)
  rw [hrows, List.length_take (l := modules ++ ports ++ signals)] at htake
  simp only [limitRows]
  rw [htake, ← hrows, decide_eq_decide]
  omega

variable (wave design fnmatch) in
/-- The rows that may be returned, in the order of the answer. -/
def eligibleRows (req : Request) (selected : List (ℕ × String)) : List Row :=
  let rows := (selected.flatMap (scopeRows wave design)).filter (asked fnmatch req)
  rows.filter (·.kind = .module) ++ rows.filter (·.kind = .port) ++ rows.filter (·.kind = .signal)

variable (design fnmatch) in
/-- An answer has the first of the eligible rows, and says whether there are more. -/
lemma exists_scopeList (req : Request) {selected : List (ℕ × String)}
    (hselected : selectScopes wave req.path req.level = some selected) :
    ∃ response, scopeList wave design fnmatch req = .ok response ∧
      response.rows = (eligibleRows wave design fnmatch req selected).take
        (req.maxRows.getD (eligibleRows wave design fnmatch req selected).length) ∧
      response.responseTruncated =
        decide (req.maxRows.getD (eligibleRows wave design fnmatch req selected).length <
          (eligibleRows wave design fnmatch req selected).length) := by
  simp only [scopeList, hselected, filterRows_filter]
  refine ⟨_, rfl, ?_, ?_⟩
  · rw [rows_limitRows, ← List.length_append, ← List.length_append]
    rfl
  · rw [responseTruncated_limitRows, ← List.length_append, ← List.length_append]
    rfl

/-- The rows of an answer, none if it is an error. -/
def answered : Except String Response → List Row
  | .ok response => response.rows
  | .error _ => []

lemma answered_scopeList (req : Request) {selected : List (ℕ × String)}
    (hselected : selectScopes wave req.path req.level = some selected) (hmax : req.maxRows = none) :
    (answered (scopeList wave design fnmatch req)).Perm
      ((selected.flatMap (scopeRows wave design)).filter (asked fnmatch req)) := by
  obtain ⟨response, hresponse, hrows, -⟩ := exists_scopeList design fnmatch req hselected
  rw [hresponse, answered, hrows, hmax, Option.getD_none, List.take_length]
  exact filter_kinds_perm _

/-- One level after the other the client gets the tree, and with a limit it gets the first rows and
is told whether there are more. -/
theorem scopeList_levels (req : Request) {start : List (ℕ × String)}
    (hstart : startScopes wave req.path = some start) :
    (∀ n, ((List.range n).flatMap fun d => answered (scopeList wave design fnmatch
        { req with level := d + firstLevel req.path, maxRows := none })).Perm
      (((start.flatMap (within (namedChildren wave) n)).flatMap
        (scopeRows wave design)).filter (asked fnmatch req))) ∧
    ∀ level k, ∃ full limited,
      scopeList wave design fnmatch { req with level := level, maxRows := none } = .ok full ∧
      scopeList wave design fnmatch { req with level := level, maxRows := some k } = .ok limited ∧
      full.responseTruncated = false ∧ limited.rows = full.rows.take k ∧
      limited.responseTruncated = decide (k < full.rows.length) := by
  refine ⟨fun n => ?_, fun level k => ?_⟩
  · have hlevel : ∀ d, (answered (scopeList wave design fnmatch
        { req with level := d + firstLevel req.path, maxRows := none })).Perm
        (((start.flatMap (atDepth (namedChildren wave) d)).flatMap (scopeRows wave design)).filter
          (asked fnmatch req)) := by
      intro d
      refine answered_scopeList
        { req with level := d + firstLevel req.path, maxRows := none } ?_ rfl
      rw [selectScopes_eq, hstart, Option.map_some]
    refine (List.Perm.flatMap_left _ fun d _ => hlevel d).trans ?_
    simp only [List.filter_flatMap]
    rw [← List.flatMap_assoc]
    exact (flatMap_levels_perm _ n start).flatMap_right _
  · obtain ⟨selected, hselected⟩ := exists_selectScopes hstart level
    obtain ⟨full, hfull, hrows, htruncated⟩ := exists_scopeList design fnmatch
      { req with level := level, maxRows := none } hselected
    obtain ⟨limited, hlimited, hrows', htruncated'⟩ := exists_scopeList design fnmatch
      { req with level := level, maxRows := some k } hselected
    rw [Option.getD_none, List.take_length] at hrows
    refine ⟨full, limited, hfull, hlimited, ?_, ?_, ?_⟩
    · rw [htruncated, Option.getD_none]
      exact decide_eq_false (lt_irrefl _)
    · rw [hrows', hrows]
      rfl
    · rw [htruncated', hrows]
      rfl

/-! ### One module in another -/

/-- A scope `a` with a scope `b` and a variable in it. -/
def nestedScopes : ScopeBackend where
  roots := [1]
  scopes := [1, 2]
  children ref := if ref = 1 then [2] else []
  vars ref := if ref = 2 then [3] else []
  scopeName ref := some (if ref = 1 then "a" else "b")
  scopeFullName ref := some (if ref = 1 then "a" else "a.b")
  scopeComponent _ := none
  isInterface _ := false
  varName _ := some "v"
  varFullName _ := some "a.b.v"
  varWidth _ := 1

/-- Two levels are the module and the signal in it. -/
theorem scopeList_levels_nested :
    ((List.range 2).flatMap fun d => answered (scopeList nestedScopes none (fun _ _ => true)
      { path := "a", level := d, maxRows := none })).Perm
        [.module "b" "b", .signal "b.v" (some 1)] :=
  (scopeList_levels { path := "a" }
    (show startScopes nestedScopes "a" = some [(1, "")] by decide)).1 2

end XdebugFst.Waveform.Scopes
