import Mathlib
import XdebugFst.Lib.OrderedMap
import XdebugFst.Stream.Scan

/-!
# Loading stream configurations

`stream.config.load` reads a document with stream configurations into the store that the other
stream actions use. In the mode `replace` it clears the store first. Then it goes over the streams of
the document: each one is parsed, its signals are looked up in the waveform, and it is stored, before
the next one is looked at. A stream that is refused ends the action; so does an exception, which
any access to a field may throw.

When all streams are accepted, the store has what it should have. When one is refused, the store has
changed already, except under the condition of `allOrNothing_iff`.
-/

namespace XdebugFst.Stream.Load

open Lib Lib.History Waveform

/-! ### Reading JSON -/

/-- Why an action fails: an access to a field throws, or an error is returned. -/
inductive Failure
  | typeError | outOfRange
  | error (code message : String)
  deriving DecidableEq, Repr

/-- `at`: the field of an object. -/
def jsonAt (value : Json) (name : String) : Except Failure Json :=
  match value with
  | .object fields =>
      match fields.lookup name with
      | some field => .ok field
      | none => .error .outOfRange
  | _ => .error .typeError

/-- `get<std::string>`. -/
def getString (value : Json) : Except Failure String :=
  match value with
  | .string text => .ok text
  | _ => .error .typeError

/-- `get<std::map<std::string, std::string>>`. -/
def getStringMap (value : Json) : Except Failure (OrderedMap String String) :=
  match value with
  | .object fields => fields.foldrM (fun field map => do
      return map.insert field.1 (← getString field.2)) .empty
  | _ => .error .typeError

/-- `value` with a default: it throws nothing but type errors. -/
def orTypeError {α : Type} (result : Except Json.TypeError α) : Except Failure α :=
  result.mapError fun _ => .typeError

/-- The values that a loop over a JSON value visits: those of an object in the order of their keys,
and a value that is neither an array nor an object is its only one. -/
def jsonItems : Json → List Json
  | .null => []
  | .array items => items
  | .object fields =>
      (fields.foldr (fun field (map : OrderedMap String Json) => map.insert field.1 field.2)
        .empty).entries.map Prod.snd
  | value => [value]

/-- `value[name] = field` on an object. -/
def setField (name : String) (field : Json) : Json → Json
  | .object fields => .object ((name, field) :: fields.filter fun f => f.1 ≠ name)
  | value => value

/-! ### Parsing a stream -/

/-- `StreamConfig`, as `parse_stream` fills it. -/
structure StreamConfig where
  name : String
  source : Json
  signals : OrderedMap String String
  clock : String
  valid : String
  ready : String
  backpressure : String
  data : String
  edge : String
  samplePoint : String
  reset : String
  resetPolarity : String
  sop : String
  eop : String
  beatFields : Json
  packetStableFields : Json
  channelId : String
  channelIdValid : String
  allowInterleaving : Bool

/-- An expression of the document with its names resolved, empty when there is none. -/
def resolvedExpression (input : Json) (signals : OrderedMap String String) (key : String) :
    Except Failure String :=
  if input.contains key then do
    let text ← getString (← jsonAt input key)
    return String.ofList (resolveFieldExpression signals.entries none text.toList)
  else return ""

/-- The signal and the polarity of the reset. -/
def parseReset (input : Json) : Except Failure (String × String) :=
  if input.contains "reset" then do
    let signal ← getString (← jsonAt (← jsonAt input "reset") "signal")
    let polarity ← getString (← jsonAt (← jsonAt input "reset") "polarity")
    return (signal, polarity)
  else return ("", "")

/-- The data expression: given as such, or the path of the beat field `data`. -/
def parseData (input : Json) (signals : OrderedMap String String) (beatFields : Json) :
    Except Failure String :=
  if input.contains "data" then resolvedExpression input signals "data"
  else
    match (beatFields.field? "data").bind Json.string? with
    | some name => return (signals.find? name).getD ""
    | none => return ""

/-- `invalid_stream_config_error`. -/
def invalidStreamConfigError (message : String) : Failure := .error "INVALID_ARGUMENT" message

/-- The controls of a stream are there. -/
def checkControls (input : Json) (clock valid ready backpressure : String) :
    Except Failure Unit :=
  if clock = "" || valid = "" || (input.contains "rdy" && ready = "") ||
      (input.contains "bp" && backpressure = "") then
    .error (invalidStreamConfigError
      "stream clock/vld/flow-control alias is missing from signals")
  else return ()

/-- The rules for packets: the message of the first that fails. -/
def checkPackets (cfg : StreamConfig) : Except Failure Unit :=
  if (cfg.sop = "") ≠ (cfg.eop = "") then
    .error (invalidStreamConfigError
      ("stream " ++ cfg.name ++ " requires sop and eop to be configured together"))
  else if cfg.allowInterleaving then
    if cfg.sop = "" then
      .error (invalidStreamConfigError
        ("stream " ++ cfg.name ++ " allow_interleaving requires sop/eop"))
    else if cfg.channelId = "" then
      .error (invalidStreamConfigError
        ("stream " ++ cfg.name ++ " allow_interleaving requires channel_id"))
    else if cfg.channelIdValid ≠ "every_beat" then
      .error (invalidStreamConfigError
        ("stream " ++ cfg.name ++ " allow_interleaving requires channel_id_valid=every_beat"))
    else return ()
  else return ()

/-- The document of a stream with the defaults filled in. -/
def sourceOf (input : Json) (edge samplePoint channelIdValid : String) (allowInterleaving : Bool) :
    Json :=
  let source := setField "edge" (.string edge) input
  let source := if edge ≠ "negedge" then setField "sample_point" (.string samplePoint) source
    else source
  let source := setField "channel_id_valid" (.string channelIdValid) source
  setField "allow_interleaving" (.bool allowInterleaving) source

/-- `parse_stream`. -/
def parseStream (input : Json) : Except Failure StreamConfig := do
  let name ← getString (← jsonAt input "name")
  let signals ← getStringMap (← jsonAt input "signals")
  let clock ← resolvedExpression input signals "clock"
  let valid ← resolvedExpression input signals "vld"
  let ready ← resolvedExpression input signals "rdy"
  let backpressure ← resolvedExpression input signals "bp"
  let sop ← resolvedExpression input signals "sop"
  let eop ← resolvedExpression input signals "eop"
  let edge ← orTypeError (input.stringValue "edge" "posedge")
  let samplePoint ← orTypeError
    (input.stringValue "sample_point" (if edge = "negedge" then "" else "before"))
  let (reset, resetPolarity) ← parseReset input
  let beatFields ← orTypeError (input.jsonValue "beat_fields" (.object []))
  let packetStableFields ← orTypeError (input.jsonValue "packet_stable_fields" (.object []))
  let channelId ← resolvedExpression input signals "channel_id"
  let channelIdValid ← orTypeError (input.stringValue "channel_id_valid" "every_beat")
  let allowInterleaving ← orTypeError (input.boolValue "allow_interleaving" false)
  checkControls input clock valid ready backpressure
  let data ← parseData input signals beatFields
  let source := sourceOf input edge samplePoint channelIdValid allowInterleaving
  let cfg : StreamConfig :=
    { name, source, signals, clock, valid, ready, backpressure, data, edge, samplePoint, reset,
      resetPolarity, sop, eop, beatFields, packetStableFields, channelId, channelIdValid,
      allowInterleaving }
  checkPackets cfg
  return cfg

/-! ### Validating and storing -/

/-- What is said about one signal: the width when it is found. -/
structure SignalValidation where
  name : String
  requestedPath : String
  width : Option ℕ
  deriving DecidableEq, Repr

/-- The result of `validate_stream`. -/
structure StreamValidation where
  ok : Bool
  signals : List SignalValidation
  clock : Json
  edge : String
  samplePoint : Option String
  packetEnabled : Bool
  channelIdValid : String
  allowInterleaving : Bool
  stream : String

/-- A signal is found when it has a reference and its data can be loaded. -/
def signalWidth (wf : Backend) (path : String) : Option ℕ :=
  let ref := wf.findSignal path
  if ref = Backend.kInvalidSignalRef then none else (wf.signal ref).map SignalData.width

/-- `validate_stream`. -/
def validateStream (wf : Backend) (cfg : StreamConfig) : Except Failure StreamValidation := do
  let signals := cfg.signals.entries.map fun signal =>
    { name := signal.1, requestedPath := signal.2, width := signalWidth wf signal.2 }
  let clock ← jsonAt cfg.source "clock"
  return { ok := signals.all fun signal => signal.width.isSome
           signals
           clock
           edge := cfg.edge
           samplePoint := if cfg.edge = "negedge" then none else some cfg.samplePoint
           packetEnabled := cfg.sop ≠ "" && cfg.eop ≠ ""
           channelIdValid := cfg.channelIdValid
           allowInterleaving := cfg.allowInterleaving
           stream := cfg.name }

/-- What is reported about a stream that is stored. -/
structure LoadedStream where
  config : StreamConfig
  validation : StreamValidation
  /-- The clock is an expression: the issue `CLOCK_COMPLEX`. -/
  clockComplex : Bool

/-- A stream of the document, up to the point where it is stored. -/
def acceptStream (wf : Backend) (item : Json) : Except Failure LoadedStream := do
  let config ← parseStream item
  let validation ← validateStream wf config
  if !validation.ok then
    .error (.error "CONFIG_SIGNAL_NOT_FOUND" "stream config signal not found")
  else
    let clockExpression ← getString (← jsonAt item "clock")
    return { config, validation, clockComplex := (config.signals.find? clockExpression).isNone }

/-- `config_store`. -/
abbrev Store : Type := OrderedMap String StreamConfig

/-- The loop over the streams: each one is stored before the next one is looked at. -/
def loadStreams (wf : Backend) :
    List Json → List LoadedStream → Store → Except Failure (List LoadedStream) × Store
  | [], loaded, store => (.ok loaded, store)
  | item :: rest, loaded, store =>
      match acceptStream wf item with
      | .error failure => (.error failure, store)
      | .ok stream =>
          loadStreams wf rest (loaded ++ [stream]) (store.insert stream.config.name stream.config)

/-- The waveform and the files that an action can read. A file that cannot be opened is `none`, and
one that is no JSON text is `some none`. -/
structure Engine where
  waveform : Option Backend
  readFile : String → Option (Option Json)

/-- The document of a request. -/
def readDocument (engine : Engine) (args : Json) : Except Failure Json :=
  if args.contains "config" then jsonAt args "config"
  else do
    let path ← getString (← jsonAt args "config_path")
    match engine.readFile path with
    | none => .error (.error "INVALID_FIELD" "cannot read stream config_path")
    | some none => .error (.error "INVALID_FIELD" "invalid stream config JSON")
    | some (some document) => return document

/-- What the action reads before it touches the store. -/
structure LoadRequest where
  wf : Backend
  document : Json
  mode : String

def readRequest (engine : Engine) (req : Json) : Except Failure LoadRequest := do
  match engine.waveform with
  | none => .error (.error "WAVEFORM_NOT_LOADED"
      "action requires waveform file: stream.config.load")
  | some wf =>
      let args ← orTypeError (req.jsonValue "args" (.object []))
      let document ← readDocument engine args
      let mode ← orTypeError (args.stringValue "mode" "replace")
      return { wf, document, mode }

/-- The part of the action that writes the store. -/
def writeStore (request : LoadRequest) (store : Store) :
    Except Failure (List LoadedStream) × Store :=
  let store := if request.mode = "replace" then .empty else store
  match jsonAt request.document "streams" with
  | .error failure => (.error failure, store)
  | .ok streams => loadStreams request.wf (jsonItems streams) [] store

/-- `stream.config.load`: the streams that it reports or the failure, and the store afterwards. -/
def run (engine : Engine) (req : Json) (store : Store) :
    Except Failure (List LoadedStream) × Store :=
  match readRequest engine req with
  | .error failure => (.error failure, store)
  | .ok request => writeStore request store

/-! ### All or nothing -/

/-- The streams of a document, in order. -/
def DocumentStreams (document : Json) (configs : List StreamConfig) : Prop :=
  ∃ streams, jsonAt document "streams" = .ok streams ∧
    List.Forall₂ (fun item config => parseStream item = .ok config) (jsonItems streams) configs

/-- A store with the streams of a list in place of those of the same name; the last one of a name
counts. -/
def Overrides (store' : Store) (configs : List StreamConfig) (store : Store) : Prop :=
  ∀ name, store'.find? name =
    (lastWhere (fun config => config.name = name) configs).or (store.find? name)

/-- A failure leaves the store as it was. Otherwise the store consists of the streams of the
document, or of these and the old ones that they do not override. -/
def AllOrNothing (engine : Engine) (req : Json) (store : Store) : Prop :=
  match run engine req store with
  | (.error _, store') => store' = store
  | (.ok _, store') => ∃ request configs, readRequest engine req = .ok request ∧
      DocumentStreams request.document configs ∧
      Overrides store' configs (if request.mode = "replace" then .empty else store)

/-- The streams in front of the first one that is refused. -/
def accepted (wf : Backend) : List Json → List StreamConfig
  | [] => []
  | item :: rest =>
      match acceptStream wf item with
      | .error _ => []
      | .ok stream => stream.config :: accepted wf rest

/-- The streams of the document are a list, and none of them is refused. -/
def AllAccepted (request : LoadRequest) : Prop :=
  ∃ streams, jsonAt request.document "streams" = .ok streams ∧
    ∀ item ∈ jsonItems streams, (acceptStream request.wf item).isOk = true

/-- The streams of the document that are stored before the action fails. -/
def storedFirst (request : LoadRequest) : List StreamConfig :=
  match jsonAt request.document "streams" with
  | .error _ => []
  | .ok streams => accepted request.wf (jsonItems streams)

section Loop

variable {wf : Backend} {items : List Json}

lemma find?_foldl_insert (configs : List StreamConfig) (store : Store) :
    Overrides (configs.foldl (fun store config => store.insert config.name config) store) configs
      store := by
  induction configs generalizing store with
  | nil => intro name; rfl
  | cons config configs ih =>
      intro name
      rw [List.foldl_cons, ih, lastWhere, lastWhere, List.filter_cons]
      by_cases hname : config.name = name
      · subst hname
        rw [if_pos (decide_eq_true rfl), OrderedMap.find?_insert_self, List.getLast?_cons]
        cases (configs.filter fun c => c.name = config.name).getLast? with
        | none => rfl
        | some last => rfl
      · rw [if_neg (by simpa using hname), OrderedMap.find?_insert_of_ne _ (Ne.symm hname)]

/-- The store after the loop has the streams in front of the one that is refused. -/
lemma loadStreams_store (items : List Json) (loaded : List LoadedStream) (store : Store) :
    (loadStreams wf items loaded store).2 =
      (accepted wf items).foldl (fun store config => store.insert config.name config) store := by
  induction items generalizing loaded store with
  | nil => rfl
  | cons item rest ih =>
      rw [loadStreams, accepted]
      cases acceptStream wf item with
      | error failure => rfl
      | ok stream => exact ih _ _

/-- The loop comes to its end exactly if no stream is refused. -/
lemma loadStreams_isOk (items : List Json) (loaded : List LoadedStream) (store : Store) :
    (loadStreams wf items loaded store).1.isOk = true ↔
      ∀ item ∈ items, (acceptStream wf item).isOk = true := by
  induction items generalizing loaded store with
  | nil => exact ⟨fun _ item hitem => absurd hitem List.not_mem_nil, fun _ => rfl⟩
  | cons item rest ih =>
      rw [loadStreams, List.forall_mem_cons]
      cases acceptStream wf item with
      | error failure => exact iff_of_false Bool.false_ne_true fun h => Bool.false_ne_true h.1
      | ok stream => exact (ih _ _).trans (and_iff_right rfl).symm

lemma parseStream_of_acceptStream {item : Json} {stream : LoadedStream}
    (h : acceptStream wf item = .ok stream) : parseStream item = .ok stream.config := by
  obtain ⟨config, hparse, h⟩ := exists_of_bind_eq_ok h
  obtain ⟨validation, -, h⟩ := exists_of_bind_eq_ok h
  split_ifs at h
  obtain ⟨clock, -, h⟩ := exists_of_bind_eq_ok h
  obtain ⟨text, -, h⟩ := exists_of_bind_eq_ok h
  cases h
  exact hparse

/-- When no stream is refused, the streams in front of a refused one are all. -/
lemma forall₂_accepted (h : ∀ item ∈ items, (acceptStream wf item).isOk = true) :
    List.Forall₂ (fun item config => parseStream item = .ok config) items (accepted wf items) := by
  induction items with
  | nil => exact List.Forall₂.nil
  | cons item rest ih =>
      obtain ⟨hitem, hrest⟩ := List.forall_mem_cons.1 h
      rw [accepted]
      cases haccept : acceptStream wf item with
      | error failure =>
          rw [haccept] at hitem
          cases hitem
      | ok stream => exact List.Forall₂.cons (parseStream_of_acceptStream haccept) (ih hrest)

end Loop

/-- What the action leaves in the store when it comes to write it. -/
lemma writeStore_overrides (request : LoadRequest) (store : Store) :
    Overrides (writeStore request store).2 (storedFirst request)
      (if request.mode = "replace" then .empty else store) := by
  rw [writeStore, storedFirst]
  cases jsonAt request.document "streams" with
  | error failure => intro name; rfl
  | ok streams =>
      dsimp only
      rw [loadStreams_store]
      exact find?_foldl_insert _ _

lemma writeStore_isOk (request : LoadRequest) (store : Store) :
    (writeStore request store).1.isOk = true ↔ AllAccepted request := by
  rw [writeStore, AllAccepted]
  cases jsonAt request.document "streams" with
  | error failure =>
      refine iff_of_false Bool.false_ne_true ?_
      rintro ⟨streams, h, -⟩
      cases h
  | ok streams =>
      dsimp only
      rw [loadStreams_isOk]
      exact ⟨fun h => ⟨streams, rfl, h⟩, fun ⟨_, heq, h⟩ => by cases heq; exact h⟩

lemma AllAccepted.documentStreams {request : LoadRequest} (h : AllAccepted request) :
    DocumentStreams request.document (storedFirst request) := by
  obtain ⟨streams, heq, hall⟩ := h
  rw [storedFirst, heq]
  exact ⟨streams, heq, forall₂_accepted hall⟩

/-- The action is all or nothing exactly if it fails before it comes to the store, or no stream is
refused, or the streams in front of the refused one do not change the store: in the mode `replace`
they are all that is stored, otherwise they are stored already. -/
theorem allOrNothing_iff (engine : Engine) (req : Json) (store : Store) :
    AllOrNothing engine req store ↔ ∀ request, readRequest engine req = .ok request →
      AllAccepted request ∨ Overrides store (storedFirst request)
        (if request.mode = "replace" then .empty else store) := by
  rw [AllOrNothing, run]
  cases hread : readRequest engine req with
  | error failure => exact iff_of_true rfl fun request h => by cases h
  | ok request =>
      have hwrite := writeStore_overrides request store
      have hok := writeStore_isOk request store
      dsimp only
      rcases hresult : writeStore request store with ⟨result, store'⟩
      rw [hresult] at hwrite hok
      cases result with
      | error failure =>
          have hrefused : ¬ AllAccepted request := fun h => by cases hok.2 h
          constructor
          · rintro rfl other hother
            cases hother
            exact Or.inr hwrite
          · intro h
            have hsame := (h request rfl).resolve_left hrefused
            exact OrderedMap.ext_find? fun name => (hwrite name).trans (hsame name).symm
      | ok loaded =>
          have haccepted := hok.1 rfl
          refine iff_of_true ⟨request, _, rfl, haccepted.documentStreams, hwrite⟩ ?_
          rintro other hother
          cases hother
          exact Or.inl haccepted

/-! ### A stream whose signals are not there -/

lemma emptyWave_times : ∀ t ∈ ([] : List ℕ), t < 2 ^ 64 := fun _ h => absurd h List.not_mem_nil

lemma emptyWave_changes (_ : ℕ) (data : SignalData)
    (h : (none : Option SignalData) = some data) :
    ∀ c ∈ data.changes, c.timeIdx < ([] : List ℕ).length := by cases h

/-- A waveform without signals. -/
def emptyWave : Backend where
  timeTable := []
  times_sorted := List.Pairwise.nil
  times_lt := emptyWave_times
  findSignal _ := 0
  nativeRef _ := 0
  signal _ := none
  changes_lt := emptyWave_changes

/-- The document of a stream with a clock and a valid signal. -/
def streamJson (name : String) : Json :=
  .object [("name", .string name),
    ("signals", .object [("clk", .string "top.clk"), ("vld", .string "top.vld")]),
    ("clock", .string "clk"), ("vld", .string "vld")]

def loadJson (name : String) : Json :=
  .object [("args", .object [("config", .object [("streams", .array [streamJson name])])])]

/-- A store with one stream. -/
def oldStore : Store :=
  match parseStream (streamJson "old") with
  | .ok config => OrderedMap.empty.insert "old" config
  | .error _ => .empty

/-- A stream whose signals are not in the waveform is refused after the store has been cleared. -/
theorem unknownSignal_not_allOrNothing : ¬ ∀ (engine : Engine) (req : Json) (store : Store),
    AllOrNothing engine req store := by
  intro h
  have hload := h ⟨some emptyWave, fun _ => none⟩ (loadJson "new") oldStore
  have hfailed : (run ⟨some emptyWave, fun _ => none⟩ (loadJson "new") oldStore).1.isOk = false := by
    decide +kernel
  have hcleared : ((run ⟨some emptyWave, fun _ => none⟩ (loadJson "new") oldStore).2.find?
      "old").isSome = false := by
    decide +kernel
  have hold : (oldStore.find? "old").isSome = true := by
    decide +kernel
  rw [AllOrNothing] at hload
  rcases hrun : run ⟨some emptyWave, fun _ => none⟩ (loadJson "new") oldStore with ⟨result, store'⟩
  rw [hrun] at hload hfailed hcleared
  cases result with
  | ok loaded => cases hfailed
  | error failure =>
      dsimp only at hload hcleared
      rw [hload, hold] at hcleared
      cases hcleared

end XdebugFst.Stream.Load
