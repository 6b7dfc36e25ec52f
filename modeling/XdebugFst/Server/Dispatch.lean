import Mathlib
import XdebugFst.Lib.Json
import XdebugFst.Lib.Throws

/-!
# Dispatching a request

`dispatch` of `server.cpp`: a request is validated, handed to the frontend, to the engine of a
session or to a handler, and the answer is brought into the form of a public response. A `batch`
dispatches its children in turn.

The JSON library throws when a field is read that has another type. Only a handler is called
inside a `try`, so every other read has to be safe. What `dispatch` calls and this file does not
define is a parameter, the `Engine`. It may have any state and give any answers, but what it gives
to `dispatch` can be read by it (`Answer`, `Diagnostic`), and the schema of a batch is the one of
`batch.request.schema.json`. The frontend, the engine of a session and the renderer of a handler are
called outside of the `try` and may throw. Which exception that is does not matter, as nothing
catches it.

`dispatch_throws_iff` is what follows: on a request whose action is a string if it has one, the
exceptions of `dispatch` are those of these components, for the request or for a child of a batch.
-/

namespace XdebugFst.Server

open Lib

/-! ### Errors -/

/-- The path has a segment that names a secret. -/
def sensitiveDiagnosticPath (path : String) : Bool :=
  (path.toList.splitOnP fun c => !(c.isAlphanum || c = '_')).any fun segment =>
    segment = "ownership_token".toList || segment = "ownership_token_hash".toList

def sensitiveDiagnosticKey (key : String) : Bool :=
  key = "ownership_token" || key = "ownership_token_hash"

/-- The field is a path that names a secret. -/
def hasSensitivePath (fields : List (String × Json)) (name : String) : Bool :=
  ((fields.lookup name).bind Json.string?).any sensitiveDiagnosticPath

/-- Set a field that may be there already. -/
def setField (fields : List (String × Json)) (name : String) (value : Json) :
    List (String × Json) :=
  if (fields.lookup name).isSome then
    fields.map fun field => if field.1 = name then (name, value) else field
  else fields ++ [(name, value)]

mutual

/-- `redact_sensitive_diagnostic`. -/
def redactSensitiveDiagnostic : Json → Json
  | .array items => .array (redactItems items)
  | .object fields =>
      let sensitiveArg := hasSensitivePath fields "invalid_arg"
      let out := redactFields sensitiveArg (hasSensitivePath fields "path") fields
      .object (if sensitiveArg then setField out "received_redacted" (.bool true) else out)
  | value => value

def redactItems : List Json → List Json
  | [] => []
  | item :: rest => redactSensitiveDiagnostic item :: redactItems rest

def redactFields (sensitiveArg sensitiveIssue : Bool) :
    List (String × Json) → List (String × Json)
  | [] => []
  | (key, value) :: rest =>
      let out := redactFields sensitiveArg sensitiveIssue rest
      if sensitiveDiagnosticKey key then out
      else if sensitiveArg && key = "received" then out
      else if (sensitiveArg || sensitiveIssue) && key = "message" then
        (key, .string "sensitive request field failed validation") :: out
      else (key, redactSensitiveDiagnostic value) :: out

end

/-- Add a field unless it is there. -/
def addDefault (name : String) (value : Json) (fields : List (String × Json)) :
    List (String × Json) :=
  if (fields.lookup name).isSome then fields else fields ++ [(name, value)]

/-- `normalize_diagnostic_error`. -/
def normalizeDiagnosticError (error : Json) (defaultLayer : String) : Json :=
  redactSensitiveDiagnostic <| .object <|
    addDefault "recoverable" (.bool true) <|
    addDefault "error_layer" (.string defaultLayer) <|
    addDefault "message" (.string "action failed") <|
    addDefault "code" (.string "ACTION_FAILED") error.fields

/-- `DiagnosticErrorBuilder`, with the fields that are set besides the four common ones. -/
def diagnosticError (code message : String) (recoverable : Bool) (layer : String)
    (more : List (String × Json)) : Json :=
  redactSensitiveDiagnostic (.object ([
    ("code", .string code), ("message", .string message), ("recoverable", .bool recoverable),
    ("error_layer", .string layer)] ++ more))

/-- `error_response`. -/
def errorResponse (code message : String) : Json :=
  .object [
    ("ok", .bool false),
    ("error", .object [
      ("code", .string code), ("message", .string message), ("recoverable", .bool true),
      ("error_layer", .string "handler")])]

/-! ### What dispatch can read -/

/-- The texts of an error that are read again. -/
def IsDiagnostic (error : Json) : Prop :=
  ∀ name ∈ ["code", "error_layer"], ∀ field, error.field? name = some field →
    field.string?.isSome

/-- An error with readable texts. -/
abbrev Diagnostic := {error : Json // IsDiagnostic error}

/-- The fields of an answer that are read again. -/
structure IsAnswer (answer : Json) : Prop where
  isObject : answer.isObject = true
  ok : ∀ field, answer.field? "ok" = some field → field.bool?.isSome
  apiVersion : ∀ field, answer.field? "api_version" = some field → field.string?.isSome
  error : ∀ field, answer.field? "error" = some field → IsDiagnostic field

/-- What a component answers. -/
abbrev Answer := {answer : Json // IsAnswer answer}

/-- A registered `EngineActionHandler`. Running it and rendering a response may throw. -/
structure Handler (σ : Type) where
  needsDesign : Bool
  needsWaveform : Bool
  run : Json → σ → Except String Answer × σ
  renderXout : Json → Except Json.TypeError String

/-- `args.requests` of a batch. -/
def batchRequests (request : Json) : Option (List Json) :=
  match ((request.field? "args").getD (.object [])).field? "requests" with
  | some (.array requests) => some requests
  | _ => none

/-- What the server calls, with the state that the calls may change.

A text of the server is a sequence of bytes, and those of its components need not be UTF-8: a
renderer cuts a value at a number of bytes, and the lines of a source file may have any. The strings
stand for these texts, and `isUtf8` says which of them are UTF-8. -/
structure Engine (σ : Type) where
  isUtf8 : String → Bool
  isUtf8_ascii : ∀ {text : String}, (text.toList.all fun c => c.toNat < 128) = true →
    isUtf8 text = true
  /-- `Json::parse`: the value, or the text of the exception. -/
  parse : ByteArray → Except String Json
  /-- `Json::parse` refuses a text that is not UTF-8. -/
  isUtf8_parse : ∀ {text value}, parse text = .ok value → value.allTexts isUtf8 = true
  /-- `PublicActionRegistry::find`. -/
  isPublicAction : String → Bool
  actionSuggestions : String → List String
  /-- `RuntimeSchemaValidator::validate_request`. -/
  requestError : String → Json → Option Diagnostic
  /-- The schema of a batch asks for children whose action is a string. -/
  batchSchema : ∀ {request requests}, requestError "batch" request = none →
    batchRequests request = some requests → ∀ child ∈ requests, ∀ field,
      child.field? "action" = some field → field.string?.isSome
  /-- `validate_public_response`. -/
  responseError : String → Json → Option Diagnostic
  toolMetadata : Json
  handleFrontendSessionAction : Json → σ → Except Json.TypeError Answer × σ
  forwardToManagedSession : Json → σ → Except Json.TypeError Answer × σ
  /-- The summary and the data of `build_actions_catalog`. -/
  actionsCatalog : Json → Json × Json
  /-- The summary and the data of `build_schema_catalog`, or its error. -/
  schemaCatalog : Json → Except Diagnostic (Json × Json)
  handler : String → Option (Handler σ)
  hasDesign : σ → Bool
  hasWaveform : σ → Bool
  /-- `render_xout_response`. -/
  renderXoutResponse : Json → String → Except Json.TypeError String

/-- `dump` writes a value: all its texts are UTF-8. -/
def Engine.writes {σ : Type} (engine : Engine σ) (value : Json) : Bool :=
  value.allTexts engine.isUtf8

/-! ### Public responses -/

/-- `public_type_name`. -/
def publicTypeName : Json → String
  | .null => "null"
  | .bool _ => "boolean"
  | .integer _ => "number"
  | .unsigned _ => "number"
  | .float _ => "number"
  | .string _ => "string"
  | .array _ => "array"
  | .object _ => "object"

section Engine

variable {σ : Type} (engine : Engine σ)

/-- `validate_public_request`, with its error. -/
def validatePublicRequest (request : Json) : Option Json :=
  if !request.isObject then
    some (diagnosticError "INVALID_REQUEST" "request must be a JSON object" false "internal" [])
  else
    match (request.field? "action").bind Json.string? with
    | none => some (diagnosticError "INVALID_REQUEST" "action is required" false "internal" [])
    | some action =>
      if action = "" then
        some (diagnosticError "INVALID_REQUEST" "action is required" false "internal" [])
      else if (request.field? "api_version").bind Json.string? ≠ some "xdebug.v1" then
        some (diagnosticError "UNSUPPORTED_API_VERSION" "expected xdebug.v1" false "internal" [])
      else if !engine.isPublicAction action then
        some (diagnosticError "UNKNOWN_ACTION" ("unknown action: " ++ action) true "handler" [
          ("invalid_arg", .string "action"), ("received", .string action),
          ("available_values", .array ((engine.actionSuggestions action).map .string))])
      else
        match request.fields.find? fun field => field.1 ∉
            ["api_version", "request_id", "action", "target", "args", "limits"] with
        | some (key, value) =>
          some (diagnosticError "INVALID_REQUEST" ("public request contains unknown field: " ++ key)
            true "schema" [
              ("invalid_arg", .string key),
              ("expected", .string
                "one of api_version, request_id, action, target, args, limits"),
              ("received", value), ("received_type", .string (publicTypeName value))])
        | none => (engine.requestError action request).map Subtype.val

/-- The id of the request in its response. -/
def requestIdField (request : Json) : List (String × Json) :=
  match (request.field? "request_id").bind Json.string? with
  | some id => if id = "" then [] else [("request_id", .string id)]
  | none => []

/-- `canonical_error`. -/
def canonicalError (request : Json) (action : String) (error : Json) :
    Except Json.TypeError Json := do
  let normalized := normalizeDiagnosticError error "handler"
  let code ← normalized.stringValue "code" "ACTION_FAILED"
  return .object ([("api_version", .string "xdebug.v1")] ++ requestIdField request ++ [
    ("ok", .bool false),
    ("action", .string (if action = "" then "error" else action)),
    ("tool", engine.toolMetadata),
    ("session", .null),
    ("summary", .object [("status", .string "error"), ("error_code", .string code)]),
    ("data", .null),
    ("error", normalized)])

/-- The public form of an answer that succeeds. -/
def okResponse (request : Json) (action : String) (answer session summary data : Json) : Json :=
  .object ([("api_version", .string "xdebug.v1")] ++ requestIdField request ++ [
      ("ok", .bool true),
      ("action", .string action),
      ("tool", engine.toolMetadata),
      ("session", session),
      ("summary", summary),
      ("data", data)] ++
    (["findings", "warnings", "suggested_next_actions", "advisories"].filterMap fun name =>
      (answer.field? name).map (name, ·)) ++
    [("error", .null)])

/-- `canonical_response`. -/
def canonicalResponse (request : Json) (action : String) (answer : Json) :
    Except Json.TypeError Json := do
  if !(← answer.boolValue "ok" false) then
    canonicalError engine request action (← answer.jsonValue "error" (.object []))
  else
    let session ← answer.jsonValue "session" .null
    let summary ← answer.jsonValue "summary" (.object [])
    let data ← answer.jsonValue "data" (.object [])
    return okResponse engine request action answer session summary data

/-- A response that passes `validate_public_response`, or the error in its place. -/
def checkedResponse (request : Json) (action : String) (response : Json) :
    Except Json.TypeError Json :=
  match engine.responseError action response with
  | none => return response
  | some error => canonicalError engine request action error.val

/-! ### Dispatch -/

/-- A part of `dispatch`. The state holds `s_dispatch_xout` beside the state of the engine. -/
abbrev Dispatch (σ : Type) := StateT (σ × String) (Except Json.TypeError)

/-- A call of a component. -/
def callEngine {α : Type} (call : σ → Except Json.TypeError α × σ) : Dispatch σ α := fun s =>
  match call s.1 with
  | (.ok a, s') => .ok (a, s', s.2)
  | (.error e, _) => .error e

def setDispatchXout (text : String) : Dispatch σ PUnit :=
  modify fun s => (s.1, text)

/-- `is_frontend_session_action`. -/
def isFrontendSessionAction (action : String) : Bool :=
  action ∈ ["session.open", "session.list", "session.doctor", "session.close", "session.kill",
    "session.gc"]

/-- `request_targets_managed_session`. -/
def requestTargetsManagedSession (request : Json) : Bool :=
  match (((request.field? "target").bind fun target => target.field? "session_id").bind
      Json.string?) with
  | some id => id ≠ ""
  | none => false

/-- The action of a request that need not be an object. -/
def requestAction (request : Json) : Except Json.TypeError String :=
  if request.isObject then request.stringValue "action" "" else .ok ""

/-- The results of the children of a batch, with the failed ones. -/
structure BatchResults where
  results : List Json := []
  failedIndexes : List ℕ := []
  failedCodes : List String := []
  failedLayers : List String := []

/-- The answer to a batch. -/
def BatchResults.answer (acc : BatchResults) : Json :=
  .object [
    ("ok", .bool true),
    ("summary", .object [
      ("count", .unsigned acc.results.length),
      ("all_ok", .bool acc.failedIndexes.isEmpty),
      ("failed_count", .unsigned acc.failedIndexes.length),
      ("failed_indexes", .array (acc.failedIndexes.map .unsigned)),
      ("failed_codes", .array (acc.failedCodes.map .string)),
      ("failed_layers", .array (acc.failedLayers.map .string))]),
    ("data", .object [("results", .array acc.results)])]

/-- The result of one child, put to the others. -/
def BatchResults.add (acc : BatchResults) (result : Json) : Except Json.TypeError BatchResults := do
  let ok ← result.boolValue "ok" false
  if ok then return { acc with results := acc.results ++ [result] }
  else
    let error ← result.jsonValue "error" (.object [])
    let code ← error.stringValue "code" "UNKNOWN_ERROR"
    let layer ← error.stringValue "error_layer" "handler"
    return {
      results := acc.results ++ [result]
      failedIndexes := acc.failedIndexes ++ [acc.results.length]
      failedCodes := acc.failedCodes ++ [code]
      failedLayers := acc.failedLayers ++ [layer] }

/-- The registered handler of an action, with the checks before it and the `try` around it. -/
def runHandler (action : String) (request : Json) : Dispatch σ Json :=
  match engine.handler action with
  | none => return errorResponse "UNKNOWN_ACTION" ("unknown action: " ++ action)
  | some handler => fun s =>
      if handler.needsDesign && !engine.hasDesign s.1 then
        .ok (errorResponse "DESIGN_NOT_LOADED" ("action requires design database: " ++ action), s)
      else if handler.needsWaveform && !engine.hasWaveform s.1 then
        .ok (errorResponse "WAVEFORM_NOT_LOADED" ("action requires waveform file: " ++ action), s)
      else
        match handler.run request s.1 with
        | (.ok answer, s') => .ok (answer.val, s', s.2)
        | (.error what, s') =>
            .ok (errorResponse "INTERNAL_ERROR" ("handler threw: " ++ what), s', s.2)

/-- The answer of a managed session is a public response already, or becomes one. -/
def publicForm (request : Json) (action : String) (answer : Json) : Except Json.TypeError Json := do
  if !(← answer.boolValue "ok" false) then canonicalResponse engine request action answer
  else if (← answer.stringValue "api_version" "") ≠ "xdebug.v1" then
    canonicalResponse engine request action answer
  else return answer

/-- The rest of `dispatch` for the answer of a managed session, whose text is kept apart. -/
def forwardedResponse (request : Json) (action : String) (answer : Json) : Dispatch σ Json := do
  let text := (answer.field? "__xdebug_internal_xout").bind Json.string?
  modify fun s => (s.1, text.getD s.2)
  let answer := if text.isSome then answer.erase "__xdebug_internal_xout" else answer
  checkedResponse engine request action (← publicForm engine request action answer)

/-- The text of a response that succeeds. -/
def renderXout (action : String) (response : Json) : Except Json.TypeError String :=
  match engine.handler action with
  | none => .ok ""
  | some handler => handler.renderXout response

/-- The rest of `dispatch` for the answer of this process. -/
def localResponse (request : Json) (action : String) (answer : Json) : Dispatch σ Json := do
  let response ← canonicalResponse engine request action answer
  match engine.responseError action response with
  | some error => canonicalError engine request action error.val
  | none =>
    if ← response.boolValue "ok" false then
      setDispatchXout (← renderXout engine action response)
    return response

/-- A value is smaller than the object that it is a field of. -/
lemma sizeOf_lookup_lt {fields : List (String × Json)} {name : String} {value : Json}
    (h : fields.lookup name = some value) : sizeOf value < sizeOf fields := by
  induction fields with
  | nil => cases h
  | cons field rest ih =>
      obtain ⟨key, item⟩ := field
      rw [List.lookup_cons] at h
      split at h
      · obtain rfl := Option.some.inj h
        simp only [List.cons.sizeOf_spec, Prod.mk.sizeOf_spec]
        omega
      · have := ih h
        simp only [List.cons.sizeOf_spec]
        omega

lemma sizeOf_field?_lt {request value : Json} {name : String}
    (h : request.field? name = some value) : sizeOf value < sizeOf request := by
  cases request with
  | object fields =>
      have hlt : sizeOf value < sizeOf fields := sizeOf_lookup_lt h
      rw [Json.object.sizeOf_spec]
      omega
  | _ => cases h

/-- The children of a batch are smaller than the batch. -/
lemma sizeOf_batchRequests_lt {request : Json} {requests : List Json}
    (h : batchRequests request = some requests) : sizeOf requests < sizeOf request := by
  rw [batchRequests] at h
  split at h
  · rename_i children hfield
    obtain rfl := Option.some.inj h
    have hlt := sizeOf_field?_lt hfield
    rw [Json.array.sizeOf_spec] at hlt
    cases hargs : request.field? "args" with
    | none =>
        rw [hargs] at hfield
        cases hfield
    | some args =>
        rw [hargs] at hlt
        have := sizeOf_field?_lt hargs
        rw [Option.getD_some] at hlt
        omega
  · cases h

mutual

/-- `dispatch_handler`. -/
def dispatchHandler (serverContext : Bool) (request : Json) : Dispatch σ Json := do
  let action ← request.stringValue "action" ""
  if action = "" then return errorResponse "MISSING_ACTION" "request must contain 'action'"
  else if action = "actions" then
    let catalog := engine.actionsCatalog (← request.jsonValue "args" (.object []))
    return .object [("ok", .bool true), ("summary", catalog.1), ("data", catalog.2)]
  else if action = "schema" then
    match engine.schemaCatalog (← request.jsonValue "args" (.object [])) with
    | .error error => return .object [("ok", .bool false), ("error", error.val)]
    | .ok catalog =>
      return .object [("ok", .bool true), ("summary", catalog.1), ("data", catalog.2)]
  else if action = "batch" then
    match h : batchRequests request with
    | none => return errorResponse "MISSING_FIELD" "batch requires args.requests[]"
    | some requests =>
      have := sizeOf_batchRequests_lt h
      return (← runBatch serverContext requests {}).answer
  else runHandler engine action request
termination_by (sizeOf request, 0)

/-- The loop over the children of a batch. -/
def runBatch (serverContext : Bool) (requests : List Json) (acc : BatchResults) :
    Dispatch σ BatchResults :=
  match requests with
  | [] => return acc
  | child :: rest => do
    let result ← if child.isObject then dispatch serverContext child
      else pure (errorResponse "MISSING_ACTION" "batch item must be an object")
    runBatch serverContext rest (← acc.add result)
termination_by (sizeOf requests, 2)

/-- `dispatch`. -/
def dispatch (serverContext : Bool) (request : Json) : Dispatch σ Json := do
  setDispatchXout ""
  let action ← requestAction request
  match validatePublicRequest engine request with
  | some error => canonicalError engine request action error
  | none =>
    if isFrontendSessionAction action then
      if serverContext then
        let response ← canonicalError engine request action (.object [
          ("code", .string "SESSION_ACTION_NOT_ALLOWED"),
          ("message", .string "session lifecycle actions must be handled by the frontend"),
          ("recoverable", .bool true), ("error_layer", .string "session_manager")])
        checkedResponse engine request action response
      else
        let answer ← callEngine (engine.handleFrontendSessionAction request)
        let response ← canonicalResponse engine request action answer.val
        checkedResponse engine request action response
    else if !serverContext && requestTargetsManagedSession request then
      let answer ← callEngine (engine.forwardToManagedSession request)
      forwardedResponse engine request action answer.val
    else
      localResponse engine request action (← dispatchHandler serverContext request)
termination_by (sizeOf request, 1)

end

end Engine

/-! ### Reading errors -/

/-- Redaction keeps the fields that are read again. -/
lemma lookup_redactFields {name : String} (hname : name ∈ ["code", "error_layer"])
    (sensitiveArg sensitiveIssue : Bool) (fields : List (String × Json)) :
    (redactFields sensitiveArg sensitiveIssue fields).lookup name =
      (fields.lookup name).map redactSensitiveDiagnostic := by
  have hkept : sensitiveDiagnosticKey name = false ∧ name ≠ "received" ∧ name ≠ "message" := by
    fin_cases hname <;> decide
  induction fields with
  | nil =>
      rw [redactFields]
      rfl
  | cons field rest ih =>
      obtain ⟨key, value⟩ := field
      rw [redactFields]
      by_cases hkey : name = key
      · subst hkey
        simp [hkept.1, hkept.2.1, hkept.2.2]
      · have hbeq : (name == key) = false := beq_false_of_ne hkey
        rw [List.lookup_cons, hbeq, ← ih]
        split_ifs
        · rfl
        · rfl
        · rw [List.lookup_cons, hbeq]
        · rw [List.lookup_cons, hbeq]

lemma lookup_map_setField {name other : String} (hne : name ≠ other) (value : Json)
    (fields : List (String × Json)) :
    (fields.map fun field => if field.1 = other then (other, value) else field).lookup name =
      fields.lookup name := by
  induction fields with
  | nil => rfl
  | cons field rest ih =>
      rw [List.map_cons, List.lookup_cons, List.lookup_cons, ih]
      split_ifs with hfield
      · rw [hfield, beq_false_of_ne hne]
      · rfl

lemma lookup_setField {name other : String} (hne : name ≠ other) (fields : List (String × Json))
    (value : Json) : (setField fields other value).lookup name = fields.lookup name := by
  rw [setField]
  split
  · exact lookup_map_setField hne value fields
  · rw [List.lookup_append, List.lookup_cons, beq_false_of_ne hne]
    exact Option.or_none

/-- The texts of an error are still there after redaction. -/
lemma isDiagnostic_redact {fields : List (String × Json)} (h : IsDiagnostic (.object fields)) :
    IsDiagnostic (redactSensitiveDiagnostic (.object fields)) := by
  intro name hname field hfield
  have hlookup : (redactSensitiveDiagnostic (.object fields)).field? name =
      (fields.lookup name).map redactSensitiveDiagnostic := by
    rw [redactSensitiveDiagnostic, Json.field?_object, ← lookup_redactFields hname]
    split_ifs
    · refine lookup_setField ?_ _ _
      fin_cases hname <;> decide
    · rfl
  rw [hlookup, Option.map_eq_some_iff] at hfield
  obtain ⟨value, hvalue, rfl⟩ := hfield
  have hstring := h name hname value hvalue
  cases value with
  | string text =>
      rw [redactSensitiveDiagnostic]
      · rfl
      · simp
      · simp
  | _ => cases hstring

lemma isDiagnostic_addDefault {fields : List (String × Json)} {name : String} {value : Json}
    (h : IsDiagnostic (.object fields))
    (hvalue : name ∈ ["code", "error_layer"] → value.string?.isSome) :
    IsDiagnostic (.object (addDefault name value fields)) := by
  intro other hother field hfield
  rw [Json.field?_object, addDefault] at hfield
  split at hfield
  · exact h other hother field hfield
  · rw [List.lookup_append, List.lookup_cons, Option.or_eq_some_iff] at hfield
    rcases hfield with hfield | ⟨-, hfield⟩
    · exact h other hother field hfield
    · split at hfield
      · rename_i heq
        obtain rfl := eq_of_beq heq
        obtain rfl := Option.some.inj hfield
        exact hvalue hother
      · cases hfield

/-- `normalize_diagnostic_error` gives an object with readable texts. -/
lemma isDiagnostic_normalize {error : Json} (h : IsDiagnostic error) (layer : String) :
    (normalizeDiagnosticError error layer).isObject = true ∧
      IsDiagnostic (normalizeDiagnosticError error layer) := by
  have hfields : IsDiagnostic (.object error.fields) := fun name hname => h name hname
  refine ⟨?_, isDiagnostic_redact ?_⟩
  · rw [normalizeDiagnosticError, redactSensitiveDiagnostic]
    rfl
  · refine isDiagnostic_addDefault (isDiagnostic_addDefault (isDiagnostic_addDefault
      (isDiagnostic_addDefault hfields ?_) ?_) ?_) ?_
    · intro _
      rfl
    · decide
    · intro _
      rfl
    · decide

lemma isDiagnostic_diagnosticError {code message layer : String} {recoverable : Bool}
    {more : List (String × Json)} :
    IsDiagnostic (diagnosticError code message recoverable layer more) := by
  refine isDiagnostic_redact ?_
  intro name hname field hfield
  fin_cases hname
  · obtain rfl := Option.some.inj hfield
    rfl
  · obtain rfl := Option.some.inj hfield
    rfl

/-! ### Dispatch returns -/

/-- The fields of a response that are read again. -/
structure IsResponse (response : Json) : Prop where
  isObject : response.isObject = true
  ok : ∀ field, response.field? "ok" = some field → field.bool?.isSome
  error : response.boolValue "ok" false = .ok false → ∀ field,
    response.field? "error" = some field → field.isObject = true ∧ IsDiagnostic field

lemma isAnswer_errorResponse (code message : String) : IsAnswer (errorResponse code message) := by
  refine ⟨rfl, ?_, ?_, ?_⟩
  · rintro field ⟨rfl⟩
    rfl
  · rintro field ⟨⟩
  · rintro field ⟨rfl⟩ name hname value hvalue
    fin_cases hname
    · obtain rfl := Option.some.inj hvalue
      rfl
    · obtain rfl := Option.some.inj hvalue
      rfl

lemma isResponse_errorResponse (code message : String) :
    IsResponse (errorResponse code message) := by
  have hanswer := isAnswer_errorResponse code message
  refine ⟨rfl, hanswer.ok, ?_⟩
  rintro - field hfield
  refine ⟨?_, hanswer.error field hfield⟩
  obtain rfl := Option.some.inj hfield
  rfl

/-- An answer that succeeds. -/
lemma isAnswer_ok (summary data : Json) :
    IsAnswer (.object [("ok", .bool true), ("summary", summary), ("data", data)]) := by
  refine ⟨rfl, ?_, ?_, ?_⟩
  · rintro field ⟨rfl⟩
    rfl
  · rintro field ⟨⟩
  · rintro field ⟨⟩

lemma requestIdField_cases (request : Json) :
    requestIdField request = [] ∨ ∃ id, requestIdField request = [("request_id", id)] := by
  rw [requestIdField]
  split
  · split
    · exact Or.inl rfl
    · exact Or.inr ⟨_, rfl⟩
  · exact Or.inl rfl

section Engine

variable {σ : Type} (engine : Engine σ)

lemma exists_canonicalError {error : Json} (h : IsDiagnostic error) (request : Json)
    (action : String) :
    ∃ response, canonicalError engine request action error = .ok response ∧
      IsResponse response := by
  obtain ⟨hobject, hdiagnostic⟩ := isDiagnostic_normalize h "handler"
  obtain ⟨code, hcode⟩ : ∃ code, (normalizeDiagnosticError error "handler").stringValue "code"
      "ACTION_FAILED" = .ok code :=
    Json.exists_valueWith_iff.2 ⟨hobject, hdiagnostic "code" (by simp)⟩
  refine ⟨_, by rw [canonicalError, hcode]; rfl, rfl, ?_, ?_⟩
  · intro field hfield
    rcases requestIdField_cases request with hid | ⟨id, hid⟩
    · rw [hid] at hfield
      obtain rfl := Option.some.inj hfield
      rfl
    · rw [hid] at hfield
      obtain rfl := Option.some.inj hfield
      rfl
  · intro _ field hfield
    rcases requestIdField_cases request with hid | ⟨id, hid⟩
    · rw [hid] at hfield
      obtain rfl := Option.some.inj hfield
      exact ⟨hobject, hdiagnostic⟩
    · rw [hid] at hfield
      obtain rfl := Option.some.inj hfield
      exact ⟨hobject, hdiagnostic⟩

lemma isResponse_okResponse (request : Json) (action : String)
    (answer session summary data : Json) :
    IsResponse (okResponse engine request action answer session summary data) := by
  have hok : (okResponse engine request action answer session summary data).field? "ok" =
      some (.bool true) := by
    rcases requestIdField_cases request with hid | ⟨id, hid⟩
    · rw [okResponse, hid]
      rfl
    · rw [okResponse, hid]
      rfl
  refine ⟨rfl, ?_, ?_⟩
  · intro field hfield
    obtain rfl := Option.some.inj (hok.symm.trans hfield)
    rfl
  · intro hfalse
    rw [Json.boolValue, okResponse, Json.valueWith_object] at hfalse
    rw [okResponse, Json.field?_object] at hok
    rw [hok] at hfalse
    cases hfalse

lemma exists_canonicalResponse {answer : Json} (h : IsAnswer answer) (request : Json)
    (action : String) :
    ∃ response, canonicalResponse engine request action answer = .ok response ∧
      IsResponse response := by
  obtain ⟨ok, hok⟩ : ∃ ok, answer.boolValue "ok" false = .ok ok :=
    Json.exists_valueWith_iff.2 ⟨h.isObject, h.ok⟩
  have hread := Json.jsonValue_of_isObject h.isObject
  simp only [canonicalResponse, hok, hread, bind, Except.bind]
  cases ok with
  | false =>
      have herror : IsDiagnostic ((answer.field? "error").getD (.object [])) := by
        cases herror : answer.field? "error" with
        | none =>
            rintro name - field ⟨⟩
        | some error => exact h.error error herror
      simp only [Bool.not_false, if_true]
      exact exists_canonicalError engine herror request action
  | true =>
      simp only [Bool.not_true, Bool.false_eq_true, if_false]
      exact ⟨_, rfl, isResponse_okResponse engine _ _ _ _ _ _⟩

lemma exists_checkedResponse {response : Json} (h : IsResponse response) (request : Json)
    (action : String) :
    ∃ checked, checkedResponse engine request action response = .ok checked ∧
      IsResponse checked := by
  rw [checkedResponse]
  split
  · exact ⟨response, rfl, h⟩
  · rename_i error _
    exact exists_canonicalError engine error.property request action

/-- The result of a child can be put to the others. -/
lemma exists_batchAdd {result : Json} (h : IsResponse result) (acc : BatchResults) :
    ∃ acc', acc.add result = .ok acc' := by
  obtain ⟨ok, hok⟩ : ∃ ok, result.boolValue "ok" false = .ok ok :=
    Json.exists_valueWith_iff.2 ⟨h.isObject, h.ok⟩
  rw [BatchResults.add, hok]
  cases ok with
  | true => exact ⟨_, rfl⟩
  | false =>
      have herror : ((result.field? "error").getD (.object [])).isObject = true ∧
          IsDiagnostic ((result.field? "error").getD (.object [])) := by
        cases hfield : result.field? "error" with
        | none =>
            refine ⟨rfl, ?_⟩
            rintro name - field ⟨⟩
        | some error => exact h.error hok error hfield
      obtain ⟨code, hcode⟩ : ∃ code, ((result.field? "error").getD (.object [])).stringValue "code"
          "UNKNOWN_ERROR" = .ok code :=
        Json.exists_valueWith_iff.2 ⟨herror.1, herror.2 "code" (by simp)⟩
      obtain ⟨layer, hlayer⟩ : ∃ layer, ((result.field? "error").getD (.object [])).stringValue
          "error_layer" "handler" = .ok layer :=
        Json.exists_valueWith_iff.2 ⟨herror.1, herror.2 "error_layer" (by simp)⟩
      rw [Json.jsonValue_of_isObject h.isObject]
      refine ⟨{
        results := acc.results ++ [result]
        failedIndexes := acc.failedIndexes ++ [acc.results.length]
        failedCodes := acc.failedCodes ++ [code]
        failedLayers := acc.failedLayers ++ [layer] }, ?_⟩
      show (Json.stringValue _ "code" "UNKNOWN_ERROR" >>= _) = _
      rw [hcode]
      show (Json.stringValue _ "error_layer" "handler" >>= _) = _
      rw [hlayer]
      rfl

lemma runHandler_returns (action : String) (request : Json) :
    Returns (runHandler engine action request) IsAnswer := by
  intro s
  rw [runHandler]
  cases engine.handler action with
  | none => exact ⟨_, s, rfl, isAnswer_errorResponse _ _⟩
  | some handler =>
    dsimp only
    split
    · exact ⟨_, s, rfl, isAnswer_errorResponse _ _⟩
    · split
      · exact ⟨_, s, rfl, isAnswer_errorResponse _ _⟩
      · split
        · rename_i answer s' _
          exact ⟨answer.val, _, rfl, answer.property⟩
        · exact ⟨_, _, rfl, isAnswer_errorResponse _ _⟩

/-- Without the text of the session an answer is still an answer. -/
lemma isAnswer_erase {answer : Json} (h : IsAnswer answer) {name : String}
    (hname : name ∉ ["ok", "api_version", "error"]) : IsAnswer (answer.erase name) := by
  have hfield : ∀ other ∈ ["ok", "api_version", "error"],
      (answer.erase name).field? other = answer.field? other := by
    intro other hother
    refine Json.field?_erase ?_
    rintro rfl
    exact hname hother
  refine ⟨?_, ?_, ?_, ?_⟩
  · rw [Json.isObject_erase]
    exact h.isObject
  · rw [hfield "ok" (by simp)]
    exact h.ok
  · rw [hfield "api_version" (by simp)]
    exact h.apiVersion
  · rw [hfield "error" (by simp)]
    exact h.error

lemma IsAnswer.isResponse {answer : Json} (h : IsAnswer answer)
    (hok : answer.boolValue "ok" false = .ok true) : IsResponse answer := by
  refine ⟨h.isObject, h.ok, ?_⟩
  intro hfalse
  rw [hok] at hfalse
  cases hfalse

lemma exists_publicForm {answer : Json} (h : IsAnswer answer) (request : Json) (action : String) :
    ∃ response, publicForm engine request action answer = .ok response ∧ IsResponse response := by
  obtain ⟨ok, hok⟩ : ∃ ok, answer.boolValue "ok" false = .ok ok :=
    Json.exists_valueWith_iff.2 ⟨h.isObject, h.ok⟩
  obtain ⟨version, hversion⟩ : ∃ version, answer.stringValue "api_version" "" = .ok version :=
    Json.exists_valueWith_iff.2 ⟨h.isObject, h.apiVersion⟩
  have hcanonical := exists_canonicalResponse engine h request action
  rw [publicForm, hok, hversion]
  cases ok with
  | false => exact hcanonical
  | true =>
      by_cases hpublic : version = "xdebug.v1"
      · refine ⟨answer, ?_, h.isResponse hok⟩
        show (if version ≠ "xdebug.v1" then _ else _) = _
        rw [if_neg (not_not.2 hpublic)]
        rfl
      · show ∃ response, (if version ≠ "xdebug.v1" then _ else _) = _ ∧ _
        rw [if_pos hpublic]
        exact hcanonical

lemma forwardedResponse_returns {answer : Json} (h : IsAnswer answer) (request : Json)
    (action : String) : Returns (forwardedResponse engine request action answer) IsResponse := by
  rw [forwardedResponse]
  refine Returns.modify.bind fun _ _ => ?_
  have hkept : IsAnswer (if ((answer.field? "__xdebug_internal_xout").bind Json.string?).isSome then
      answer.erase "__xdebug_internal_xout" else answer) := by
    split
    · exact isAnswer_erase h (by decide)
    · exact h
  obtain ⟨response, hresponse, hform⟩ := exists_publicForm engine hkept request action
  refine (Returns.lift hresponse hform).bind fun response hform => ?_
  obtain ⟨checked, hchecked, hform'⟩ := exists_checkedResponse engine hform request action
  exact Returns.lift hchecked hform'

/-- What a valid request is. -/
lemma exists_action_of_validatePublicRequest {request : Json}
    (h : validatePublicRequest engine request = none) :
    request.isObject = true ∧ ∃ action, request.field? "action" = some (.string action) ∧
      engine.requestError action request = none := by
  rw [validatePublicRequest] at h
  split at h
  · cases h
  · rename_i hobject
    refine ⟨by simpa using hobject, ?_⟩
    split at h
    · cases h
    · rename_i action haction
      obtain ⟨field, hfield, hstring⟩ := Option.bind_eq_some_iff.1 haction
      obtain rfl := Json.string?_eq_some.1 hstring
      refine ⟨action, hfield, ?_⟩
      split at h
      · cases h
      · split at h
        · cases h
        · split at h
          · cases h
          · split at h
            · cases h
            · exact Option.map_eq_none_iff.1 h

/-- The errors of a request can be read. -/
lemma isDiagnostic_of_validatePublicRequest {request error : Json}
    (h : validatePublicRequest engine request = some error) : IsDiagnostic error := by
  rw [validatePublicRequest] at h
  split at h
  · obtain rfl := Option.some.inj h
    exact isDiagnostic_diagnosticError
  · split at h
    · obtain rfl := Option.some.inj h
      exact isDiagnostic_diagnosticError
    · split at h
      · obtain rfl := Option.some.inj h
        exact isDiagnostic_diagnosticError
      · split at h
        · obtain rfl := Option.some.inj h
          exact isDiagnostic_diagnosticError
        · split at h
          · obtain rfl := Option.some.inj h
            exact isDiagnostic_diagnosticError
          · split at h
            · obtain rfl := Option.some.inj h
              exact isDiagnostic_diagnosticError
            · obtain ⟨diagnostic, -, rfl⟩ := Option.map_eq_some_iff.1 h
              exact diagnostic.property

/-! ### Exceptions of components -/

/-- A valid request with its action. -/
structure IsValid (request : Json) (action : String) : Prop where
  valid : validatePublicRequest engine request = none
  action : request.field? "action" = some (.string action)

/-- The request is for this process. -/
def isLocal (serverContext : Bool) (request : Json) (action : String) : Bool :=
  !isFrontendSessionAction action && (serverContext || !requestTargetsManagedSession request)

/-- A component throws that is called for a request in a state: the frontend, the engine of a
session, the renderer of the response, or a component for a child of a batch, in the state that the
children before it lead to. -/
inductive Throws (serverContext : Bool) : Json → σ → Prop
  | frontend {request : Json} {action : String} {s : σ} {e : Json.TypeError}
      (hvalid : IsValid engine request action) (hsession : isFrontendSessionAction action = true)
      (hcontext : serverContext = false)
      (hthrow : (engine.handleFrontendSessionAction request s).1 = .error e) :
      Throws serverContext request s
  | forward {request : Json} {action : String} {s : σ} {e : Json.TypeError}
      (hvalid : IsValid engine request action) (hsession : isFrontendSessionAction action = false)
      (hlocal : isLocal serverContext request action = false)
      (hthrow : (engine.forwardToManagedSession request s).1 = .error e) :
      Throws serverContext request s
  | child {request child : Json} {pre post : List Json} {s : σ} {acc : BatchResults}
      {s' : σ × String} (hvalid : IsValid engine request "batch")
      (hlocal : isLocal serverContext request "batch" = true)
      (hrequests : batchRequests request = some (pre ++ child :: post))
      (hpre : runBatch engine serverContext pre {} (s, "") = .ok (acc, s'))
      (hobject : child.isObject = true) (hthrow : Throws serverContext child s'.1) :
      Throws serverContext request s
  | render {request : Json} {action : String} {s : σ} {answer response : Json} {s' : σ × String}
      {e : Json.TypeError} (hvalid : IsValid engine request action)
      (hlocal : isLocal serverContext request action = true)
      (hanswer : dispatchHandler engine serverContext request (s, "") = .ok (answer, s'))
      (hresponse : canonicalResponse engine request action answer = .ok response)
      (hchecked : engine.responseError action response = none)
      (hok : response.boolValue "ok" false = .ok true)
      (hthrow : renderXout engine action response = .error e) : Throws serverContext request s

variable {engine} {serverContext : Bool}

/-- What is read from a valid request. -/
lemma IsValid.stringValue {request : Json} {action : String} (h : IsValid engine request action) :
    request.stringValue "action" "" = .ok action := by
  obtain ⟨hobject, -, -⟩ := exists_action_of_validatePublicRequest engine h.valid
  have haction := h.action
  rw [Json.stringValue_eq hobject, haction]
  · rfl
  · rintro field hfield
    obtain rfl := Option.some.inj (haction.symm.trans hfield)
    rfl

/-- After a child the batch goes on with the rest. -/
lemma runBatch_cons {child : Json} {rest : List Json} (acc : BatchResults) :
    runBatch engine serverContext (child :: rest) acc =
      (if child.isObject then dispatch engine serverContext child
        else pure (errorResponse "MISSING_ACTION" "batch item must be an object")) >>=
      (fun result => do runBatch engine serverContext rest (← acc.add result)) := by
  rw [runBatch]
  split_ifs <;> rfl

/-- A batch returns unless a child throws in the state that it is dispatched in. -/
lemma runBatch_returnsOr {requests : List Json}
    (h : ∀ child ∈ requests, ∀ s : σ × String, ReturnsOr (dispatch engine serverContext child) s
      IsResponse (Throws engine serverContext child s.1)) (acc : BatchResults) (s : σ × String) :
    ReturnsOr (runBatch engine serverContext requests acc) s (fun _ => True)
      (∃ pre child post acc' s', requests = pre ++ child :: post ∧
        runBatch engine serverContext pre acc s = .ok (acc', s') ∧ child.isObject = true ∧
          Throws engine serverContext child s'.1) := by
  induction requests generalizing acc s with
  | nil =>
      rw [runBatch]
      exact .of_returns (Returns.pure trivial)
  | cons child rest ih =>
      rw [runBatch_cons]
      have hchild : ReturnsOr (if child.isObject then dispatch engine serverContext child
          else pure (errorResponse "MISSING_ACTION" "batch item must be an object")) s IsResponse
          (child.isObject = true ∧ Throws engine serverContext child s.1) := by
        split_ifs with hobject
        · exact (h child List.mem_cons_self s).mono fun hthrow => ⟨hobject, hthrow⟩
        · exact .of_returns (Returns.pure (isResponse_errorResponse _ _))
      refine (hchild.mono ?_).bind fun result s' hresult hform => ?_
      · -- the first child throws
        rintro ⟨hobject, hthrow⟩
        refine ⟨[], child, rest, acc, s, rfl, ?_, hobject, hthrow⟩
        rw [runBatch]
        rfl
      · obtain ⟨acc', hadd⟩ := exists_batchAdd hform acc
        refine ReturnsOr.lift_bind hadd ?_
        refine (ih (fun child hchild => h child (List.mem_cons_of_mem _ hchild)) acc' s').mono ?_
        rintro ⟨pre, other, post, acc'', s'', rfl, hpre, hobject, hthrow⟩
        refine ⟨child :: pre, other, post, acc'', s'', rfl, ?_, hobject, hthrow⟩
        rw [runBatch_cons, bind_of_ok hresult, hadd]
        exact hpre

/-- The part of `dispatch` for a request of this process returns unless a child of a batch
throws. -/
lemma dispatchHandler_returnsOr {request : Json} {action : String}
    (hvalid : IsValid engine request action)
    (h : ∀ requests, batchRequests request = some requests → ∀ child ∈ requests,
      (∀ field, child.field? "action" = some field → field.string?.isSome) →
      ∀ s : σ × String, ReturnsOr (dispatch engine serverContext child) s IsResponse
        (Throws engine serverContext child s.1)) (s : σ × String) :
    ReturnsOr (dispatchHandler engine serverContext request) s IsAnswer
      (action = "batch" ∧ ∃ pre child post acc s',
        batchRequests request = some (pre ++ child :: post) ∧
        runBatch engine serverContext pre {} s = .ok (acc, s') ∧ child.isObject = true ∧
          Throws engine serverContext child s'.1) := by
  obtain ⟨hobject, action', haction', hschema⟩ :=
    exists_action_of_validatePublicRequest engine hvalid.valid
  obtain rfl : action = action' := by
    have := hvalid.action.symm.trans haction'
    simpa using this
  have hargs := Json.jsonValue_of_isObject hobject "args" (.object [])
  rw [dispatchHandler]
  refine ReturnsOr.lift_bind hvalid.stringValue ?_
  split_ifs with hempty hactions hschemas hbatch
  · exact .of_returns (Returns.pure (isAnswer_errorResponse _ _))
  · exact .of_returns ((Returns.lift (Q := fun _ => True) hargs trivial).bind fun _ _ =>
      Returns.pure (isAnswer_ok _ _))
  · refine .of_returns ((Returns.lift (Q := fun _ => True) hargs trivial).bind fun args _ => ?_)
    split
    · rename_i error _
      refine Returns.pure ⟨rfl, ?_, ?_, ?_⟩
      · rintro field ⟨rfl⟩
        rfl
      · rintro field ⟨⟩
      · rintro field ⟨rfl⟩
        exact error.property
    · exact Returns.pure (isAnswer_ok _ _)
  · subst hbatch
    split
    · exact .of_returns (Returns.pure (isAnswer_errorResponse _ _))
    · rename_i requests hrequests
      have hchildren := runBatch_returnsOr (fun child hchild => h requests hrequests child hchild
        (engine.batchSchema hschema hrequests child hchild)) {} s
      refine (hchildren.mono ?_).bind fun acc _ _ _ => .of_returns (Returns.pure (isAnswer_ok _ _))
      rintro ⟨pre, child, post, acc, s', rfl, hpre⟩
      exact ⟨rfl, pre, child, post, acc, s', hrequests, hpre⟩
  · exact .of_returns (runHandler_returns engine action request)

lemma callEngine_returnsOr {α : Type} {call : σ → Except Json.TypeError α × σ} {Q : α → Prop}
    (h : ∀ a, Q a) (s : σ × String) :
    ReturnsOr (callEngine call) s Q (∃ e, (call s.1).1 = .error e) := by
  rw [ReturnsOr, callEngine]
  rcases hcall : call s.1 with ⟨a | e, s'⟩
  · exact Or.inr ⟨⟨_, rfl⟩, _, rfl⟩
  · exact Or.inl ⟨_, _, rfl, h _⟩

/-- The rest for an answer of this process returns unless the renderer throws. -/
lemma localResponse_returnsOr {request answer : Json} {action : String} (h : IsAnswer answer)
    (s : σ × String) :
    ReturnsOr (localResponse engine request action answer) s IsResponse
      (∃ response e, canonicalResponse engine request action answer = .ok response ∧
        engine.responseError action response = none ∧
        response.boolValue "ok" false = .ok true ∧
        renderXout engine action response = .error e) := by
  obtain ⟨response, hresponse, hform⟩ := exists_canonicalResponse engine h request action
  rw [localResponse]
  refine ReturnsOr.lift_bind hresponse ?_
  split
  · rename_i error _
    obtain ⟨refused, hrefused, hform'⟩ :=
      exists_canonicalError engine error.property request action
    exact .of_returns (Returns.lift hrefused hform')
  · rename_i hchecked
    obtain ⟨ok, hok⟩ : ∃ ok, response.boolValue "ok" false = .ok ok :=
      Json.exists_valueWith_iff.2 ⟨hform.isObject, hform.ok⟩
    refine ReturnsOr.lift_bind hok ?_
    cases ok with
    | false => exact .of_returns (Returns.pure hform)
    | true =>
        cases hrender : renderXout engine action response with
        | error e =>
            exact Or.inr ⟨⟨e, rfl⟩, response, e, hresponse, hchecked, hok, hrender⟩
        | ok text =>
            exact .of_returns ((Returns.modify (g := fun s => (s.1, text))).bind fun _ _ =>
              Returns.pure hform)

/-- On a request whose action is a string if it has one, `dispatch` returns unless a component
throws. -/
lemma dispatch_returnsOr {request : Json}
    (haction : ∀ field, request.field? "action" = some field → field.string?.isSome)
    (s : σ × String) :
    ReturnsOr (dispatch engine serverContext request) s IsResponse
      (Throws engine serverContext request s.1) := by
  -- induction on the size: a batch dispatches the requests that it contains
  induction hsize : sizeOf request using Nat.strong_induction_on generalizing request s with
  | _ n ih =>
  rw [dispatch]
  refine ReturnsOr.bind (.of_returns Returns.modify) fun _ s₀ hs₀ _ => ?_
  obtain rfl : s₀ = (s.1, "") := by
    cases hs₀
    rfl
  have hread : ∃ action, requestAction request = .ok action := by
    rw [requestAction]
    split
    · rename_i hobject
      exact Json.exists_valueWith_iff.2 ⟨hobject, haction⟩
    · exact ⟨"", rfl⟩
  obtain ⟨action, hread⟩ := hread
  refine ReturnsOr.lift_bind hread ?_
  have hchecked : ∀ response, IsResponse response → Returns
      (liftM (checkedResponse engine request action response) : Dispatch σ Json) IsResponse := by
    intro response hform
    obtain ⟨checked, hchecked, hform'⟩ := exists_checkedResponse engine hform request action
    exact Returns.lift hchecked hform'
  have herror : ∀ error, IsDiagnostic error → Returns
      (liftM (canonicalError engine request action error) : Dispatch σ Json) IsResponse := by
    intro error hdiagnostic
    obtain ⟨response, hresponse, hform⟩ := exists_canonicalError engine hdiagnostic request action
    exact Returns.lift hresponse hform
  have hcanonical : ∀ answer, IsAnswer answer → Returns
      (liftM (canonicalResponse engine request action answer) : Dispatch σ Json) IsResponse := by
    intro answer hanswer
    obtain ⟨response, hresponse, hform⟩ := exists_canonicalResponse engine hanswer request action
    exact Returns.lift hresponse hform
  split
  · rename_i error hinvalid
    exact .of_returns (herror error (isDiagnostic_of_validatePublicRequest engine hinvalid))
  · rename_i hnone
    obtain ⟨hobject, action', haction', -⟩ := exists_action_of_validatePublicRequest engine hnone
    have hvalid : IsValid engine request action' := ⟨hnone, haction'⟩
    obtain rfl : action' = action := by
      rw [requestAction, if_pos hobject, hvalid.stringValue] at hread
      exact Except.ok.inj hread
    split
    · rename_i hsession
      split
      · refine .of_returns ((herror _ ?_).bind hchecked)
        intro name hname field hfield
        fin_cases hname
        · obtain rfl := Option.some.inj hfield
          rfl
        · obtain rfl := Option.some.inj hfield
          rfl
      · rename_i hcontext
        refine ((callEngine_returnsOr (Q := fun _ => True) (fun _ => trivial) _).mono ?_).bind
          fun answer _ _ _ => .of_returns ((hcanonical _ answer.property).bind hchecked)
        rintro ⟨e, hthrow⟩
        exact .frontend hvalid hsession (Bool.eq_false_of_not_eq_true hcontext) hthrow
    · rename_i hsession
      have hsession := Bool.eq_false_of_not_eq_true hsession
      split
      · rename_i hforward
        refine ((callEngine_returnsOr (Q := fun _ => True) (fun _ => trivial) _).mono ?_).bind
          fun answer _ _ _ => .of_returns
            (forwardedResponse_returns engine answer.property request action')
        rintro ⟨e, hthrow⟩
        refine .forward hvalid hsession ?_ hthrow
        rw [isLocal, hsession]
        cases serverContext with
        | false => simpa using hforward
        | true => cases hforward
      · rename_i hforward
        have hlocal : isLocal serverContext request action' = true := by
          rw [isLocal, hsession]
          cases serverContext with
          | false => simpa using hforward
          | true => rfl
        refine ((dispatchHandler_returnsOr hvalid ?_ _).mono ?_).bind
          fun answer s' hanswer hform => (localResponse_returnsOr hform s').mono ?_
        · intro requests hrequests child hchild hstring s
          refine ih (sizeOf child) ?_ hstring s rfl
          have hlt := sizeOf_batchRequests_lt hrequests
          have hmem := List.sizeOf_lt_of_mem hchild
          omega
        · rintro ⟨rfl, pre, child, post, acc, s', hrequests, hpre, hobject, hthrow⟩
          exact .child hvalid hlocal hrequests hpre hobject hthrow
        · rintro ⟨response, e, hresponse, hnone, hok, hthrow⟩
          exact .render hvalid hlocal hanswer hresponse hnone hok hthrow

lemma runBatch_append (pre rest : List Json) (acc : BatchResults) :
    runBatch engine serverContext (pre ++ rest) acc =
      runBatch engine serverContext pre acc >>= runBatch engine serverContext rest := by
  induction pre generalizing acc with
  | nil =>
      rw [runBatch.eq_1, List.nil_append]
      rfl
  | cons child pre ih =>
      rw [List.cons_append, runBatch_cons, runBatch_cons, bind_assoc]
      refine bind_congr fun result => ?_
      rw [bind_assoc]
      exact bind_congr fun acc' => ih acc'

/-- `dispatch` begins without a text. -/
lemma dispatch_start {α : Type} {request : Json} {action : String}
    (h : requestAction request = .ok action) (f : String → Dispatch σ α) (s : σ × String) :
    (setDispatchXout "" >>= fun _ => (liftM (requestAction request) : Dispatch σ String) >>= f) s =
      f action (s.1, "") := by
  rw [h]
  rfl

lemma IsValid.requestAction {request : Json} {action : String}
    (h : IsValid engine request action) : requestAction request = .ok action := by
  obtain ⟨hobject, -, -⟩ := exists_action_of_validatePublicRequest engine h.valid
  rw [Server.requestAction, if_pos hobject, h.stringValue]

lemma callEngine_of_error {α : Type} {call : σ → Except Json.TypeError α × σ} {e : Json.TypeError}
    {s : σ × String} (h : (call s.1).1 = .error e) : callEngine call s = .error e := by
  rw [callEngine]
  generalize call s.1 = result at h ⊢
  obtain ⟨r, s'⟩ := result
  dsimp only at h
  subst h
  rfl

/-- On a valid request that is for this process, `dispatch` asks the handler. -/
lemma dispatch_of_isLocal {request : Json} {action : String}
    (hvalid : IsValid engine request action) (hlocal : isLocal serverContext request action = true)
    (s : σ × String) :
    dispatch engine serverContext request s =
      (dispatchHandler engine serverContext request >>= localResponse engine request action)
        (s.1, "") := by
  obtain ⟨hsession, hhere⟩ : isFrontendSessionAction action = false ∧
      (!serverContext && requestTargetsManagedSession request) = false := by
    rw [isLocal] at hlocal
    cases serverContext <;> simpa using hlocal
  rw [dispatch, dispatch_start hvalid.requestAction]
  simp only [hvalid.valid, hsession, hhere, Bool.false_eq_true, if_false]

lemma dispatchHandler_batch {request : Json} {requests : List Json}
    (hvalid : IsValid engine request "batch") (hrequests : batchRequests request = some requests) :
    dispatchHandler engine serverContext request =
      runBatch engine serverContext requests {} >>= fun acc => pure acc.answer := by
  rw [dispatchHandler, hvalid.stringValue, liftM_ok_bind_eq, if_neg (by decide),
    if_neg (by decide), if_neg (by decide), if_pos rfl]
  split
  · rename_i hnone
    rw [hrequests] at hnone
    cases hnone
  · rename_i others hsome
    obtain rfl := Option.some.inj (hrequests.symm.trans hsome)
    rfl

/-- When a component throws for a request, `dispatch` does. -/
lemma dispatch_of_throws {request : Json} {s : σ} (h : Throws engine serverContext request s)
    (text : String) : ∃ e, dispatch engine serverContext request (s, text) = .error e := by
  induction h generalizing text with
  | @frontend request action s e hvalid hsession hcontext hthrow =>
      subst hcontext
      refine ⟨e, ?_⟩
      rw [dispatch, dispatch_start hvalid.requestAction]
      simp only [hvalid.valid, hsession, if_true, Bool.false_eq_true, if_false]
      exact bind_of_error (callEngine_of_error hthrow)
  | @forward request action s e hvalid hsession hlocal hthrow =>
      have hforward : (!serverContext && requestTargetsManagedSession request) = true := by
        rw [isLocal, hsession] at hlocal
        cases serverContext with
        | false => simpa using hlocal
        | true => cases hlocal
      refine ⟨e, ?_⟩
      rw [dispatch, dispatch_start hvalid.requestAction]
      simp only [hvalid.valid, hsession, hforward, if_true, Bool.false_eq_true, if_false]
      exact bind_of_error (callEngine_of_error hthrow)
  | @child request child pre post s acc s' hvalid hlocal hrequests hpre hobject hthrow ih =>
      obtain ⟨e, he⟩ := ih s'.2
      refine ⟨e, ?_⟩
      rw [dispatch_of_isLocal hvalid hlocal]
      refine bind_of_error ?_
      have hbatch : runBatch engine serverContext (pre ++ child :: post) {} (s, "") = .error e := by
        rw [runBatch_append, bind_of_ok hpre, runBatch_cons, if_pos hobject]
        exact bind_of_error he
      rw [dispatchHandler_batch hvalid hrequests]
      exact bind_of_error hbatch
  | @render request action s answer response s' e hvalid hlocal hanswer hresponse hchecked hok
      hthrow =>
      refine ⟨e, ?_⟩
      rw [dispatch_of_isLocal hvalid hlocal, bind_of_ok hanswer, localResponse, hresponse,
        liftM_ok_bind]
      simp only [hchecked, hok, hthrow]
      rfl

/-- On a request whose action is a string if it has one, `dispatch` throws exactly if a component
does that it calls outside of a `try`. -/
lemma dispatch_throws_iff {request : Json}
    (haction : ∀ field, request.field? "action" = some field → field.string?.isSome)
    (s : σ × String) :
    (∃ e, dispatch engine serverContext request s = .error e) ↔
      Throws engine serverContext request s.1 := by
  refine ⟨fun ⟨e, he⟩ => ?_, fun h => dispatch_of_throws h s.2⟩
  rcases @dispatch_returnsOr _ engine serverContext request haction s with ⟨_, _, hrun, -⟩ | ⟨-, h⟩
  · rw [he] at hrun
    cases hrun
  · exact h

end Engine

end XdebugFst.Server
