import Mathlib
import XdebugFst.Lib.Text
import XdebugFst.Server.Dispatch

/-!
# The stdio loop

`stdio_loop_main` of `server.cpp`: every line is a request, and its response is an envelope with
the id of the request. A line that is not JSON gets an envelope too, and so does a request with a
wrong `trace_id` or `payload_format`. Empty lines are skipped, and `stdio.quit` ends the loop.

The loop reads `action`, `id` and `request_id` outside of any `try`, and dispatches the request and
renders its response there. The library refuses to write an envelope with a text that is not UTF-8:
the text of the exception for a line that is not JSON, a text of the response, or the rendered text.
`stdioLoopMain_answers_iff` says that these are the only ways in which a line ends the loop early.
-/

namespace XdebugFst.Server

open Lib

/-! ### One line -/

/-- The text by which the loop names a request without an id. -/
def sequenceId (reqSeq : ℕ) : String := "req-" ++ toString reqSeq

/-- The envelope of a request that is refused before it is dispatched. -/
def refusal (rid code message : String) : Json :=
  .object [
    ("id", .string rid),
    ("ok", .bool false),
    ("error", .object [("code", .string code), ("message", .string message)])]

/-- `trace_id` is absent or a text. -/
def validTraceId (request : Json) : Bool :=
  match request.field? "trace_id" with
  | none => true
  | some traceId => traceId.string?.any (· ≠ "")

/-- `payload_format` is absent or known. -/
def validPayloadFormat (request : Json) : Bool :=
  match request.field? "payload_format" with
  | none => true
  | some format => format.string? = some "json" || format.string? = some "xout"

def wantsJson (jsonMode : Bool) (request : Json) : Bool :=
  match request.field? "payload_format" with
  | none => jsonMode
  | some format => format.string? = some "json"

/-- The envelope of `stdio.quit`. -/
def quitEnvelope (rid : String) : Json :=
  .object [
    ("id", .string rid),
    ("ok", .bool true),
    ("api_version", .string "xdebug.v1"),
    ("action", .string "stdio.quit"),
    ("payload_format", .string "json"),
    ("json", .object [("ok", .bool true), ("action", .string "stdio.quit")])]

section Engine

variable {σ : Type} (engine : Engine σ) (jsonMode auditCapture : Bool)

/-- The envelope of a response. -/
def responseEnvelope (rid action : String) (ok wantsJson : Bool) (response error : Json)
    (xout : String) : Json :=
  .object ([
      ("id", .string rid),
      ("ok", .bool ok),
      ("api_version", .string "xdebug.v1"),
      ("action", .string action)] ++
    (if ok then [] else [("error", error), ("json", response)]) ++
    (if wantsJson then
      [("payload_format", .string "json")] ++
        (if ok then [("json", response)] else []) ++
        (if auditCapture then [("xout_audit", .string xout)] else [])
    else [
      ("payload_format", .string "xout"),
      ("xout", .string xout)]))

/-- The text of a response, where the envelope has it. -/
def envelopeText (wantsJson : Bool) (response : Json) (dispatchXout : String) :
    Except Json.TypeError String :=
  if wantsJson && !auditCapture then .ok ""
  else engine.renderXoutResponse response dispatchXout

/-- A request that is dispatched, with its envelope. -/
def serveDispatched (rid action : String) (wantsJson : Bool) (request : Json) :
    Dispatch σ Json := do
  let response ← dispatch engine false request
  let ok ← response.boolValue "ok" false
  let error ← response.jsonValue "error" (.object [])
  let xout ← envelopeText engine auditCapture wantsJson response (← get).2
  return responseEnvelope auditCapture rid action ok wantsJson response error xout

/-- The request without the fields of the transport. -/
def payload (request : Json) : Json :=
  ((request.erase "id").erase "trace_id").erase "payload_format"

/-- A line that is JSON: its envelope, and whether the loop goes on. -/
def serveRequest (reqSeq : ℕ) (request : Json) : Dispatch σ (Json × Bool) := do
  let action ← request.stringValue "action" ""
  let default ← request.stringValue "request_id" (sequenceId reqSeq)
  let rid ← request.stringValue "id" default
  let request := request.erase "id"
  if !validTraceId request then
    return (refusal rid "INVALID_REQUEST" "stdio-loop trace_id must be a non-empty string", true)
  else if !validPayloadFormat request then
    return (refusal rid "INVALID_REQUEST" "stdio-loop payload_format must be json or xout", true)
  else if action = "stdio.quit" then return (quitEnvelope rid, false)
  else
    let envelope ← serveDispatched engine auditCapture rid action (wantsJson jsonMode request)
      ((request.erase "trace_id").erase "payload_format")
    return (envelope, true)

/-- What becomes of a line. -/
inductive LineOutcome (σ : Type)
  | answered (envelope : Json) (s : σ × String)
  | quit (envelope : Json)
  | threw

/-- A line that is not empty. -/
def serveLine (reqSeq : ℕ) (line : ByteArray) (s : σ × String) : LineOutcome σ :=
  match engine.parse line with
  | .error what =>
      let envelope := refusal (sequenceId reqSeq) "INVALID_JSON" what
      if engine.writes envelope then .answered envelope s else .threw
  | .ok request =>
      match serveRequest engine jsonMode auditCapture reqSeq request s with
      | .error _ => .threw
      | .ok ((envelope, goesOn), s') =>
          if !engine.writes envelope then .threw
          else if goesOn then .answered envelope s'
          else .quit envelope

/-! ### The loop -/

/-- How the loop ends. -/
inductive Ending
  | endOfInput | quit | threw
  deriving DecidableEq, Repr

/-- The loop of `stdio_loop_main` after `reqSeq` requests: its envelopes and its end. -/
def stdioLoop (reqSeq : ℕ) (s : σ × String) : List ByteArray → List Json × Ending
  | [] => ([], .endOfInput)
  | line :: rest =>
      if line.isEmpty then stdioLoop reqSeq s rest
      else
        match serveLine engine jsonMode auditCapture (reqSeq + 1) line s with
        | .answered envelope s' =>
            let run := stdioLoop (reqSeq + 1) s' rest
            (envelope :: run.1, run.2)
        | .quit envelope => ([envelope], .quit)
        | .threw => ([], .threw)

/-- `stdio_loop_main`. -/
def stdioLoopMain (s : σ) (lines : List ByteArray) : List Json × Ending :=
  stdioLoop engine jsonMode auditCapture 0 (s, "") lines

/-! ### What the loop is for -/

/-- The request asks the loop to end. -/
def quits (request : Json) : Bool :=
  (request.field? "action").bind Json.string? = some "stdio.quit" &&
    validTraceId request && validPayloadFormat request

/-- The line asks the loop to end. -/
def isQuit (line : ByteArray) : Bool :=
  match engine.parse line with
  | .error _ => false
  | .ok request => quits request

/-- The lines that have to be answered: those that are not empty, up to the first that asks the
loop to end. -/
def served : List ByteArray → List ByteArray
  | [] => []
  | line :: rest =>
      if line.isEmpty then served rest
      else if isQuit engine line then [line]
      else line :: served rest

/-- The text of a field of a request. -/
def fieldText (request : Json) (name default : String) : String :=
  ((request.field? name).bind Json.string?).getD default

/-- The id by which a request is answered. -/
def requestId (reqSeq : ℕ) (request : Json) : String :=
  fieldText request "id" (fieldText request "request_id" (sequenceId reqSeq))

/-- The id by which a line is answered. -/
def lineId (reqSeq : ℕ) (line : ByteArray) : String :=
  match engine.parse line with
  | .error _ => sequenceId reqSeq
  | .ok request => requestId reqSeq request

/-- The run answers every line once, in order, and ends at the end of the input or with
`stdio.quit`. -/
structure AnswersEvery (lines : List ByteArray) (run : List Json × Ending) : Prop where
  envelopes : run.1.map (Json.field? · "id") =
    (served engine lines).mapIdx fun i line => some (.string (lineId engine (i + 1) line))
  ending : run.2 = if (served engine lines).any (isQuit engine) then .quit else .endOfInput

/-- The fields that the loop reads are strings if they are there. -/
def Readable (request : Json) : Prop :=
  request.isObject = true ∧ ∀ name ∈ ["action", "request_id", "id"], ∀ field,
    request.field? name = some field → field.string?.isSome

/-- The request is dispatched. -/
def isDispatched (request : Json) : Bool :=
  validTraceId request && validPayloadFormat request &&
    fieldText request "action" "" ≠ "stdio.quit"

/-- A request that is dispatched in a state can be answered: no component throws, and what the
envelope has of the response and of its text is UTF-8. -/
structure Delivers (wantsJson : Bool) (request : Json) (s : σ × String) : Prop where
  returns : ¬ Throws engine false request s.1
  response : ∀ response s', dispatch engine false request s = .ok (response, s') →
    (wantsJson = true ∨ response.boolValue "ok" false = .ok false) → engine.writes response = true
  text : ∀ response s', dispatch engine false request s = .ok (response, s') →
    ∃ text, envelopeText engine auditCapture wantsJson response s'.2 = .ok text ∧
      ((wantsJson = false ∨ auditCapture = true) → engine.isUtf8 text = true)

/-- A line that is not JSON has to give an exception whose text is UTF-8; a line that is JSON has
to be an object with readable fields, which can be answered if it is dispatched. -/
def Answerable (line : ByteArray) (s : σ × String) : Prop :=
  match engine.parse line with
  | .error what => engine.isUtf8 what = true
  | .ok request => Readable request ∧ (isDispatched request = true →
      Delivers engine auditCapture (wantsJson jsonMode request) (payload request) s)

/-- Every line that has to be answered can be, in the state in which the loop reads it. -/
def AllAnswerable (reqSeq : ℕ) (s : σ × String) : List ByteArray → Prop
  | [] => True
  | line :: rest =>
      if line.isEmpty then AllAnswerable reqSeq s rest
      else Answerable engine jsonMode auditCapture line s ∧
        ∀ envelope s', serveLine engine jsonMode auditCapture (reqSeq + 1) line s =
          .answered envelope s' → AllAnswerable (reqSeq + 1) s' rest

/-! ### Envelopes -/

variable {engine jsonMode auditCapture}

/-- The texts of the loop are ASCII. -/
lemma isUtf8_sequenceId (reqSeq : ℕ) : engine.isUtf8 (sequenceId reqSeq) = true := by
  refine engine.isUtf8_ascii (List.all_eq_true.2 fun c hc => decide_eq_true ?_)
  rw [sequenceId, String.toList_append, List.mem_append] at hc
  rcases hc with hc | hc
  · have hall : ("req-".toList.all fun c => c.toNat < 128) = true := by decide
    exact of_decide_eq_true (List.all_eq_true.1 hall c hc)
  · have hdigit : c.isDigit = true := by
      by_contra hnot
      exact notMem_toString (Bool.eq_false_of_not_eq_true hnot) reqSeq hc
    have := toNat_of_isDigit hdigit
    omega

lemma writes_refusal {rid code message : String} (hcode : engine.isUtf8 code = true) :
    engine.writes (refusal rid code message) = (engine.isUtf8 rid && engine.isUtf8 message) := by
  have hid : engine.isUtf8 "id" = true := engine.isUtf8_ascii (by decide)
  have hok : engine.isUtf8 "ok" = true := engine.isUtf8_ascii (by decide)
  have herror : engine.isUtf8 "error" = true := engine.isUtf8_ascii (by decide)
  have hname : engine.isUtf8 "code" = true := engine.isUtf8_ascii (by decide)
  have hmessage : engine.isUtf8 "message" = true := engine.isUtf8_ascii (by decide)
  simp [Engine.writes, refusal, Json.allTexts, Json.allFields, hid, hok, herror, hname, hmessage,
    hcode]

lemma writes_quitEnvelope (rid : String) :
    engine.writes (quitEnvelope rid) = engine.isUtf8 rid := by
  have hconst : ∀ text ∈ ["id", "ok", "api_version", "xdebug.v1", "action", "stdio.quit",
      "payload_format", "json"], engine.isUtf8 text = true := by
    intro text htext
    refine engine.isUtf8_ascii ?_
    fin_cases htext <;> decide
  simp only [List.forall_mem_cons] at hconst
  simp [Engine.writes, quitEnvelope, Json.allTexts, Json.allFields, hconst]

/-- What of an envelope has to be UTF-8. -/
lemma writes_responseEnvelope {rid action xout : String} {ok wantsJson : Bool}
    {response error : Json} (hrid : engine.isUtf8 rid = true)
    (haction : engine.isUtf8 action = true)
    (herror : engine.writes response = true → engine.writes error = true) :
    engine.writes (responseEnvelope auditCapture rid action ok wantsJson response error xout) =
        true ↔
      ((wantsJson = true ∨ ok = false) → engine.writes response = true) ∧
      ((wantsJson = false ∨ auditCapture = true) → engine.isUtf8 xout = true) := by
  have hconst : ∀ text ∈ ["id", "ok", "api_version", "xdebug.v1", "action", "error", "json",
      "payload_format", "xout_audit", "xout"], engine.isUtf8 text = true := by
    intro text htext
    refine engine.isUtf8_ascii ?_
    fin_cases htext <;> decide
  simp only [List.forall_mem_cons] at hconst
  rw [Engine.writes] at herror ⊢
  cases ok <;> cases wantsJson <;> cases auditCapture <;>
    simp [Engine.writes, responseEnvelope, Json.allTexts, Json.allFields, hconst, hrid, haction] <;>
    tauto

lemma isUtf8_fieldText {request : Json} {name default : String}
    (h : request.allTexts engine.isUtf8 = true) (hdefault : engine.isUtf8 default = true) :
    engine.isUtf8 (fieldText request name default) = true := by
  rw [fieldText]
  cases hfield : request.field? name with
  | none => exact hdefault
  | some field =>
      have htexts := Json.allTexts_field? h hfield
      cases field with
      | string text => rwa [Json.allTexts_string] at htexts
      | _ => exact hdefault

/-! ### What is dispatched -/

lemma id_of_serveDispatched {request envelope : Json} {rid action : String} {wantsJson : Bool}
    {s s' : σ × String} (h : serveDispatched engine auditCapture rid action wantsJson request s =
      .ok (envelope, s')) : envelope.field? "id" = some (.string rid) := by
  rw [serveDispatched] at h
  obtain ⟨response, s₁, -, h⟩ := exists_of_bind h
  obtain ⟨ok, s₂, -, h⟩ := exists_of_bind h
  obtain ⟨error, s₃, -, h⟩ := exists_of_bind h
  obtain ⟨state, s₄, -, h⟩ := exists_of_bind h
  obtain ⟨xout, s₅, -, h⟩ := exists_of_bind h
  cases h
  rfl

/-- A dispatched request gets an envelope that can be written exactly if it can be answered. -/
lemma serveDispatched_iff {request : Json} {rid action : String} {wantsJson : Bool}
    (hrid : engine.isUtf8 rid = true) (haction : engine.isUtf8 action = true)
    (hread : ∀ field, request.field? "action" = some field → field.string?.isSome)
    (s : σ × String) :
    (∃ envelope s', serveDispatched engine auditCapture rid action wantsJson request s =
        .ok (envelope, s') ∧ engine.writes envelope = true) ↔
      Delivers engine auditCapture wantsJson request s := by
  have hthrows := @dispatch_throws_iff _ engine false request hread s
  rcases @dispatch_returnsOr _ engine false request hread s with
    ⟨response, s', hrun, hform⟩ | ⟨⟨e, hrun⟩, hthrow⟩
  · obtain ⟨ok, hok⟩ : ∃ ok, response.boolValue "ok" false = .ok ok :=
      Json.exists_valueWith_iff.2 ⟨hform.isObject, hform.ok⟩
    have herror := Json.jsonValue_of_isObject hform.isObject "error" (.object [])
    have hreturns : ¬ Throws engine false request s.1 := fun hthrow => by
      obtain ⟨e, he⟩ := hthrows.2 hthrow
      rw [hrun] at he
      cases he
    have hsub : engine.writes response = true →
        engine.writes ((response.field? "error").getD (.object [])) = true := by
      intro hwrites
      cases hfield : response.field? "error" with
      | none => exact Json.allTexts_object.2 (by simp)
      | some error => exact Json.allTexts_field? hwrites hfield
    cases htext : envelopeText engine auditCapture wantsJson response s'.2 with
    | error e =>
        have hthrew : serveDispatched engine auditCapture rid action wantsJson request s =
            .error e := by
          rw [serveDispatched, bind_of_ok hrun, hok, liftM_ok_bind, herror, liftM_ok_bind]
          exact (bind_of_ok rfl).trans (bind_of_error (by rw [htext]; rfl))
        refine iff_of_false ?_ fun h => ?_
        · rintro ⟨envelope, s'', hsome, -⟩
          rw [hthrew] at hsome
          cases hsome
        · obtain ⟨text, hsome, -⟩ := h.text response s' hrun
          rw [htext] at hsome
          cases hsome
    | ok text =>
        have henvelope : serveDispatched engine auditCapture rid action wantsJson request s =
            .ok (responseEnvelope auditCapture rid action ok wantsJson response
              ((response.field? "error").getD (.object [])) text, s') := by
          rw [serveDispatched, bind_of_ok hrun, hok, liftM_ok_bind, herror, liftM_ok_bind]
          exact (bind_of_ok rfl).trans (by rw [htext]; rfl)
        have hwrites := @writes_responseEnvelope _ engine auditCapture rid action text ok wantsJson
          response _ hrid haction hsub
        have hok' : response.boolValue "ok" false = .ok false ↔ ok = false := by
          rw [hok]
          exact ⟨Except.ok.inj, congrArg _⟩
        constructor
        · rintro ⟨envelope, s'', hsome, hwritten⟩
          rw [henvelope] at hsome
          cases hsome
          obtain ⟨hresponse, hxout⟩ := hwrites.1 hwritten
          refine ⟨hreturns, fun response' s'' hrun' hneeds => ?_, fun response' s'' hrun' => ?_⟩
          · rw [hrun] at hrun'
            cases hrun'
            exact hresponse (hneeds.imp_right hok'.1)
          · rw [hrun] at hrun'
            cases hrun'
            exact ⟨text, htext, hxout⟩
        · intro h
          refine ⟨_, _, henvelope, hwrites.2 ⟨fun hneeds => ?_, fun hneeds => ?_⟩⟩
          · exact h.response response s' hrun (hneeds.imp_right hok'.2)
          · obtain ⟨text', htext', hutf8⟩ := h.text response s' hrun
            rw [htext] at htext'
            cases htext'
            exact hutf8 hneeds
  · have hthrew : serveDispatched engine auditCapture rid action wantsJson request s =
        .error e := by
      rw [serveDispatched]
      exact bind_of_error hrun
    refine iff_of_false ?_ fun h => h.returns hthrow
    rintro ⟨envelope, s'', hsome, -⟩
    rw [hthrew] at hsome
    cases hsome

/-! ### One line -/

/-- What the loop makes of a readable request. -/
lemma serveRequest_of_readable {request : Json} (hread : Readable request) (reqSeq : ℕ) :
    serveRequest engine jsonMode auditCapture reqSeq request =
      if !validTraceId request then
        pure (refusal (requestId reqSeq request) "INVALID_REQUEST"
          "stdio-loop trace_id must be a non-empty string", true)
      else if !validPayloadFormat request then
        pure (refusal (requestId reqSeq request) "INVALID_REQUEST"
          "stdio-loop payload_format must be json or xout", true)
      else if fieldText request "action" "" = "stdio.quit" then
        pure (quitEnvelope (requestId reqSeq request), false)
      else do
        let envelope ← serveDispatched engine auditCapture (requestId reqSeq request)
          (fieldText request "action" "") (wantsJson jsonMode request) (payload request)
        return (envelope, true) := by
  obtain ⟨hobject, hfields⟩ := hread
  have htrace : validTraceId (request.erase "id") = validTraceId request := by
    rw [validTraceId, validTraceId, Json.field?_erase (by decide)]
  have hpayload : validPayloadFormat (request.erase "id") = validPayloadFormat request := by
    rw [validPayloadFormat, validPayloadFormat, Json.field?_erase (by decide)]
  have hwants : wantsJson jsonMode (request.erase "id") = wantsJson jsonMode request := by
    rw [wantsJson, wantsJson, Json.field?_erase (by decide)]
  rw [serveRequest, Json.stringValue_eq hobject (hfields "action" (by simp)), liftM_ok_bind_eq,
    Json.stringValue_eq hobject (hfields "request_id" (by simp)), liftM_ok_bind_eq,
    Json.stringValue_eq hobject (hfields "id" (by simp)), liftM_ok_bind_eq]
  dsimp only
  rw [htrace, hpayload, hwants]
  rfl

/-- An unreadable request throws. -/
lemma serveRequest_throws {request : Json} (hread : ¬ Readable request) (reqSeq : ℕ)
    (s : σ × String) :
    ∃ e, serveRequest engine jsonMode auditCapture reqSeq request s = .error e := by
  rw [serveRequest]
  cases haction : request.stringValue "action" "" with
  | error e => exact ⟨e, rfl⟩
  | ok action =>
    cases hdefault : request.stringValue "request_id" (sequenceId reqSeq) with
    | error e => exact ⟨e, rfl⟩
    | ok default =>
      cases hid : request.stringValue "id" default with
      | error e =>
          refine ⟨e, ?_⟩
          simp only [liftM_ok_bind, hid, liftM_error_bind]
      | ok rid =>
          obtain ⟨hobject, haction⟩ := Json.exists_valueWith_iff.1 ⟨action, haction⟩
          obtain ⟨-, hdefault⟩ := Json.exists_valueWith_iff.1 ⟨default, hdefault⟩
          obtain ⟨-, hid⟩ := Json.exists_valueWith_iff.1 ⟨rid, hid⟩
          refine absurd ⟨hobject, ?_⟩ hread
          intro name hname
          fin_cases hname
          · exact haction
          · exact hdefault
          · exact hid

variable (engine) in
/-- What becomes of a line: it is answered by its id, asks for the end and is answered, or
throws. -/
def IsOutcome (reqSeq : ℕ) (line : ByteArray) (answerable : Prop) : LineOutcome σ → Prop
  | .answered envelope _ => answerable ∧ isQuit engine line = false ∧
      envelope.field? "id" = some (.string (lineId engine reqSeq line))
  | .quit envelope => answerable ∧ isQuit engine line = true ∧
      envelope.field? "id" = some (.string (lineId engine reqSeq line))
  | .threw => ¬ answerable

lemma quits_eq {request : Json} : quits request =
    (fieldText request "action" "" = "stdio.quit" && validTraceId request &&
      validPayloadFormat request) := by
  rw [quits, fieldText]
  cases (request.field? "action").bind Json.string? with
  | none => simp
  | some text => simp

/-- A request that is dispatched is served according to whether it can be answered. -/
lemma serveRequest_dispatched {request : Json} (hread : Readable request)
    (htexts : request.allTexts engine.isUtf8 = true) (hdispatched : isDispatched request = true)
    (reqSeq : ℕ) (s : σ × String) :
    (∃ envelope s', serveRequest engine jsonMode auditCapture reqSeq request s =
        .ok ((envelope, true), s') ∧ engine.writes envelope = true ∧
        envelope.field? "id" = some (.string (requestId reqSeq request))) ∧
      Delivers engine auditCapture (wantsJson jsonMode request) (payload request) s ∨
    ((∃ e, serveRequest engine jsonMode auditCapture reqSeq request s = .error e) ∨
      ∃ envelope s', serveRequest engine jsonMode auditCapture reqSeq request s =
        .ok ((envelope, true), s') ∧ engine.writes envelope = false) ∧
      ¬ Delivers engine auditCapture (wantsJson jsonMode request) (payload request) s := by
  obtain ⟨⟨htrace, hformat⟩, hquit⟩ : (validTraceId request = true ∧
      validPayloadFormat request = true) ∧ fieldText request "action" "" ≠ "stdio.quit" := by
    simpa [isDispatched, Bool.and_eq_true] using hdispatched
  have hpayload : ∀ field, (payload request).field? "action" = some field →
      field.string?.isSome := by
    rw [payload, Json.field?_erase (by decide), Json.field?_erase (by decide),
      Json.field?_erase (by decide)]
    exact hread.2 "action" (by simp)
  have hrid : engine.isUtf8 (requestId reqSeq request) = true :=
    isUtf8_fieldText htexts (isUtf8_fieldText htexts (isUtf8_sequenceId reqSeq))
  have haction : engine.isUtf8 (fieldText request "action" "") = true :=
    isUtf8_fieldText htexts (engine.isUtf8_ascii (by decide))
  have hiff := @serveDispatched_iff _ engine auditCapture (payload request) _ _
    (wantsJson jsonMode request) hrid haction hpayload s
  have hserve : serveRequest engine jsonMode auditCapture reqSeq request = (do
      let envelope ← serveDispatched engine auditCapture (requestId reqSeq request)
        (fieldText request "action" "") (wantsJson jsonMode request) (payload request)
      return (envelope, true)) := by
    rw [serveRequest_of_readable hread, htrace, hformat, if_neg (by decide), if_neg (by decide),
      if_neg hquit]
  rw [hserve]
  cases hrun : serveDispatched engine auditCapture (requestId reqSeq request)
      (fieldText request "action" "") (wantsJson jsonMode request) (payload request) s with
  | error e =>
      refine Or.inr ⟨Or.inl ⟨e, bind_of_error hrun⟩, fun h => ?_⟩
      obtain ⟨envelope, s', hsome, -⟩ := hiff.2 h
      rw [hrun] at hsome
      cases hsome
  | ok result =>
      obtain ⟨envelope, s'⟩ := result
      cases hwrites : engine.writes envelope with
      | true =>
          exact Or.inl ⟨⟨envelope, s', bind_of_ok hrun, hwrites, id_of_serveDispatched hrun⟩,
            hiff.1 ⟨envelope, s', hrun, hwrites⟩⟩
      | false =>
          refine Or.inr ⟨Or.inr ⟨envelope, s', bind_of_ok hrun, hwrites⟩, fun h => ?_⟩
          obtain ⟨envelope', s'', hsome, hwrites'⟩ := hiff.2 h
          rw [hrun] at hsome
          cases hsome
          rw [hwrites] at hwrites'
          cases hwrites'

/-- A request that is not dispatched gets an envelope, and only the one that asks for it ends the
loop. -/
lemma serveRequest_not_dispatched {request : Json} (hread : Readable request)
    (htexts : request.allTexts engine.isUtf8 = true) (hdispatched : isDispatched request = false)
    (reqSeq : ℕ) (s : σ × String) :
    ∃ envelope, serveRequest engine jsonMode auditCapture reqSeq request s =
        .ok ((envelope, !quits request), s) ∧ engine.writes envelope = true ∧
      envelope.field? "id" = some (.string (requestId reqSeq request)) := by
  have hrid : engine.isUtf8 (requestId reqSeq request) = true :=
    isUtf8_fieldText htexts (isUtf8_fieldText htexts (isUtf8_sequenceId reqSeq))
  have hrefused {message : String} (hmessage : engine.isUtf8 message = true) :
      engine.writes (refusal (requestId reqSeq request) "INVALID_REQUEST" message) = true := by
    rw [writes_refusal (engine.isUtf8_ascii (by decide)), hrid, hmessage]
    rfl
  rw [serveRequest_of_readable hread, quits_eq]
  cases htrace : validTraceId request with
  | false =>
      refine ⟨refusal (requestId reqSeq request) "INVALID_REQUEST"
        "stdio-loop trace_id must be a non-empty string", ?_,
        hrefused (engine.isUtf8_ascii (by decide)), rfl⟩
      simp
      rfl
  | true =>
      cases hformat : validPayloadFormat request with
      | false =>
          refine ⟨refusal (requestId reqSeq request) "INVALID_REQUEST"
            "stdio-loop payload_format must be json or xout", ?_,
            hrefused (engine.isUtf8_ascii (by decide)), rfl⟩
          simp
          rfl
      | true =>
          have hquit : fieldText request "action" "" = "stdio.quit" := by
            simpa [isDispatched, htrace, hformat] using hdispatched
          refine ⟨quitEnvelope (requestId reqSeq request), ?_, ?_, rfl⟩
          · simp [hquit]
            rfl
          · rw [writes_quitEnvelope, hrid]

/-- A line is answered or asks for the end if it can be answered, and makes the loop throw if
not. -/
lemma serveLine_outcome (reqSeq : ℕ) (line : ByteArray) (s : σ × String) :
    IsOutcome engine reqSeq line (Answerable engine jsonMode auditCapture line s)
      (serveLine engine jsonMode auditCapture reqSeq line s) := by
  rw [Answerable, serveLine]
  cases hparse : engine.parse line with
  | error what =>
      have hwrites := @writes_refusal _ engine (sequenceId reqSeq) "INVALID_JSON" what
        (engine.isUtf8_ascii (by decide))
      rw [isUtf8_sequenceId, Bool.true_and] at hwrites
      dsimp only
      rw [hwrites]
      cases hwhat : engine.isUtf8 what with
      | false => exact Bool.false_ne_true
      | true =>
          refine ⟨rfl, by rw [isQuit, hparse], ?_⟩
          rw [lineId, hparse]
          rfl
  | ok request =>
      dsimp only
      by_cases hread : Readable request
      swap
      · obtain ⟨e, hrun⟩ := @serveRequest_throws _ engine jsonMode auditCapture _ hread reqSeq s
        rw [hrun]
        exact fun h => hread h.1
      have htexts := engine.isUtf8_parse hparse
      have hrid : engine.isUtf8 (requestId reqSeq request) = true :=
        isUtf8_fieldText htexts (isUtf8_fieldText htexts (isUtf8_sequenceId reqSeq))
      have hid : lineId engine reqSeq line = requestId reqSeq request := by rw [lineId, hparse]
      have hquit : isQuit engine line = quits request := by rw [isQuit, hparse]
      by_cases hdispatched : isDispatched request = true
      · have hgoes : isQuit engine line = false := by
          rw [hquit, quits_eq]
          simp only [isDispatched, Bool.and_eq_true, decide_eq_true_eq] at hdispatched
          simp [hdispatched.2]
        rcases serveRequest_dispatched hread htexts hdispatched reqSeq s with
          ⟨⟨envelope, s', hrun, hwrites, hidField⟩, hdelivers⟩ |
            ⟨⟨e, hrun⟩ | ⟨envelope, s', hrun, hwrites⟩, hnot⟩
        · rw [hrun]
          dsimp only
          rw [hwrites]
          exact ⟨⟨hread, fun _ => hdelivers⟩, hgoes, by rw [hid]; exact hidField⟩
        · rw [hrun]
          exact fun h => hnot (h.2 hdispatched)
        · rw [hrun]
          dsimp only
          rw [hwrites]
          exact fun h => hnot (h.2 hdispatched)
      · obtain ⟨envelope, hrun, hwrites, hidField⟩ := @serveRequest_not_dispatched _ engine jsonMode
          auditCapture request hread htexts (Bool.eq_false_of_not_eq_true hdispatched) reqSeq s
        rw [hrun]
        dsimp only
        rw [hwrites]
        cases hquits : quits request with
        | true => exact ⟨⟨hread, fun h => absurd h hdispatched⟩, hquit.trans hquits,
            by rw [hid]; exact hidField⟩
        | false => exact ⟨⟨hread, fun h => absurd h hdispatched⟩, hquit.trans hquits,
            by rw [hid]; exact hidField⟩

/-- The loop from any state: it throws at the first line that cannot be answered. -/
lemma stdioLoop_spec (lines : List ByteArray) (reqSeq : ℕ) (s : σ × String) :
    (AllAnswerable engine jsonMode auditCapture reqSeq s lines →
      (stdioLoop engine jsonMode auditCapture reqSeq s lines).1.map (Json.field? · "id") =
        (served engine lines).mapIdx
          (fun i line => some (.string (lineId engine (reqSeq + i + 1) line))) ∧
      (stdioLoop engine jsonMode auditCapture reqSeq s lines).2 =
        if (served engine lines).any (isQuit engine) then .quit else .endOfInput) ∧
    (¬ AllAnswerable engine jsonMode auditCapture reqSeq s lines →
      (stdioLoop engine jsonMode auditCapture reqSeq s lines).2 = .threw) := by
  induction lines generalizing reqSeq s with
  | nil => simp [stdioLoop, served, AllAnswerable]
  | cons line rest ih =>
      rw [stdioLoop, served, AllAnswerable]
      by_cases hempty : line.isEmpty
      · rw [if_pos hempty, if_pos hempty, if_pos hempty]
        exact ih reqSeq s
      · rw [if_neg hempty, if_neg hempty, if_neg hempty]
        have houtcome := @serveLine_outcome _ engine jsonMode auditCapture (reqSeq + 1) line s
        cases hserve : serveLine engine jsonMode auditCapture (reqSeq + 1) line s with
        | threw =>
            rw [hserve] at houtcome
            exact ⟨fun h => absurd h.1 houtcome, fun _ => rfl⟩
        | quit envelope =>
            -- the loop ends here
            rw [hserve] at houtcome
            obtain ⟨hanswerable, hquit, hid⟩ := houtcome
            rw [if_pos hquit]
            refine ⟨fun _ => ⟨?_, ?_⟩, fun h => absurd ⟨hanswerable, nofun⟩ h⟩
            · simp [hid]
            · simp [hquit]
        | answered envelope s' =>
            rw [hserve] at houtcome
            obtain ⟨hanswerable, hquit, hid⟩ := houtcome
            obtain ⟨hall, hsome⟩ := ih (reqSeq + 1) s'
            rw [if_neg (by rw [hquit]; decide)]
            refine ⟨?_, fun h => hsome fun hrest => h ⟨hanswerable, ?_⟩⟩
            · rintro ⟨-, hrest⟩
              obtain ⟨hids, hending⟩ := hall (hrest envelope s' rfl)
              refine ⟨?_, ?_⟩
              · rw [List.map_cons, List.mapIdx_cons, hid, hids]
                simp only [Nat.add_zero, Nat.add_right_comm, Nat.add_assoc]
              · rw [hending, List.any_cons, hquit, Bool.false_or]
            · intro envelope' s'' hsame
              cases hsame
              exact hrest

/-- The loop answers every line exactly if every line that it has to answer can be answered in the
state in which the loop reads it. -/
theorem stdioLoopMain_answers_iff (engine : Engine σ) (jsonMode auditCapture : Bool) (s : σ)
    (lines : List ByteArray) :
    AnswersEvery engine lines (stdioLoopMain engine jsonMode auditCapture s lines) ↔
      AllAnswerable engine jsonMode auditCapture 0 (s, "") lines := by
  obtain ⟨hall, hsome⟩ := @stdioLoop_spec _ engine jsonMode auditCapture lines 0 (s, "")
  constructor
  · intro hanswers
    by_contra hnot
    have hthrew := hsome hnot
    rw [← stdioLoopMain, hanswers.ending] at hthrew
    split at hthrew <;> cases hthrew
  · intro hanswerable
    obtain ⟨hids, hending⟩ := hall hanswerable
    refine ⟨?_, hending⟩
    rw [stdioLoopMain, hids]
    simp only [Nat.zero_add]

end Engine

/-! ### A request with a number as its id -/

/-- The line with the object whose only field is the id 7. -/
def numberedLine : ByteArray := "\x7b\"id\":7\x7d".toUTF8

/-- A parser that knows this line. -/
def parseNumbered (line : ByteArray) : Except String Json :=
  if line = numberedLine then .ok (.object [("id", .unsigned 7)])
  else .error "syntax error while parsing value"

/-- An engine without actions. -/
def idleEngine : Engine Unit where
  isUtf8 _ := true
  isUtf8_ascii _ := rfl
  parse := parseNumbered
  isUtf8_parse _ := Json.allTexts_true _
  isPublicAction _ := false
  actionSuggestions _ := []
  requestError _ _ :=
    some ⟨diagnosticError "INVALID_REQUEST" "" true "schema" [], isDiagnostic_diagnosticError⟩
  batchSchema h := nomatch h
  responseError _ _ := none
  toolMetadata := .null
  handleFrontendSessionAction _ s :=
    (.ok ⟨errorResponse "UNKNOWN_ACTION" "", isAnswer_errorResponse _ _⟩, s)
  forwardToManagedSession _ s :=
    (.ok ⟨errorResponse "NOT_FOUND" "", isAnswer_errorResponse _ _⟩, s)
  actionsCatalog _ := (.null, .null)
  schemaCatalog _ := .ok (.null, .null)
  handler _ := none
  hasDesign _ := false
  hasWaveform _ := false
  renderXoutResponse _ text := .ok text

/-- The loop ends at a request whose id is a number, without an answer. -/
theorem numberedLine_not_answered : ¬ ∀ (engine : Engine Unit) (jsonMode auditCapture : Bool)
    (lines : List ByteArray),
    AnswersEvery engine lines (stdioLoopMain engine jsonMode auditCapture () lines) := by
  intro hall
  have hparse : idleEngine.parse numberedLine = .ok (.object [("id", .unsigned 7)]) := by
    show parseNumbered numberedLine = _
    rw [parseNumbered, if_pos rfl]
  have hnot : ¬ AllAnswerable idleEngine true false 0 ((), "") [numberedLine] := by
    rw [AllAnswerable, if_neg (by decide), Answerable, hparse]
    rintro ⟨⟨hread, -⟩, -⟩
    exact absurd (hread.2 "id" (by simp) _ rfl) (by decide)
  have hthrew := (@stdioLoop_spec _ idleEngine true false [numberedLine] 0 ((), "")).2 hnot
  have hending := (hall idleEngine true false [numberedLine]).ending
  rw [stdioLoopMain, hthrew] at hending
  split at hending <;> cases hending

end XdebugFst.Server
