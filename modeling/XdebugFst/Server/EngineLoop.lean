import XdebugFst.Server.Secrets
import XdebugFst.Session.Transport

/-!
# The loop of an engine process

`server_main` answers requests that arrive over its socket. A request of the internal version is a
control request, which asks for a sign of life, for the version or for the end of the process; any
other one is dispatched. The loop has no `try`, so an exception ends the process: of the
renderer of a handler, or of the library when a text of the response is not UTF-8 (`Fails`).

`engineRun_safe` puts the loop together with the transport: as long as the clients send objects
whose version and action are strings, no interleaving of them makes the process end, unless one of
them asks for it or a request fails in the state in which it is handled.
-/

namespace XdebugFst.Server

open Lib Session.Transport

variable {σ : Type} (engine : Engine σ) (generation : String)

/-- `valid_internal_control_request` -/
def validInternalControlRequest (request : Json) (action : String) : Except Json.TypeError Bool := do
  if !request.isObject || request.fields.length ≠ 3 then return false
  else if (← request.stringValue "api_version" "") ≠ "xdebug.internal.v1" then return false
  else if (← request.stringValue "action" "") ≠ action then return false
  else
    match request.field? "args" with
    | some (.object []) =>
        return action = "server.ping" || action = "server.version" || action = "server.quit"
    | _ => return false

/-- The answer to a control request in another form. -/
def invalidInternalRequest : Json :=
  .object [("ok", .bool false), ("error", .object [
    ("code", .string "INVALID_INTERNAL_REQUEST"),
    ("message", .string "internal control request must match the strict private envelope"),
    ("recoverable", .bool false), ("error_layer", .string "transport")])]

/-- The answer to a control request. -/
def controlAnswer (data : List (String × Json)) : Json :=
  .object [("ok", .bool true), ("data", .object data)]

/-- A request that is dispatched, with the text of its response. -/
def serveDispatch (request : Json) : Dispatch σ (Json × Bool) := do
  let response ← dispatch engine true request
  let text := (← get).2
  if text = "" then return (response, false)
  else return (.object (setField response.fields "__xdebug_internal_xout" (.string text)), false)

/-- One round of the loop of `server_main`: the response, and whether the process is to quit. -/
def answerRequest (request : Json) : Dispatch σ (Json × Bool) := do
  let apiVersion ← request.stringValue "api_version" ""
  let action ← request.stringValue "action" ""
  if apiVersion = "xdebug.internal.v1" then
    if !(← validInternalControlRequest request action) then return (invalidInternalRequest, false)
    else if action = "server.ping" then
      return (controlAnswer [("pong", .bool true), ("generation", .string generation)], false)
    else if action = "server.version" then
      return (controlAnswer [("api_version", .string "xdebug.internal.v1"),
        ("generation", .string generation)], false)
    else if action = "server.quit" then return (controlAnswer [], true)
    else serveDispatch engine request
  else serveDispatch engine request

/-- The rounds of the loop, for the transport: nothing is sent when the process ends with an
exception, which `uds_send_response` throws when the response cannot be written. -/
def serve (request : Json) (s : σ × String) : Option (Json × (σ × String) × Bool) :=
  match answerRequest engine generation request s with
  | .ok ((response, quit), s') =>
      if engine.writes response then some (response, s', quit) else none
  | .error _ => none

/-- A request fails in a state: a component throws while it is dispatched, or a text of the response
is not UTF-8. -/
inductive Fails (request : Json) (s : σ × String) : Prop
  | throws (h : Throws engine true request s.1)
  | unwritten {response : Json} {quit : Bool} {s' : σ × String}
      (h : answerRequest engine generation request s = .ok ((response, quit), s'))
      (hwrites : engine.writes response = false)

/-- A request whose version and action are strings if they are there. -/
def HasStrings (request : Json) : Prop :=
  request.isObject = true ∧ ∀ name ∈ ["api_version", "action"], ∀ field,
    request.field? name = some field → field.string?.isSome

/-- The control request that asks for the end of the process. -/
structure AsksToQuit (request : Json) : Prop where
  apiVersion : request.field? "api_version" = some (.string "xdebug.internal.v1")
  action : request.field? "action" = some (.string "server.quit")
  args : request.field? "args" = some (.object [])
  fields : request.fields.length = 3

lemma HasStrings.exists_stringValue {request : Json} (h : HasStrings request) (name : String)
    (hname : name ∈ ["api_version", "action"]) :
    ∃ text, request.stringValue name "" = .ok text :=
  Json.exists_valueWith_iff.2 ⟨h.1, h.2 name hname⟩

lemma exists_validInternalControlRequest {request : Json} (h : HasStrings request)
    (action : String) : ∃ valid, validInternalControlRequest request action = .ok valid := by
  obtain ⟨version, hversion⟩ := h.exists_stringValue "api_version" (by simp)
  obtain ⟨action', haction⟩ := h.exists_stringValue "action" (by simp)
  rw [validInternalControlRequest, hversion, haction]
  simp only [bind, Except.bind]
  split_ifs
  · exact ⟨_, rfl⟩
  · exact ⟨_, rfl⟩
  · exact ⟨_, rfl⟩
  · split <;> exact ⟨_, rfl⟩

lemma serveDispatch_returnsOr {request : Json} (h : HasStrings request) (s : σ × String) :
    ReturnsOr (serveDispatch engine request) s (fun _ => True) (Throws engine true request s.1) := by
  rw [serveDispatch]
  refine (dispatch_returnsOr (h.2 "action" (by simp)) s).bind fun response s' _ _ => ?_
  refine ReturnsOr.bind (Q := fun _ => True) (Or.inl ⟨_, _, rfl, trivial⟩) fun state s'' _ _ => ?_
  dsimp only
  split_ifs
  · exact .of_returns (Returns.pure trivial)
  · exact .of_returns (Returns.pure trivial)

/-- The loop answers a request whose version and action are strings unless a component throws. -/
lemma answerRequest_returnsOr {request : Json} (h : HasStrings request) (s : σ × String) :
    ReturnsOr (answerRequest engine generation request) s (fun _ => True)
      (Throws engine true request s.1) := by
  obtain ⟨version, hversion⟩ := h.exists_stringValue "api_version" (by simp)
  obtain ⟨action, haction⟩ := h.exists_stringValue "action" (by simp)
  rw [answerRequest]
  refine ReturnsOr.lift_bind hversion (ReturnsOr.lift_bind haction ?_)
  by_cases hinternal : version = "xdebug.internal.v1"
  · rw [if_pos hinternal]
    obtain ⟨valid, hvalid⟩ := exists_validInternalControlRequest h action
    refine ReturnsOr.lift_bind hvalid ?_
    split_ifs
    · exact .of_returns (Returns.pure trivial)
    · exact .of_returns (Returns.pure trivial)
    · exact .of_returns (Returns.pure trivial)
    · exact .of_returns (Returns.pure trivial)
    · exact serveDispatch_returnsOr engine h s
  · rw [if_neg hinternal]
    exact serveDispatch_returnsOr engine h s

/-- A request without an answer fails. -/
lemma fails_of_serve {request : Json} (h : HasStrings request) {s : σ × String}
    (hserve : serve engine generation request s = none) : Fails engine generation request s := by
  rcases answerRequest_returnsOr engine generation h s with
    ⟨⟨response, quit⟩, s', hrun, -⟩ | ⟨-, hthrow⟩
  · refine .unwritten hrun ?_
    rw [serve, hrun] at hserve
    dsimp only at hserve
    split_ifs at hserve with hwrites
    exact Bool.eq_false_of_not_eq_true hwrites
  · exact .throws hthrow

/-! ### The end of the process -/

/-- A text that is read from a field without a default is the field. -/
lemma field?_of_stringValue {request : Json} {name text : String}
    (h : request.stringValue name "" = .ok text) (htext : text ≠ "") :
    request.field? name = some (.string text) := by
  cases request with
  | object fields =>
      rw [Json.stringValue, Json.valueWith_object] at h
      rw [Json.field?_object]
      cases hlookup : fields.lookup name with
      | none =>
          rw [hlookup] at h
          cases h
          exact absurd rfl htext
      | some field =>
          rw [hlookup] at h
          cases field with
          | string value =>
              cases h
              rfl
          | _ => cases h
  | _ => cases h

lemma of_validInternalControlRequest {request : Json} {action : String}
    (h : validInternalControlRequest request action = .ok true) :
    request.fields.length = 3 ∧ request.field? "args" = some (.object []) := by
  rw [validInternalControlRequest] at h
  split_ifs at h with hfields
  · cases h
  · obtain ⟨version, -, h⟩ := exists_of_bind_eq_ok h
    split_ifs at h
    · cases h
    · obtain ⟨action', -, h⟩ := exists_of_bind_eq_ok h
      split_ifs at h
      · cases h
      · split at h
        · rename_i hargs
          have hlength : request.isObject = true ∧ request.fields.length = 3 := by
            simpa using hfields
          exact ⟨hlength.2, hargs⟩
        · cases h

/-- A request that is dispatched does not make the process quit. -/
lemma quit_of_serveDispatch {request response : Json} {quit : Bool} {s s' : σ × String}
    (h : serveDispatch engine request s = .ok ((response, quit), s')) : quit = false := by
  rw [serveDispatch] at h
  obtain ⟨answer, s₁, -, h⟩ := exists_of_bind h
  obtain ⟨s₂, s₃, -, h⟩ := exists_of_bind h
  dsimp only at h
  split_ifs at h <;> cases h <;> rfl

/-- Only a control request that asks for it makes the process quit. -/
lemma asksToQuit_of_serve {request response : Json} {s s' : σ × String}
    (h : serve engine generation request s = some (response, s', true)) : AsksToQuit request := by
  have hrun : answerRequest engine generation request s = .ok ((response, true), s') := by
    rw [serve] at h
    split at h
    · rename_i hrun
      split_ifs at h
      cases h
      exact hrun
    · cases h
  rw [answerRequest] at hrun
  obtain ⟨version, s₁, hversion, hrun⟩ := exists_of_bind hrun
  obtain ⟨action, s₂, haction, hrun⟩ := exists_of_bind hrun
  by_cases hinternal : version = "xdebug.internal.v1"
  · rw [if_pos hinternal] at hrun
    obtain ⟨valid, s₃, hvalid, hrun⟩ := exists_of_bind hrun
    split_ifs at hrun with hinvalid hping hversion' hquit
    · cases hrun
    · cases hrun
    · cases hrun
    · have hvalid' : valid = true := by simpa using hinvalid
      subst hvalid' hinternal hquit
      obtain ⟨hfields, hargs⟩ := of_validInternalControlRequest (eq_ok_of_liftM hvalid)
      exact ⟨field?_of_stringValue (eq_ok_of_liftM hversion) (by decide),
        field?_of_stringValue (eq_ok_of_liftM haction) (by decide), hargs, hfields⟩
    · exact absurd (quit_of_serveDispatch engine hrun) nofun
  · rw [if_neg hinternal] at hrun
    exact absurd (quit_of_serveDispatch engine hrun) nofun

/-! ### All requests -/

/-- While the clients send objects whose version and action are strings, every handled request is
answered unless it fails in the state in which it is handled, a client gets what one round of the
loop makes of its own request in that state, and the process only ends when a request that was
handled has asked for it or has failed. -/
theorem engineRun_safe {wire : Wire} {request : ℕ → Json} {initial : σ × String}
    {s : System (σ × String)} (hwire : wire.Carries request (serve engine generation))
    (hrequest : ∀ n, HasStrings (request n))
    (h : Run wire request (serve engine generation) initial s) :
    let handledIn := HandledIn request (serve engine generation) initial s.handled
    (∀ n, (n, none) ∈ s.handled →
      ∃ before, handledIn n none before ∧ Fails engine generation (request n) before) ∧
    (∀ n response, (s.connection n).client = .finished (some response) →
      ∃ before after quit, handledIn n (some response) before ∧
        serve engine generation (request n) before = some (response, after, quit)) ∧
    (s.server = .ended → ∃ n before,
      (∃ response, handledIn n (some response) before ∧ AsksToQuit (request n)) ∨
        handledIn n none before ∧ Fails engine generation (request n) before) := by
  intro handledIn
  obtain ⟨hhandles, -, hresponses⟩ := h.served hwire
  have hfails : ∀ n, (n, none) ∈ s.handled →
      ∃ before, handledIn n none before ∧ Fails engine generation (request n) before := by
    intro n hmem
    obtain ⟨before, hin, hnone⟩ := hhandles.exists_handledIn hmem
    exact ⟨before, hin,
      fails_of_serve engine generation (hrequest n) (Option.map_eq_none_iff.1 hnone.symm)⟩
  refine ⟨hfails, fun n response hclient => ?_, fun hended => ?_⟩
  · obtain ⟨before, hin, hanswer⟩ := hhandles.exists_handledIn (hresponses n response hclient)
    obtain ⟨⟨response', after, quit⟩, hrun, rfl⟩ := Option.map_eq_some_iff.1 hanswer.symm
    exact ⟨before, after, quit, hin, hrun⟩
  · rcases (h.ending hwire).ended hended with ⟨n, hmem⟩ | ⟨n, before, response, after, hin, hrun⟩
    · obtain ⟨before, hfail⟩ := hfails n hmem
      exact ⟨n, before, Or.inr hfail⟩
    · exact ⟨n, before, Or.inl ⟨response, hin, asksToQuit_of_serve engine generation hrun⟩⟩

/-! ### A sign of life -/

/-- The control request for a sign of life. -/
def pingRequest : Json :=
  .object [("api_version", .string "xdebug.internal.v1"), ("action", .string "server.ping"),
    ("args", .object [])]

/-- The answer to it. -/
def pongAnswer : Json :=
  controlAnswer [("pong", .bool true), ("generation", .string "g")]

def pingText : List UInt8 :=
  "\x7b\"api_version\":\"xdebug.internal.v1\",\"action\":\"server.ping\",\"args\":\x7b\x7d\x7d".toUTF8.data.toList

def pongText : List UInt8 :=
  "\x7b\"ok\":true,\"data\":\x7b\"pong\":true,\"generation\":\"g\"\x7d\x7d".toUTF8.data.toList

/-- The texts of the request and of its answer. -/
def pingWire : Wire where
  dump value := if value.contains "ok" then pongText else pingText
  parse text :=
    if text = pongText then some pongAnswer
    else if text = pingText then some pingRequest
    else none

lemma serve_pingRequest (s : Unit × String) :
    serve (tokenEngine "first") "g" pingRequest s = some (pongAnswer, s, false) := rfl

lemma carries_pingWire :
    pingWire.Carries (fun _ => pingRequest) (serve (tokenEngine "first") "g") where
  fits_request _ := ⟨by decide, rfl⟩
  fits_response h := by
    rw [serve_pingRequest] at h
    cases h
    exact ⟨by decide, rfl⟩

lemma hasStrings_pingRequest : HasStrings pingRequest := by
  refine ⟨rfl, ?_⟩
  intro name hname field hfield
  fin_cases hname
  · cases hfield
    rfl
  · cases hfield
    rfl

/-- A client asks for a sign of life and gets it. -/
theorem engineRun_ping : ∃ s, Run pingWire (fun _ => pingRequest) (serve (tokenEngine "first") "g")
    ((), "") s ∧ (s.connection 0).client = .finished (some pongAnswer) ∧
    ∃ before after quit,
      HandledIn (fun _ => pingRequest) (serve (tokenEngine "first") "g") ((), "") s.handled 0
        (some pongAnswer) before ∧
      serve (tokenEngine "first") "g" pingRequest before = some (pongAnswer, after, quit) := by
  obtain ⟨s, hrun, hclient⟩ := exists_run_answered carries_pingWire
    (serve_pingRequest ((), "")) (by decide) (by decide)
  exact ⟨s, hrun, hclient, (engineRun_safe (tokenEngine "first") "g" carries_pingWire
    (fun _ => hasStrings_pingRequest) hrun).2.1 0 _ hclient⟩

end XdebugFst.Server
