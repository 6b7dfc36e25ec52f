import Mathlib
import XdebugFst.Lib.Json
import XdebugFst.Lib.Throws
import XdebugFst.Session.Registry

/-!
# Endpoint documents

`session_endpoint_document_from_json` reads how the server of a session is reached. The document
has a version and the fields of one of three transports. The version and the port are read with
`get<int>`, which keeps the low 32 bits of a JSON integer, and only what is left is compared with
the supported version and with the range of ports. The registry record, in contrast, is read with
`read_bounded_nonnegative`, which compares the integer itself.

`decodesExactly_iff` says which integers are read as they are.
-/

namespace XdebugFst.Session

open Lib

/-! ### Reading a document -/

/-- `has_exact_fields`. -/
def hasExactFields (value : Json) (fields : List String) : Bool :=
  value.isObject && value.fields.length = fields.length && fields.all value.contains

/-- `require_nonempty_string`. -/
def requireNonemptyString (value : Json) (field : String) : Except String String :=
  match (value.field? field).bind Json.string? with
  | some text =>
      if text = "" then .error ("endpoint field must be a nonempty string: " ++ field)
      else .ok text
  | none => .error ("endpoint field must be a nonempty string: " ++ field)

/-- `get<int>` of a value that is stored as an integer. -/
def getInt (value : Json) : Option ℤ := value.integer?.map fun n => n.bmod (2 ^ 32)

/-- `parsed`, with the fields that every transport has. -/
def parsedEndpoint (sessionId transport : String) : SessionInfo where
  sessionId
  generation := ""
  lifecycleState := .other ""
  transport

def udsEndpoint (parsed : SessionInfo) (fields : Json) : Except String SessionInfo :=
  if !hasExactFields fields ["transport", "socket_path", "server_host"] then
    .error "uds endpoint fields do not match schema version 1"
  else do
    let socketPath ← requireNonemptyString fields "socket_path"
    let serverHost ← requireNonemptyString fields "server_host"
    return { parsed with socketPath, serverHost }

/-- The port of a TCP endpoint. -/
def endpointPort (fields : Json) : Except String ℤ :=
  match (fields.field? "port").bind getInt with
  | none => .error "endpoint port must be an integer in 1..65535"
  | some port =>
      if port ≤ 0 ∨ port > 65535 then .error "endpoint port must be an integer in 1..65535"
      else .ok port

def tcpEndpoint (parsed : SessionInfo) (fields : Json) : Except String SessionInfo :=
  if !hasExactFields fields
      ["transport", "host", "bind_host", "port", "server_host", "auth_token"] then
    .error "tcp endpoint fields do not match schema version 1"
  else do
    let host ← requireNonemptyString fields "host"
    let bindHost ← requireNonemptyString fields "bind_host"
    let serverHost ← requireNonemptyString fields "server_host"
    let authToken ← requireNonemptyString fields "auth_token"
    let port ← endpointPort fields
    return { parsed with host, bindHost, serverHost, authToken, port }

def fileEndpoint (parsed : SessionInfo) (fields : Json) : Except String SessionInfo :=
  if !hasExactFields fields ["transport", "file_dir", "server_host"] then
    .error "file endpoint fields do not match schema version 1"
  else do
    let fileDir ← requireNonemptyString fields "file_dir"
    let serverHost ← requireNonemptyString fields "server_host"
    return { parsed with fileDir, serverHost }

/-- The fields of the transport. -/
def endpointFields (sessionId : String) (fields : Json) : Except String SessionInfo :=
  match (fields.field? "transport").bind Json.string? with
  | none => .error "endpoint transport must be a string"
  | some transport =>
      let parsed := parsedEndpoint sessionId transport
      if transport = "uds" then udsEndpoint parsed fields
      else if transport = "tcp" then tcpEndpoint parsed fields
      else if transport = "file" then fileEndpoint parsed fields
      else .error "endpoint transport must be uds, tcp, or file"

/-- `session_endpoint_document_from_json`. -/
def endpointFromJson (expectedSessionId : String) (value : Json) : Except String SessionInfo :=
  if !isValidSessionName expectedSessionId then .error "expected endpoint session_id is invalid"
  else
    match value.field? "version", value.field? "endpoint" with
    | some version, some fields =>
        if hasExactFields value ["version", "endpoint"] && getInt version = some 1 &&
            fields.isObject then
          endpointFields expectedSessionId fields
        else .error "endpoint document must match schema version 1"
    | _, _ => .error "endpoint document must match schema version 1"

/-! ### Replacing a field -/

/-- The object with the value of a field replaced. -/
def replaceField (value : Json) (name : String) (item : Json) : Json :=
  match value with
  | .object fields => .object (fields.map fun f => if f.1 = name then (name, item) else f)
  | other => other

/-- The document with another version. -/
def withVersion (document version : Json) : Json := replaceField document "version" version

/-- The document with another port. -/
def withPort (document port : Json) : Json :=
  match document.field? "endpoint" with
  | some fields => replaceField document "endpoint" (replaceField fields "port" port)
  | none => document

section Replace

variable {value : Json} {name : String}

lemma isObject_replaceField (item : Json) :
    (replaceField value name item).isObject = value.isObject := by
  cases value <;> rfl

lemma length_replaceField (item : Json) :
    (replaceField value name item).fields.length = value.fields.length := by
  cases value with
  | object fields => exact List.length_map _
  | _ => rfl

lemma lookup_cons_ite (key : String) (item : Json) (rest : List (String × Json)) (other : String) :
    ((key, item) :: rest).lookup other = if other = key then some item else rest.lookup other := by
  rw [List.lookup_cons]
  split_ifs with hother
  · rw [hother, BEq.rfl]
  · rw [beq_false_of_ne hother]

lemma field?_replaceField (other : String) (item : Json) :
    (replaceField value name item).field? other =
      if other = name then (value.field? name).map fun _ => item else value.field? other := by
  cases value with
  | object fields =>
      rw [replaceField, Json.field?_object, Json.field?_object, Json.field?_object]
      induction fields with
      | nil => simp
      | cons f rest ih =>
          obtain ⟨key, field⟩ := f
          by_cases hkey : key = name
          · rw [List.map_cons, if_pos hkey, lookup_cons_ite, lookup_cons_ite, lookup_cons_ite, ih,
              hkey, if_pos rfl]
            split_ifs <;> rfl
          · rw [List.map_cons, if_neg hkey, lookup_cons_ite, lookup_cons_ite, lookup_cons_ite, ih,
              if_neg (Ne.symm hkey)]
            by_cases hother : other = name
            · rw [if_pos hother, if_pos hother, hother, if_neg (Ne.symm hkey)]
            · rw [if_neg hother, if_neg hother]
  | _ => simp [replaceField, Json.field?, Json.fields]

lemma contains_replaceField (other : String) (item : Json) :
    (replaceField value name item).contains other = value.contains other := by
  rw [Json.contains, Json.contains, field?_replaceField]
  split_ifs with hother
  · rw [Option.isSome_map, hother]
  · rfl

lemma hasExactFields_replaceField (item : Json) (fields : List String) :
    hasExactFields (replaceField value name item) fields = hasExactFields value fields := by
  rw [hasExactFields, hasExactFields, isObject_replaceField, length_replaceField]
  congr 2
  funext other
  exact contains_replaceField other item

lemma requireNonemptyString_replaceField {field : String} (hne : field ≠ name) (item : Json) :
    requireNonemptyString (replaceField value name item) field =
      requireNonemptyString value field := by
  rw [requireNonemptyString, requireNonemptyString, field?_replaceField, if_neg hne]

end Replace

/-! ### What is accepted -/

section Accepted

variable {sessionId : String} {document : Json} {endpoint : SessionInfo}

/-- An accepted document has the fields that the reader asks for. -/
lemma endpointFromJson_eq_ok : endpointFromJson sessionId document = .ok endpoint ↔
    isValidSessionName sessionId = true ∧ ∃ version fields,
      document.field? "version" = some version ∧ document.field? "endpoint" = some fields ∧
      hasExactFields document ["version", "endpoint"] = true ∧ getInt version = some 1 ∧
      fields.isObject = true ∧ endpointFields sessionId fields = .ok endpoint := by
  rw [endpointFromJson]
  cases hname : isValidSessionName sessionId with
  | false => simp
  | true =>
      cases hversion : document.field? "version" with
      | none => simp
      | some version =>
          cases hfields : document.field? "endpoint" with
          | none => simp
          | some fields =>
              simp only [Bool.not_true, Bool.false_eq_true, if_false, Option.some.injEq, true_and,
                Bool.and_eq_true, decide_eq_true_eq, and_assoc]
              split_ifs with hcheck
              · constructor
                · exact fun h => ⟨version, fields, rfl, rfl, hcheck.1, hcheck.2.1, hcheck.2.2, h⟩
                · rintro ⟨_, _, rfl, rfl, -, -, -, h⟩
                  exact h
              · simp only [false_iff]
                rintro ⟨_, _, rfl, rfl, hexact, hone, hobject, -⟩
                exact hcheck ⟨hexact, hone, hobject⟩

/-- The version of an accepted document can be replaced by what is read as 1. -/
lemma endpointFromJson_withVersion (h : endpointFromJson sessionId document = .ok endpoint)
    (version : Json) : (∃ endpoint', endpointFromJson sessionId (withVersion document version) =
      .ok endpoint') ↔ getInt version = some 1 := by
  obtain ⟨hname, version₀, fields, hversion, hfields, hexact, -, hobject, hok⟩ :=
    endpointFromJson_eq_ok.1 h
  have hversion' : (withVersion document version).field? "version" = some version := by
    rw [withVersion, field?_replaceField, if_pos rfl, hversion, Option.map_some]
  have hfields' : (withVersion document version).field? "endpoint" = some fields := by
    rw [withVersion, field?_replaceField, if_neg (by decide), hfields]
  have hexact' : hasExactFields (withVersion document version) ["version", "endpoint"] = true := by
    rw [withVersion, hasExactFields_replaceField, hexact]
  constructor
  · rintro ⟨endpoint', h'⟩
    obtain ⟨-, version', _, hv, -, -, hone, -, -⟩ := endpointFromJson_eq_ok.1 h'
    rw [hversion'] at hv
    obtain rfl := Option.some.inj hv
    exact hone
  · intro hone
    exact ⟨endpoint, endpointFromJson_eq_ok.2
      ⟨hname, version, fields, hversion', hfields', hexact', hone, hobject, hok⟩⟩

lemma endpointPort_eq_ok {fields : Json} {port : ℤ} : endpointPort fields = .ok port ↔
    (fields.field? "port").bind getInt = some port ∧ 1 ≤ port ∧ port ≤ 65535 := by
  rw [endpointPort]
  cases (fields.field? "port").bind getInt with
  | none => simp
  | some p =>
      simp only [Option.some.injEq]
      split_ifs with hrange
      · simp only [false_iff, not_and]
        rintro rfl
        omega
      · simp only [Except.ok.injEq]
        constructor
        · rintro rfl
          exact ⟨rfl, by omega⟩
        · exact fun hp => hp.1

/-- What a TCP endpoint is made of. -/
lemma tcpEndpoint_eq_ok {parsed : SessionInfo} {fields : Json} :
    tcpEndpoint parsed fields = .ok endpoint ↔
      hasExactFields fields
        ["transport", "host", "bind_host", "port", "server_host", "auth_token"] = true ∧
      ∃ host bindHost serverHost authToken port,
        requireNonemptyString fields "host" = .ok host ∧
        requireNonemptyString fields "bind_host" = .ok bindHost ∧
        requireNonemptyString fields "server_host" = .ok serverHost ∧
        requireNonemptyString fields "auth_token" = .ok authToken ∧
        endpointPort fields = .ok port ∧
        endpoint = { parsed with host, bindHost, serverHost, authToken, port } := by
  rw [tcpEndpoint]
  cases hasExactFields fields
      ["transport", "host", "bind_host", "port", "server_host", "auth_token"] with
  | false => simp
  | true =>
      constructor
      · intro h
        obtain ⟨host, hhost, h⟩ := exists_of_bind_eq_ok h
        obtain ⟨bindHost, hbind, h⟩ := exists_of_bind_eq_ok h
        obtain ⟨serverHost, hserver, h⟩ := exists_of_bind_eq_ok h
        obtain ⟨authToken, htoken, h⟩ := exists_of_bind_eq_ok h
        obtain ⟨port, hport, h⟩ := exists_of_bind_eq_ok h
        exact ⟨rfl, host, bindHost, serverHost, authToken, port, hhost, hbind, hserver, htoken,
          hport, (Except.ok.inj h).symm⟩
      · rintro ⟨-, host, bindHost, serverHost, authToken, port, hhost, hbind, hserver, htoken,
          hport, rfl⟩
        rw [hhost, hbind, hserver, htoken, hport]
        rfl

/-- The endpoint of a transport has this transport. -/
lemma transport_of_endpointFields {fields : Json}
    (h : endpointFields sessionId fields = .ok endpoint) :
    (fields.field? "transport").bind Json.string? = some endpoint.transport := by
  rw [endpointFields] at h
  cases htransport : (fields.field? "transport").bind Json.string? with
  | none =>
      rw [htransport] at h
      cases h
  | some transport =>
      rw [htransport] at h
      simp only at h
      split_ifs at h with huds htcp hfile
      · rw [udsEndpoint] at h
        split_ifs at h
        obtain ⟨_, -, h⟩ := exists_of_bind_eq_ok h
        obtain ⟨_, -, h⟩ := exists_of_bind_eq_ok h
        rw [← Except.ok.inj h]
        rfl
      · obtain ⟨-, _, _, _, _, _, -, -, -, -, -, rfl⟩ := tcpEndpoint_eq_ok.1 h
        rfl
      · rw [fileEndpoint] at h
        split_ifs at h
        obtain ⟨_, -, h⟩ := exists_of_bind_eq_ok h
        obtain ⟨_, -, h⟩ := exists_of_bind_eq_ok h
        rw [← Except.ok.inj h]
        rfl

/-- The port of an accepted TCP endpoint can be replaced by what is read as a port. -/
lemma endpointFromJson_withPort (h : endpointFromJson sessionId document = .ok endpoint)
    (htcp : endpoint.transport = "tcp") (port : Json) (p : ℤ) :
    (∃ endpoint', endpointFromJson sessionId (withPort document port) = .ok endpoint' ∧
      endpoint'.port = p) ↔ getInt port = some p ∧ 1 ≤ p ∧ p ≤ 65535 := by
  obtain ⟨hname, version, fields, hversion, hfields, hexact, hone, hobject, hok⟩ :=
    endpointFromJson_eq_ok.1 h
  have htransport := transport_of_endpointFields hok
  rw [htcp] at htransport
  have htcpEndpoint : ∀ {fields : Json}, (fields.field? "transport").bind Json.string? = some "tcp" →
      endpointFields sessionId fields = tcpEndpoint (parsedEndpoint sessionId "tcp") fields := by
    intro fields hfields
    rw [endpointFields, hfields]
    rfl
  rw [htcpEndpoint htransport] at hok
  obtain ⟨hfieldsExact, host, bindHost, serverHost, authToken, port₀, hhost, hbind, hserver, htoken,
    hport₀, -⟩ := tcpEndpoint_eq_ok.1 hok
  obtain ⟨hport₀, -⟩ := endpointPort_eq_ok.1 hport₀
  obtain ⟨old, hold, -⟩ := Option.bind_eq_some_iff.1 hport₀
  -- the document and its endpoint with the new port
  set fields' := replaceField fields "port" port with hfields'
  have hdocument : withPort document port = replaceField document "endpoint" fields' := by
    rw [withPort, hfields]
  have hversion' : (withPort document port).field? "version" = some version := by
    rw [hdocument, field?_replaceField, if_neg (by decide), hversion]
  have hendpoint' : (withPort document port).field? "endpoint" = some fields' := by
    rw [hdocument, field?_replaceField, if_pos rfl, hfields, Option.map_some]
  have hexact' : hasExactFields (withPort document port) ["version", "endpoint"] = true := by
    rw [hdocument, hasExactFields_replaceField, hexact]
  have hobject' : fields'.isObject = true := by rw [hfields', isObject_replaceField, hobject]
  have htransport' : (fields'.field? "transport").bind Json.string? = some "tcp" := by
    rw [hfields', field?_replaceField, if_neg (by decide), htransport]
  have hport' : (fields'.field? "port").bind getInt = getInt port := by
    rw [hfields', field?_replaceField, if_pos rfl, hold]
    rfl
  have hfieldsExact' : hasExactFields fields'
      ["transport", "host", "bind_host", "port", "server_host", "auth_token"] = true := by
    rw [hfields', hasExactFields_replaceField, hfieldsExact]
  constructor
  · rintro ⟨endpoint', h', rfl⟩
    obtain ⟨-, _, _, -, he, -, -, -, hok'⟩ := endpointFromJson_eq_ok.1 h'
    obtain rfl := Option.some.inj (hendpoint'.symm.trans he)
    rw [htcpEndpoint htransport'] at hok'
    obtain ⟨-, _, _, _, _, p', -, -, -, -, hp', rfl⟩ := tcpEndpoint_eq_ok.1 hok'
    rw [endpointPort_eq_ok, hport'] at hp'
    exact hp'
  · rintro hp
    refine ⟨{ parsedEndpoint sessionId "tcp" with host, bindHost, serverHost, authToken, port := p },
      endpointFromJson_eq_ok.2 ⟨hname, version, fields', hversion', hendpoint', hexact', hone,
        hobject', ?_⟩, rfl⟩
    rw [htcpEndpoint htransport']
    refine tcpEndpoint_eq_ok.2 ⟨hfieldsExact', host, bindHost, serverHost, authToken, p, ?_, ?_, ?_,
      ?_, endpointPort_eq_ok.2 ⟨hport'.trans hp.1, hp.2⟩, rfl⟩
    · rw [hfields', requireNonemptyString_replaceField (by decide), hhost]
    · rw [hfields', requireNonemptyString_replaceField (by decide), hbind]
    · rw [hfields', requireNonemptyString_replaceField (by decide), hserver]
    · rw [hfields', requireNonemptyString_replaceField (by decide), htoken]

end Accepted

/-! ### Integers that are read as they are -/

/-- An integer in the place of the version of an accepted document, and in the place of its port,
is accepted exactly if it is the supported version, or a port, and the port is then this one. -/
structure DecodesExactly (sessionId : String) (document : Json) (endpoint : SessionInfo) (n : ℤ) :
    Prop where
  version : ∀ value : Json, value.integer? = some n →
    ((∃ endpoint', endpointFromJson sessionId (withVersion document value) = .ok endpoint') ↔ n = 1)
  port : endpoint.transport = "tcp" → ∀ value : Json, value.integer? = some n →
    ((∃ endpoint', endpointFromJson sessionId (withPort document value) = .ok endpoint') ↔
        1 ≤ n ∧ n ≤ 65535) ∧
      ∀ endpoint', endpointFromJson sessionId (withPort document value) = .ok endpoint' →
        endpoint'.port = n

lemma bmod_eq_one_iff (n : ℤ) : n.bmod (2 ^ 32) = 1 ↔ n % 2 ^ 32 = 1 := by
  rw [Int.bmod]
  simp only [Nat.cast_pow, Nat.cast_ofNat]
  split_ifs <;> omega

lemma bmod_isPort_iff (n : ℤ) : (1 ≤ n.bmod (2 ^ 32) ∧ n.bmod (2 ^ 32) ≤ 65535) ↔
    1 ≤ n % 2 ^ 32 ∧ n % 2 ^ 32 ≤ 65535 := by
  rw [Int.bmod]
  simp only [Nat.cast_pow, Nat.cast_ofNat]
  split_ifs <;> omega

/-- An integer is read as it is exactly if it is not congruent to the supported version, or to a
port, without being one. -/
theorem decodesExactly_iff (sessionId : String) (document : Json) (endpoint : SessionInfo)
    (h : endpointFromJson sessionId document = .ok endpoint) (n : ℤ) :
    DecodesExactly sessionId document endpoint n ↔
      (n % 2 ^ 32 = 1 → n = 1) ∧
      (endpoint.transport = "tcp" → 1 ≤ n % 2 ^ 32 → n % 2 ^ 32 ≤ 65535 → 1 ≤ n ∧ n ≤ 65535) := by
  have hgetInt : ∀ {value : Json} {p : ℤ}, value.integer? = some n →
      (getInt value = some p ↔ n.bmod (2 ^ 32) = p) := by
    intro value p hvalue
    rw [getInt, hvalue, Option.map_some, Option.some.injEq]
  constructor
  · intro hexact
    -- the integer itself is the version, or the port, that is read
    constructor
    · intro hcongruent
      refine (hexact.version (.integer n) rfl).1 ((endpointFromJson_withVersion h _).2 ?_)
      rw [hgetInt rfl, bmod_eq_one_iff, hcongruent]
    · intro htcp hlow hhigh
      refine ((hexact.port htcp (.integer n) rfl).1).1 ?_
      obtain ⟨endpoint', h', -⟩ := (endpointFromJson_withPort h htcp (.integer n) _).2
        ⟨(hgetInt rfl).2 rfl, (bmod_isPort_iff n).2 ⟨hlow, hhigh⟩⟩
      exact ⟨endpoint', h'⟩
  · rintro ⟨hversion, hport⟩
    refine ⟨fun value hvalue => ?_, fun htcp value hvalue => ?_⟩
    · rw [endpointFromJson_withVersion h, hgetInt hvalue, bmod_eq_one_iff]
      exact ⟨hversion, fun hn => by rw [hn]; rfl⟩
    · -- an accepted integer is a port, and then nothing is lost
      have haccepted : ∀ endpoint', endpointFromJson sessionId (withPort document value) =
          .ok endpoint' → (1 ≤ n ∧ n ≤ 65535) ∧ endpoint'.port = n := by
        intro endpoint' h'
        obtain ⟨hread, hrange⟩ := (endpointFromJson_withPort h htcp value _).1 ⟨endpoint', h', rfl⟩
        rw [hgetInt hvalue] at hread
        rw [← hread] at hrange
        have hn := hport htcp ((bmod_isPort_iff n).1 hrange).1 ((bmod_isPort_iff n).1 hrange).2
        refine ⟨hn, ?_⟩
        rw [← hread]
        exact Int.bmod_eq_of_le (by omega) (by omega)
      refine ⟨⟨?_, ?_⟩, fun endpoint' h' => (haccepted endpoint' h').2⟩
      · rintro ⟨endpoint', h'⟩
        exact (haccepted endpoint' h').1
      · intro hn
        have hbmod : n.bmod (2 ^ 32) = n := Int.bmod_eq_of_le (by omega) (by omega)
        obtain ⟨endpoint', h', -⟩ := (endpointFromJson_withPort h htcp value n).2
          ⟨(hgetInt hvalue).2 hbmod, hn⟩
        exact ⟨endpoint', h'⟩

/-- The endpoint of a server that listens at port 80. -/
def webDocument : Json :=
  .object [("version", .unsigned 1), ("endpoint", .object [("transport", .string "tcp"),
    ("host", .string "h"), ("bind_host", .string "b"), ("port", .unsigned 80),
    ("server_host", .string "s"), ("auth_token", .string "t")])]

def webEndpoint : SessionInfo :=
  { parsedEndpoint "a" "tcp" with
    host := "h", bindHost := "b", serverHost := "s", authToken := "t", port := 80 }

lemma endpointFromJson_webDocument : endpointFromJson "a" webDocument = .ok webEndpoint := by
  rfl

/-- The version 2³² + 1 is accepted. -/
theorem wideVersion_not_decodesExactly : ¬ ∀ (sessionId : String) (document : Json)
    (endpoint : SessionInfo), endpointFromJson sessionId document = .ok endpoint →
    ∀ n : ℤ, DecodesExactly sessionId document endpoint n := by
  intro hall
  have hexact := (hall "a" webDocument webEndpoint endpointFromJson_webDocument 4294967297).version
    (.unsigned 4294967297) rfl
  have haccepted : endpointFromJson "a" (withVersion webDocument (.unsigned 4294967297)) =
      .ok webEndpoint := rfl
  exact absurd (hexact.1 ⟨webEndpoint, haccepted⟩) (by decide)

/-- Port 443 is read as it is. -/
theorem port_decodesExactly : DecodesExactly "a" webDocument webEndpoint 443 :=
  (decodesExactly_iff "a" webDocument webEndpoint endpointFromJson_webDocument 443).2
    ⟨by decide, fun _ _ _ => by decide⟩

end XdebugFst.Session
