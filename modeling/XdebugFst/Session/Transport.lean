import XdebugFst.Lib.Channel
import XdebugFst.Lib.Json
import Mathlib.Data.List.Nodup
import Mathlib.Logic.Function.Basic

/-!
# Requests over a socket

The engine of a session answers requests that clients send over a Unix socket, as in
`uds_transport.cpp` and in the loop of `server_main`. Each client connects once, writes its request
as one line, and reads one line. The server takes the connections one after the other. Writing and
reading move any number of bytes at a time, clients give up at any time, and any operation of the
server on a connection may fail.

`Run.served` says what holds in every state of every run: the server has handled the requests that
the clients sent, each at most once and none of them in part, and a client that gets a response gets
the one to its own request.
-/

namespace XdebugFst.Session.Transport

open Lib

/-! ### Lines -/

def newline : UInt8 := '\n'.toUInt8

/-- The size of a line from which on `read_line` gives up. -/
def lineLimit : ℕ := 16 * 1024 * 1024

/-- How JSON values are written as text and read back. -/
structure Wire where
  dump : Json → List UInt8
  parse : List UInt8 → Option Json

/-- A value that is written on one line and read back. -/
structure Wire.Fits (wire : Wire) (value : Json) : Prop where
  newline_notMem : newline ∉ wire.dump value
  parse_dump : wire.parse (wire.dump value) = some value

/-- The text of a request or of a response. -/
def Wire.message (wire : Wire) (value : Json) : List UInt8 := wire.dump value ++ [newline]

/-- One `read` of `read_line`: the line so far, or the whole of it. -/
inductive LineRead
  | more (line : List UInt8)
  | complete (line : List UInt8)
  deriving DecidableEq

/-- The line after a chunk was read. -/
def appendChunk (line chunk : List UInt8) : LineRead :=
  if newline ∈ line ++ chunk then .complete ((line ++ chunk).takeWhile (· ≠ newline))
  else .more (line ++ chunk)

/-- A chunk of `count` bytes can be read after the line so far. -/
structure CanRead (channel : Channel UInt8) (line : List UInt8) (count : ℕ) : Prop where
  line_le : line.length ≤ lineLimit
  pos : 0 < count
  buffer : count ≤ 4096
  pending : count ≤ channel.pending.length

/-! ### The parties -/

/-- `uds_request` of one client. -/
inductive Client
  | idle
  /-- `write_all`, with the bytes that are left. -/
  | sending (rest : List UInt8)
  /-- `read_line`, with the line so far. -/
  | reading (line : List UInt8)
  /-- The response, or nothing after an error. -/
  | finished (response : Option Json)

/-- The server's end of a connection. -/
inductive Peer
  | absent
  /-- The connection waits to be accepted. -/
  | queued
  | reading (line : List UInt8)
  /-- The response is sent, after which the server may have to quit. -/
  | answering (rest : List UInt8) (quit : Bool)
  | closed

/-- A client with its connection. -/
structure Connection where
  client : Client
  peer : Peer
  toServer : Channel UInt8
  toClient : Channel UInt8

/-- What the server does. -/
inductive Server
  | accepting
  | busy (client : ℕ)
  | ended
  deriving DecidableEq

/-- The clients, the server, the state of its engine, and the requests that it has handled: whose
they were and what the answer was, nothing if the handler threw. -/
structure System (σ : Type) where
  connection : ℕ → Connection
  queue : List ℕ
  server : Server
  engine : σ
  handled : List (ℕ × Option Json)

variable {σ : Type}

/-- Nobody has connected. -/
def System.init (engine : σ) : System σ where
  connection _ := ⟨.idle, .absent, .empty, .empty⟩
  queue := []
  server := .accepting
  engine := engine
  handled := []

/-- A system with another state of one connection. -/
def System.set (s : System σ) (n : ℕ) (connection : Connection) : System σ :=
  { s with connection := Function.update s.connection n connection }

/-! ### Steps -/

/-- A step of a client on its connection, after it has connected. -/
inductive ClientStep (wire : Wire) (c : Connection) : Connection → Prop
  | write {chunk rest : List UInt8} (h : c.client = .sending (chunk ++ rest)) (hchunk : chunk ≠ []) :
      ClientStep wire c { c with client := .sending rest, toServer := c.toServer.write chunk }
  | shutdown (h : c.client = .sending []) : ClientStep wire c { c with client := .reading [] }
  | read {line line' : List UInt8} {count : ℕ} (h : c.client = .reading line)
      (hread : CanRead c.toClient line count)
      (hline : appendChunk line (c.toClient.pending.take count) = .more line') :
      ClientStep wire c { c with client := .reading line', toClient := c.toClient.read count }
  | receive {line line' : List UInt8} {count : ℕ} (h : c.client = .reading line)
      (hread : CanRead c.toClient line count)
      (hline : appendChunk line (c.toClient.pending.take count) = .complete line') :
      ClientStep wire c
        { c with client := .finished (wire.parse line'), toClient := c.toClient.read count }
  /-- An operation fails or times out, the server has closed the connection, or the line is too
  long. -/
  | sendingFailed {rest : List UInt8} (h : c.client = .sending rest) :
      ClientStep wire c { c with client := .finished none }
  | readingFailed {line : List UInt8} (h : c.client = .reading line) :
      ClientStep wire c { c with client := .finished none }

/-- A step of the server while it reads a request or writes a response. -/
inductive PeerStep (c : Connection) : Connection → Prop
  | read {line line' : List UInt8} {count : ℕ} (h : c.peer = .reading line)
      (hread : CanRead c.toServer line count)
      (hline : appendChunk line (c.toServer.pending.take count) = .more line') :
      PeerStep c { c with peer := .reading line', toServer := c.toServer.read count }
  | write {chunk rest : List UInt8} {quit : Bool} (h : c.peer = .answering (chunk ++ rest) quit)
      (hchunk : chunk ≠ []) :
      PeerStep c { c with peer := .answering rest quit, toClient := c.toClient.write chunk }

/-- The server reads the rest of a line. -/
structure ReadsLine (c : Connection) (line : List UInt8) (count : ℕ) : Prop where
  exists_start : ∃ start, c.peer = .reading start ∧ CanRead c.toServer start count ∧
    appendChunk start (c.toServer.pending.take count) = .complete line

/-- A step of the system. `serve` is what the loop of the server does with a request: its response,
the new state of the engine and whether to quit, or nothing when it throws. -/
inductive Step (wire : Wire) (request : ℕ → Json) (serve : Json → σ → Option (Json × σ × Bool))
    (s : System σ) : System σ → Prop
  | connect (n : ℕ) (h : (s.connection n).client = .idle) (hserver : s.server ≠ .ended) :
      Step wire request serve s { s.set n { s.connection n with
        client := .sending (wire.message (request n)), peer := .queued } with
        queue := s.queue ++ [n] }
  /-- The socket cannot be made or the connection is refused. -/
  | refused (n : ℕ) (h : (s.connection n).client = .idle) :
      Step wire request serve s (s.set n { s.connection n with client := .finished none })
  | client (n : ℕ) {c : Connection} (h : ClientStep wire (s.connection n) c) :
      Step wire request serve s (s.set n c)
  | accept (n : ℕ) (rest : List ℕ) (hserver : s.server = .accepting) (hqueue : s.queue = n :: rest) :
      Step wire request serve s { s.set n { s.connection n with peer := .reading [] } with
        queue := rest, server := .busy n }
  | peer (n : ℕ) {c : Connection} (hserver : s.server = .busy n) (h : PeerStep (s.connection n) c) :
      Step wire request serve s (s.set n c)
  /-- `uds_receive_request` fails: an operation fails, the client has closed the connection, the
  line is too long, or it is no JSON text. -/
  | reject (n : ℕ) {line : List UInt8} (hserver : s.server = .busy n)
      (h : (s.connection n).peer = .reading line) :
      Step wire request serve s { s.set n { s.connection n with peer := .closed } with
        server := .accepting }
  | handle (n : ℕ) {line : List UInt8} {count : ℕ} {value response : Json} {engine : σ} {quit : Bool}
      (hserver : s.server = .busy n) (h : ReadsLine (s.connection n) line count)
      (hparse : wire.parse line = some value)
      (hserve : serve value s.engine = some (response, engine, quit)) :
      Step wire request serve s { s.set n { s.connection n with
        peer := .answering (wire.message response) quit
        toServer := (s.connection n).toServer.read count } with
        engine := engine, handled := s.handled ++ [(n, some response)] }
  /-- The handler throws, and the process of the server ends. -/
  | crash (n : ℕ) {line : List UInt8} {count : ℕ} {value : Json}
      (hserver : s.server = .busy n) (h : ReadsLine (s.connection n) line count)
      (hparse : wire.parse line = some value) (hserve : serve value s.engine = none) :
      Step wire request serve s { s.set n { s.connection n with
        peer := .closed
        toServer := (s.connection n).toServer.read count } with
        server := .ended, handled := s.handled ++ [(n, none)] }
  /-- The response is sent, or sending it fails. -/
  | close (n : ℕ) {rest : List UInt8} {quit : Bool} (hserver : s.server = .busy n)
      (h : (s.connection n).peer = .answering rest quit) :
      Step wire request serve s { s.set n { s.connection n with peer := .closed } with
        server := if quit then .ended else .accepting }

/-- The runs of the system. -/
inductive Run (wire : Wire) (request : ℕ → Json) (serve : Json → σ → Option (Json × σ × Bool))
    (engine : σ) : System σ → Prop
  | init : Run wire request serve engine (.init engine)
  | step {s s' : System σ} (h : Run wire request serve engine s)
      (hstep : Step wire request serve s s') : Run wire request serve engine s'

/-! ### One connection -/

lemma appendChunk_more {line chunk line' : List UInt8} (h : appendChunk line chunk = .more line') :
    line' = line ++ chunk ∧ newline ∉ line' := by
  rw [appendChunk] at h
  split_ifs at h with hmem
  cases h
  exact ⟨rfl, hmem⟩

lemma appendChunk_complete {line chunk line' : List UInt8}
    (h : appendChunk line chunk = .complete line') :
    line' = (line ++ chunk).takeWhile (· ≠ newline) ∧ newline ∈ line ++ chunk := by
  rw [appendChunk] at h
  split_ifs at h with hmem
  cases h
  exact ⟨rfl, hmem⟩

/-- What was written of a message is enough to read its text once there is a newline. -/
lemma Wire.Fits.complete {wire : Wire} {value : Json} (h : wire.Fits value)
    {channel : Channel UInt8} (hbegins : channel.written <+: wire.message value)
    {line : List UInt8} {count : ℕ}
    (hline : appendChunk channel.received (channel.pending.take count) = .complete line) :
    line = wire.dump value := by
  obtain ⟨rfl, hmem⟩ := appendChunk_complete hline
  rw [← channel.received_read] at hmem ⊢
  exact takeWhile_eq_of_prefix h.newline_notMem
    ((channel.read count).received_isPrefix.trans hbegins) hmem

/-- What holds of a connection, from the request of its client and the answer to it. -/
structure Connected (wire : Wire) (request : Json) (answer : Option (Option Json))
    (c : Connection) : Prop where
  idle : c.client = .idle → c.peer = .absent ∧ c.toServer.written = [] ∧ c.toClient.written = []
  toServer : c.toServer.written <+: wire.message request
  sending : ∀ rest, c.client = .sending rest →
    c.toServer.written ++ rest = wire.message request ∧ c.toClient.received = []
  clientLine : ∀ line, c.client = .reading line →
    c.toClient.received = line ∧ newline ∉ line
  finished : ∀ response, c.client = .finished (some response) → answer = some (some response)
  waiting : c.peer = .absent ∨ c.peer = .queued → c.toServer.received = [] ∧ answer = none
  peerLine : ∀ line, c.peer = .reading line →
    c.toServer.received = line ∧ newline ∉ line ∧ answer = none
  answering : ∀ rest quit, c.peer = .answering rest quit →
    ∃ response, answer = some (some response) ∧
      c.toClient.written ++ rest = wire.message response
  toClient : c.toClient.written = [] ∨ ∃ response, answer = some (some response) ∧
    c.toClient.written <+: wire.message response

namespace Connected

variable {wire : Wire} {request : Json} {answer : Option (Option Json)} {c c' : Connection}

/-- A client goes on: what it gets as a response is the answer. -/
lemma clientStep (h : Connected wire request answer c)
    (hfits : ∀ response, answer = some (some response) → wire.Fits response)
    (hstep : ClientStep wire c c') : Connected wire request answer c' := by
  cases hstep with
  | @write chunk rest hclient hchunk =>
      obtain ⟨htext, hreceived⟩ := h.sending _ hclient
      refine { h with
        idle := nofun
        toServer := ⟨rest, by simpa using htext⟩
        sending := ?_
        clientLine := nofun
        finished := nofun
        waiting := fun hpeer => by simpa using h.waiting hpeer
        peerLine := fun line hpeer => by simpa using h.peerLine line hpeer }
      rintro _ ⟨⟩
      exact ⟨by simpa using htext, hreceived⟩
  | shutdown hclient =>
      refine { h with
        idle := nofun
        sending := nofun
        clientLine := ?_
        finished := nofun }
      rintro _ ⟨⟩
      exact ⟨(h.sending _ hclient).2, by simp⟩
  | @read line line' count hclient hread hline =>
      obtain ⟨rfl, hnot⟩ := appendChunk_more hline
      refine { h with
        idle := nofun
        sending := nofun
        clientLine := ?_
        finished := nofun }
      rintro _ ⟨⟩
      exact ⟨by rw [Channel.received_read, (h.clientLine _ hclient).1], hnot⟩
  | @receive line line' count hclient hread hline =>
      refine { h with
        idle := nofun
        sending := nofun
        clientLine := nofun
        finished := ?_ }
      intro response hresponse
      obtain ⟨hreceived, -⟩ := h.clientLine _ hclient
      rw [← hreceived] at hline
      rcases h.toClient with hempty | ⟨value, hanswer, hbegins⟩
      · -- nothing was written, so nothing can be read
        have hpending := hread.pending
        have hpos := hread.pos
        simp [Channel.pending, hempty] at hpending
        omega
      · rw [(hfits value hanswer).complete hbegins hline, (hfits value hanswer).parse_dump] at hresponse
        cases hresponse
        exact hanswer
  | sendingFailed hclient =>
      exact { h with
        idle := nofun
        sending := nofun
        clientLine := nofun
        finished := nofun }
  | readingFailed hclient =>
      exact { h with
        idle := nofun
        sending := nofun
        clientLine := nofun
        finished := nofun }

/-- The server goes on with a connection. -/
lemma peerStep (h : Connected wire request answer c) (hstep : PeerStep c c') :
    Connected wire request answer c' := by
  cases hstep with
  | @read line line' count hpeer hread hline =>
      obtain ⟨rfl, hnot⟩ := appendChunk_more hline
      obtain ⟨hreceived, -, hanswer⟩ := h.peerLine _ hpeer
      refine { h with
        idle := ?_
        waiting := by simp
        peerLine := ?_
        answering := nofun }
      · intro hclient
        have habsent := (h.idle hclient).1
        rw [hpeer] at habsent
        cases habsent
      · rintro _ ⟨⟩
        exact ⟨by rw [Channel.received_read, hreceived], hnot, hanswer⟩
  | @write chunk rest quit hpeer hchunk =>
      obtain ⟨response, hanswer, htext⟩ := h.answering _ _ hpeer
      refine { h with
        idle := ?_
        sending := fun rest' hclient => by simpa using h.sending rest' hclient
        clientLine := fun line hclient => by simpa using h.clientLine line hclient
        waiting := by simp
        peerLine := nofun
        answering := ?_
        toClient := ?_ }
      · intro hclient
        have habsent := (h.idle hclient).1
        rw [hpeer] at habsent
        cases habsent
      · rintro _ _ ⟨⟩
        exact ⟨response, hanswer, by simpa using htext⟩
      · exact Or.inr ⟨response, hanswer, rest, by simpa using htext⟩

/-- The server closes a connection. -/
lemma close (h : Connected wire request answer c) (hpeer : c.peer ≠ .absent) :
    Connected wire request answer { c with peer := .closed } where
  idle hclient := absurd (h.idle hclient).1 hpeer
  toServer := h.toServer
  sending := h.sending
  clientLine := h.clientLine
  finished := h.finished
  waiting := by simp
  peerLine := nofun
  answering := nofun
  toClient := h.toClient

/-- The request of a connection is handled. -/
lemma answered (h : Connected wire request answer c) (hnone : answer = none)
    (hempty : c.toClient.written = []) {start : List UInt8} (hpeer : c.peer = .reading start)
    (count : ℕ) {result : Option Json} {peer : Peer}
    (hresult : (∃ response quit, result = some response ∧
      peer = .answering (wire.message response) quit) ∨ peer = .closed) :
    Connected wire request (some result)
      { c with peer := peer, toServer := c.toServer.read count } where
  idle hclient := by
    have habsent := (h.idle hclient).1
    rw [hpeer] at habsent
    cases habsent
  toServer := h.toServer
  sending := h.sending
  clientLine := h.clientLine
  finished response hclient := by
    have hanswer := h.finished response hclient
    rw [hnone] at hanswer
    cases hanswer
  waiting hwaiting := by
    rcases hresult with ⟨response, quit, -, rfl⟩ | rfl <;> simp at hwaiting
  peerLine line hline := by
    rcases hresult with ⟨response, quit, -, rfl⟩ | rfl <;> cases hline
  answering rest quit hanswering := by
    rcases hresult with ⟨response, quit', rfl, rfl⟩ | rfl
    · cases hanswering
      exact ⟨response, rfl, by rw [hempty, List.nil_append]⟩
    · cases hanswering
  toClient := Or.inl hempty

/-- The request that the server reads is the one of the client. -/
lemma readsLine (h : Connected wire request answer c) (hfits : wire.Fits request)
    {line : List UInt8} {count : ℕ} (hline : ReadsLine c line count) :
    line = wire.dump request ∧ answer = none ∧ c.toClient.written = [] := by
  obtain ⟨start, hpeer, hread, hline⟩ := hline.exists_start
  obtain ⟨hreceived, -, hanswer⟩ := h.peerLine _ hpeer
  rw [← hreceived] at hline
  refine ⟨hfits.complete h.toServer hline, hanswer, ?_⟩
  rcases h.toClient with hempty | ⟨value, hsome, -⟩
  · exact hempty
  · rw [hanswer] at hsome
    cases hsome

end Connected

/-! ### All connections -/

variable {wire : Wire} {request : ℕ → Json} {serve : Json → σ → Option (Json × σ × Bool)}
  {engine : σ} {s s' : System σ}

/-- What the handler has made of the requests of some clients, one after the other. -/
inductive Handles (request : ℕ → Json) (serve : Json → σ → Option (Json × σ × Bool)) (engine : σ) :
    List (ℕ × Option Json) → σ → Prop
  | start : Handles request serve engine [] engine
  | response {handled : List (ℕ × Option Json)} {before after : σ} {n : ℕ} {response : Json}
      {quit : Bool} (h : Handles request serve engine handled before)
      (hserve : serve (request n) before = some (response, after, quit)) :
      Handles request serve engine (handled ++ [(n, some response)]) after
  | throw {handled : List (ℕ × Option Json)} {before : σ} {n : ℕ}
      (h : Handles request serve engine handled before) (hserve : serve (request n) before = none) :
      Handles request serve engine (handled ++ [(n, none)]) before

/-- A request is handled in a state of the handler: the one that the requests handled before it have
left. -/
def HandledIn (request : ℕ → Json) (serve : Json → σ → Option (Json × σ × Bool)) (engine : σ)
    (handled : List (ℕ × Option Json)) (n : ℕ) (answer : Option Json) (before : σ) : Prop :=
  ∃ prior, Handles request serve engine prior before ∧ prior ++ [(n, answer)] <+: handled

lemma HandledIn.mono {handled handled' : List (ℕ × Option Json)} {n : ℕ} {answer : Option Json}
    {before : σ} (h : HandledIn request serve engine handled n answer before)
    (hbegin : handled <+: handled') : HandledIn request serve engine handled' n answer before := by
  obtain ⟨prior, hprior, hhandled⟩ := h
  exact ⟨prior, hprior, hhandled.trans hbegin⟩

/-- The answer to a request is what the handler makes of it in the state in which it is handled. -/
lemma Handles.exists_handledIn {handled : List (ℕ × Option Json)} {after : σ}
    (h : Handles request serve engine handled after) {n : ℕ} {answer : Option Json}
    (hmem : (n, answer) ∈ handled) :
    ∃ before, HandledIn request serve engine handled n answer before ∧
      answer = (serve (request n) before).map Prod.fst := by
  induction h with
  | start => cases hmem
  | response h hserve ih =>
      rcases List.mem_append.1 hmem with hmem | hmem
      · obtain ⟨before, hin, hanswer⟩ := ih hmem
        exact ⟨before, hin.mono (List.prefix_append _ _), hanswer⟩
      · cases List.mem_singleton.1 hmem
        exact ⟨_, ⟨_, h, List.prefix_rfl⟩, by rw [hserve]; rfl⟩
  | throw h hserve ih =>
      rcases List.mem_append.1 hmem with hmem | hmem
      · obtain ⟨before, hin, hanswer⟩ := ih hmem
        exact ⟨before, hin.mono (List.prefix_append _ _), hanswer⟩
      · cases List.mem_singleton.1 hmem
        exact ⟨_, ⟨_, h, List.prefix_rfl⟩, by rw [hserve]; rfl⟩

/-- What holds in every state. -/
structure Consistent (wire : Wire) (request : ℕ → Json)
    (serve : Json → σ → Option (Json × σ × Bool)) (engine : σ) (s : System σ) : Prop where
  connected : ∀ n, Connected wire (request n) (s.handled.lookup n) (s.connection n)
  queue_nodup : s.queue.Nodup
  queued : ∀ n ∈ s.queue, (s.connection n).peer = .queued
  handled_nodup : (s.handled.map Prod.fst).Nodup
  handles : Handles request serve engine s.handled s.engine

/-- All texts are read back as they were written. -/
structure Wire.Carries (wire : Wire) (request : ℕ → Json)
    (serve : Json → σ → Option (Json × σ × Bool)) : Prop where
  fits_request : ∀ n, wire.Fits (request n)
  fits_response : ∀ {n state response state' quit},
    serve (request n) state = some (response, state', quit) → wire.Fits response

lemma Handles.fits (hwire : wire.Carries request serve) {handled : List (ℕ × Option Json)} {after : σ}
    (h : Handles request serve engine handled after) {n : ℕ} {response : Json}
    (hmem : (n, some response) ∈ handled) : wire.Fits response := by
  obtain ⟨before, -, hanswer⟩ := h.exists_handledIn hmem
  obtain ⟨⟨response', state', quit⟩, hserve, rfl⟩ := Option.map_eq_some_iff.1 hanswer.symm
  exact hwire.fits_response hserve

@[simp]
lemma System.connection_set (s : System σ) (n : ℕ) (c : Connection) :
    (s.set n c).connection n = c := Function.update_self _ _ _

lemma System.connection_set_of_ne (s : System σ) {n m : ℕ} (h : m ≠ n) (c : Connection) :
    (s.set n c).connection m = s.connection m := Function.update_of_ne h _ _

namespace Consistent

lemma fits (h : Consistent wire request serve engine s) (hwire : wire.Carries request serve) {n : ℕ}
    {response : Json} (hanswer : s.handled.lookup n = some (some response)) :
    wire.Fits response := by
  obtain ⟨pre, post, hhandled, -⟩ := List.lookup_eq_some_iff.1 hanswer
  exact h.handles.fits hwire (n := n) (by rw [hhandled]; simp)

/-- A step that changes one connection and no more of what is handled. -/
lemma set (h : Consistent wire request serve engine s) {n : ℕ} {c : Connection} {s' : System σ}
    (hconnection : s'.connection = (s.set n c).connection) (hhandled : s'.handled = s.handled)
    (hengine : s'.engine = s.engine)
    (hc : Connected wire (request n) (s.handled.lookup n) c) (hnodup : s'.queue.Nodup)
    (hqueued : ∀ m ∈ s'.queue, m = n ∧ c.peer = .queued ∨ m ≠ n ∧ m ∈ s.queue) :
    Consistent wire request serve engine s' where
  connected m := by
    rw [hconnection, hhandled]
    by_cases hm : m = n
    · subst hm
      simpa using hc
    · rw [System.connection_set_of_ne _ hm]
      exact h.connected m
  queue_nodup := hnodup
  queued m hm := by
    rw [hconnection]
    rcases hqueued m hm with ⟨rfl, hpeer⟩ | ⟨hne, hmem⟩
    · simpa using hpeer
    · rw [System.connection_set_of_ne _ hne]
      exact h.queued m hmem
  handled_nodup := hhandled ▸ h.handled_nodup
  handles := hhandled ▸ hengine ▸ h.handles

/-- A step that handles the request of one client. -/
lemma handle (h : Consistent wire request serve engine s) {n : ℕ} {c : Connection} {s' : System σ}
    {answer : Option Json} (hconnection : s'.connection = (s.set n c).connection)
    (hhandled : s'.handled = s.handled ++ [(n, answer)]) (hqueue : s'.queue = s.queue)
    (hnone : s.handled.lookup n = none) (hpeer : (s.connection n).peer ≠ .queued)
    (hc : Connected wire (request n) (some answer) c)
    (hhandles : Handles request serve engine (s.handled ++ [(n, answer)]) s'.engine) :
    Consistent wire request serve engine s' where
  connected m := by
    rw [hconnection, hhandled, List.lookup_append]
    by_cases hm : m = n
    · subst hm
      simpa [hnone] using hc
    · rw [System.connection_set_of_ne _ hm, List.lookup_cons, beq_false_of_ne hm]
      simpa using h.connected m
  queue_nodup := hqueue ▸ h.queue_nodup
  queued m hm := by
    rw [hqueue] at hm
    have hne : m ≠ n := by
      rintro rfl
      exact hpeer (h.queued m hm)
    rw [hconnection, System.connection_set_of_ne _ hne]
    exact h.queued m hm
  handled_nodup := by
    rw [hhandled, List.map_append, List.nodup_append]
    refine ⟨h.handled_nodup, List.nodup_singleton _, ?_⟩
    rintro m hm _ hm' rfl
    obtain ⟨entry, hentry, rfl⟩ := List.mem_map.1 hm
    obtain rfl : entry.1 = n := by simpa using hm'
    have := List.lookup_eq_none_iff.1 hnone entry hentry
    simp at this
  handles := hhandled ▸ hhandles

/-- A queue that does not change. -/
lemma queued_or (h : Consistent wire request serve engine s) {n : ℕ} {c : Connection}
    (hpeer : (s.connection n).peer = .queued → c.peer = .queued) :
    ∀ m ∈ s.queue, m = n ∧ c.peer = .queued ∨ m ≠ n ∧ m ∈ s.queue := by
  intro m hm
  by_cases hmn : m = n
  · exact Or.inl ⟨hmn, hpeer (hmn ▸ h.queued m hm)⟩
  · exact Or.inr ⟨hmn, hm⟩

lemma step (h : Consistent wire request serve engine s) (hwire : wire.Carries request serve)
    (hstep : Step wire request serve s s') : Consistent wire request serve engine s' := by
  cases hstep with
  | connect n hidle hserver =>
      have hn := h.connected n
      obtain ⟨habsent, hwritten, hempty⟩ := hn.idle hidle
      have hnot : n ∉ s.queue := by
        intro hmem
        have hqueued := h.queued n hmem
        rw [habsent] at hqueued
        cases hqueued
      have hwaiting := hn.waiting (Or.inl habsent)
      refine h.set rfl rfl rfl { hn with
        idle := nofun
        sending := ?_
        clientLine := nofun
        finished := nofun
        waiting := fun _ => hwaiting
        peerLine := nofun
        answering := nofun } (List.nodup_append.2 ⟨h.queue_nodup, List.nodup_singleton n, ?_⟩) ?_
      · rintro _ ⟨⟩
        refine ⟨by rw [hwritten, List.nil_append], ?_⟩
        exact List.prefix_nil.1 (hempty ▸ (s.connection n).toClient.received_isPrefix)
      · rintro m hm _ hm' rfl
        obtain rfl := List.mem_singleton.1 hm'
        exact hnot hm
      · intro m hm
        rcases List.mem_append.1 hm with hm | hm
        · exact Or.inr ⟨fun hmn => hnot (hmn ▸ hm), hm⟩
        · exact Or.inl ⟨List.mem_singleton.1 hm, rfl⟩
  | refused n hidle =>
      have hn := h.connected n
      exact h.set rfl rfl rfl { hn with
        idle := nofun
        sending := nofun
        clientLine := nofun
        finished := nofun } h.queue_nodup (h.queued_or id)
  | client n hclient =>
      refine h.set rfl rfl rfl ((h.connected n).clientStep (fun _ => h.fits hwire) hclient)
        h.queue_nodup (h.queued_or ?_)
      cases hclient <;> exact id
  | accept n rest hserver hqueue =>
      have hn := h.connected n
      have hqueued := h.queued n (by rw [hqueue]; exact List.mem_cons_self)
      obtain ⟨hnot, hrest⟩ := List.nodup_cons.1 (hqueue ▸ h.queue_nodup)
      obtain ⟨hreceived, hnone⟩ := hn.waiting (Or.inr hqueued)
      refine h.set rfl rfl rfl { hn with
        idle := ?_
        waiting := by simp
        peerLine := ?_
        answering := nofun } hrest ?_
      · intro hidle
        have habsent := (hn.idle hidle).1
        rw [hqueued] at habsent
        cases habsent
      · rintro _ ⟨⟩
        exact ⟨hreceived, by simp, hnone⟩
      · intro m hm
        refine Or.inr ⟨fun hmn => hnot (hmn ▸ hm), ?_⟩
        rw [hqueue]
        exact List.mem_cons_of_mem n hm
  | peer n hserver hpeer =>
      refine h.set rfl rfl rfl ((h.connected n).peerStep hpeer) h.queue_nodup (h.queued_or ?_)
      intro hqueued
      cases hpeer with
      | read hpeer => exact absurd (hqueued.symm.trans hpeer) nofun
      | write hpeer => exact absurd (hqueued.symm.trans hpeer) nofun
  | reject n hserver hpeer =>
      refine h.set rfl rfl rfl ((h.connected n).close (by rw [hpeer]; nofun)) h.queue_nodup
        (h.queued_or fun hqueued => ?_)
      exact absurd (hqueued.symm.trans hpeer) nofun
  | @handle n line count value response engine' quit hserver hreads hparse hserve =>
      have hn := h.connected n
      obtain ⟨rfl, hnone, hempty⟩ := hn.readsLine (hwire.fits_request n) hreads
      obtain ⟨start, hpeer, -⟩ := hreads.exists_start
      obtain rfl := Option.some.inj ((hwire.fits_request n).parse_dump.symm.trans hparse)
      exact h.handle rfl rfl rfl hnone (by rw [hpeer]; nofun)
        (hn.answered hnone hempty hpeer count (Or.inl ⟨response, _, rfl, rfl⟩))
        (h.handles.response hserve)
  | @crash n line count value hserver hreads hparse hserve =>
      have hn := h.connected n
      obtain ⟨rfl, hnone, hempty⟩ := hn.readsLine (hwire.fits_request n) hreads
      obtain ⟨start, hpeer, -⟩ := hreads.exists_start
      obtain rfl := Option.some.inj ((hwire.fits_request n).parse_dump.symm.trans hparse)
      exact h.handle rfl rfl rfl hnone (by rw [hpeer]; nofun)
        (hn.answered hnone hempty hpeer count (Or.inr rfl)) (h.handles.throw hserve)
  | close n hserver hpeer =>
      refine h.set rfl rfl rfl ((h.connected n).close (by rw [hpeer]; nofun)) h.queue_nodup
        (h.queued_or fun hqueued => ?_)
      exact absurd (hqueued.symm.trans hpeer) nofun

end Consistent

/-- Every state of a run is consistent. -/
lemma Run.consistent (hwire : wire.Carries request serve) (h : Run wire request serve engine s) :
    Consistent wire request serve engine s := by
  induction h with
  | init =>
      refine ⟨fun n => ⟨fun _ => ⟨rfl, rfl, rfl⟩, List.nil_prefix, nofun, nofun, nofun,
        fun _ => ⟨rfl, rfl⟩, nofun, nofun, Or.inl rfl⟩, List.nodup_nil, by simp [System.init], ?_, .start⟩
      exact List.nodup_nil
  | step _ hstep ih => exact ih.step hwire hstep

/-- In every state of every run the server has handled requests as the clients sent them, each at
most once and one after the other, and a client that has a response has the one to its request. -/
theorem Run.served (hwire : wire.Carries request serve) (h : Run wire request serve engine s) :
    Handles request serve engine s.handled s.engine ∧ (s.handled.map Prod.fst).Nodup ∧
      ∀ n response, (s.connection n).client = .finished (some response) →
        (n, some response) ∈ s.handled := by
  have hconsistent := h.consistent hwire
  refine ⟨hconsistent.handles, hconsistent.handled_nodup, fun n response hclient => ?_⟩
  obtain ⟨pre, post, hhandled, -⟩ := List.lookup_eq_some_iff.1
    ((hconsistent.connected n).finished response hclient)
  rw [hhandled]
  simp

/-- A request was handled that asks the server to quit. -/
def Quits (request : ℕ → Json) (serve : Json → σ → Option (Json × σ × Bool)) (engine : σ)
    (handled : List (ℕ × Option Json)) (n : ℕ) : Prop :=
  ∃ before response after, HandledIn request serve engine handled n (some response) before ∧
    serve (request n) before = some (response, after, true)

lemma Quits.mono {handled handled' : List (ℕ × Option Json)} {n : ℕ}
    (h : Quits request serve engine handled n) (hbegin : handled <+: handled') :
    Quits request serve engine handled' n := by
  obtain ⟨before, response, after, hin, hserve⟩ := h
  exact ⟨before, response, after, hin.mono hbegin, hserve⟩

/-- What holds while the server goes on, and when it has ended. -/
structure Ending (request : ℕ → Json) (serve : Json → σ → Option (Json × σ × Bool)) (engine : σ)
    (s : System σ) : Prop where
  quitting : ∀ n rest, (s.connection n).peer = .answering rest true →
    Quits request serve engine s.handled n
  ended : s.server = .ended →
    (∃ n, (n, none) ∈ s.handled) ∨ ∃ n, Quits request serve engine s.handled n

namespace Ending

/-- A step that changes one connection, with what it says about the end of the server. -/
lemma set (h : Ending request serve engine s) {n : ℕ} {c : Connection} {s' : System σ}
    (hconnection : s'.connection = (s.set n c).connection) (hhandled : s.handled <+: s'.handled)
    (hc : ∀ rest, c.peer = .answering rest true → Quits request serve engine s'.handled n)
    (hserver : s'.server = .ended →
      (∃ n, (n, none) ∈ s'.handled) ∨ ∃ n, Quits request serve engine s'.handled n) :
    Ending request serve engine s' where
  quitting m rest hm := by
    rw [hconnection] at hm
    by_cases hmn : m = n
    · subst hmn
      rw [System.connection_set] at hm
      exact hc rest hm
    · rw [System.connection_set_of_ne _ hmn] at hm
      exact (h.quitting m rest hm).mono hhandled
  ended := hserver

lemma step (h : Ending request serve engine s) (hwire : wire.Carries request serve)
    (hconsistent : Consistent wire request serve engine s)
    (hstep : Step wire request serve s s') : Ending request serve engine s' := by
  cases hstep with
  | connect n hidle hserver => exact h.set rfl List.prefix_rfl nofun h.ended
  | refused n hidle => exact h.set rfl List.prefix_rfl (h.quitting n) h.ended
  | client n hclient =>
      refine h.set rfl List.prefix_rfl (fun rest hpeer => h.quitting n rest ?_) h.ended
      cases hclient <;> exact hpeer
  | accept n rest hserver hqueue => exact h.set rfl List.prefix_rfl nofun nofun
  | peer n hserver hpeer =>
      refine h.set rfl List.prefix_rfl (fun rest hanswering => ?_) h.ended
      cases hpeer with
      | read => cases hanswering
      | write hpeer =>
          cases hanswering
          exact h.quitting n _ hpeer
  | reject n hserver hpeer => exact h.set rfl List.prefix_rfl nofun nofun
  | @handle n line count value response engine' quit hserver hreads hparse hserve =>
      obtain ⟨rfl, -, -⟩ := (hconsistent.connected n).readsLine (hwire.fits_request n) hreads
      obtain rfl := Option.some.inj ((hwire.fits_request n).parse_dump.symm.trans hparse)
      refine h.set rfl (List.prefix_append _ _) (fun rest hanswering => ?_) fun hended => ?_
      · cases hanswering
        exact ⟨s.engine, response, engine', ⟨s.handled, hconsistent.handles, List.prefix_rfl⟩, hserve⟩
      · exact absurd (hserver.symm.trans hended) nofun
  | crash n hserver hreads hparse hserve =>
      exact h.set rfl (List.prefix_append _ _) nofun fun _ => Or.inl ⟨n, by simp⟩
  | @close n rest quit hserver hpeer =>
      refine h.set rfl List.prefix_rfl nofun fun hended => ?_
      cases quit with
      | true => exact Or.inr ⟨n, h.quitting n rest hpeer⟩
      | false => cases hended

end Ending

/-- The server ends when a request asks for it or when its handler throws. -/
theorem Run.ending (hwire : wire.Carries request serve) (h : Run wire request serve engine s) :
    Ending request serve engine s := by
  induction h with
  | init => exact ⟨nofun, nofun⟩
  | step h hstep ih => exact ih.step hwire (h.consistent hwire) hstep

/-! ### One request -/

/-- A whole line can be read at once. -/
lemma canRead_message {value : Json} (hfits : wire.Fits value)
    (hlength : (wire.message value).length ≤ 4096) :
    CanRead (Channel.empty.write (wire.message value)) [] (wire.message value).length ∧
      appendChunk [] ((Channel.empty.write (wire.message value)).pending.take
        (wire.message value).length) = .complete (wire.dump value) := by
  have hpending : (Channel.empty.write (wire.message value)).pending = wire.message value := by
    simp [Channel.pending, Channel.write, Channel.empty]
  have hmem : newline ∈ wire.message value := by simp [Wire.message]
  refine ⟨⟨by simp, List.length_pos_of_mem hmem, hlength, by rw [hpending]⟩, ?_⟩
  have htext : (wire.message value).takeWhile (· ≠ newline) = wire.dump value :=
    takeWhile_eq_of_prefix hfits.newline_notMem List.prefix_rfl hmem
  rw [hpending, List.take_length, appendChunk, List.nil_append, if_pos hmem, htext]

/-- A client whose request is short can get its response. -/
lemma exists_run_answered {response : Json} {after : σ} {quit : Bool}
    (hwire : wire.Carries request serve)
    (hserve : serve (request 0) engine = some (response, after, quit))
    (hrequest : (wire.message (request 0)).length ≤ 4096)
    (hresponse : (wire.message response).length ≤ 4096) :
    ∃ s, Run wire request serve engine s ∧
      (s.connection 0).client = .finished (some response) := by
  have hfits := hwire.fits_response hserve
  obtain ⟨hread, hline⟩ := canRead_message (hwire.fits_request 0) hrequest
  obtain ⟨hread', hline'⟩ := canRead_message hfits hresponse
  have hinit : Run wire request serve engine (.init engine) := .init
  have hconnect := hinit.step (.connect 0 rfl nofun)
  have hwrite := hconnect.step (.client 0 (@ClientStep.write _ _ (wire.message (request 0)) []
    (by rw [List.append_nil]; rfl) (by simp [Wire.message])))
  have hshutdown := hwrite.step (.client 0 (.shutdown rfl))
  have haccept := hshutdown.step (.accept 0 [] rfl rfl)
  have hhandle := haccept.step (@Step.handle _ _ _ _ _ 0 _ _ _ _ _ _ rfl ⟨[], rfl, hread, hline⟩
    (hwire.fits_request 0).parse_dump hserve)
  have hanswer := hhandle.step (.peer 0 rfl (@PeerStep.write _ (wire.message response) [] _
    (by rw [List.append_nil]; rfl) (by simp [Wire.message])))
  have hreceive := hanswer.step (.client 0 (.receive rfl hread' hline'))
  refine ⟨_, hreceive, ?_⟩
  show Client.finished (wire.parse (wire.dump response)) = _
  rw [hfits.parse_dump]

/-- The texts of `null` and `true`. -/
def literals : Wire where
  dump
    | .null => "null".toUTF8.data.toList
    | .bool true => "true".toUTF8.data.toList
    | _ => []
  parse text :=
    if text = "null".toUTF8.data.toList then some .null
    else if text = "true".toUTF8.data.toList then some (.bool true)
    else none

/-- A server that answers `true` and goes on. -/
def agree : Json → Unit → Option (Json × Unit × Bool) := fun _ _ => some (.bool true, (), false)

lemma carries_literals : literals.Carries (fun _ => .null) agree where
  fits_request _ := ⟨by decide, rfl⟩
  fits_response h := by
    cases h
    exact ⟨by decide, rfl⟩

/-- The client of a run gets what the server has handled for it. -/
theorem run_served_literals : ∃ s, Run literals (fun _ => .null) agree () s ∧
    (s.connection 0).client = .finished (some (.bool true)) ∧
    (0, some (.bool true)) ∈ s.handled := by
  have hserve : agree .null () = some (.bool true, (), false) := rfl
  obtain ⟨s, hrun, hclient⟩ := exists_run_answered carries_literals hserve (by decide) (by decide)
  exact ⟨s, hrun, hclient, (hrun.served carries_literals).2.2 0 _ hclient⟩

end XdebugFst.Session.Transport
