import Proxiflare.Daemon.Cjson
import Proxiflare.Daemon.Types

/-!
# The IPC server

`daemon/src/ipc.c` and the dispatch of its descriptors in the main loop. A client's
buffer is `buf[0 .. buf_len)`. `cJSON_Parse` and the request handler are parameters;
`σ` is the state the handler works on.
-/

namespace Proxiflare.Daemon

open Lib.CString

def pfMaxClients : Nat := 16

structure IpcClient where
  fd : Int
  buf : CStr
  subscribedLog : Bool
  subscribedStats : Bool
  deriving DecidableEq

/-- A free slot. -/
def IpcClient.free : IpcClient := ⟨-1, [], false, false⟩

variable {ν σ : Type}

/-- `ofInt` is the conversion of a C integer to a double. -/
structure IpcEnv (ν σ : Type) where
  ofInt : Int → ν
  parse : CStr → Option (Cjson ν)
  handler : σ → CStr → Option (Cjson ν) → Option (Cjson ν) × σ

/-! ## One request -/

/-- The id is reflected when it is a number. -/
def replyId (req : Cjson ν) : Cjson ν :=
  match req.getItem (lit "id") with
  | some (.num n) => .num n
  | _ => .null

def errorObject (env : IpcEnv ν σ) (code : Int) (message : String) : Cjson ν :=
  .obj [(lit "code", .num (env.ofInt code)), (lit "message", .str (lit message))]

def reply (req : Cjson ν) (key : String) (value : Cjson ν) : Cjson ν :=
  .obj [(lit "id", replyId req), (lit key, value)]

/-- The subscription methods, with what they set. -/
def builtin (c : IpcClient) (method : CStr) : Option IpcClient :=
  if method = lit "log.subscribe" then some { c with subscribedLog := true }
  else if method = lit "log.unsubscribe" then some { c with subscribedLog := false }
  else if method = lit "stats.subscribe" then some { c with subscribedStats := true }
  else if method = lit "stats.unsubscribe" then some { c with subscribedStats := false }
  else none

/-- The response to a parsed request, the handler's state and the client after it. -/
def respond (env : IpcEnv ν σ) (st : σ) (c : IpcClient) (req : Cjson ν) : Cjson ν × σ × IpcClient :=
  match (req.getItem (lit "method")).bind Cjson.stringValue with
  | none => (reply req "error" (errorObject env (-32600) "Invalid Request: missing method"), st, c)
  | some method =>
    match builtin c method with
    | some c' => (reply req "result" (.bool true), st, c')
    | none =>
      let (result, st') := env.handler st method (req.getItem (lit "params"))
      match result with
      | some v => (reply req "result" v, st', c)
      | none =>
        (reply req "error" (errorObject env (-1) "method not found or internal error"), st', c)

theorem respond_reply (env : IpcEnv ν σ) (st : σ) (c : IpcClient) (req : Cjson ν) :
    ∃ key value, (respond env st c req).1 = reply req key value := by
  unfold respond
  split
  · exact ⟨_, _, rfl⟩
  · split
    · exact ⟨_, _, rfl⟩
    · dsimp only
      split
      · exact ⟨_, _, rfl⟩
      · exact ⟨_, _, rfl⟩

/-- Only the subscription methods change the client. -/
theorem respond_client (env : IpcEnv ν σ) (st : σ) (c : IpcClient) (req : Cjson ν) :
    (respond env st c req).2.2 = c ∨
      ∃ method, (req.getItem (lit "method")).bind Cjson.stringValue = some method ∧
        builtin c method = some (respond env st c req).2.2 := by
  unfold respond
  split
  · exact .inl rfl
  · next method hmethod =>
    split
    · next c' hbuiltin => exact .inr ⟨method, hmethod, hbuiltin⟩
    · dsimp only
      split
      · exact .inl rfl
      · exact .inl rfl

/-! ## The lines of a buffer -/

/-- `lines` are the arguments of `cJSON_Parse` up to their newline, `replies` the responses passed
to `pf_ipc_send`. -/
structure IpcSession (ν σ : Type) where
  state : σ
  client : IpcClient
  lines : List CStr
  replies : List (Cjson ν)

/-- One line: `cJSON_Parse` reads up to its first NUL. -/
def IpcSession.line (env : IpcEnv ν σ) (s : IpcSession ν σ) (line : CStr) : IpcSession ν σ :=
  match env.parse (cstr line) with
  | none => { s with lines := s.lines ++ [line] }
  | some req =>
    let (response, st, c) := respond env s.state s.client req
    ⟨st, c, s.lines ++ [line], s.replies ++ [response]⟩

/-- The offset `memchr` finds. -/
def memchr (s : CStr) (c : UInt8) : Option Nat := s.findIdx? (· = c)

theorem memchr_append {s : CStr} {c : UInt8} (h : c ∉ s) (rest : CStr) :
    memchr (s ++ c :: rest) c = some s.length := by
  rw [memchr, List.findIdx?_append]
  have hnone : s.findIdx? (fun b => decide (b = c)) = none := by
    rw [List.findIdx?_eq_none_iff]
    intro b hb
    exact decide_eq_false fun heq => h (heq ▸ hb)
  rw [hnone, List.findIdx?_cons]
  simp

theorem memchr_lt {s : CStr} {c : UInt8} {i : Nat} (h : memchr s c = some i) : i < s.length :=
  (List.findIdx?_eq_some_iff_getElem.mp h).1

theorem memchr_getElem? {s : CStr} {c : UInt8} {i : Nat} (h : memchr s c = some i) :
    s[i]? = some c := by
  obtain ⟨hi, hat, -⟩ := List.findIdx?_eq_some_iff_getElem.mp h
  rw [List.getElem?_eq_getElem hi, of_decide_eq_true hat]

theorem memchr_none {start : CStr} {c : UInt8} (h : memchr start c = none) : c ∉ start := by
  intro hmem
  have hfalse := List.findIdx?_eq_none_iff.mp h c hmem
  simp at hfalse

theorem memchr_some {start : CStr} {c : UInt8} {i : Nat} (h : memchr start c = some i) :
    c ∉ start.take i ∧ start = start.take i ++ c :: start.drop (i + 1) := by
  obtain ⟨hi, hat, hbefore⟩ := List.findIdx?_eq_some_iff_getElem.mp h
  constructor
  · intro hmem
    obtain ⟨j, hj, hget⟩ := List.getElem_of_mem hmem
    rw [List.length_take] at hj
    have hne := hbefore j (by omega)
    rw [List.getElem_take] at hget
    simp [hget] at hne
  · have hsplit := (List.take_append_drop i start).symm
    rw [List.drop_eq_getElem_cons hi] at hsplit
    rwa [of_decide_eq_true hat] at hsplit

/-- `while (remaining > 0)`, at most `n` turns; what is left when it ends. -/
def processLines (env : IpcEnv ν σ) : Nat → CStr → IpcSession ν σ → CStr × IpcSession ν σ
  | 0, start, s => (start, s)
  | n + 1, start, s =>
    match memchr start 10 with
    | none => (start, s)
    | some lineLen => processLines env n (start.drop (lineLen + 1)) (s.line env (start.take lineLen))

/-! ## `pf_ipc_process` on one client -/

/-- What `read` returns: `data []` is the end of the stream. -/
inductive ReadRes where
  | data (bytes : CStr)
  | again
  | error
  deriving DecidableEq

/-- `PF_BUF_SIZE - buf_len - 1`. -/
def IpcClient.space (c : IpcClient) : Nat := pfBufSize - c.buf.length - 1

/-- `none` when the client is removed. -/
def processClient (env : IpcEnv ν σ) (s : IpcSession ν σ) (rd : ReadRes) :
    Option (IpcSession ν σ) :=
  if s.client.space = 0 then none
  else match rd with
    | .again => some s
    | .error => none
    | .data [] => none
    | .data (b :: bytes) =>
      let buf := s.client.buf ++ (b :: bytes).take s.client.space
      let (left, s') := processLines env buf.length buf s
      some { s' with client := { s'.client with buf := left } }

/-! ## `pf_ipc_send` -/

/-- What `write` returns: a count, or the error. -/
inductive WriteRes where
  | wrote (n : Nat)
  | eintr | eagain | error
  deriving DecidableEq

/-- The bytes taken by the loop `while (sent < total)`. A result list shorter than the loop means
that the next `write` takes the rest. -/
def sendBytes : List WriteRes → Nat → CStr → CStr
  | _, _, [] => []
  | [], _, left => left
  | .wrote n :: rs, _, left => left.take n ++ sendBytes rs 0 (left.drop n)
  | .eintr :: rs, retries, left => sendBytes rs retries left
  | .eagain :: rs, retries, left => if retries < 50 then sendBytes rs (retries + 1) left else []
  | .error :: _, _, _ => []

/-- A message on the wire, and the `write` results of its `pf_ipc_send`. -/
structure Delivery where
  message : CStr
  results : List WriteRes
  deriving DecidableEq

def messageBytes (printNumber : ν → CStr) (msg : Cjson ν) : CStr := msg.print printNumber ++ [10]

/-- The calls of `pf_ipc_send` for some messages, one list of results each. No caller looks at what
they return. -/
def sendEach (printNumber : ν → CStr) : List (Cjson ν) → List (List WriteRes) → List Delivery
  | [], _ => []
  | msg :: msgs, results =>
    ⟨messageBytes printNumber msg, results.headD []⟩ :: sendEach printNumber msgs results.tail

/-! ## What is sent to one client -/

/-- `results` are those of the calls of `pf_ipc_send` the event makes for this client. -/
inductive ClientEvent (ν : Type) where
  | process (rd : ReadRes) (results : List (List WriteRes))
  | broadcastLog (event : Cjson ν) (results : List WriteRes)
  | broadcastStats (event : Cjson ν) (results : List WriteRes)

def eventMessage (name : String) (data : Cjson ν) : Cjson ν :=
  .obj [(lit "id", .null), (lit "event", .str (lit name)), (lit "data", data)]

/-- The client after an event, `none` once it is removed, and the deliveries. -/
def clientEvent (env : IpcEnv ν σ) (printNumber : ν → CStr) :
    Option (σ × IpcClient) → ClientEvent ν → Option (σ × IpcClient) × List Delivery
  | none, _ => (none, [])
  | some (st, c), .process rd results =>
    match processClient env ⟨st, c, [], []⟩ rd with
    | none => (none, [])
    | some s => (some (s.state, s.client), sendEach printNumber s.replies results)
  | some (st, c), .broadcastLog event results =>
    (some (st, c), if c.subscribedLog then
      sendEach printNumber [eventMessage "log.entry" event] [results] else [])
  | some (st, c), .broadcastStats event results =>
    (some (st, c), if c.subscribedStats then
      sendEach printNumber [eventMessage "stats.update" event] [results] else [])

def deliveries (env : IpcEnv ν σ) (printNumber : ν → CStr) :
    Option (σ × IpcClient) → List (ClientEvent ν) → List Delivery
  | _, [] => []
  | s, e :: es =>
    (clientEvent env printNumber s e).2 ++
      deliveries env printNumber (clientEvent env printNumber s e).1 es

/-! ## Client slots -/

/-- `clients` has `PF_MAX_CLIENTS` slots. -/
structure Ipc where
  clients : List IpcClient
  clientCount : Int
  deriving DecidableEq

def pfIpcInit : Ipc := ⟨List.replicate pfMaxClients .free, 0⟩

/-- `uid` is what `SO_PEERCRED` tells, `none` when it fails; `nonblock` whether `fcntl` succeeds.
Returns the slot. -/
def pfIpcAccept (ipc : Ipc) (cfd : Int) (uid : Option Nat) (nonblock : Bool) : Ipc × Option Nat :=
  if cfd < 0 then (ipc, none)
  else if uid.any fun uid => uid ≠ 0 && uid < 1000 then (ipc, none)
  else if pfMaxClients ≤ ipc.clientCount then (ipc, none)
  else if !nonblock then (ipc, none)
  else match ipc.clients.findIdx? fun c => c.fd < 0 with
    | some i => (⟨ipc.clients.set i ⟨cfd, [], false, false⟩, ipc.clientCount + 1⟩, some i)
    | none => (ipc, none)

/-- The descriptor is closed and the slot freed. -/
def clientRemove (ipc : Ipc) (idx : Nat) : Ipc :=
  ⟨ipc.clients.set idx .free, ipc.clientCount - 1⟩

/-- The server and the handler's state after one call on a slot. -/
def pfIpcProcess (env : IpcEnv ν σ) (st : σ) (ipc : Ipc) (idx : Nat) (rd : ReadRes) : Ipc × σ :=
  match ipc.clients[idx]? with
  | none => (ipc, st)
  | some c =>
    match processClient env ⟨st, c, [], []⟩ rd with
    | some s => ({ ipc with clients := ipc.clients.set idx s.client }, s.state)
    | none => (clientRemove ipc idx, st)

/-- The scan of the main loop for the slot of a descriptor, over the first `client_count` slots. -/
def dispatch (ipc : Ipc) (fd : Int) : Option Nat :=
  (ipc.clients.take ipc.clientCount.toNat).findIdx? fun c => c.fd = fd

end Proxiflare.Daemon
