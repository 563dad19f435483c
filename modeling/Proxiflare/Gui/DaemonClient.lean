import Proxiflare.Lib.Lines
import Proxiflare.Daemon.Ipc

/-!
# The client of the GUI

`DaemonClient` of `gui/src-tauri/src/ipc.rs` on its cached stream, and the daemon at
the other end. The stream mutex is held for a whole `send_request`, so at most one
call is under way. `serde_json` and `String::from_utf8` are parameters.
-/

namespace Proxiflare.Gui

open Lib.CString Lib.Lines
open Proxiflare.Daemon

variable {ν σ : Type}

/-- The text formats between the two: `print_number` of cJSON; `serde_json::to_string` and
`from_str`; what `String::from_utf8` accepts; an id as a JSON number. -/
structure Wire (ν : Type) where
  printNumber : ν → CStr
  toText : Cjson ν → CStr
  fromUtf8 : CStr → Bool
  fromText : CStr → Option (Cjson ν)
  ofId : Nat → ν

inductive ClientError where
  | notReachable | write | read | utf8 | closed | json
  | daemon (message : CStr)
  deriving DecidableEq

/-! ## What a response becomes -/

/-- `response.get(key)`. -/
def get : Cjson ν → CStr → Option (Cjson ν)
  | .obj members, key => (members.find? fun m => m.1 = key).map Prod.snd
  | _, _ => none

/-- `as_str`. -/
def asStr : Cjson ν → Option CStr
  | .str s => some s
  | _ => none

/-- The daemon wraps its results twice; both levels are taken off. -/
def unwrapResponse (response : Cjson ν) : Except ClientError (Cjson ν) :=
  match get response (lit "error") with
  | some error =>
    .error (.daemon (((get error (lit "message")).bind asStr).getD (lit "Unknown error")))
  | none =>
    let outer := (get response (lit "result")).getD .null
    match get outer (lit "result") with
    | some inner => .ok inner
    | none => .ok outer

/-- From the bytes of a line to the result of the call. -/
def readResponse (w : Wire ν) (responseBytes : CStr) : Except ClientError (Cjson ν) :=
  if !w.fromUtf8 responseBytes then .error .utf8
  else if responseBytes = [] then .error .closed
  else match w.fromText responseBytes with
    | none => .error .json
    | some response => unwrapResponse response

def requestOf (w : Wire ν) (id : Nat) (method : CStr) (params : Cjson ν) : Cjson ν :=
  .obj [(lit "id", .num (w.ofId id)), (lit "method", .str method), (lit "params", params)]

/-! ## A connection -/

/-- What a byte from the daemon belongs to: its reply to a request, or an event. The code never
sees this. -/
inductive Origin where
  | reply (request : Nat)
  | event
  deriving DecidableEq

/-- `pending`: request lines the daemon has not handled, with the request they are of. `slot`: the
daemon's client, `none` once it closed. `inbox`: bytes it wrote that were not read. -/
structure Conn where
  pending : List (Nat × CStr)
  slot : Option IpcClient
  inbox : List (UInt8 × Origin)
  deriving DecidableEq

def Conn.fresh (fd : Int) : Conn := ⟨[], some ⟨fd, [], false, false⟩, []⟩

def Conn.receive (c : Conn) (bytes : CStr) (origin : Origin) : Conn :=
  { c with inbox := c.inbox ++ bytes.map fun b => (b, origin) }

/-- The call that holds the mutex: its request line until it is written, then the response bytes
read so far. -/
inductive CallState where
  | writing (line : CStr)
  | reading (responseBytes : List (UInt8 × Origin))
  deriving DecidableEq

/-- A finished call and the origins of the bytes its result was made from. -/
structure Returned (ν : Type) where
  request : Nat
  result : Except ClientError (Cjson ν)
  sources : List Origin

structure Client (ν : Type) where
  stream : Option Conn
  call : Option (Nat × CallState)
  nextId : Nat
  returned : List (Returned ν)

def Client.new : Client ν := ⟨none, none, 1, []⟩

/-- A call returns, keeping or dropping the stream. -/
def Client.finish (g : Client ν) (stream : Option Conn) (request : Nat)
    (result : Except ClientError (Cjson ν)) (sources : List Origin) : Client ν :=
  { g with
    stream := stream
    call := none
    returned := g.returned ++ [⟨request, result, sources⟩] }

/-- The line is complete or the stream at its end. An empty line drops the stream. -/
def Client.lineEnd (w : Wire ν) (g : Client ν) (conn : Conn) (request : Nat)
    (bytes : List (UInt8 × Origin)) : Client ν :=
  g.finish (if bytes = [] then none else some conn) request (readResponse w (bytes.map Prod.fst))
    (bytes.map Prod.snd)

/-! ## Steps -/

/-- Steps of the GUI threads, of the daemon and of the world. `request` takes the mutex, `fd` being
the connection made where there is no stream. `serve` has the state the handler meets. -/
inductive ClientStep (ν σ : Type) where
  | connect (fd : Option Int)
  | request (method : CStr) (params : Cjson ν) (fd : Option Int)
  | writeAll
  | writeError
  | readByte
  | readEof
  | readError
  | serve (st : σ) (results : List WriteRes)
  | broadcastLog (event : Cjson ν) (results : List WriteRes)
  | broadcastStats (event : Cjson ν) (results : List WriteRes)
  | daemonClose

/-- The daemon handles the first pending line, if it fits its buffer. -/
def serveLine (env : IpcEnv ν σ) (w : Wire ν) (c : Conn) (st : σ) (results : List WriteRes) :
    Option Conn :=
  match c.slot, c.pending with
  | some slot, (k, line) :: rest =>
    if line.length + 1 < pfBufSize then
      let s := IpcSession.line env ⟨st, slot, [], []⟩ line
      let c' : Conn := { c with pending := rest, slot := some s.client }
      some (s.replies.foldl (fun c r =>
        c.receive (sendBytes results 0 (messageBytes w.printNumber r)) (.reply k)) c')
    else none
  | _, _ => none

def broadcast (w : Wire ν) (c : Conn) (subscribed : IpcClient → Bool) (msg : Cjson ν)
    (results : List WriteRes) : Option Conn :=
  if c.slot.any subscribed then
    some (c.receive (sendBytes results 0 (messageBytes w.printNumber msg)) .event)
  else none

def Client.step (env : IpcEnv ν σ) (w : Wire ν) (g : Client ν) : ClientStep ν σ → Option (Client ν)
  | .connect fd =>
    match g.call, fd with
    | none, some fd => some { g with stream := some (.fresh fd) }
    | none, none => some g
    | some _, _ => none
  | .request method params fd =>
    match g.call, g.stream.or (fd.map Conn.fresh) with
    | none, some conn => some { g with
        stream := some conn
        call := some (g.nextId, .writing (w.toText (requestOf w g.nextId method params)))
        nextId := g.nextId + 1 }
    | none, none => some (g.finish none g.nextId (.error .notReachable) [])
    | some _, _ => none
  | .writeAll =>
    match g.stream, g.call with
    | some conn, some (k, .writing line) => some { g with
        stream := some { conn with
          pending := conn.pending ++ (lines 10 (line ++ [10])).map fun l => (k, l) }
        call := some (k, .reading []) }
    | _, _ => none
  | .writeError =>
    match g.call with
    | some (k, .writing _) => some (g.finish none k (.error .write) [])
    | _ => none
  | .readByte =>
    match g.stream, g.call with
    | some conn, some (k, .reading bytes) =>
      match conn.inbox with
      | [] => none
      | (b, o) :: inbox =>
        if b = 10 then some (g.lineEnd w { conn with inbox := inbox } k bytes)
        else some { g with
          stream := some { conn with inbox := inbox }
          call := some (k, .reading (bytes ++ [(b, o)])) }
    | _, _ => none
  | .readEof =>
    match g.stream, g.call with
    | some conn, some (k, .reading bytes) =>
      if conn.slot = none ∧ conn.inbox = [] then some (g.lineEnd w conn k bytes) else none
    | _, _ => none
  | .readError =>
    match g.call with
    | some (k, .reading _) => some (g.finish none k (.error .read) [])
    | _ => none
  | .serve st results =>
    (g.stream.bind fun conn => serveLine env w conn st results).map fun conn =>
      { g with stream := some conn }
  | .broadcastLog event results =>
    (g.stream.bind fun conn => broadcast w conn (·.subscribedLog) (eventMessage "log.entry" event)
      results).map fun conn => { g with stream := some conn }
  | .broadcastStats event results =>
    (g.stream.bind fun conn => broadcast w conn (·.subscribedStats)
      (eventMessage "stats.update" event) results).map fun conn => { g with stream := some conn }
  | .daemonClose => g.stream.map fun conn => { g with stream := some { conn with slot := none } }

end Proxiflare.Gui
