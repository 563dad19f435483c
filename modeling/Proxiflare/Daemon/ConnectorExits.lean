import Proxiflare.Daemon.ConnectMemory
import Proxiflare.Lib.Ledger

/-!
# The exits of the connectors

`pf_socks4_connect`, `pf_socks5_connect`, `pf_http_connect` and `pf_chain_connect` with the
`close(fd); return -1;` at each exit where the source has one, and with the NULL pointers they
check for. The two that build an HTTP request do so on its buffers, as in `ConnectMemory`. On the
fields of a record, and where the buffers have room, they are the connectors of `Connectors`.
-/

namespace Proxiflare.Daemon.Exits

open Lib.CString Lib Lib.CBody Lib.Ledger

variable {α β : Type}

/-- A step that is followed by `close(fd); return -1;` where it fails. -/
def orClose (fd : Fd) (m : Act Net α) : Act Net α := m.onFail (closeFd fd)

/-! ## The connectors -/

def pfSocks4Connect (proxy : Option Proxy) (dst : Option CStr) (port : Int)
    (userid : Option CStr) : Act Net Fd :=
  match proxy, dst with
  | some p, some dst => do
    Act.require (validPort port)
    let userid := userid.getD []
    Act.require (socks4FitsRequest dst userid)
    let fd ← tcpConnect p
    Act.update (Net.emit (.reach p fd))
    orClose fd (sendAll fd ([0x04, 0x01] ++ portBytes port ++ [0x00, 0x00, 0x00, 0x01] ++ userid ++
      [0x00] ++ dst ++ [0x00]))
    let resp ← orClose fd (recvAll 8)
    orClose fd (Act.require (resp.getD 1 0 = 0x5A))
    pure fd
  | _, _ => Act.fail

def socks5Auth (fd : Fd) (user pass : CStr) (method : UInt8) : Act Net PUnit :=
  if method = 0x02 then do
    orClose fd (Act.require !user.isEmpty)
    orClose fd (sendAll fd ([0x01, UInt8.ofNat user.length] ++ user ++ [UInt8.ofNat pass.length] ++
      pass))
    let status ← orClose fd (recvAll 2)
    orClose fd (Act.require (status.getD 1 0 = 0x00))
  else pure ⟨⟩

/-- The `switch` on ATYP. -/
def socks5AddrLen (fd : Fd) (atyp : UInt8) : Act Net Nat :=
  if atyp = 0x01 then pure 4
  else if atyp = 0x04 then pure 16
  else if atyp = 0x03 then do
    let len ← orClose fd (recvAll 1)
    pure (len.getD 0 0).toNat
  else orClose fd Act.fail

/-- Without a user name the password is not looked at. -/
def pfSocks5Connect (proxy : Option Proxy) (dst : Option CStr) (port : Int)
    (username password : Option CStr) : Act Net Fd :=
  match proxy, dst with
  | some p, some dst => do
    Act.require (validPort port)
    let user := username.getD []
    let pass := password.getD []
    Act.require (socks5LengthsOk dst user pass)
    let fd ← tcpConnect p
    Act.update (Net.emit (.reach p fd))
    orClose fd (sendAll fd (if user.isEmpty then [0x05, 0x01, 0x00] else [0x05, 0x02, 0x00, 0x02]))
    let rep ← orClose fd (recvAll 2)
    orClose fd (Act.require (rep.getD 0 0 = 0x05))
    orClose fd (Act.require (rep.getD 1 0 ≠ 0xFF))
    socks5Auth fd user pass (rep.getD 1 0)
    orClose fd (sendAll fd ([0x05, 0x01, 0x00, 0x03, UInt8.ofNat dst.length] ++ dst ++
      portBytes port))
    let resp ← orClose fd (recvAll 4)
    orClose fd (Act.require (resp.getD 1 0 = 0x00))
    let addrLen ← socks5AddrLen fd (resp.getD 3 0)
    let _ ← orClose fd (recvAll (addrLen + 2))
    pure fd
  | _, _ => Act.fail

/-- The number behind the first blank of the response, if there is one. -/
def statusLine (resp : CStr) : Act Net Int :=
  match statusCode resp with
  | none => Act.fail
  | some code => pure code

def askProxy (fd : Fd) (req : CStr) : Act Net PUnit := do
  orClose fd (sendAll fd req)
  let resp ← orClose fd recvResponse
  let code ← orClose fd (statusLine resp)
  orClose fd (Act.require (code ≠ 407))
  orClose fd (Act.require (code = 200))

/-- A stretch with buffers, followed by `close(fd); return -1;` where it returns. -/
abbrev closing (fd : Fd) (m : CBody (Option Fd) Net α) : CBody (Option Fd) Net α :=
  m.onReturn (closeFd fd)

/-- `base64_encode` may give up as well as the check of the credentials. -/
def appendAuth (b : Memory.Buffers 386) (fd : Fd) (user pass req : CStr) (len : Int) :
    CBody (Option Fd) Net (CStr × Int) := do
  let (creds, clen) ← Memory.snprintf b.creds 0 386 (user ++ lit ":" ++ pass)
  closing fd (require (0 < clen ∧ clen < (386 : Nat)) none)
  let b64 ← closing fd (Memory.evpEncode none creds clen.toNat b.b64)
  let text ← loadUntil b64 0
  Memory.append req len (Memory.authLine text)

def finish (fd : Fd) (req : CStr) (len : Int) : CBody (Option Fd) Net CStr := do
  let (req, len) ← Memory.append req len (lit "\r\n")
  closing fd (require (0 < len ∧ len < pfBufSize) none)
  loadRange req 0 len.toNat

def buildRequest (b : Memory.Buffers 386) (fd : Fd) (dst : CStr) (port : Int) (user pass : CStr) :
    CBody (Option Fd) Net CStr := do
  let (req, len) ← Memory.append b.req 0 (Memory.requestLine dst port)
  if user.isEmpty then finish fd req len
  else do
    let (req, len) ← appendAuth b fd user pass req len
    finish fd req len

/-- `b` is what the buffers hold on entry. -/
def pfHttpConnect (b : Memory.Buffers 386) (proxy : Option Proxy) (dst : Option CStr) (port : Int)
    (username password : Option CStr) : CBody (Option Fd) Net (Option Fd) :=
  match proxy, dst with
  | some p, some dst => do
    require (validPort port) none
    let fd ← Memory.ofAct none (tcpConnect p)
    modify (Net.emit (.reach p fd))
    let req ← buildRequest b fd dst port (username.getD []) (password.getD [])
    let _ ← Memory.ofAct none (askProxy fd req)
    pure (some fd)
  | _, _ => ret none

/-- The hop's negotiation, followed by `close(fd); return -1;` where it fails. -/
def negotiateHop (b : Memory.Buffers 384) (fd : Fd) (p : Proxy) (dst : CStr) (port : Int) :
    CBody (Option Fd) Net PUnit := fun net =>
  match Memory.negotiateHopOnFd b fd p dst port net with
  | some (some _, net) => some (.ok ⟨⟩, net)
  | some (none, net) => some (.error none, closeFd fd net)
  | none => none

/-- The loop over the hops. `bs i` is what the buffers hold when the `i`-th is negotiated. -/
def negotiateHops (fd : Fd) : (Nat → Memory.Buffers 384) → List Proxy → CStr → Int →
    CBody (Option Fd) Net PUnit
  | _, [], _, _ => pure ⟨⟩
  | bs, [last], dst, port => negotiateHop (bs 0) fd last dst port
  | bs, hop :: next :: rest, dst, port => do
    let _ ← negotiateHop (bs 0) fd hop next.host.chars next.port.toNat
    negotiateHops fd (fun i => bs (i + 1)) (next :: rest) dst port

def pfChainConnect (bs : Nat → Memory.Buffers 384) (chain : Option Chain)
    (proxies : Option (List Proxy)) (dst : Option CStr) (port : Int) :
    CBody (Option Fd) Net (Option Fd) :=
  match chain, proxies, dst with
  | some chain, some proxies, some dst => do
    require (1 ≤ chain.hops.length && chain.hops.length ≤ pfMaxHops) none
    require (validPort port) none
    match chain.hops.mapM (findProxy proxies) with
    | some (first :: rest) => do
      require (first.type ≠ .ssh) none
      let fd ← Memory.ofAct none (tcpConnect first)
      let _ ← negotiateHops fd bs (first :: rest) dst port
      pure (some fd)
    | _ => ret none
  | _, _, _ => ret none

/-! ## They are the connectors of `Connectors` -/

theorem pure_onFail (fd : Fd) (a : α) : (pure a : Act Net α).onFail (closeFd fd) = pure a := rfl

theorem pfSocks4Connect_eq (p : Proxy) (dst : CStr) (port : Int) :
    pfSocks4Connect (some p) (some dst) port (some p.username.chars) =
      Daemon.pfSocks4Connect p dst port := by
  unfold pfSocks4Connect Daemon.pfSocks4Connect socks4Exchange
  simp only [Option.getD_some, orClose, Act.onFail_bind, Act.assoc]

theorem socks5Auth_eq (fd : Fd) (user pass : CStr) (method : UInt8) :
    socks5Auth fd user pass method =
      (Daemon.socks5Auth fd user pass method).onFail (closeFd fd) := by
  unfold socks5Auth Daemon.socks5Auth
  split
  · simp only [orClose, Act.onFail_bind]
  · rfl

theorem socks5AddrLen_eq (fd : Fd) (atyp : UInt8) :
    socks5AddrLen fd atyp = (Daemon.socks5AddrLen atyp).onFail (closeFd fd) := by
  unfold socks5AddrLen Daemon.socks5AddrLen
  split
  · rfl
  split
  · rfl
  split
  · simp only [orClose, Act.onFail_bind, pure_onFail]
  · rfl

theorem pfSocks5Connect_eq (p : Proxy) (dst : CStr) (port : Int) :
    pfSocks5Connect (some p) (some dst) port (some p.username.chars) (some p.password.chars) =
      Daemon.pfSocks5Connect p dst port := by
  unfold pfSocks5Connect Daemon.pfSocks5Connect socks5Exchange
  simp only [Option.getD_some, orClose, socks5Auth_eq, socks5AddrLen_eq, Act.onFail_bind, Act.assoc,
    pure_onFail]
  rfl

theorem status_eq (fd : Fd) (resp : CStr) :
    (do
      let code ← orClose fd (statusLine resp)
      orClose fd (Act.require (code ≠ 407))
      orClose fd (Act.require (code = 200))) =
      orClose fd (Act.require (statusCode resp = some 200)) := by
  unfold statusLine
  cases statusCode resp with
  | none => rfl
  | some code =>
    by_cases hok : code = 200
    · subst hok
      rfl
    · by_cases hauth : code = 407
      · subst hauth
        rfl
      · rw [decide_eq_false (fun h => hok (Option.some.inj h))]
        show orClose fd (Act.require (decide (code ≠ 407))) >>=
          (fun _ => orClose fd (Act.require (decide (code = 200)))) = _
        rw [decide_eq_true hauth, decide_eq_false hok]
        rfl

theorem askProxy_eq (fd : Fd) (req : CStr) :
    askProxy fd req =
      (do
        sendAll fd req
        let resp ← recvResponse
        Act.require (statusCode resp = some 200) : Act Net PUnit).onFail (closeFd fd) := by
  unfold askProxy
  simp only [status_eq]
  simp only [orClose, Act.onFail_bind]

/-! ## With room in the buffers -/

theorem append_onReturn (cleanup : Net → Net) (req : CStr) (len : Int) (text : CStr) :
    (Memory.append req len text : CBody (Option Fd) Net (CStr × Int)).onReturn cleanup =
      Memory.append req len text := by
  simp [Memory.append, Memory.sizeLeft, Memory.snprintf]

theorem snprintf_onReturn (cleanup : Net → Net) (buf : CStr) (pos size : Nat) (text : CStr) :
    (Memory.snprintf buf pos size text : CBody (Option Fd) Net (CStr × Int)).onReturn cleanup =
      Memory.snprintf buf pos size text := by
  simp [Memory.snprintf]

theorem appendAuth_eq (b : Memory.Buffers 386) (fd : Fd) (user pass req : CStr) (len : Int) :
    appendAuth b fd user pass req len =
      closing fd (Memory.appendAuth none (Memory.evpEncode none) b user pass req len) := by
  unfold Memory.appendAuth appendAuth
  simp only [onReturn_bind, snprintf_onReturn, onReturn_loadUntil, append_onReturn]

theorem finish_eq (fd : Fd) (req : CStr) (len : Int) :
    finish fd req len = closing fd (Memory.finish none req len) := by
  unfold Memory.finish finish
  simp only [onReturn_bind, append_onReturn, onReturn_loadRange]

/-- The exits of the builder are its returns, each with a `close`. -/
theorem buildRequest_eq (b : Memory.Buffers 386) (fd : Fd) (dst : CStr) (port : Int)
    (user pass : CStr) :
    buildRequest b fd dst port user pass =
      closing fd (Memory.buildRequest none (Memory.evpEncode none) b dst port user pass) := by
  unfold Memory.buildRequest buildRequest
  simp only [onReturn_bind, append_onReturn, onReturn_ite, finish_eq, appendAuth_eq]

/-- Dial, talk over the connection, and close it if that fails. -/
def dialled (p : Proxy) (talk : Fd → Act Net PUnit) : Act Net Fd := do
  let fd ← tcpConnect p
  Act.update (Net.emit (.reach p fd))
  (talk fd).onFail (closeFd fd)
  pure fd

theorem buildRequest_of_room (b : Memory.Buffers 386) (fd : Fd) {dst user pass : CStr} {port : Int}
    (h : Memory.RoomForRequest 386 dst port user pass) :
    (buildRequest b fd dst port user pass >>= fun req => Memory.ofAct none (askProxy fd req)) =
      Memory.ofAct none
        ((httpExchange 386 (some 512) fd dst port user pass).onFail (closeFd fd)) := by
  have hb64 : ∀ cap ∈ some 512, 509 ≤ cap := by simp
  rw [buildRequest_eq, Memory.buildRequest_eq (Memory.encodes_evp none) b (by decide) (by decide) hb64 h,
    Memory.ofAct_onFail, Memory.ofAct_exchange, onReturn_bind]
  simp only [askProxy_eq, Memory.ofAct_onFail]

/-- With room in the buffers, the connector dials and has the exchange of `Connectors`. -/
theorem pfHttpConnect_eq (b : Memory.Buffers 386) (p : Proxy) (dst : CStr) {port : Int}
    (username password : Option CStr) (hport : validPort port = true)
    (h : Memory.RoomForRequest 386 dst port (username.getD []) (password.getD [])) :
    pfHttpConnect b (some p) (some dst) port username password =
      Memory.ofAct none (dialled p fun fd =>
        httpExchange 386 (some 512) fd dst port (username.getD []) (password.getD [])) >>=
        fun fd => pure (some fd) := by
  unfold pfHttpConnect dialled
  dsimp only
  rw [require_eq hport, pure_then]
  simp only [Memory.ofAct_bind, Memory.ofAct_update, Memory.ofAct_pure, bind_assoc, pure_then,
    ← buildRequest_of_room b _ h]

/-- On the fields of a record. -/
theorem pfHttpConnect_record (b : Memory.Buffers 386) (p : Proxy) {dst : CStr} {port : Int}
    (hport : validPort port = true)
    (h : Memory.RoomForRequest 386 dst port p.username.chars p.password.chars) (net : Net) :
    call (pfHttpConnect b (some p) (some dst) port (some p.username.chars)
      (some p.password.chars)) net = some (Daemon.pfHttpConnect p dst port net) := by
  rw [pfHttpConnect_eq b p dst (some p.username.chars) (some p.password.chars) hport h,
    Memory.call_ofAct]
  unfold Daemon.pfHttpConnect
  rw [Act.Gives.bind_eq (.require hport)]
  rfl

/-! ## Chains -/

end Proxiflare.Daemon.Exits
