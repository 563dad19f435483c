import Proxiflare.Daemon.Net

/-!
# The proxy connectors

`daemon/src/proxy_socks.c`, `proxy_http.c` and `chain.c`. Every caller passes the
fields of one proxy record, so a connector takes the record. The exchange of a
protocol is the same code in both places and is written once; the checks before
it, the buffer sizes and the cleanup stay with each function. A failure is the
`-1` of the source.
-/

namespace Proxiflare.Daemon

open Lib.CString Lib

def respBufSize : Nat := 4096

def closeFd (fd : Fd) : Net → Net := Net.emit (.closed fd)

def validPort (port : Int) : Bool := 1 ≤ port && port ≤ 65535

def portBytes (port : Int) : CStr := [UInt8.ofNat (port.toNat / 256), UInt8.ofNat port.toNat]

/-! ## SOCKS5 -/

def socks5Auth (fd : Fd) (user pass : CStr) (method : UInt8) : Act Net PUnit :=
  if method = 0x02 then do
    Act.require !user.isEmpty
    sendAll fd ([0x01, UInt8.ofNat user.length] ++ user ++ [UInt8.ofNat pass.length] ++ pass)
    let status ← recvAll 2
    Act.require (status.getD 1 0 = 0x00)
  else pure ⟨⟩

/-- Length of the bound address that follows the reply header. -/
def socks5AddrLen (atyp : UInt8) : Act Net Nat :=
  if atyp = 0x01 then pure 4
  else if atyp = 0x04 then pure 16
  else if atyp = 0x03 then do
    let len ← recvAll 1
    pure (len.getD 0 0).toNat
  else Act.fail

def socks5Exchange (fd : Fd) (dst : CStr) (port : Int) (user pass : CStr) : Act Net PUnit := do
  sendAll fd (if user.isEmpty then [0x05, 0x01, 0x00] else [0x05, 0x02, 0x00, 0x02])
  let rep ← recvAll 2
  Act.require (rep.getD 0 0 = 0x05)
  Act.require (rep.getD 1 0 ≠ 0xFF)
  socks5Auth fd user pass (rep.getD 1 0)
  sendAll fd ([0x05, 0x01, 0x00, 0x03, UInt8.ofNat dst.length] ++ dst ++ portBytes port)
  let resp ← recvAll 4
  Act.require (resp.getD 1 0 = 0x00)
  let addrLen ← socks5AddrLen (resp.getD 3 0)
  let _ ← recvAll (addrLen + 2)
  pure ⟨⟩

def socks5LengthsOk (dst user pass : CStr) : Bool :=
  dst.length ≤ 255 && user.length ≤ 255 && (user.isEmpty || pass.length ≤ 255)

def pfSocks5Connect (p : Proxy) (dst : CStr) (port : Int) : Act Net Fd := do
  Act.require (validPort port)
  Act.require (socks5LengthsOk dst p.username.chars p.password.chars)
  let fd ← tcpConnect p
  Act.update (Net.emit (.reach p fd))
  (socks5Exchange fd dst port p.username.chars p.password.chars).onFail (closeFd fd)
  pure fd

def socks5NegotiateOnFd (fd : Fd) (p : Proxy) (dst : CStr) (port : Int) : Act Net PUnit := do
  Act.require (validPort port)
  Act.require (socks5LengthsOk dst p.username.chars p.password.chars)
  socks5Exchange fd dst port p.username.chars p.password.chars

/-! ## SOCKS4a -/

def socks4Exchange (fd : Fd) (dst : CStr) (port : Int) (userid : CStr) : Act Net PUnit := do
  sendAll fd ([0x04, 0x01] ++ portBytes port ++ [0x00, 0x00, 0x00, 0x01] ++ userid ++ [0x00] ++
    dst ++ [0x00])
  let resp ← recvAll 8
  Act.require (resp.getD 1 0 = 0x5A)

def socks4FitsRequest (dst userid : CStr) : Bool :=
  8 + userid.length + 1 + dst.length + 1 ≤ pfBufSize

def pfSocks4Connect (p : Proxy) (dst : CStr) (port : Int) : Act Net Fd := do
  Act.require (validPort port)
  Act.require (socks4FitsRequest dst p.username.chars)
  let fd ← tcpConnect p
  Act.update (Net.emit (.reach p fd))
  (socks4Exchange fd dst port p.username.chars).onFail (closeFd fd)
  pure fd

def socks4NegotiateOnFd (fd : Fd) (p : Proxy) (dst : CStr) (port : Int) : Act Net PUnit := do
  Act.require (validPort port)
  Act.require (socks4FitsRequest dst p.username.chars)
  socks4Exchange fd dst port p.username.chars

/-! ## HTTP CONNECT -/

def b64chars : CStr := lit "ABCDEFGHIJKLMNOPQRSTUVWXYZabcdefghijklmnopqrstuvwxyz0123456789+/"

def b64At (n : Nat) : UInt8 := b64chars.getD (n % 64) 0

def base64Encode : CStr → CStr
  | [] => []
  | [a] =>
    let val := a.toNat * 65536
    [b64At (val / 262144), b64At (val / 4096), 61, 61]
  | [a, b] =>
    let val := a.toNat * 65536 + b.toNat * 256
    [b64At (val / 262144), b64At (val / 4096), b64At (val / 64), 61]
  | a :: b :: c :: rest =>
    let val := a.toNat * 65536 + b.toNat * 256 + c.toNat
    [b64At (val / 262144), b64At (val / 4096), b64At (val / 64), b64At val] ++ base64Encode rest

/-- The request, or `none` when a buffer overflows. `credsCap` and `b64Cap` are the sizes of the
credential buffers; `chain.c` does not check the second. -/
def httpRequest (credsCap : Nat) (b64Cap : Option Nat) (dst : CStr) (port : Int)
    (user pass : CStr) : Option CStr :=
  let hostPort := dst ++ lit ":" ++ decimal port.toNat
  let creds := user ++ lit ":" ++ pass
  let b64 := base64Encode creds
  let auth := if user.isEmpty then [] else lit "Proxy-Authorization: Basic " ++ b64 ++ lit "\r\n"
  let req := lit "CONNECT " ++ hostPort ++ lit " HTTP/1.1\r\nHost: " ++ hostPort ++ lit "\r\n" ++
    auth ++ lit "\r\n"
  if !user.isEmpty && (creds.length ≥ credsCap || b64Cap.any (b64.length ≥ ·)) then none
  else if req.length ≥ pfBufSize then none
  else some req

/-- Reads into a `char[RESP_BUF_SIZE]` until it holds a blank line. -/
def recvHead : List CStr → CStr → Option CStr × List CStr
  | [], _ => (none, [])
  | chunk :: inbox, got =>
    let room := respBufSize - 1 - got.length
    let resp := got ++ chunk.take room
    if room = 0 then (none, chunk :: inbox)
    else if chunk = [] then (none, inbox)
    else if (strstr (cstr resp) (lit "\r\n\r\n")).isSome then
      (some (cstr resp), if chunk.length ≤ room then inbox else chunk.drop room :: inbox)
    else if chunk.length ≤ room then recvHead inbox resp
    else (none, chunk.drop room :: inbox)

def recvResponse : Act Net CStr := fun net =>
  let (got, rest) := recvHead net.inbox []
  (got, { net with inbox := rest })

/-- The number after the first blank of the status line. -/
def statusCode (resp : CStr) : Option Int := (strchr resp 32).map fun sp => atoi sp.tail

def httpExchange (credsCap : Nat) (b64Cap : Option Nat) (fd : Fd) (dst : CStr) (port : Int)
    (user pass : CStr) : Act Net PUnit :=
  match httpRequest credsCap b64Cap dst port user pass with
  | none => Act.fail
  | some req => do
    sendAll fd req
    let resp ← recvResponse
    Act.require (statusCode resp = some 200)

def pfHttpConnect (p : Proxy) (dst : CStr) (port : Int) : Act Net Fd := do
  Act.require (validPort port)
  let fd ← tcpConnect p
  Act.update (Net.emit (.reach p fd))
  (httpExchange 386 (some 512) fd dst port p.username.chars p.password.chars).onFail (closeFd fd)
  pure fd

def httpNegotiateOnFd (fd : Fd) (p : Proxy) (dst : CStr) (port : Int) : Act Net PUnit := do
  Act.require (validPort port)
  httpExchange 384 none fd dst port p.username.chars p.password.chars

/-! ## Chains -/

def findProxy (proxies : List Proxy) (id : Nat) : Option Proxy := proxies.find? fun p => p.id = id

/-- The `switch` of `negotiate_hop_on_fd`; SSH hops are refused. -/
def negotiateSwitch (fd : Fd) (p : Proxy) (dst : CStr) (port : Int) : Act Net PUnit :=
  match p.type with
  | .socks5 => socks5NegotiateOnFd fd p dst port
  | .socks4 => socks4NegotiateOnFd fd p dst port
  | .http => httpNegotiateOnFd fd p dst port
  | .ssh => Act.fail

def negotiateHopOnFd (fd : Fd) (p : Proxy) (dst : CStr) (port : Int) : Act Net PUnit := do
  Act.update (Net.emit (.reach p fd))
  negotiateSwitch fd p dst port

/-- Each hop is asked for the next one, the last for the destination. -/
def negotiateHops (fd : Fd) : List Proxy → CStr → Int → Act Net PUnit
  | [], _, _ => pure ⟨⟩
  | [last], dst, port => negotiateHopOnFd fd last dst port
  | hop :: next :: rest, dst, port => do
    negotiateHopOnFd fd hop next.host.chars next.port.toNat
    negotiateHops fd (next :: rest) dst port

def pfChainConnect (chain : Chain) (proxies : List Proxy) (dst : CStr) (port : Int) :
    Act Net Fd := do
  Act.require (1 ≤ chain.hops.length && chain.hops.length ≤ pfMaxHops)
  Act.require (validPort port)
  match chain.hops.mapM (findProxy proxies) with
  | some (first :: rest) => do
    Act.require (first.type ≠ .ssh)
    let fd ← tcpConnect first
    (negotiateHops fd (first :: rest) dst port).onFail (closeFd fd)
    pure fd
  | _ => Act.fail

/-! ## Dial, talk, and close on failure -/

/-- What a single connector does once its arguments are checked. -/
theorem gives_of_dialled {p : Proxy} {exchange : Fd → Act Net PUnit} {net net' : Net} {fd : Fd}
    (h : Act.Gives (do
      let fd ← tcpConnect p
      Act.update (Net.emit (.reach p fd))
      (exchange fd).onFail (closeFd fd)
      pure fd) net fd net') :
    ∃ net₁, net₁.inbox = net.inbox ∧ Act.Gives (exchange fd) net₁ ⟨⟩ net' := by
  obtain ⟨fd', net₁, hdial, h⟩ := Act.gives_bind_iff.mp h
  obtain ⟨_, _, hreach, h⟩ := Act.gives_bind_iff.mp h
  obtain ⟨_, net₂, hexchange, h⟩ := Act.gives_bind_iff.mp h
  obtain ⟨rfl, rfl⟩ := Act.gives_pure_iff.mp h
  obtain rfl := Act.gives_update_iff.mp hreach
  have hinbox : net₁.inbox = net.inbox := tcpConnect_inbox hdial
  exact ⟨net₁.emit (.reach p fd'), hinbox, Act.gives_onFail_iff.mp hexchange⟩

theorem dialled_gives {p : Proxy} {exchange : Fd → Act Net PUnit} {net net' : Net} {fd : Fd}
    {rest : List (List AddrRes)} (hlookups : net.lookups = [.connected fd] :: rest)
    (h : Act.Gives (exchange fd)
      ((Net.emit (.dial p fd) { net with lookups := rest }).emit (.reach p fd)) ⟨⟩ net') :
    Act.Gives (do
      let fd ← tcpConnect p
      Act.update (Net.emit (.reach p fd))
      (exchange fd).onFail (closeFd fd)
      pure fd) net fd net' :=
  .bind (tcpConnect_gives hlookups) (.bind (.update _) (.bind (.onFail h) (.pure fd)))

/-! ## Whom a connector talks to -/

/-- A dial or a handshake concerns a proxy in `S`. -/
def Concerns (S : Proxy → Prop) : Event → Prop
  | .dial p _ => S p
  | .reach p _ => S p
  | _ => True

variable {S : Proxy → Prop} {P : Event → Prop}

/-! An exchange tells the world of nothing but what it sends. -/

theorem socks5Auth_moves (hs : ∀ fd bytes, P (.sent fd bytes)) (fd : Fd) (user pass : CStr)
    (method : UInt8) : Act.Moves (Adds P) (socks5Auth fd user pass method) := by
  unfold socks5Auth
  split
  · exact .bind (.require _) fun _ => .bind (sendAll_moves hs _ _) fun _ =>
      .bind (recvAll_moves _) fun _ => .require _
  · exact .pure _

theorem socks5AddrLen_moves (atyp : UInt8) : Act.Moves (Adds P) (socks5AddrLen atyp) := by
  unfold socks5AddrLen
  split
  · exact .pure _
  · split
    · exact .pure _
    · split
      · exact .bind (recvAll_moves _) fun _ => .pure _
      · exact .fail

theorem socks5Exchange_moves (hs : ∀ fd bytes, P (.sent fd bytes)) (fd : Fd) (dst : CStr)
    (port : Int) (user pass : CStr) : Act.Moves (Adds P) (socks5Exchange fd dst port user pass) :=
  .bind (sendAll_moves hs _ _) fun _ => .bind (recvAll_moves _) fun _ =>
    .bind (.require _) fun _ => .bind (.require _) fun _ =>
    .bind (socks5Auth_moves hs _ _ _ _) fun _ =>
    .bind (sendAll_moves hs _ _) fun _ => .bind (recvAll_moves _) fun _ =>
    .bind (.require _) fun _ => .bind (socks5AddrLen_moves _) fun _ =>
    .bind (recvAll_moves _) fun _ => .pure _

theorem socks4Exchange_moves (hs : ∀ fd bytes, P (.sent fd bytes)) (fd : Fd) (dst : CStr)
    (port : Int) (userid : CStr) : Act.Moves (Adds P) (socks4Exchange fd dst port userid) :=
  .bind (sendAll_moves hs _ _) fun _ => .bind (recvAll_moves _) fun _ => .require _

theorem httpExchange_moves (hs : ∀ fd bytes, P (.sent fd bytes)) (credsCap : Nat)
    (b64Cap : Option Nat) (fd : Fd) (dst : CStr) (port : Int) (user pass : CStr) :
    Act.Moves (Adds P) (httpExchange credsCap b64Cap fd dst port user pass) := by
  unfold httpExchange
  split
  · exact .fail
  · exact .bind (sendAll_moves hs _ _) fun _ =>
      .bind (fun _ => Adds.of_events_eq rfl) fun _ => .require _

theorem negotiateSwitch_moves (hs : ∀ fd bytes, P (.sent fd bytes)) (fd : Fd) (p : Proxy)
    (dst : CStr) (port : Int) : Act.Moves (Adds P) (negotiateSwitch fd p dst port) := by
  unfold negotiateSwitch
  split
  · exact .bind (.require _) fun _ => .bind (.require _) fun _ =>
      socks5Exchange_moves hs _ _ _ _ _
  · exact .bind (.require _) fun _ => .bind (.require _) fun _ => socks4Exchange_moves hs _ _ _ _
  · exact .bind (.require _) fun _ => httpExchange_moves hs _ _ _ _ _ _ _
  · exact .fail

theorem negotiateHopOnFd_adds (hs : ∀ fd bytes, P (.sent fd bytes)) {p : Proxy} {fd : Fd}
    (hreach : P (.reach p fd)) (dst : CStr) (port : Int) :
    Act.Moves (Adds P) (negotiateHopOnFd fd p dst port) :=
  .bind (.update (Adds.emit hreach)) fun _ => negotiateSwitch_moves hs fd p dst port

theorem sent_concerns (fd : Fd) (bytes : CStr) : Concerns S (.sent fd bytes) := trivial

/-- Dial, then talk, and close on failure: the shape of the three single connectors. -/
theorem dialled_moves {p : Proxy} (hp : S p) {exchange : Fd → Act Net PUnit}
    (h : ∀ fd, Act.Moves (Adds (Concerns S)) (exchange fd)) :
    Act.Moves (Adds (Concerns S)) (do
      let fd ← tcpConnect p
      Act.update (Net.emit (.reach p fd))
      (exchange fd).onFail (closeFd fd)
      pure fd) :=
  .bind (tcpConnect_moves p (fun _ => hp) fun _ => trivial) fun fd =>
    .bind (.update (Adds.emit (P := Concerns S) (e := .reach p fd) hp)) fun _ =>
      .bind (.onFail (h fd) (Adds.emit (P := Concerns S) (e := .closed fd) trivial)) fun _ => .pure _

theorem pfSocks5Connect_moves {p : Proxy} (hp : S p) (dst : CStr) (port : Int) :
    Act.Moves (Adds (Concerns S)) (pfSocks5Connect p dst port) :=
  .bind (.require _) fun _ => .bind (.require _) fun _ =>
    dialled_moves hp fun _ => socks5Exchange_moves sent_concerns _ _ _ _ _

theorem pfSocks4Connect_moves {p : Proxy} (hp : S p) (dst : CStr) (port : Int) :
    Act.Moves (Adds (Concerns S)) (pfSocks4Connect p dst port) :=
  .bind (.require _) fun _ => .bind (.require _) fun _ =>
    dialled_moves hp fun _ => socks4Exchange_moves sent_concerns _ _ _ _

theorem pfHttpConnect_moves {p : Proxy} (hp : S p) (dst : CStr) (port : Int) :
    Act.Moves (Adds (Concerns S)) (pfHttpConnect p dst port) :=
  .bind (.require _) fun _ => dialled_moves hp fun _ => httpExchange_moves sent_concerns _ _ _ _ _ _ _

theorem negotiateHopOnFd_moves {p : Proxy} (hp : S p) (fd : Fd) (dst : CStr) (port : Int) :
    Act.Moves (Adds (Concerns S)) (negotiateHopOnFd fd p dst port) :=
  negotiateHopOnFd_adds sent_concerns (P := Concerns S) hp dst port

/-- Nothing gets past an SSH hop, nor past a hop asked for an impossible port. -/
theorem negotiateHopOnFd_fails {p : Proxy} {port : Int} (h : p.type = .ssh ∨ validPort port = false)
    (fd : Fd) (dst : CStr) (net : Net) : (negotiateHopOnFd fd p dst port net).1 = none := by
  show (negotiateSwitch fd p dst port (net.emit (.reach p fd))).1 = none
  unfold negotiateSwitch
  cases htype : p.type with
  | ssh => rfl
  | socks5 | socks4 | http =>
    have hport : validPort port = false := h.resolve_left (by simp [htype])
    simp only [socks5NegotiateOnFd, socks4NegotiateOnFd, httpNegotiateOnFd, hport]
    rfl

end Proxiflare.Daemon
