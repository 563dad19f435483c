import Proxiflare.Daemon.Handshakes

/-!
# `chain.c` over any connection

The handshakes, the read loops and the base64 encoder that `chain.c` keeps for
itself, as they stand there, over whatever carries the bytes. Over the scripts of
`Net` they are the exchanges of `Connectors`, so the chain connector computed there
is the one written here.
-/

namespace Proxiflare.Daemon

open Lib.CString Lib

/-- What a successful `recv` with room for `room` bytes brings. -/
structure Received (room : Nat) where
  bytes : CStr
  ne_nil : bytes ≠ []
  fits : bytes.length ≤ room

/-- What `chain.c` calls; `recv` fails where the call returns 0 or less. `reach` is no call: it
marks the hop that the bytes sent from here on are meant for. -/
structure Carrier (σ : Type) where
  tcpConnect : Proxy → Act σ Fd
  sendAll : Fd → CStr → Act σ PUnit
  recv : Fd → (room : Nat) → Act σ (Received room)
  close : Fd → σ → σ
  reach : Proxy → Fd → σ → σ

/-- `buf[0] ? buf : NULL`. -/
def CBuf.orNull {cap : Nat} (b : CBuf cap) : Option CStr :=
  if b.nonempty then some b.chars else none

namespace Carrier

variable {σ : Type} (w : Carrier σ)

def recvAll (fd : Fd) (len : Nat) : Act σ CStr :=
  if _ : len = 0 then pure []
  else do
    let chunk ← w.recv fd len
    let rest ← recvAll fd (len - chunk.bytes.length)
    pure (chunk.bytes ++ rest)
termination_by len
decreasing_by
  have hpos := List.length_pos_iff.mpr chunk.ne_nil
  omega

/-! ## `socks5_negotiate_on_fd` -/

def socks5Auth (fd : Fd) (hasAuth : Bool) (user pass : CStr) (method : UInt8) : Act σ PUnit :=
  if method = 0x02 then do
    Act.require hasAuth
    w.sendAll fd ([0x01, UInt8.ofNat user.length] ++ user ++ [UInt8.ofNat pass.length] ++ pass)
    let buf ← w.recvAll fd 2
    Act.require (buf.getD 1 0 = 0x00)
  else pure ⟨⟩

/-- `addr_len` by the `switch` on ATYP. -/
def socks5AddrLen (fd : Fd) (atyp : UInt8) : Act σ Nat :=
  if atyp = 0x01 then pure 4
  else if atyp = 0x04 then pure 16
  else if atyp = 0x03 then do
    let domainLen ← w.recvAll fd 1
    pure (domainLen.getD 0 0).toNat
  else Act.fail

def socks5NegotiateOnFd (fd : Fd) (dstHost : CStr) (dstPort : Int)
    (username password : Option CStr) : Act σ PUnit := do
  Act.require (validPort dstPort)
  let hasAuth := username.any fun s => !s.isEmpty
  let user := if hasAuth then username.getD [] else []
  let pass := if hasAuth then password.getD [] else []
  Act.require (dstHost.length ≤ 255)
  Act.require (user.length ≤ 255 && pass.length ≤ 255)
  w.sendAll fd (if hasAuth then [0x05, 0x02, 0x00, 0x02] else [0x05, 0x01, 0x00])
  let buf ← w.recvAll fd 2
  Act.require (buf.getD 0 0 = 0x05)
  Act.require (buf.getD 1 0 ≠ 0xFF)
  w.socks5Auth fd hasAuth user pass (buf.getD 1 0)
  w.sendAll fd ([0x05, 0x01, 0x00, 0x03, UInt8.ofNat dstHost.length] ++ dstHost ++
    portBytes dstPort)
  let resp ← w.recvAll fd 4
  Act.require (resp.getD 1 0 = 0x00)
  let addrLen ← w.socks5AddrLen fd (resp.getD 3 0)
  let _ ← w.recvAll fd (addrLen + 2)
  pure ⟨⟩

/-! ## `socks4_negotiate_on_fd` -/

def socks4NegotiateOnFd (fd : Fd) (dstHost : CStr) (dstPort : Int) (userid : Option CStr) :
    Act σ PUnit := do
  Act.require (validPort dstPort)
  let userid := userid.getD []
  Act.require (8 + userid.length + 1 + dstHost.length + 1 ≤ pfBufSize)
  w.sendAll fd ([0x04, 0x01] ++ portBytes dstPort ++ [0x00, 0x00, 0x00, 0x01] ++ userid ++ [0x00] ++
    dstHost ++ [0x00])
  let resp ← w.recvAll fd 8
  Act.require (resp.getD 1 0 = 0x5A)

end Carrier

/-! ## `http_negotiate_on_fd` -/

def b64Char (val : UInt32) : UInt8 := b64chars.getD (val &&& 0x3F).toNat 0

/-- The encoder's loop from `creds[i]` on. -/
def base64Loop (creds : CStr) (i : Nat) : CStr :=
  if i < creds.length then
    let val : UInt32 := (creds.getD i 0).toUInt32 <<< 16
    let val := if i + 1 < creds.length then val ||| (creds.getD (i + 1) 0).toUInt32 <<< 8 else val
    let val := if i + 2 < creds.length then val ||| (creds.getD (i + 2) 0).toUInt32 else val
    [b64Char (val >>> 18), b64Char (val >>> 12),
      if i + 1 < creds.length then b64Char (val >>> 6) else 61,
      if i + 2 < creds.length then b64Char val else 61] ++ base64Loop creds (i + 3)
  else []
termination_by creds.length - i

/-- `none` when `creds[384]` or `req[PF_BUF_SIZE]` is too small. -/
def negotiateRequest (dstHost : CStr) (dstPort : Int) (username password : Option CStr) :
    Option CStr := do
  let hostPort := dstHost ++ lit ":" ++ decimal dstPort.toNat
  let req := lit "CONNECT " ++ hostPort ++ lit " HTTP/1.1\r\nHost: " ++ hostPort ++ lit "\r\n"
  let hasAuth := username.any fun s => !s.isEmpty
  let creds := username.getD [] ++ lit ":" ++ password.getD []
  guard (!hasAuth || creds.length < 384)
  let auth := if hasAuth then lit "Proxy-Authorization: Basic " ++ base64Loop creds 0 ++ lit "\r\n"
    else []
  let req := req ++ auth ++ lit "\r\n"
  guard (req.length < pfBufSize)
  pure req

namespace Carrier

variable {σ : Type} (w : Carrier σ)

/-- Reads into `resp[RESP_BUF_SIZE]` until it holds a blank line. -/
def recvResponse (fd : Fd) (resp : CStr) : Act σ CStr :=
  if resp.length < respBufSize - 1 then do
    let chunk ← w.recv fd (respBufSize - 1 - resp.length)
    if (strstr (cstr (resp ++ chunk.bytes)) (lit "\r\n\r\n")).isSome then
      pure (cstr (resp ++ chunk.bytes))
    else recvResponse fd (resp ++ chunk.bytes)
  else Act.fail
termination_by respBufSize - 1 - resp.length
decreasing_by
  have hpos := List.length_pos_iff.mpr chunk.ne_nil
  rw [List.length_append]
  omega

def requireStatus (resp : CStr) : Act σ PUnit :=
  match statusCode resp with
  | none => Act.fail
  | some code => do
    Act.require (code ≠ 407)
    Act.require (code = 200)

def httpNegotiateOnFd (fd : Fd) (dstHost : CStr) (dstPort : Int)
    (username password : Option CStr) : Act σ PUnit := do
  Act.require (validPort dstPort)
  match negotiateRequest dstHost dstPort username password with
  | none => Act.fail
  | some req => do
    w.sendAll fd req
    let resp ← w.recvResponse fd []
    requireStatus resp

/-! ## Hops -/

/-- The `switch` of `negotiate_hop_on_fd`. -/
def negotiateSwitch (fd : Fd) (proxy : Proxy) (nextHost : CStr) (nextPort : Int) : Act σ PUnit :=
  match proxy.type with
  | .socks5 =>
    w.socks5NegotiateOnFd fd nextHost nextPort proxy.username.orNull proxy.password.orNull
  | .socks4 => w.socks4NegotiateOnFd fd nextHost nextPort proxy.username.orNull
  | .http => w.httpNegotiateOnFd fd nextHost nextPort proxy.username.orNull proxy.password.orNull
  | .ssh => Act.fail

def negotiateHopOnFd (fd : Fd) (proxy : Proxy) (nextHost : CStr) (nextPort : Int) :
    Act σ PUnit := do
  Act.update (w.reach proxy fd)
  w.negotiateSwitch fd proxy nextHost nextPort

/-- The loop over `hop_proxies`, from the hop the connection has reached. -/
def negotiateHops (fd : Fd) : List Proxy → CStr → Int → Act σ PUnit
  | [], _, _ => pure ⟨⟩
  | [last], dstHost, dstPort => w.negotiateHopOnFd fd last dstHost dstPort
  | hop :: next :: rest, dstHost, dstPort => do
    w.negotiateHopOnFd fd hop next.host.chars next.port.toNat
    negotiateHops fd (next :: rest) dstHost dstPort

def pfChainConnect (chain : Chain) (proxies : List Proxy) (dstHost : CStr) (dstPort : Int) :
    Act σ Fd := do
  Act.require (1 ≤ chain.hops.length && chain.hops.length ≤ pfMaxHops)
  Act.require (validPort dstPort)
  match chain.hops.mapM (findProxy proxies) with
  | some (first :: rest) => do
    Act.require (first.type ≠ .ssh)
    let fd ← w.tcpConnect first
    (w.negotiateHops fd (first :: rest) dstHost dstPort).onFail (w.close fd)
    pure fd
  | _ => Act.fail

end Carrier

/-! ## Over scripts -/

/-- One `recv`: a piece of the inbox, or as much of it as there is room for. -/
def Net.recv (room : Nat) : Act Net (Received room) := fun net =>
  match net.inbox with
  | [] => (none, net)
  | chunk :: inbox =>
    if hroom : room = 0 then (none, net)
    else if hne : chunk = [] then (none, { net with inbox := inbox })
    else if hle : chunk.length ≤ room then (some ⟨chunk, hne, hle⟩, { net with inbox := inbox })
    else
      (some ⟨chunk.take room, by simp [List.take_eq_nil_iff, hroom, hne], List.length_take_le _ _⟩,
        { net with inbox := chunk.drop room :: inbox })

def netCarrier : Carrier Net where
  tcpConnect := tcpConnect
  sendAll := sendAll
  recv _ room := Net.recv room
  close := closeFd
  reach p fd := Net.emit (.reach p fd)

theorem netRecv_none {net : Net} {room : Nat} (h : net.inbox = []) :
    Net.recv room net = (none, net) := by
  unfold Net.recv
  rw [h]

theorem netRecv_eof {net : Net} {inbox : List CStr} {room : Nat} (hroom : room ≠ 0)
    (h : net.inbox = [] :: inbox) : Net.recv room net = (none, { net with inbox := inbox }) := by
  unfold Net.recv
  rw [h]
  simp only [dif_neg hroom, dif_pos]

theorem netRecv_whole {net : Net} {chunk : CStr} {inbox : List CStr} {room : Nat}
    (hne : chunk ≠ []) (hle : chunk.length ≤ room) (h : net.inbox = chunk :: inbox) :
    Act.Gives (Net.recv room) net ⟨chunk, hne, hle⟩ { net with inbox := inbox } := by
  have hpos := List.length_pos_iff.mpr hne
  unfold Act.Gives Net.recv
  rw [h]
  simp only [dif_neg (show room ≠ 0 by omega), dif_neg hne, dif_pos hle]

theorem netRecv_part {net : Net} {chunk : CStr} {inbox : List CStr} {room : Nat}
    (hroom : room ≠ 0) (hgt : room < chunk.length) (h : net.inbox = chunk :: inbox) :
    ∃ got, got.bytes = chunk.take room ∧
      Act.Gives (Net.recv room) net got { net with inbox := chunk.drop room :: inbox } := by
  have hne : chunk ≠ [] := List.ne_nil_of_length_pos (Nat.zero_lt_of_lt hgt)
  refine ⟨⟨chunk.take room, by simp [List.take_eq_nil_iff, hroom, hne], List.length_take_le _ _⟩,
    rfl, ?_⟩
  unfold Act.Gives Net.recv
  rw [h]
  simp only [dif_neg hroom, dif_neg hne, dif_neg (Nat.not_le_of_gt hgt)]

/-- The two read loops for a fixed count agree. -/
theorem netCarrier_recvAll (fd : Fd) (len : Nat) : netCarrier.recvAll fd len = recvAll len := by
  suffices hloop : ∀ (inbox : List CStr) (len : Nat) (net : Net), net.inbox = inbox →
      netCarrier.recvAll fd len net =
        ((recvLoop inbox len).1, { net with inbox := (recvLoop inbox len).2 }) from
    funext fun net => hloop net.inbox len net rfl
  intro inbox len
  fun_induction recvLoop inbox len with
  | case1 inbox =>
    rintro net rfl
    rw [Carrier.recvAll, dif_pos rfl]
    rfl
  | case2 len =>
    intro net hinbox
    rw [Carrier.recvAll, dif_neg (Nat.succ_ne_zero len)]
    refine (Act.bind_of_none (netRecv_none hinbox)).trans ?_
    rw [← hinbox]
  | case3 inbox len =>
    intro net hinbox
    rw [Carrier.recvAll, dif_neg (Nat.succ_ne_zero len)]
    exact Act.bind_of_none (netRecv_eof (Nat.succ_ne_zero len) hinbox)
  | case4 chunk inbox len hne hle got rest hrec ih =>
    intro net hinbox
    rw [Carrier.recvAll, dif_neg (Nat.succ_ne_zero len)]
    refine (netRecv_whole hne hle hinbox).bind_eq.trans ?_
    have hrest := ih { net with inbox := inbox } rfl
    rw [hrec] at hrest
    cases got with
    | none => exact Act.bind_of_none hrest
    | some bytes => exact Act.Gives.bind_eq hrest
  | case5 chunk inbox len hne hgt =>
    intro net hinbox
    rw [Carrier.recvAll, dif_neg (Nat.succ_ne_zero len)]
    obtain ⟨got, hgot, hrecv⟩ :=
      netRecv_part (Nat.succ_ne_zero len) (Nat.lt_of_not_le hgt) hinbox
    refine hrecv.bind_eq.trans ?_
    have hdone : len + 1 - got.bytes.length = 0 := by
      rw [hgot, List.length_take_of_le (Nat.le_of_lt (Nat.lt_of_not_le hgt)), Nat.sub_self]
    rw [hdone, Carrier.recvAll, dif_pos rfl, hgot]
    show (some (chunk.take (len + 1) ++ []), _) = _
    rw [List.append_nil]

/-- So do the two that look for a blank line. -/
theorem netCarrier_recvResponse (fd : Fd) : netCarrier.recvResponse fd [] = recvResponse := by
  suffices hloop : ∀ (inbox : List CStr) (got : CStr) (net : Net), net.inbox = inbox →
      got.length ≤ respBufSize - 1 → netCarrier.recvResponse fd got net =
        ((recvHead inbox got).1, { net with inbox := (recvHead inbox got).2 }) from
    funext fun net => hloop net.inbox [] net rfl (Nat.zero_le _)
  intro inbox got
  fun_induction recvHead inbox got with
  | case1 got =>
    intro net hinbox hle
    rw [Carrier.recvResponse]
    split
    · refine (Act.bind_of_none (netRecv_none hinbox)).trans ?_
      rw [← hinbox]
    · rw [← hinbox]
      rfl
  | case2 chunk inbox got room hroom =>
    intro net hinbox hle
    rw [Carrier.recvResponse, if_neg (by omega), ← hinbox]
    rfl
  | case3 inbox got room hroom =>
    intro net hinbox hle
    rw [Carrier.recvResponse, if_pos (by omega)]
    exact Act.bind_of_none (netRecv_eof hroom hinbox)
  | case4 chunk inbox got room resp hroom hne hfound =>
    intro net hinbox hle
    rw [Carrier.recvResponse, if_pos (by omega)]
    by_cases hfits : chunk.length ≤ room
    · refine (netRecv_whole hne hfits hinbox).bind_eq.trans ?_
      have hresp : resp = got ++ chunk := congrArg (got ++ ·) (List.take_of_length_le hfits)
      rw [hresp] at hfound
      rw [if_pos hfound, if_pos hfits, hresp]
      rfl
    · obtain ⟨part, hpart, hrecv⟩ := netRecv_part hroom (Nat.lt_of_not_le hfits) hinbox
      refine hrecv.bind_eq.trans ?_
      rw [hpart, if_pos hfound, if_neg hfits]
      rfl
  | case5 chunk inbox got room resp hroom hne hfound hfits ih =>
    intro net hinbox hle
    rw [Carrier.recvResponse, if_pos (by omega)]
    refine (netRecv_whole hne hfits hinbox).bind_eq.trans ?_
    have hresp : resp = got ++ chunk := congrArg (got ++ ·) (List.take_of_length_le hfits)
    rw [hresp] at hfound ih
    rw [if_neg hfound, hresp]
    refine ih { net with inbox := inbox } rfl ?_
    rw [List.length_append]
    omega
  | case6 chunk inbox got room resp hroom hne hfound hgt =>
    intro net hinbox hle
    rw [Carrier.recvResponse, if_pos (by omega)]
    obtain ⟨part, hpart, hrecv⟩ := netRecv_part hroom (Nat.lt_of_not_le hgt) hinbox
    refine hrecv.bind_eq.trans ?_
    rw [hpart, if_neg hfound, Carrier.recvResponse, if_neg]
    · rfl
    · rw [List.length_append, List.length_take_of_le (Nat.le_of_lt (Nat.lt_of_not_le hgt))]
      omega

/-! ### The encoder -/

/-- Three bytes of `creds` in one word. -/
theorem word_toNat (a b c : UInt8) :
    (a.toUInt32 <<< 16 ||| b.toUInt32 <<< 8 ||| c.toUInt32).toNat =
      a.toNat * 65536 + b.toNat * 256 + c.toNat := by
  have ha := a.toNat_lt
  have hb := b.toNat_lt
  have hc := c.toNat_lt
  have hhigh : (a.toUInt32 <<< 16).toNat = a.toNat <<< 16 := by
    rw [UInt32.toNat_shiftLeft, UInt8.toNat_toUInt32, Nat.mod_eq_of_lt]
    · rfl
    · show a.toNat <<< 16 < 2 ^ 32
      rw [Nat.shiftLeft_eq]
      omega
  have hmid : (b.toUInt32 <<< 8).toNat = b.toNat <<< 8 := by
    rw [UInt32.toNat_shiftLeft, UInt8.toNat_toUInt32, Nat.mod_eq_of_lt]
    · rfl
    · show b.toNat <<< 8 < 2 ^ 32
      rw [Nat.shiftLeft_eq]
      omega
  have hlow : b.toNat <<< 8 ||| c.toNat = b.toNat * 256 + c.toNat := by
    rw [← Nat.shiftLeft_add_eq_or_of_lt hc, Nat.shiftLeft_eq]
  have hall : a.toNat <<< 16 ||| (b.toNat * 256 + c.toNat) =
      a.toNat * 65536 + (b.toNat * 256 + c.toNat) := by
    rw [← Nat.shiftLeft_add_eq_or_of_lt (show b.toNat * 256 + c.toNat < 2 ^ 16 by omega),
      Nat.shiftLeft_eq]
  rw [UInt32.toNat_or, UInt32.toNat_or, hhigh, hmid, UInt8.toNat_toUInt32, Nat.or_assoc, hlow, hall]
  omega

theorem b64Char_eq (val : UInt32) (n : Nat) (h : val.toNat = n) : b64Char val = b64At n := by
  unfold b64Char b64At
  rw [UInt32.toNat_and, h]
  exact congrArg (b64chars.getD · 0) (Nat.and_two_pow_sub_one_eq_mod n 6)

theorem b64Char_shift (val : UInt32) (n k : Nat) (h : val.toNat = n) (hk : k < 32) :
    b64Char (val >>> UInt32.ofNat k) = b64At (n / 2 ^ k) := by
  apply b64Char_eq
  rw [UInt32.toNat_shiftRight, h, UInt32.toNat_ofNat_of_lt' (by rw [UInt32.size]; omega),
    Nat.mod_eq_of_lt hk, Nat.shiftRight_eq_div_pow]

/-- The four letters of a group. -/
theorem b64Char_group {val : UInt32} {n : Nat} (h : val.toNat = n) :
    b64Char (val >>> 18) = b64At (n / 262144) ∧ b64Char (val >>> 12) = b64At (n / 4096) ∧
      b64Char (val >>> 6) = b64At (n / 64) ∧ b64Char val = b64At n :=
  ⟨b64Char_shift val n 18 h (by decide), b64Char_shift val n 12 h (by decide),
    b64Char_shift val n 6 h (by decide), b64Char_eq val n h⟩

/-- The loop by hand is RFC 4648, as the library's encoder is. -/
theorem base64Loop_append (pre creds : CStr) :
    base64Loop (pre ++ creds) pre.length = base64Encode creds := by
  induction creds using base64Encode.induct generalizing pre with
  | case1 =>
    rw [base64Loop, if_neg (by simp), base64Encode]
  | case2 a =>
    have hword : (a.toUInt32 <<< 16).toNat = a.toNat * 65536 := by simpa using word_toNat a 0 0
    have hnext : base64Loop (pre ++ [a]) (pre.length + 3) = [] := by
      rw [base64Loop, if_neg (by simp)]
    rw [base64Loop, if_pos (by simp), hnext, base64Encode]
    simp [b64Char_group hword]
  | case3 a b =>
    have hword : (a.toUInt32 <<< 16 ||| b.toUInt32 <<< 8).toNat =
        a.toNat * 65536 + b.toNat * 256 := by simpa using word_toNat a b 0
    have hnext : base64Loop (pre ++ [a, b]) (pre.length + 3) = [] := by
      rw [base64Loop, if_neg (by simp)]
    rw [base64Loop, if_pos (by simp), hnext, base64Encode]
    simp [b64Char_group hword]
  | case4 a b c rest ih =>
    have hword := word_toNat a b c
    have hnext : base64Loop (pre ++ a :: b :: c :: rest) (pre.length + 3) = base64Encode rest := by
      have hih := ih (pre ++ [a, b, c])
      simp only [List.append_assoc, List.cons_append, List.nil_append, List.length_append,
        List.length_cons, List.length_nil] at hih
      exact hih
    rw [base64Loop, if_pos (by simp), hnext, base64Encode]
    simp [b64Char_group hword]

theorem base64Loop_eq (creds : CStr) : base64Loop creds 0 = base64Encode creds :=
  base64Loop_append [] creds

/-! ### The handshakes -/

theorem CBuf.orNull_getD {cap : Nat} (b : CBuf cap) : b.orNull.getD [] = b.chars := by
  unfold CBuf.orNull CBuf.nonempty
  cases hchars : b.chars with
  | nil => rfl
  | cons c cs => rfl

/-- `has_auth`: a name was passed and it is not empty. -/
theorem CBuf.orNull_hasAuth {cap : Nat} (b : CBuf cap) :
    (b.orNull.any fun s => !s.isEmpty) = !b.chars.isEmpty := by
  unfold CBuf.orNull CBuf.nonempty
  cases hchars : b.chars with
  | nil => rfl
  | cons c cs => rfl

/-- The name that is sent is the one that was passed. -/
theorem sentUser_eq (user : CStr) : (if !user.isEmpty then user else []) = user := by
  cases user <;> rfl

theorem netCarrier_socks5Auth (fd : Fd) (user pass : CStr) (method : UInt8) :
    netCarrier.socks5Auth fd (!user.isEmpty) user (if !user.isEmpty then pass else []) method =
      socks5Auth fd user pass method := by
  unfold Carrier.socks5Auth socks5Auth
  cases user with
  | nil => rfl
  | cons c cs =>
    simp only [netCarrier_recvAll]
    rfl

theorem netCarrier_socks5 (fd : Fd) (p : Proxy) (dst : CStr) (port : Int) :
    netCarrier.socks5NegotiateOnFd fd dst port p.username.orNull p.password.orNull =
      socks5NegotiateOnFd fd p dst port := by
  have hlengths : (decide (dst.length ≤ 255) && (decide (p.username.chars.length ≤ 255) &&
      decide ((if !p.username.chars.isEmpty then p.password.chars else []).length ≤ 255))) =
        socks5LengthsOk dst p.username.chars p.password.chars := by
    unfold socks5LengthsOk
    cases p.username.chars with
    | nil => simp
    | cons c cs => exact (Bool.and_assoc _ _ _).symm
  have haddr : netCarrier.socks5AddrLen fd = socks5AddrLen := by
    unfold Carrier.socks5AddrLen socks5AddrLen
    simp only [netCarrier_recvAll]
  have hgreeting : (if !p.username.chars.isEmpty then [0x05, 0x02, 0x00, 0x02] else
      [0x05, 0x01, 0x00] : CStr) =
        if p.username.chars.isEmpty then [0x05, 0x01, 0x00] else [0x05, 0x02, 0x00, 0x02] := by
    cases p.username.chars <;> rfl
  unfold Carrier.socks5NegotiateOnFd socks5NegotiateOnFd socks5Exchange
  simp only [netCarrier_recvAll, CBuf.orNull_getD, CBuf.orNull_hasAuth, sentUser_eq,
    netCarrier_socks5Auth, haddr, hgreeting, Act.require_require, hlengths]
  rfl

theorem netCarrier_socks4 (fd : Fd) (p : Proxy) (dst : CStr) (port : Int) :
    netCarrier.socks4NegotiateOnFd fd dst port p.username.orNull =
      socks4NegotiateOnFd fd p dst port := by
  unfold Carrier.socks4NegotiateOnFd socks4NegotiateOnFd socks4Exchange
  simp only [netCarrier_recvAll, CBuf.orNull_getD]
  rfl

theorem negotiateRequest_eq (p : Proxy) (dst : CStr) (port : Int) :
    negotiateRequest dst port p.username.orNull p.password.orNull =
      httpRequest 384 none dst port p.username.chars p.password.chars := by
  have hauth (auth : CStr) : (if !p.username.chars.isEmpty then auth else []) =
      if p.username.chars.isEmpty then [] else auth := by
    cases p.username.chars <;> rfl
  unfold negotiateRequest httpRequest
  simp only [CBuf.orNull_getD, CBuf.orNull_hasAuth, base64Loop_eq, hauth]
  generalize hreq : lit "CONNECT " ++ _ ++ _ ++ _ ++ _ ++ _ ++ _ = req
  generalize hcreds : p.username.chars ++ lit ":" ++ p.password.chars = creds
  by_cases hshort : req.length < pfBufSize <;> by_cases hfits : creds.length < 384 <;>
    cases p.username.chars.isEmpty <;> simp [hshort, hfits, guard]

theorem requireStatus_eq {σ : Type} (resp : CStr) :
    (Carrier.requireStatus resp : Act σ PUnit) = Act.require (statusCode resp = some 200) := by
  unfold Carrier.requireStatus
  cases hcode : statusCode resp with
  | none => rfl
  | some code =>
    by_cases hok : code = 200
    · subst hok
      rfl
    · have hsome : some code ≠ some 200 := fun h => hok (Option.some.inj h)
      rw [decide_eq_false hsome]
      show (do Act.require (code ≠ 407); Act.require (code = 200)) = _
      rw [decide_eq_false hok]
      cases decide (code ≠ 407) <;> rfl

theorem netCarrier_http (fd : Fd) (p : Proxy) (dst : CStr) (port : Int) :
    netCarrier.httpNegotiateOnFd fd dst port p.username.orNull p.password.orNull =
      httpNegotiateOnFd fd p dst port := by
  unfold Carrier.httpNegotiateOnFd httpNegotiateOnFd httpExchange
  simp only [negotiateRequest_eq, netCarrier_recvResponse, requireStatus_eq]
  rfl

/-! ### The connector -/

theorem netCarrier_negotiateHopOnFd (fd : Fd) (p : Proxy) (dst : CStr) (port : Int) :
    netCarrier.negotiateHopOnFd fd p dst port = negotiateHopOnFd fd p dst port := by
  unfold Carrier.negotiateHopOnFd Carrier.negotiateSwitch negotiateHopOnFd negotiateSwitch
  rw [netCarrier_socks5, netCarrier_socks4, netCarrier_http]
  rfl

theorem netCarrier_negotiateHops (fd : Fd) (hops : List Proxy) (dst : CStr) (port : Int) :
    netCarrier.negotiateHops fd hops dst port = negotiateHops fd hops dst port := by
  fun_induction negotiateHops fd hops dst port with
  | case1 => rfl
  | case2 last dst port => exact netCarrier_negotiateHopOnFd fd last dst port
  | case3 hop next rest dst port ih => rw [Carrier.negotiateHops, netCarrier_negotiateHopOnFd, ih]

/-- `Connectors` and the text of `chain.c` make the same calls. -/
theorem netCarrier_pfChainConnect (chain : Chain) (proxies : List Proxy) (dst : CStr) (port : Int) :
    netCarrier.pfChainConnect chain proxies dst port = pfChainConnect chain proxies dst port := by
  unfold Carrier.pfChainConnect pfChainConnect
  simp only [netCarrier_negotiateHops]
  rfl

end Proxiflare.Daemon
