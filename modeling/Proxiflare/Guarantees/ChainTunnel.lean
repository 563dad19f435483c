import Proxiflare.Guarantees.ProxyNetwork

/-!
# A chain leads to the destination through its hops

Every handshake but the first runs inside the tunnel the one before it has opened. A
handshake asks with one message at a time and reads each reply to its last byte, so the
next one starts on a connection with nothing on its way; the hops follow by induction.
-/

namespace Proxiflare.Guarantees.ChainTunnel

open Lib.CString Lib Lib.ProxyServer
open Proxiflare.Daemon ProxyNetwork ConnectIntegrity

variable {N : Network} {path : List Endpoint} {w : World} {dst : CStr} {port : Nat}

theorem port_lt (h : validPort (port : Int) = true) : port < 65536 := by
  simp only [validPort, Bool.and_eq_true, decide_eq_true_eq] at h
  omega

theorem noNul_of_hostName (h : IsHostName dst) : 0 ∉ dst :=
  HttpRequest.isRegName_notMem h.2 (by decide) (by decide)

/-! ## One hop of each protocol -/

theorem socks4_granted (hspeaks : N.speaks path = some .socks4)
    (h : Stands ⟨path, .start, []⟩ [] w) (hdst : IsHostName dst) (hlen : dst.length ≤ pfDomainMax)
    (hport : validPort (port : Int) = true) (fd : Fd) (p : Proxy) :
    ∃ w', Act.Gives (N.wire.socks4NegotiateOnFd fd dst port p.username.orNull) w ⟨⟩ w' ∧
      Stands ⟨path ++ [(dst, port)], .start, []⟩ [] w' := by
  have huser := p.username.fits
  simp only [pfDomainMax] at hlen
  have hfits : 8 + p.username.chars.length + 1 + dst.length + 1 ≤ pfBufSize := by
    rw [pfBufSize]
    omega
  have hhear : N.hear ⟨path, .start, socks4aRequest p.username.chars dst port⟩ =
      some ((N.socks4 path).bytes ++ [], ⟨path ++ [(dst, port)], .start, []⟩) := by
    have hread := readSocks4a_request p.username.noNul hdst.1 (noNul_of_hostName hdst)
      (port_lt hport) []
    rw [List.append_nil] at hread
    simp [Network.hear, hspeaks, hread, Far.next]
  obtain ⟨w₁, hsend, h₁⟩ := h.sendAll fd (socks4aRequest p.username.chars dst port)
  obtain ⟨w₂, hrecv, h₂⟩ := h₁.hears hhear (List.cons_ne_nil _ _) fd
  have height : (N.socks4 path).bytes.length = 8 := congrArg (· + 2) (N.socks4 path).tail_length
  rw [height] at hrecv
  refine ⟨w₂, ?_, h₂⟩
  unfold Carrier.socks4NegotiateOnFd
  rw [CBuf.orNull_getD]
  exact .bind (.require hport) (.bind (.require (decide_eq_true hfits))
    (.bind hsend (.bind hrecv (.require rfl))))

theorem connectText_read (hdst : IsHostName dst) (hport : validPort (port : Int) = true)
    (user pass : CStr) :
    readConnect (connectText dst port user pass) = some ((dst, port), []) := by
  have htarget := (intact_of_hostName hdst port user pass).2
  have hlt := port_lt hport
  have hread := readConnect_render (intended_ok hdst port user pass) rfl htarget (by omega) []
  rw [connectText_eq_render]
  rwa [List.append_nil] at hread

theorem statusCode_grant (g : HttpGrant) : statusCode g.bytes = some 200 := by
  have hcode : atoi (decimal 200 ++ g.after) = (200 : Nat) := by
    cases hafter : g.after with
    | nil => rw [List.append_nil, atoi_decimal_self (by decide)]
    | cons c rest =>
      exact atoi_decimal (by decide) (g.after_noDigit c (by rw [hafter]; rfl)) rest
  unfold statusCode HttpGrant.bytes okHead
  rw [strchr_append_cons g.version_noBlank]
  exact congrArg some hcode

theorem http_granted (hspeaks : N.speaks path = some .http)
    (h : Stands ⟨path, .start, []⟩ [] w) (hdst : IsHostName dst) (hlen : dst.length ≤ pfDomainMax)
    (hport : validPort (port : Int) = true) (fd : Fd) (p : Proxy) :
    ∃ w', Act.Gives (N.wire.httpNegotiateOnFd fd dst port p.username.orNull p.password.orNull)
        w ⟨⟩ w' ∧ Stands ⟨path ++ [(dst, port)], .start, []⟩ [] w' := by
  have hreq : negotiateRequest dst port p.username.orNull p.password.orNull =
      some (connectText dst port p.username.chars p.password.chars) := by
    rw [negotiateRequest_eq]
    exact httpRequest_eq 384 none (by decide) (by simp) (hlen.trans (by decide)) p.username.fits
      p.password.fits hport
  have hhear : N.hear ⟨path, .start, connectText dst port p.username.chars p.password.chars⟩ =
      some ((N.http path).bytes, ⟨path ++ [(dst, port)], .start, []⟩) := by
    simp [Network.hear, hspeaks, connectText_read hdst hport, Far.next]
  obtain ⟨w₁, hsend, h₁⟩ := h.sendAll fd (connectText dst port p.username.chars p.password.chars)
  obtain ⟨w₂, hrecv, h₂⟩ := h₁.hears_head hhear fd
  refine ⟨w₂, .bind (.require hport) ?_, h₂⟩
  rw [hreq]
  refine .bind hsend (.bind hrecv ?_)
  rw [requireStatus_eq, statusCode_grant]
  exact .require rfl

/-! ### SOCKS5 -/

/-- Credentials are sent if they were asked for, and the server then waits for the request. -/
theorem socks5Auth_granted (hspeaks : N.speaks path = some .socks5) {user pass : CStr}
    {method : UInt8}
    (h : Stands ⟨path, if method = 0x02 then .credentials else .request, []⟩ [] w)
    (hmethod : method = 0x02 → user ≠ []) (huser : user.length < 256) (hpass : pass.length < 256)
    (fd : Fd) :
    ∃ w', Act.Gives (N.wire.socks5Auth fd (!user.isEmpty) user pass method) w ⟨⟩ w' ∧
      Stands ⟨path, .request, []⟩ [] w' := by
  unfold Carrier.socks5Auth
  by_cases hasked : method = 0x02
  · rw [if_pos hasked] at h ⊢
    have hne := hmethod hasked
    have hhear : N.hear ⟨path, .credentials, socks5Credentials user pass⟩ =
        some ([(N.socks5 path).authVersion, 0x00] ++ [], ⟨path, .request, []⟩) := by
      have hread := readCredentials_credentials hne huser hpass []
      rw [List.append_nil] at hread
      simp [Network.hear, hspeaks, hread]
    obtain ⟨w₁, hsend, h₁⟩ := h.sendAll fd (socks5Credentials user pass)
    obtain ⟨w₂, hrecv, h₂⟩ := h₁.hears hhear (List.cons_ne_nil _ _) fd
    have htext : [0x01, UInt8.ofNat user.length] ++ user ++ [UInt8.ofNat pass.length] ++ pass =
        socks5Credentials user pass := by
      simp [socks5Credentials, sized]
    refine ⟨w₂, .bind (.require (by simpa using hne)) ?_, h₂⟩
    rw [htext]
    exact .bind hsend (.bind hrecv (.require rfl))
  · rw [if_neg hasked] at h ⊢
    exact ⟨w, .pure _, h⟩

/-- The bound address is read to its end. -/
theorem socks5Addr_granted {far : Far} {atyp : UInt8} {bound : CStr}
    (hbound : BoundComplete atyp bound) (h : Stands far bound w) (fd : Fd) :
    ∃ addrLen w₁ got w', Act.Gives (N.wire.socks5AddrLen fd atyp) w addrLen w₁ ∧
      Act.Gives (N.wire.recvAll fd (addrLen + 2)) w₁ got w' ∧ Stands far [] w' := by
  rw [← List.append_nil bound] at h
  obtain ⟨rfl, hlen⟩ | ⟨rfl, hlen⟩ | ⟨rfl, len, addr, rfl, hlen⟩ := hbound
  · obtain ⟨w', hrecv, hrest⟩ := h.recvAll fd
    rw [hlen] at hrecv
    exact ⟨4, w, bound, w', .pure 4, hrecv, hrest⟩
  · obtain ⟨w', hrecv, hrest⟩ := h.recvAll fd
    rw [hlen] at hrecv
    exact ⟨16, w, bound, w', .pure 16, hrecv, hrest⟩
  · have hsplit : Stands far ([len] ++ (addr ++ [])) w := h
    obtain ⟨w₁, hfirst, h₁⟩ := hsplit.recvAll fd
    obtain ⟨w', hrecv, hrest⟩ := h₁.recvAll fd
    rw [hlen] at hrecv
    exact ⟨len.toNat, w₁, addr, w', .bind hfirst (.pure _), hrecv, hrest⟩

/-- The methods the client offers. -/
def offered (user : CStr) : CStr := if !user.isEmpty then [0x00, 0x02] else [0x00]

theorem offered_ne_nil (user : CStr) : offered user ≠ [] := by
  cases user <;> simp [offered]

theorem of_mem_offered {user : CStr} {method : UInt8} (h : method ∈ offered user) :
    method ≠ 0xFF ∧ (method = 0x02 → user ≠ []) := by
  cases user with
  | nil =>
    obtain rfl : method = 0x00 := by simpa [offered] using h
    exact ⟨by decide, fun hno => absurd hno (by decide)⟩
  | cons c cs =>
    have hmem : method = 0x00 ∨ method = 0x02 := by simpa [offered] using h
    refine ⟨?_, fun _ => List.cons_ne_nil c cs⟩
    rcases hmem with rfl | rfl <;> decide

theorem socks5_granted (hspeaks : N.speaks path = some .socks5)
    (h : Stands ⟨path, .start, []⟩ [] w) (hdst : IsHostName dst) (hlen : dst.length ≤ pfDomainMax)
    (hport : validPort (port : Int) = true) (fd : Fd) (p : Proxy) :
    ∃ w', Act.Gives (N.wire.socks5NegotiateOnFd fd dst port p.username.orNull p.password.orNull)
        w ⟨⟩ w' ∧ Stands ⟨path ++ [(dst, port)], .start, []⟩ [] w' := by
  obtain ⟨user, huser⟩ : ∃ user, p.username.chars = user := ⟨_, rfl⟩
  obtain ⟨pass, hpass⟩ : ∃ pass, (if !user.isEmpty then p.password.chars else []) = pass := ⟨_, rfl⟩
  obtain ⟨method, hmethod⟩ : ∃ method, N.method path (offered user) = method := ⟨_, rfl⟩
  obtain ⟨hno, hauth⟩ : method ≠ 0xFF ∧ (method = 0x02 → user ≠ []) :=
    of_mem_offered (hmethod ▸ N.method_offered path _ (offered_ne_nil user))
  simp only [pfDomainMax] at hlen
  have huserLen : user.length < 128 := huser ▸ p.username.fits
  have hpassLen : pass.length < 128 := by
    have hfits := p.password.fits
    rw [← hpass]
    split
    · exact hfits
    · exact Nat.zero_lt_of_lt hfits
  have hgreeting : (if !user.isEmpty then [0x05, 0x02, 0x00, 0x02] else [0x05, 0x01, 0x00] : CStr) =
      socks5Greeting (offered user) := by
    cases user <;> rfl
  have hrequest : [0x05, 0x01, 0x00, 0x03, UInt8.ofNat dst.length] ++ dst ++ portBytes port =
      socks5Request dst port := by
    simp [socks5Request, sized, portBytes, portText]
  have hhear₁ : N.hear ⟨path, .start, socks5Greeting (offered user)⟩ = some ([0x05, method] ++ [],
      ⟨path, if method = 0x02 then .credentials else .request, []⟩) := by
    have hread := readGreeting_greeting (offered_ne_nil user) (by cases user <;> simp [offered]) []
    rw [List.append_nil] at hread
    simp [Network.hear, hspeaks, hread, hmethod]
  have hhear₂ : N.hear ⟨path, .request, socks5Request dst port⟩ =
      some ([(N.socks5 path).version, 0x00, (N.socks5 path).rsv, (N.socks5 path).atyp] ++
        (N.socks5 path).bound, ⟨path ++ [(dst, port)], .start, []⟩) := by
    have hread := readSocks5_request hdst.1 (by omega) (port_lt hport) []
    rw [List.append_nil] at hread
    simp [Network.hear, hspeaks, hread, Far.next, Socks5Grant.bytes]
  obtain ⟨w₁, hsend₁, h₁⟩ := h.sendAll fd (socks5Greeting (offered user))
  obtain ⟨w₂, hrecv₂, h₂⟩ := h₁.hears hhear₁ (List.cons_ne_nil _ _) fd
  obtain ⟨w₃, hauth₃, h₃⟩ :=
    socks5Auth_granted hspeaks h₂ hauth (by omega) (show pass.length < 256 by omega) fd
  obtain ⟨w₄, hsend₄, h₄⟩ := h₃.sendAll fd (socks5Request dst port)
  obtain ⟨w₅, hrecv₅, h₅⟩ := h₄.hears hhear₂ (List.cons_ne_nil _ _) fd
  obtain ⟨addrLen, w₆, got, w₇, haddr, hdrain, h₇⟩ :=
    socks5Addr_granted (N.socks5 path).complete h₅ fd
  refine ⟨w₇, ?_, h₇⟩
  unfold Carrier.socks5NegotiateOnFd
  simp only [CBuf.orNull_getD, CBuf.orNull_hasAuth, huser, sentUser_eq, hpass, hgreeting, hrequest]
  have hlengths : (decide (user.length ≤ 255) && decide (pass.length ≤ 255)) = true := by
    simp only [Bool.and_eq_true, decide_eq_true_eq]
    omega
  refine .bind (.require hport) (.bind (.require (decide_eq_true (by omega))) ?_)
  refine .bind (.require hlengths) (.bind hsend₁ (.bind hrecv₂ (.bind (.require rfl) ?_)))
  refine .bind (.require (decide_eq_true hno)) (.bind hauth₃ (.bind hsend₄ (.bind hrecv₅ ?_)))
  exact .bind (.require rfl) (.bind haddr (.bind hdrain (.pure _)))

/-! ## The hops of a chain -/

theorem hop_granted {hop : Proxy} (hspeaks : N.speaks path = some hop.type) (hssh : hop.type ≠ .ssh)
    (h : Stands ⟨path, .start, []⟩ [] w) (hdst : IsHostName dst) (hlen : dst.length ≤ pfDomainMax)
    (hport : validPort (port : Int) = true) (fd : Fd) :
    ∃ w', Act.Gives (N.wire.negotiateHopOnFd fd hop dst port) w ⟨⟩ w' ∧
      Stands ⟨path ++ [(dst, port)], .start, []⟩ [] w' := by
  have hreached : Stands ⟨path, .start, []⟩ [] (N.wire.reach hop fd w) :=
    ⟨h.far_eq, h.pieces, h.stream, h.sends⟩
  suffices hswitch : ∃ w', Act.Gives (N.wire.negotiateSwitch fd hop dst port)
      (N.wire.reach hop fd w) ⟨⟩ w' ∧ Stands ⟨path ++ [(dst, port)], .start, []⟩ [] w' by
    obtain ⟨w', hgives, hstands⟩ := hswitch
    exact ⟨w', .bind (.update _) hgives, hstands⟩
  unfold Carrier.negotiateSwitch
  cases htype : hop.type with
  | socks4 =>
    rw [htype] at hspeaks
    exact socks4_granted hspeaks hreached hdst hlen hport fd hop
  | socks5 =>
    rw [htype] at hspeaks
    exact socks5_granted hspeaks hreached hdst hlen hport fd hop
  | http =>
    rw [htype] at hspeaks
    exact http_granted hspeaks hreached hdst hlen hport fd hop
  | ssh => exact absurd htype hssh

/-- Each proxy, reached through those before it, speaks the protocol of its record. -/
def SpeaksAlong (N : Network) : List Endpoint → List Proxy → Prop
  | _, [] => True
  | path, p :: rest =>
    N.speaks (path ++ [endpointOf p]) = some p.type ∧ SpeaksAlong N (path ++ [endpointOf p]) rest

/-- A record a chain can go through. -/
structure Usable (p : Proxy) : Prop where
  type : p.type ≠ .ssh
  host : IsHostName p.host.chars
  port : p.port ≠ 0

theorem hops_granted {hop : Proxy} {rest : List Proxy} (hspeaks : SpeaksAlong N path (hop :: rest))
    (husable : ∀ p ∈ hop :: rest, Usable p) (h : Stands ⟨path ++ [endpointOf hop], .start, []⟩ [] w)
    (hdst : IsHostName dst) (hlen : dst.length ≤ pfDomainMax)
    (hport : validPort (port : Int) = true) (fd : Fd) :
    ∃ w', Act.Gives (N.wire.negotiateHops fd (hop :: rest) dst port) w ⟨⟩ w' ∧
      Stands ⟨path ++ (hop :: rest).map endpointOf ++ [(dst, port)], .start, []⟩ [] w' := by
  induction rest generalizing hop path w with
  | nil => exact hop_granted hspeaks.1 (husable hop List.mem_cons_self).type h hdst hlen hport fd
  | cons next rest ih =>
    obtain ⟨husableHop, husableRest⟩ := List.forall_mem_cons.mp husable
    obtain ⟨husableNext, -⟩ := List.forall_mem_cons.mp husableRest
    obtain ⟨w₁, hgives₁, h₁⟩ := hop_granted hspeaks.1 husableHop.type h husableNext.host
      (Nat.le_of_lt_succ next.host.fits) (validPort_toNat husableNext.port) fd
    obtain ⟨w₂, hgives₂, h₂⟩ := ih hspeaks.2 husableRest h₁
    refine ⟨w₂, .bind hgives₁ hgives₂, ?_⟩
    have hpath : path ++ (hop :: next :: rest).map endpointOf =
        path ++ [endpointOf hop] ++ (next :: rest).map endpointOf := by
      simp
    rw [hpath]
    exact h₂

theorem tryAddrs_connects {p : Proxy} {fd : Fd} {res : List AddrRes} (hmem : .connected fd ∈ res)
    (net : Net) : ∃ fd' net', Act.Gives (tryAddrs p res) net fd' net' ∧
      net'.inbox = net.inbox ∧ net'.sends = net.sends := by
  induction res generalizing net with
  | nil => cases hmem
  | cons a rest ih =>
    cases a with
    | noSocket =>
      obtain ⟨fd', net', hgives, hsame⟩ := ih (by simpa using hmem) net
      exact ⟨fd', net', hgives, hsame⟩
    | refused fd₁ =>
      obtain ⟨fd', net', hgives, hsame⟩ :=
        ih (by simpa using hmem) ((net.emit (.dial p fd₁)).emit (.closed fd₁))
      exact ⟨fd', net', hgives, hsame⟩
    | connected fd₁ => exact ⟨fd₁, _, .bind (.update _) (.pure _), rfl, rfl⟩

theorem tcpConnect_stands {p : Proxy} {fd : Fd} (hdial : .connected fd ∈ w.net.lookups.headD [])
    (hsends : ∀ n ∈ w.net.sends, n ≠ 0) (hinbox : w.net.inbox = []) :
    ∃ fd' w', Act.Gives (N.wire.tcpConnect p) w fd' w' ∧
      Stands ⟨[endpointOf p], .start, []⟩ [] w' := by
  obtain ⟨fd', net', htry, hinbox', hsends'⟩ :=
    tryAddrs_connects (p := p) hdial { w.net with lookups := w.net.lookups.tail }
  have hconnect : Act.Gives (tcpConnect p) w.net fd' net' := Act.Gives.bind rfl htry
  have hlift : Act.Gives (onNet (tcpConnect p)) w fd' ⟨net', w.far⟩ := by
    unfold Act.Gives onNet
    rw [show tcpConnect p w.net = _ from hconnect]
  have hempty : net'.inbox = [] := hinbox'.trans hinbox
  refine ⟨fd', ⟨net', ⟨[endpointOf p], .start, []⟩⟩, .bind hlift (.bind (.update _) (.pure _)), rfl,
    ?_, ?_, ?_⟩
  · rw [hempty]
    exact List.forall_mem_nil _
  · rw [Net.stream, hempty, stream_nil]
  · rw [hsends']
    exact hsends

/-- For every network, every chain of usable records and every destination: the descriptor that is
returned leads through the hops in their order to the destination, and nothing is on its way. -/
theorem chain_leads_to_destination {chain : Chain} {proxies hops : List Proxy} {port : Int}
    {fd : Fd} (hcount : 1 ≤ chain.hops.length)
    (hhops : chain.hops.mapM (findProxy proxies) = some hops)
    (husable : ∀ p ∈ hops, Usable p) (hspeaks : SpeaksAlong N [] hops)
    (hdst : IsHostName dst) (hlen : dst.length ≤ pfDomainMax) (hport : 1 ≤ port ∧ port ≤ 65535)
    (hdial : .connected fd ∈ w.net.lookups.headD []) (hsends : ∀ n ∈ w.net.sends, n ≠ 0)
    (hinbox : w.net.inbox = []) :
    ∃ fd' w', Act.Gives (N.wire.pfChainConnect chain proxies dst port) w fd' w' ∧
      w'.far = ⟨hops.map endpointOf ++ [(dst, port.toNat)], .start, []⟩ ∧ w'.net.inbox = [] := by
  obtain ⟨n, rfl⟩ := Int.eq_ofNat_of_zero_le (show 0 ≤ port by omega)
  have hvalid : validPort (n : Int) = true := by
    simpa [validPort] using hport
  have hsize : (1 ≤ chain.hops.length && chain.hops.length ≤ pfMaxHops : Bool) = true := by
    rw [decide_eq_true hcount, decide_eq_true chain.hopsFit, Bool.and_self]
  cases hops with
  | nil =>
    obtain ⟨id, ids, hids⟩ := List.exists_cons_of_length_pos hcount
    simp [hids, List.mapM_cons, Option.bind_eq_some_iff] at hhops
  | cons first rest =>
    obtain ⟨fd', w₁, hconnect, h₁⟩ := tcpConnect_stands (N := N) (p := first) hdial hsends hinbox
    obtain ⟨w₂, hgives, h₂⟩ := hops_granted hspeaks husable h₁ hdst hlen hvalid fd'
    refine ⟨fd', w₂, ?_, h₂.far_eq, h₂.inbox_nil⟩
    refine .bind (.require hsize) (.bind (.require hvalid) ?_)
    rw [hhops]
    exact .bind (.require (decide_eq_true (husable first List.mem_cons_self).type))
      (.bind hconnect (.bind (.onFail hgives) (.pure _)))

/-! ## Two proxies -/

def firstHop : Proxy :=
  ⟨1, .snprintf (lit "a"), .socks5, .snprintf (lit "10.0.0.1"), 1080, .snprintf (lit "me"),
    .snprintf (lit "pw"), .empty, 0, 0, 1⟩

def secondHop : Proxy :=
  ⟨2, .snprintf (lit "b"), .http, .snprintf (lit "b.example"), 3128, .empty, .empty, .empty, 0, 0,
    1⟩

def twoHops : Chain := ⟨1, .snprintf (lit "c"), [1, 2], by decide, 1⟩

/-- The first proxy asks for credentials; replies arrive byte by byte. -/
def twoProxies : Network where
  speaks path :=
    if path = [endpointOf firstHop] then some .socks5
    else if path = [endpointOf firstHop, endpointOf secondHop] then some .http
    else none
  socks4 _ := ⟨0, [0, 0, 0, 0, 0, 0], rfl⟩
  method _ methods := methods.getLastD 0
  method_offered _ methods hne := by
    obtain ⟨m, ms, rfl⟩ := List.exists_cons_of_ne_nil hne
    rw [List.getLastD_cons]
    exact List.getLastD_mem_cons
  socks5 _ := ⟨1, 5, 0, 1, [0, 0, 0, 0, 0, 0], .inl ⟨rfl, rfl⟩⟩
  http _ :=
    { version := lit "HTTP/1.1"
      after := lit " OK\r\n\r\n"
      version_noBlank := by decide
      after_noDigit := fun c hc => by cases hc; rfl
      isHead := TunnelHandover.isHead_okResponse
      noNul := by decide
      fits := by decide }
  pieces _ bytes := bytes.map fun b => [b]
  pieces_ne_nil _ bytes piece hmem := by
    obtain ⟨b, -, rfl⟩ := List.mem_map.mp hmem
    exact List.cons_ne_nil b []
  pieces_flatten _ bytes := by
    induction bytes with
    | nil => rfl
    | cons b bytes ih => exact congrArg (b :: ·) ih

theorem two_hops_lead_to_destination :
    ∃ fd w', Act.Gives
        (twoProxies.wire.pfChainConnect twoHops [firstHop, secondHop] (lit "a.b") 443)
        ⟨⟨[[.refused 3, .connected 4]], [], [], []⟩, ⟨[], .start, []⟩⟩ fd w' ∧
      w'.far = ⟨[firstHop, secondHop].map endpointOf ++ [(lit "a.b", 443)], .start, []⟩ ∧
      w'.net.inbox = [] := by
  have hfirst : Usable firstHop := ⟨by decide, by unfold IsHostName; decide, by decide⟩
  have hsecond : Usable secondHop := ⟨by decide, by unfold IsHostName; decide, by decide⟩
  exact chain_leads_to_destination (by decide) rfl (by simp [hfirst, hsecond])
    ⟨by decide, by decide, trivial⟩ (by unfold IsHostName; decide) (by decide) (by decide)
    (List.mem_cons_of_mem _ List.mem_cons_self) (List.forall_mem_nil _) rfl

end Proxiflare.Guarantees.ChainTunnel
