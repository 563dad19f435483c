import Proxiflare.Daemon.ChainWire
import Proxiflare.Daemon.Dialogues
import Proxiflare.Guarantees.ConnectIntegrity
import Proxiflare.Guarantees.TunnelHandover
import Proxiflare.Lib.ProxyServer

/-!
# A network of proxies

The far end of a connection is known by the way that leads to it. A proxy that has
read a whole request answers with a success, in any pieces, and from then on the
connection ends at the endpoint it was asked for, where all that is sent is heard.
Nothing else is ever sent.
-/

namespace Proxiflare.Guarantees.ProxyNetwork

open Lib.CString Lib Lib.ProxyServer
open Proxiflare.Daemon TunnelHandover

/-- Where the dialogue with a SOCKS5 server stands; the other protocols have one request. -/
inductive Stage where
  | start | credentials | request
  deriving DecidableEq

/-- The endpoints that lead to the far end, and what it has heard but not yet acted on. -/
structure Far where
  path : List Endpoint
  stage : Stage
  heard : CStr
  deriving DecidableEq

def Far.next (far : Far) (target : Endpoint) (rest : CStr) : Far :=
  ⟨far.path ++ [target], .start, rest⟩

/-! ## Success replies -/

/-- The reply to the credentials, and the reply to CONNECT with its bound address. -/
structure Socks5Grant where
  authVersion : UInt8
  version : UInt8
  rsv : UInt8
  atyp : UInt8
  bound : CStr
  complete : BoundComplete atyp bound

def Socks5Grant.bytes (g : Socks5Grant) : CStr := [g.version, 0x00, g.rsv, g.atyp] ++ g.bound

def okHead (version after : CStr) : CStr := version ++ 32 :: (decimal 200 ++ after)

/-- A head with status 200 that fits the buffer. -/
structure HttpGrant where
  version : CStr
  after : CStr
  version_noBlank : 32 ∉ version
  after_noDigit : ∀ c ∈ after.head?, isDigit c = false
  isHead : IsHead (okHead version after)
  noNul : 0 ∉ okHead version after
  fits : (okHead version after).length ≤ respBufSize - 1

def HttpGrant.bytes (g : HttpGrant) : CStr := okHead g.version g.after

/-- What a way speaks at its end, what it grants with, and how its bytes arrive. -/
structure Network where
  speaks : List Endpoint → Option ProxyType
  socks4 : List Endpoint → Socks4Reply
  method : List Endpoint → CStr → UInt8
  method_offered : ∀ path methods, methods ≠ [] → method path methods ∈ methods
  socks5 : List Endpoint → Socks5Grant
  http : List Endpoint → HttpGrant
  pieces : Far → CStr → List CStr
  pieces_ne_nil : ∀ far bytes, ∀ piece ∈ pieces far bytes, piece ≠ []
  pieces_flatten : ∀ far bytes, (pieces far bytes).flatten = bytes

/-- The far end reads one message, if it has heard one, and replies. -/
def Network.hear (N : Network) (far : Far) : Option (CStr × Far) := do
  match ← N.speaks far.path, far.stage with
  | .socks4, _ =>
    let (target, rest) ← readSocks4a far.heard
    pure ((N.socks4 far.path).bytes, far.next target rest)
  | .http, _ =>
    let (target, rest) ← readConnect far.heard
    pure ((N.http far.path).bytes, far.next target rest)
  | .socks5, .start =>
    let (methods, rest) ← readGreeting far.heard
    let method := N.method far.path methods
    let stage := if method = 0x02 then Stage.credentials else Stage.request
    pure ([0x05, method], { far with stage := stage, heard := rest })
  | .socks5, .credentials =>
    let (_, rest) ← readCredentials far.heard
    pure ([(N.socks5 far.path).authVersion, 0x00], { far with stage := .request, heard := rest })
  | .socks5, .request =>
    let (target, rest) ← readSocks5 far.heard
    pure ((N.socks5 far.path).bytes, far.next target rest)
  | .ssh, _ => none

/-! ## The connection -/

structure World where
  net : Net
  far : Far

def onNet {α : Type} (m : Act Net α) : Act World α :=
  fun w => ((m w.net).1, { w with net := (m w.net).2 })

/-- The reply joins what the client has yet to read. -/
def Network.react (N : Network) (w : World) : World :=
  match N.hear w.far with
  | none => w
  | some (reply, far) =>
    { net := { w.net with inbox := w.net.inbox ++ N.pieces w.far reply }, far := far }

def endpointOf (p : Proxy) : Endpoint := (p.host.chars, p.port.toNat)

/-- A `connect` leads to the first endpoint, a `send` is heard at the far end, and a `recv` with
nothing to read waits for it. -/
def Network.wire (N : Network) : Carrier World where
  tcpConnect p := do
    let fd ← onNet (tcpConnect p)
    Act.update fun w => { w with far := ⟨[endpointOf p], .start, []⟩ }
    pure fd
  sendAll fd buf w :=
    ((sendAll fd buf w.net).1,
      { net := (sendAll fd buf w.net).2
        far := { w.far with heard := w.far.heard ++ (sendLoop w.net.sends buf).1 } })
  recv _ room w := onNet (Net.recv room) (if w.net.inbox = [] then N.react w else w)
  close fd w := { w with net := closeFd fd w.net }
  reach p fd w := { w with net := w.net.emit (.reach p fd) }

/-! ## What has yet to be read -/

/-- The far end stands so, these bytes of it have yet to be read, and no `send` will fail. -/
structure Stands (far : Far) (bytes : CStr) (w : World) : Prop where
  far_eq : w.far = far
  pieces : ∀ piece ∈ w.net.inbox, piece ≠ []
  stream : w.net.stream = bytes
  sends : ∀ n ∈ w.net.sends, n ≠ 0

theorem stream_eq_flatten {pieces : List CStr} (h : ∀ piece ∈ pieces, piece ≠ []) :
    Lib.stream pieces = pieces.flatten := by
  induction pieces with
  | nil => rfl
  | cons piece pieces ih =>
    obtain ⟨hpiece, hpieces⟩ := List.forall_mem_cons.mp h
    rw [stream_cons hpiece, ih hpieces, List.flatten_cons]

theorem Stands.inbox_nil {far : Far} {w : World} (h : Stands far [] w) : w.net.inbox = [] := by
  have hstream := h.stream
  cases hinbox : w.net.inbox with
  | nil => rfl
  | cons piece inbox =>
    have hpiece := h.pieces piece (by rw [hinbox]; exact List.mem_cons_self)
    rw [Net.stream, hinbox, stream_cons hpiece] at hstream
    exact absurd (List.append_eq_nil_iff.mp hstream).1 hpiece

theorem recvLoop_pieces {inbox : List CStr} {len : Nat} (h : ∀ piece ∈ inbox, piece ≠ []) :
    ∀ piece ∈ (recvLoop inbox len).2, piece ≠ [] := by
  fun_induction recvLoop inbox len with
  | case1 inbox => exact h
  | case2 => exact h
  | case3 inbox => exact fun piece hmem => h piece (List.mem_cons_of_mem _ hmem)
  | case4 chunk inbox len hne hle got rest hrec ih =>
    have hrest := ih fun piece hmem => h piece (List.mem_cons_of_mem _ hmem)
    rw [hrec] at hrest
    exact hrest
  | case5 chunk inbox len hne hgt =>
    intro piece hmem
    rcases List.mem_cons.mp hmem with rfl | hmem
    · rw [Ne, List.drop_eq_nil_iff]
      omega
    · exact h piece (List.mem_cons_of_mem _ hmem)

/-- A head in pieces is read to its last byte. -/
theorem recvHead_head {head : CStr} (hhead : IsHead head) (hnul : 0 ∉ head)
    (hfits : head.length ≤ respBufSize - 1) {inbox : List CStr} {got : CStr}
    (hpieces : ∀ piece ∈ inbox, piece ≠ []) (hstream : got ++ Lib.stream inbox = head)
    (hlt : got.length < head.length) : recvHead inbox got = (some head, []) := by
  induction inbox generalizing got with
  | nil =>
    rw [stream_nil, List.append_nil] at hstream
    exact absurd (congrArg List.length hstream) (Nat.ne_of_lt hlt)
  | cons chunk inbox ih =>
    obtain ⟨hchunk, hinbox⟩ := List.forall_mem_cons.mp hpieces
    rw [stream_cons hchunk, ← List.append_assoc] at hstream
    have hlen := congrArg List.length hstream
    simp only [List.length_append] at hlen
    have hroom : chunk.length ≤ respBufSize - 1 - got.length := by omega
    rw [recvHead, List.take_of_length_le hroom]
    rw [if_neg (by omega), if_neg hchunk]
    cases inbox with
    | nil =>
      rw [stream_nil, List.append_nil] at hstream
      have hfound : (strstr (cstr head) (lit "\r\n\r\n")).isSome = true := by
        rw [cstr_of_noNul hnul]
        exact (strstr_isSome_iff _ _).mpr hhead.ends.isInfix
      rw [hstream, if_pos hfound, if_pos hroom, cstr_of_noNul hnul]
    | cons next inbox =>
      have hnext := (List.forall_mem_cons.mp hinbox).1
      have hpos := List.length_pos_iff.mpr hnext
      rw [stream_cons hnext, List.length_append] at hlen
      have hpre : got ++ chunk <+: head.dropLast := by
        refine List.prefix_of_prefix_length_le (hstream ▸ List.prefix_append _ _)
          (List.dropLast_prefix head) ?_
        rw [List.length_append, List.length_dropLast]
        omega
      have hmore : ¬ (strstr (cstr (got ++ chunk)) (lit "\r\n\r\n")).isSome = true := by
        rw [strstr_isSome_iff]
        exact fun hin =>
          hhead.first ((hin.trans (List.takeWhile_prefix _).isInfix).trans hpre.isInfix)
      rw [if_neg hmore, if_pos hroom]
      refine ih hinbox hstream ?_
      rw [List.length_append]
      omega

/-! ## Reading without waiting -/

variable {N : Network} {far far' : Far} {w : World}

/-- A `recv` that finds a piece does not wait for the far end. -/
theorem wire_recv {net net' : Net} {room : Nat} {got : Received room}
    (h : Act.Gives (Net.recv room) net got net') (fd : Fd) :
    Act.Gives (N.wire.recv fd room) ⟨net, far⟩ got ⟨net', far⟩ := by
  have hinbox : net.inbox ≠ [] := by
    intro hnil
    rw [Act.Gives, netRecv_none hnil] at h
    cases h
  show onNet (Net.recv room) (if net.inbox = [] then N.react ⟨net, far⟩ else ⟨net, far⟩) = _
  rw [if_neg hinbox, onNet, show Net.recv room net = _ from h]

theorem wire_recvAll {fd : Fd} {len : Nat} {net net' : Net} {got : CStr}
    (h : Act.Gives (netCarrier.recvAll fd len) net got net') :
    Act.Gives (N.wire.recvAll fd len) ⟨net, far⟩ got ⟨net', far⟩ := by
  induction len using Nat.strong_induction_on generalizing net got with
  | _ len ih =>
    rw [Carrier.recvAll] at h ⊢
    by_cases hlen : len = 0
    · rw [dif_pos hlen] at h ⊢
      obtain ⟨rfl, rfl⟩ := Act.gives_pure_iff.mp h
      exact .pure _
    · rw [dif_neg hlen] at h ⊢
      obtain ⟨chunk, net₁, hrecv, h⟩ := Act.gives_bind_iff.mp h
      obtain ⟨rest, net₂, hrest, h⟩ := Act.gives_bind_iff.mp h
      obtain ⟨rfl, rfl⟩ := Act.gives_pure_iff.mp h
      have hpos := List.length_pos_iff.mpr chunk.ne_nil
      exact .bind (wire_recv hrecv fd) (.bind (ih _ (by omega) hrest) (.pure _))

theorem wire_recvResponse {fd : Fd} {resp got : CStr} {net net' : Net}
    (h : Act.Gives (netCarrier.recvResponse fd resp) net got net') :
    Act.Gives (N.wire.recvResponse fd resp) ⟨net, far⟩ got ⟨net', far⟩ := by
  induction hroom : respBufSize - 1 - resp.length using Nat.strong_induction_on
    generalizing resp net with
  | _ room ih =>
    rw [Carrier.recvResponse] at h ⊢
    by_cases hlt : resp.length < respBufSize - 1
    · rw [if_pos hlt] at h ⊢
      obtain ⟨chunk, net₁, hrecv, h⟩ := Act.gives_bind_iff.mp h
      refine .bind (wire_recv hrecv fd) ?_
      split at h
      · next hfound =>
        obtain ⟨rfl, rfl⟩ := Act.gives_pure_iff.mp h
        rw [if_pos hfound]
        exact .pure _
      · next hmore =>
        rw [if_neg hmore]
        have hpos := List.length_pos_iff.mpr chunk.ne_nil
        refine ih _ ?_ h rfl
        rw [← hroom, List.length_append]
        omega
    · rw [if_neg hlt] at h
      exact absurd h Act.not_gives_fail

/-- The next bytes, all of which have arrived. -/
theorem Stands.recvAll {got rest : CStr} (h : Stands far (got ++ rest) w) (fd : Fd) :
    ∃ w', Act.Gives (N.wire.recvAll fd got.length) w got w' ∧ Stands far rest w' := by
  obtain ⟨net', hgives, hrest, hsends⟩ := recvAll_gives_stream w.net got h.stream
  have hinbox : (recvLoop w.net.inbox got.length).2 = net'.inbox :=
    congrArg Net.inbox (Prod.mk.inj hgives).2
  rw [← netCarrier_recvAll fd] at hgives
  refine ⟨⟨net', w.far⟩, wire_recvAll hgives, h.far_eq, ?_, hrest, hsends ▸ h.sends⟩
  rw [← hinbox]
  exact recvLoop_pieces h.pieces

/-! ## Asking and being answered -/

theorem sendLoop_ok {sends : List Nat} (h : ∀ n ∈ sends, n ≠ 0) (buf : CStr) :
    (sendLoop sends buf).2.1 = true := by
  fun_induction sendLoop sends buf with
  | case1 => rfl
  | case2 => rfl
  | case3 n => exact absurd rfl (h 0 List.mem_cons_self)
  | case4 n sends b buf hn sent ok rest hrec ih =>
    have hok := ih fun k hk => h k (List.mem_cons_of_mem n hk)
    rw [hrec] at hok
    exact hok

theorem Stands.sendAll {path : List Endpoint} {stage : Stage} (h : Stands ⟨path, stage, []⟩ [] w)
    (fd : Fd) (buf : CStr) :
    ∃ w', Act.Gives (N.wire.sendAll fd buf) w ⟨⟩ w' ∧ Stands ⟨path, stage, buf⟩ [] w' := by
  obtain ⟨hsent, hrest⟩ := ConnectIntegrity.sendLoop_whole h.sends buf
  refine ⟨(N.wire.sendAll fd buf w).2, Act.gives_of_fst ?_, ?_, h.pieces, h.stream, hrest⟩
  · show (if (sendLoop w.net.sends buf).2.1 = true then some PUnit.unit else none) = _
    rw [sendLoop_ok h.sends, if_pos rfl]
  · show { w.far with heard := w.far.heard ++ (sendLoop w.net.sends buf).1 } = _
    rw [h.far_eq, hsent]
    rfl

/-- What the far end has heard is a message: its reply arrives. -/
theorem Stands.react {reply : CStr} (h : Stands far [] w)
    (hhear : N.hear far = some (reply, far')) : Stands far' reply (N.react w) := by
  have hnet : N.react w =
      ⟨{ w.net with inbox := w.net.inbox ++ N.pieces far reply }, far'⟩ := by
    unfold Network.react
    rw [h.far_eq, hhear]
  have hpieces : ∀ piece ∈ w.net.inbox ++ N.pieces far reply, piece ≠ [] := by
    rw [h.inbox_nil, List.nil_append]
    exact N.pieces_ne_nil far reply
  rw [hnet]
  refine ⟨rfl, hpieces, ?_, h.sends⟩
  refine (stream_eq_flatten hpieces).trans ?_
  rw [h.inbox_nil, List.nil_append, N.pieces_flatten]

/-- A read that finds nothing waits for the reply. -/
theorem wire_recv_waits (h : w.net.inbox = []) (hreply : (N.react w).net.inbox ≠ []) (fd : Fd)
    (room : Nat) : N.wire.recv fd room w = N.wire.recv fd room (N.react w) := by
  show onNet (Net.recv room) (if w.net.inbox = [] then N.react w else w) =
    onNet (Net.recv room) (if (N.react w).net.inbox = [] then N.react (N.react w) else N.react w)
  rw [if_pos h, if_neg hreply]

/-- The first bytes of a reply. -/
theorem Stands.hears {got rest : CStr} (h : Stands far [] w)
    (hhear : N.hear far = some (got ++ rest, far')) (hgot : got ≠ []) (fd : Fd) :
    ∃ w', Act.Gives (N.wire.recvAll fd got.length) w got w' ∧ Stands far' rest w' := by
  have hreacts := h.react hhear
  have hreply : (N.react w).net.inbox ≠ [] := by
    intro hnil
    have hstream := hreacts.stream
    rw [Net.stream, hnil, stream_nil] at hstream
    exact hgot (List.append_eq_nil_iff.mp hstream.symm).1
  obtain ⟨w', hgives, hstands⟩ := hreacts.recvAll fd
  refine ⟨w', ?_, hstands⟩
  have hlen : got.length ≠ 0 := fun hz => hgot (List.length_eq_zero_iff.mp hz)
  unfold Act.Gives at hgives ⊢
  rw [← hgives, Carrier.recvAll, dif_neg hlen]
  exact Act.bind_congr_state (wire_recv_waits h.inbox_nil hreply fd _)

theorem Stands.hears_head {g : HttpGrant} (h : Stands far [] w)
    (hhear : N.hear far = some (g.bytes, far')) (fd : Fd) :
    ∃ w', Act.Gives (N.wire.recvResponse fd []) w g.bytes w' ∧ Stands far' [] w' := by
  have hreacts := h.react hhear
  have hpos : 0 < g.bytes.length := g.isHead.pos
  have hreply : (N.react w).net.inbox ≠ [] := by
    intro hnil
    have hstream := hreacts.stream
    rw [Net.stream, hnil, stream_nil] at hstream
    exact absurd (congrArg List.length hstream) (Nat.ne_of_lt hpos)
  have hhead : recvHead (N.react w).net.inbox [] = (some g.bytes, []) :=
    recvHead_head g.isHead g.noNul g.fits hreacts.pieces hreacts.stream hpos
  have hrecv : Act.Gives (netCarrier.recvResponse fd []) (N.react w).net g.bytes
      { (N.react w).net with inbox := [] } := by
    rw [netCarrier_recvResponse]
    unfold Act.Gives recvResponse
    rw [hhead]
  refine ⟨⟨{ (N.react w).net with inbox := [] }, (N.react w).far⟩, ?_, hreacts.far_eq,
    List.forall_mem_nil _, rfl, hreacts.sends⟩
  have hgives : Act.Gives (N.wire.recvResponse fd []) (N.react w) g.bytes
      ⟨{ (N.react w).net with inbox := [] }, (N.react w).far⟩ := wire_recvResponse hrecv
  unfold Act.Gives at hgives ⊢
  rw [← hgives, Carrier.recvResponse, if_pos (by decide)]
  exact Act.bind_congr_state (wire_recv_waits h.inbox_nil hreply fd _)

end Proxiflare.Guarantees.ProxyNetwork
