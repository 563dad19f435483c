import Proxiflare.Daemon.CertCache
import Proxiflare.Daemon.Tproxy

/-!
# Interception of TLS connections

`pf_mitm_wrap_server` and `pf_mitm_wrap_client` of `daemon/src/mitm.c` and the steps
of `tproxy_accept_thread` (`daemon/src/main.c`) from the claim of a slot to the
registration with epoll. What a handshake reads and writes and whether it completes is
data, as are the results of the other OpenSSL calls. `Streams` counts from where the
thread holds both descriptors; the peek for the server name takes nothing.
-/

namespace Proxiflare.Daemon

open Lib.CString Lib.ProbeTable

/-- `pf_mitm_t`; the flags of the pointers say that they are set. -/
structure Mitm (χ κ : Type) where
  enabled : Bool
  caKey : Bool
  serverCtx : Bool
  clientCtx : Bool
  certs : CertCache χ κ

inductive TlsIo where
  | wrote (bytes : CStr)
  | read (bytes : CStr)
  deriving DecidableEq

/-- `SSL_connect` or `SSL_accept`: it may fail after any of its reads and writes. -/
structure Handshake where
  io : List TlsIo
  completes : Bool
  deriving DecidableEq

def TlsIo.writes : TlsIo → CStr
  | .wrote bytes => bytes
  | .read _ => []

def TlsIo.reads : TlsIo → CStr
  | .wrote _ => []
  | .read bytes => bytes

def Handshake.wrote (h : Handshake) : CStr := h.io.flatMap TlsIo.writes

def Handshake.read (h : Handshake) : CStr := h.io.flatMap TlsIo.reads

/-- It neither read nor wrote a byte. -/
def Handshake.Silent (h : Handshake) : Prop := h.wrote = [] ∧ h.read = []

/-- What OpenSSL does for one connection. `newClient` and `newServer` are the two calls of
`SSL_new`, `usesCert` is `SSL_use_certificate` and `SSL_use_PrivateKey`. -/
structure TlsOutcomes (χ κ : Type) where
  newClient : Bool
  connect : Handshake
  generate : CStr → Option (χ × κ)
  newServer : Bool
  usesCert : Bool
  accept : Handshake

variable {χ κ : Type}

/-- Whether it returns a connection, and what it moved on the proxy's descriptor. -/
def pfMitmWrapServer (m : Mitm χ κ) (o : TlsOutcomes χ κ) : Bool × Streams :=
  if !m.clientCtx || !o.newClient then (false, .empty)
  else (o.connect.completes, ⟨[], o.connect.wrote, o.connect.read, []⟩)

/-- The same on the client's descriptor, and the cache it leaves. -/
def pfMitmWrapClient (m : Mitm χ κ) (o : TlsOutcomes χ κ) (domain : CStr) :
    Bool × Mitm χ κ × Streams :=
  if !m.serverCtx || !m.caKey then (false, m, .empty)
  else match CertCache.pfMitmGetCert m.caKey o.generate domain m.certs with
    | (none, certs) => (false, { m with certs }, .empty)
    | (some _, certs) =>
      if !o.newServer || !o.usesCert then (false, { m with certs }, .empty)
      else (o.accept.completes, { m with certs }, ⟨o.accept.read, [], [], o.accept.wrote⟩)

structure Intercepted (χ κ : Type) where
  conn : Connection
  mitm : Mitm χ κ
  moved : Streams

/-- The server's side first. A client that cannot be wrapped frees the server's connection. -/
def mitmHandshakes (m : Mitm χ κ) (o : TlsOutcomes χ κ) (c : Connection) : Intercepted χ κ :=
  if m.enabled && m.caKey && c.isTls && c.domain.chars ≠ [] then
    match pfMitmWrapServer m o with
    | (false, up) => ⟨{ c with serverSsl := false }, m, up⟩
    | (true, up) => match pfMitmWrapClient m o c.domain.chars with
      | (true, m, down) =>
        ⟨{ c with serverSsl := true, clientSsl := true, inspect := true }, m, up.append down⟩
      | (false, m, down) =>
        ⟨{ c with serverSsl := false, clientSsl := false }, m, up.append down⟩
  else if m.enabled && !c.isTls then ⟨{ c with inspect := true }, m, .empty⟩
  else ⟨c, m, .empty⟩

/-- What the thread has done when it registers its descriptors; `none` when the table is full. -/
structure TlsAccepted (χ κ : Type) where
  slot : Nat
  tp : ConnTable
  mitm : Mitm χ κ
  moved : Streams

def acceptConnection (m : Mitm χ κ) (o : TlsOutcomes χ κ) (tp : ConnTable) (cfd pfd : Int)
    (a : AcceptInfo) : Option (TlsAccepted χ κ) :=
  (claimSlot tp cfd pfd a).map fun (i, tp) =>
    let out := mitmHandshakes m o (a.connection cfd pfd)
    ⟨i, tp.set i out.conn, out.mitm, out.moved⟩

/-! ## Which handshakes take place -/

/-- The cache has a certificate for the domain or one is generated. -/
def CertAvailable (m : Mitm χ κ) (o : TlsOutcomes χ κ) (domain : CStr) : Prop :=
  domainIsSafe domain = true ∧
    ((certLayout.find (domain.map tolower) m.certs.cache).isSome = true ∨
      (o.generate (domain.map tolower)).isSome = true)

/-- `SSL_connect` is called. -/
def Connects (m : Mitm χ κ) (o : TlsOutcomes χ κ) : Prop := m.clientCtx = true ∧ o.newClient = true

/-- `SSL_accept` is called once the server's side is done. -/
def Accepts (m : Mitm χ κ) (o : TlsOutcomes χ κ) (domain : CStr) : Prop :=
  m.serverCtx = true ∧ CertAvailable m o domain ∧ o.newServer = true ∧ o.usesCert = true

theorem pfMitmGetCert_isSome (m : Mitm χ κ) (o : TlsOutcomes χ κ) (domain : CStr)
    (hca : m.caKey = true) :
    (CertCache.pfMitmGetCert m.caKey o.generate domain m.certs).1.isSome = true ↔
      CertAvailable m o domain := by
  unfold CertCache.pfMitmGetCert CertAvailable
  rw [hca]
  cases hsafe : domainIsSafe domain with
  | false => simp
  | true =>
    cases hfind : certLayout.find (domain.map tolower) m.certs.cache with
    | some found => simp [hfind]
    | none =>
      cases hgen : o.generate (domain.map tolower) with
      | none => simp [hfind, hgen]
      | some pair => simp [hfind, hgen]

theorem pfMitmWrapServer_run {m : Mitm χ κ} {o : TlsOutcomes χ κ} (h : Connects m o) :
    pfMitmWrapServer m o = (o.connect.completes, ⟨[], o.connect.wrote, o.connect.read, []⟩) := by
  unfold pfMitmWrapServer
  rw [h.1, h.2]
  rfl

theorem pfMitmWrapServer_skip {m : Mitm χ κ} {o : TlsOutcomes χ κ} (h : ¬ Connects m o) :
    pfMitmWrapServer m o = (false, .empty) := by
  unfold pfMitmWrapServer
  refine if_pos ?_
  unfold Connects at h
  cases hc : m.clientCtx
  · rfl
  · cases hn : o.newClient
    · rfl
    · exact absurd ⟨hc, hn⟩ h

theorem pfMitmWrapClient_run {m : Mitm χ κ} {o : TlsOutcomes χ κ} {domain : CStr}
    (hca : m.caKey = true) (h : Accepts m o domain) :
    ∃ m', pfMitmWrapClient m o domain =
      (o.accept.completes, m', ⟨o.accept.read, [], [], o.accept.wrote⟩) := by
  obtain ⟨hctx, hcert, hnew, huse⟩ := h
  obtain ⟨pair, hpair⟩ :=
    Option.isSome_iff_exists.mp ((pfMitmGetCert_isSome m o domain hca).mpr hcert)
  have hget : CertCache.pfMitmGetCert m.caKey o.generate domain m.certs =
      (some pair, (CertCache.pfMitmGetCert m.caKey o.generate domain m.certs).2) :=
    Prod.ext hpair rfl
  refine ⟨{ m with certs := (CertCache.pfMitmGetCert m.caKey o.generate domain m.certs).2 }, ?_⟩
  unfold pfMitmWrapClient
  rw [hget]
  simp [hctx, hca, hnew, huse]

theorem pfMitmWrapClient_skip {m : Mitm χ κ} {o : TlsOutcomes χ κ} {domain : CStr}
    (hca : m.caKey = true) (h : ¬ Accepts m o domain) :
    ∃ m', pfMitmWrapClient m o domain = (false, m', .empty) := by
  unfold pfMitmWrapClient
  rw [hca]
  by_cases hctx : m.serverCtx = true
  · cases hget : CertCache.pfMitmGetCert true o.generate domain m.certs with
    | mk res certs =>
      cases res with
      | none => exact ⟨{ m with certs, caKey := true }, by simp [hctx]⟩
      | some pair =>
        have hcert : CertAvailable m o domain := by
          refine (pfMitmGetCert_isSome m o domain hca).mp ?_
          rw [hca, hget]
          rfl
        have hnot : ¬ (o.newServer = true ∧ o.usesCert = true) := fun hn =>
          h ⟨hctx, hcert, hn⟩
        refine ⟨{ m with certs, caKey := true }, ?_⟩
        cases hnew : o.newServer
        · simp [hctx]
        · cases huse : o.usesCert
          · simp [hctx]
          · exact absurd ⟨hnew, huse⟩ hnot
  · exact ⟨m, by simp [hctx]⟩

end Proxiflare.Daemon
