import Proxiflare.Daemon.Mitm

/-!
# Falling back to passthrough

The server's handshake runs on the proxy's descriptor before it is known whether the
client can be wrapped, and a handshake that fails has usually spoken before. The
connection then proceeds uninspected over descriptors that are no longer fresh.
-/

namespace Proxiflare.Guarantees.MitmFallback

open Lib.CString Lib.ProbeTable
open Proxiflare.Daemon

variable {χ κ : Type} {m : Mitm χ κ} {o : TlsOutcomes χ κ} {tp : ConnTable} {cfd pfd : Int}
  {a : AcceptInfo} {r : TlsAccepted χ κ} {c : Connection}

/-- The record of the slot says that the connection is not inspected. -/
def Passthrough (r : TlsAccepted χ κ) : Prop :=
  ∃ c, r.tp.conns[r.slot]? = some c ∧ c.inspect = false

/-- A TLS connection with a server name, while inspection is on and has its CA. -/
def Attempted (m : Mitm χ κ) (isTls : Bool) (domain : CStr) : Prop :=
  m.enabled = true ∧ m.caKey = true ∧ isTls = true ∧ domain ≠ []

/-- Both handshakes take place and complete, or none of those that take place moves a byte. -/
def CleanOutcome (m : Mitm χ κ) (o : TlsOutcomes χ κ) (domain : CStr) : Prop :=
  o.connect.completes = true ∧ Accepts m o domain ∧ o.accept.completes = true ∨
    o.connect.Silent ∧ (o.connect.completes = true → Accepts m o domain → o.accept.Silent)

/-! ## What the handshakes leave -/

theorem mitmHandshakes_skip (h : ¬ Attempted m c.isTls c.domain.chars) :
    (mitmHandshakes m o c).moved = .empty := by
  unfold mitmHandshakes
  have hnot : ¬ (m.enabled && m.caKey && c.isTls && c.domain.chars ≠ []) = true := by
    simpa [Attempted, and_assoc] using h
  rw [if_neg hnot]
  by_cases hplain : (m.enabled && !c.isTls) = true
  · rw [if_pos hplain]
  · rw [if_neg hplain]

theorem attempted_go (h : Attempted m c.isTls c.domain.chars) :
    (m.enabled && m.caKey && c.isTls && c.domain.chars ≠ []) = true := by
  simpa [Attempted, and_assoc] using h

/-- Without `SSL_connect` nothing is moved. -/
theorem mitmHandshakes_unconnected (h : Attempted m c.isTls c.domain.chars) (hc : ¬ Connects m o) :
    (mitmHandshakes m o c).moved = .empty := by
  unfold mitmHandshakes
  rw [if_pos (attempted_go h), pfMitmWrapServer_skip hc]

/-- `SSL_connect` alone. -/
theorem mitmHandshakes_serverOnly (h : Attempted m c.isTls c.domain.chars) (hc : Connects m o)
    (hstop : ¬ (o.connect.completes = true ∧ Accepts m o c.domain.chars)) :
    (mitmHandshakes m o c).conn.inspect = c.inspect ∧
      (mitmHandshakes m o c).moved = ⟨[], o.connect.wrote, o.connect.read, []⟩ := by
  unfold mitmHandshakes
  rw [if_pos (attempted_go h), pfMitmWrapServer_run hc]
  by_cases hdone : o.connect.completes = true
  · obtain ⟨m', hclient⟩ := pfMitmWrapClient_skip h.2.1 fun hacc => hstop ⟨hdone, hacc⟩
    rw [hdone, hclient]
    simp [Streams.append, Streams.empty]
  · rw [Bool.eq_false_iff.mpr hdone]
    exact ⟨rfl, rfl⟩

theorem mitmHandshakes_both (h : Attempted m c.isTls c.domain.chars) (hc : Connects m o)
    (hdone : o.connect.completes = true) (hacc : Accepts m o c.domain.chars) :
    (mitmHandshakes m o c).conn.inspect = (o.accept.completes || c.inspect) ∧
      (mitmHandshakes m o c).moved =
        ⟨o.accept.read, o.connect.wrote, o.connect.read, o.accept.wrote⟩ := by
  obtain ⟨m', hclient⟩ := pfMitmWrapClient_run h.2.1 hacc
  unfold mitmHandshakes
  rw [if_pos (attempted_go h), pfMitmWrapServer_run hc, hdone, hclient]
  cases o.accept.completes <;> simp [Streams.append]

theorem mitmHandshakes_iff (hfresh : c.inspect = false) :
    ((mitmHandshakes m o c).conn.inspect = false → (mitmHandshakes m o c).moved = .empty) ↔
      (Attempted m c.isTls c.domain.chars → Connects m o → CleanOutcome m o c.domain.chars) := by
  by_cases h : Attempted m c.isTls c.domain.chars
  · by_cases hc : Connects m o
    · by_cases hboth : o.connect.completes = true ∧ Accepts m o c.domain.chars
      · obtain ⟨hdone, hacc⟩ := hboth
        obtain ⟨hinspect, hmoved⟩ := mitmHandshakes_both h hc hdone hacc
        rw [hinspect, hmoved, hfresh, Bool.or_false]
        simp only [h, hc, forall_const, CleanOutcome, hdone, hacc, true_and, Handshake.Silent,
          Streams.empty, Streams.mk.injEq]
        cases o.accept.completes with
        | true => simp
        | false =>
          simp only [Bool.false_eq_true, false_or, forall_const]
          tauto
      · obtain ⟨hinspect, hmoved⟩ := mitmHandshakes_serverOnly h hc hboth
        rw [hinspect, hmoved, hfresh]
        simp only [h, hc, forall_const, CleanOutcome, Handshake.Silent, Streams.empty,
          Streams.mk.injEq]
        tauto
    · simp only [mitmHandshakes_unconnected h hc, hc, false_implies, implies_true]
  · simp only [mitmHandshakes_skip h, h, false_implies, implies_true]

/-! ## The accept thread -/

/-- A connection that goes on uninspected does so over untouched descriptors, exactly if the
handshakes are not started, complete, or end before their first byte. -/
theorem fallback_untouched_iff (h : acceptConnection m o tp cfd pfd a = some r) :
    (Passthrough r → r.moved = .empty) ↔
      (Attempted m a.isTls a.domain.chars → Connects m o → CleanOutcome m o a.domain.chars) := by
  obtain ⟨⟨i, tp'⟩, hclaim, rfl⟩ := Option.map_eq_some_iff.mp h
  obtain ⟨hfree, rfl⟩ := claimSlot_some hclaim
  obtain ⟨old, hold, -⟩ := findFreeSlot_some hfree
  have hlt : i < tp.conns.length := (List.getElem?_eq_some_iff.mp hold).1
  refine Iff.trans ?_ (mitmHandshakes_iff (c := a.connection cfd pfd) rfl)
  refine imp_congr_left ⟨fun hpass => ?_, fun hinspect => ⟨_, ?_, hinspect⟩⟩
  · obtain ⟨c, hget, hinspect⟩ := hpass
    simp only [ConnTable.set, List.set_set, List.getElem?_set_self hlt] at hget
    obtain rfl := Option.some.inj hget
    exact hinspect
  · simp only [ConnTable.set, List.set_set, List.getElem?_set_self hlt]

/-! ## A handshake that fails -/

def inspecting : Mitm Nat Nat := ⟨true, true, true, true, .empty⟩

def tlsRequest : AcceptInfo where
  dstIp := CBuf.snprintf (lit "93.184.216.34")
  dstPort := 443
  domain := CBuf.snprintf (lit "example.com")
  isTls := true

/-- The server says nothing to the ClientHello until the timeout. -/
def serverSilent : TlsOutcomes Nat Nat where
  newClient := true
  connect := ⟨[.wrote [22, 3, 1]], false⟩
  generate _ := none
  newServer := true
  usesCert := true
  accept := ⟨[], false⟩

/-- Neither handshake can be started. -/
def outOfMemory : TlsOutcomes Nat Nat := { serverSilent with newClient := false }

theorem fallback_untouched_iff_outOfMemory :
    ∃ r, acceptConnection inspecting outOfMemory pfTproxyInit 5 6 tlsRequest = some r ∧
      (Passthrough r → r.moved = .empty) := by
  obtain ⟨r, hr⟩ :
      ∃ r, acceptConnection inspecting outOfMemory pfTproxyInit 5 6 tlsRequest = some r := ⟨_, rfl⟩
  refine ⟨r, hr, (fallback_untouched_iff hr).mpr fun _ hc => ?_⟩
  exact Bool.noConfusion hc.2

/-- The daemon's own ClientHello goes out before the client's. -/
theorem failed_connect_not_transparent :
    ¬ ∀ (m : Mitm Nat Nat) o tp cfd pfd a r, acceptConnection m o tp cfd pfd a = some r →
      m.enabled = true → a.isTls = true → Passthrough r → r.moved = .empty := by
  intro h
  have hmoved := h inspecting serverSilent pfTproxyInit 5 6 tlsRequest _ rfl rfl rfl ⟨_, rfl, rfl⟩
  exact absurd (congrArg Streams.wroteP hmoved) (by decide)

end Proxiflare.Guarantees.MitmFallback
