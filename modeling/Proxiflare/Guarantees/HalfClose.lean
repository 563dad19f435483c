import Proxiflare.Daemon.RelayEvents
import Proxiflare.Lib.Runs
import Proxiflare.Guarantees.ByteStream

/-!
# What the end of one stream does to the other

The relay has no half-close: the first call that reads an end of stream, or meets a broken
socket, closes both descriptors. Until then nothing that was read is lost, so what the other peer
never receives is what the kernel still held, or got later.
-/

namespace Proxiflare.Guarantees.HalfClose

open Lib.CString Lib.Runs
open Proxiflare.Daemon

/-- Every write takes at least one byte. -/
def Accepts (ws : List (IoRes Nat)) : Prop := ∀ w ∈ ws, ∃ k, w = .ret (k + 1)

def writesAccepted (_ : PlainWorld) : PlainEvent → Prop
  | .relay writeP writeC => Accepts writeP ∧ Accepts writeC
  | _ => True

/-! ## One call -/

/-- What a call takes from the server: nothing if the client's stream is over. -/
def downstream (s : PlainWorld) : CStr := if s.client.over then [] else s.server.chunk

theorem queued_of_atEnd {p : Peer} (h : p.atEnd = true) : p.queued = [] ∧ p.ended = true := by
  simpa [Peer.atEnd] using h

theorem chunk_of_over {p : Peer} (h : p.over = true) : p.chunk = [] := by
  rcases Bool.or_eq_true_iff.mp h with hend | hbroken
  · rw [Peer.chunk, (queued_of_atEnd hend).1, List.take_nil, ite_self]
  · rw [Peer.chunk, if_pos hbroken]

theorem chunk_isPrefix (p : Peer) : p.chunk <+: p.queued := by
  unfold Peer.chunk
  split
  · exact List.nil_prefix
  · exact List.take_prefix _ _

theorem plainRelay_spec {s : PlainWorld} {writeP writeC : List (IoRes Nat)}
    (hact : s.conn.active = true) (hc : 0 ≤ s.conn.clientFd) (hp : 0 ≤ s.conn.proxyFd)
    (hP : Accepts writeP) (hC : Accepts writeC) :
    (plainRelay s writeP writeC).conn.active = !(s.client.over || s.server.over) ∧
      (plainRelay s writeP writeC).client = s.client.moved s.client.chunk (downstream s) ∧
      (plainRelay s writeP writeC).server = s.server.moved (downstream s) s.client.chunk := by
  have hopen : (!s.conn.active || decide (s.conn.clientFd < 0) || decide (s.conn.proxyFd < 0)) =
      false := by
    simp [hact, hc, hp]
  simp only [plainRelay, pfTproxyRelay, hopen, relayHalf_plain hP, relayHalf_plain hC,
    downstream]
  cases hce : s.client.over with
  | true => simp [chunk_of_over hce, Connection.closed]
  | false =>
    cases hse : s.server.over with
    | true => simp [chunk_of_over hse, Connection.closed]
    | false => simp [hact]

theorem plainRelay_fds {s : PlainWorld} {writeP writeC : List (IoRes Nat)}
    (hact : (plainRelay s writeP writeC).conn.active = true) :
    (plainRelay s writeP writeC).conn.clientFd = s.conn.clientFd ∧
      (plainRelay s writeP writeC).conn.proxyFd = s.conn.proxyFd := by
  rcases pfTproxyRelay_cases s.conn
    ⟨plainRead s.client, writeP, plainRead s.server, writeC⟩ with ⟨-, hfds⟩ | ⟨hdead, -⟩
  · exact hfds
  · have hfalse : (plainRelay s writeP writeC).conn.active = false := hdead
    rw [hfalse] at hact
    cases hact

/-! ## Runs -/

/-- What one peer sent has reached the other or is still queued. -/
def Flows (a b : Peer) : Prop := a.sent = b.received ++ a.queued

/-- Moving what was read keeps the flow in its direction; the other peer's stream is its own. -/
theorem Flows.moved {a b : Peer} {read wrote other : CStr} (h : Flows a b)
    (hread : read <+: a.queued) : Flows (a.moved read wrote) (b.moved other read) := by
  obtain ⟨left, hleft⟩ := hread
  show a.sent = b.received ++ read ++ a.queued.drop read.length
  rw [← hleft, List.drop_left, List.append_assoc, hleft]
  exact h

theorem Flows.send {a b : Peer} (h : Flows a b) (bytes : CStr) : Flows (a.send bytes) b := by
  show a.sent ++ bytes = b.received ++ (a.queued ++ bytes)
  rw [h, List.append_assoc]

structure Inv (s : PlainWorld) : Prop where
  up : Flows s.client s.server
  down : Flows s.server s.client
  closed : s.conn.active = false → s.client.over = true ∨ s.server.over = true
  fds : s.conn.active = true → 0 ≤ s.conn.clientFd ∧ 0 ≤ s.conn.proxyFd

theorem inv_start {s : PlainWorld} (h : PlainStart s) : Inv s := by
  obtain ⟨hact, hc, hp, -, hclient, hserver⟩ := h
  refine ⟨?_, ?_, fun hdead => ?_, fun _ => ⟨hc, hp⟩⟩
  · rw [hclient, hserver]
    rfl
  · rw [hclient, hserver]
    rfl
  · rw [hact] at hdead
    cases hdead

theorem moved_over {p : Peer} (h : p.over = true) (read wrote : CStr) :
    (p.moved read wrote).over = true := by
  rcases Bool.or_eq_true_iff.mp h with hend | hbroken
  · obtain ⟨hq, he⟩ := queued_of_atEnd hend
    simp [Peer.over, Peer.atEnd, Peer.moved, hq, he]
  · simp [Peer.over, Peer.moved, hbroken]

/-- A stream that is over is so whatever happens to the socket. -/
theorem over_mono {p p' : Peer} (h : p.over = true) (hqueued : p'.queued = p.queued)
    (hended : p.ended = true → p'.ended = true) (hbroken : p.broken = true → p'.broken = true) :
    p'.over = true := by
  refine Bool.or_eq_true_iff.mpr ((Bool.or_eq_true_iff.mp h).imp (fun hend => ?_) hbroken)
  obtain ⟨hq, he⟩ := queued_of_atEnd hend
  simp [Peer.atEnd, hqueued, hq, hended he]

theorem not_over_of_open {p : Peer} (h : ¬ (p.ended || p.broken) = true) : ¬ p.over = true := by
  simp only [Bool.or_eq_true, not_or, Bool.not_eq_true] at h
  simp [Peer.over, Peer.atEnd, h]

theorem inv_relay {s : PlainWorld} {writeP writeC : List (IoRes Nat)} (inv : Inv s)
    (hact : s.conn.active = true) (hP : Accepts writeP) (hC : Accepts writeC) :
    Inv (plainRelay s writeP writeC) := by
  obtain ⟨hc, hp⟩ := inv.fds hact
  obtain ⟨hactive, hclient, hserver⟩ := plainRelay_spec hact hc hp hP hC
  have hdown : downstream s <+: s.server.queued := by
    unfold downstream
    split
    · exact List.nil_prefix
    · exact chunk_isPrefix _
  refine ⟨?_, ?_, fun hdead => ?_, fun hlive => ?_⟩
  · rw [hclient, hserver]
    exact inv.up.moved (chunk_isPrefix _)
  · rw [hclient, hserver]
    exact inv.down.moved hdown
  · rw [hactive, Bool.not_eq_false', Bool.or_eq_true] at hdead
    rw [hclient, hserver]
    exact hdead.imp (moved_over · _ _) (moved_over · _ _)
  · obtain ⟨h₁, h₂⟩ := plainRelay_fds hlive
    rw [h₁, h₂]
    exact ⟨hc, hp⟩

theorem inv_step {s s' : PlainWorld} {e : PlainEvent} (inv : Inv s) (hg : writesAccepted s e)
    (hs : plainStep s e = some s') : Inv s' := by
  cases e with
  | clientSends bytes =>
    simp only [plainStep] at hs
    split at hs
    · cases hs
    · next hopen =>
      obtain rfl := Option.some.inj hs
      refine ⟨inv.up.send bytes, inv.down, fun hdead => ?_, inv.fds⟩
      exact .inr ((inv.closed hdead).resolve_left (not_over_of_open hopen))
  | serverSends bytes =>
    simp only [plainStep] at hs
    split at hs
    · cases hs
    · next hopen =>
      obtain rfl := Option.some.inj hs
      refine ⟨inv.up, inv.down.send bytes, fun hdead => ?_, inv.fds⟩
      exact .inl ((inv.closed hdead).resolve_right (not_over_of_open hopen))
  | clientEnds =>
    obtain rfl := Option.some.inj hs
    refine ⟨inv.up, inv.down, fun hdead => ?_, inv.fds⟩
    rcases inv.closed hdead with h | h
    · exact .inl (over_mono h rfl (fun _ => rfl) id)
    · exact .inr h
  | clientBreaks =>
    obtain rfl := Option.some.inj hs
    refine ⟨inv.up, inv.down, fun hdead => ?_, inv.fds⟩
    rcases inv.closed hdead with h | h
    · exact .inl (over_mono h rfl id fun _ => rfl)
    · exact .inr h
  | serverEnds =>
    obtain rfl := Option.some.inj hs
    refine ⟨inv.up, inv.down, fun hdead => ?_, inv.fds⟩
    rcases inv.closed hdead with h | h
    · exact .inl h
    · exact .inr (over_mono h rfl (fun _ => rfl) id)
  | serverBreaks =>
    obtain rfl := Option.some.inj hs
    refine ⟨inv.up, inv.down, fun hdead => ?_, inv.fds⟩
    rcases inv.closed hdead with h | h
    · exact .inl h
    · exact .inr (over_mono h rfl id fun _ => rfl)
  | relay writeP writeC =>
    simp only [plainStep] at hs
    split at hs
    · next hready =>
      obtain rfl := Option.some.inj hs
      exact inv_relay inv (by simp only [Bool.and_eq_true] at hready; exact hready.1) hg.1 hg.2
    · cases hs

/-- A stream that is over has been delivered whole, unless its socket is broken. -/
theorem delivered_of_over {a b : Peer} (hflows : Flows a b) (h : a.over = true) :
    (a.ended = true ∧ b.received = a.sent) ∨ a.broken = true := by
  refine (Bool.or_eq_true_iff.mp h).imp_left fun hend => ?_
  obtain ⟨hq, he⟩ := queued_of_atEnd hend
  rw [Flows, hq, List.append_nil] at hflows
  exact ⟨he, hflows.symm⟩

/-- As long as every write takes a byte: what either peer sent has reached the other in order or
is still queued; the connection is closed only by a call that met the end of a stream whose bytes
had all been delivered or a broken socket, and every such call closes it. -/
theorem relay_closes_at_first_end {s : PlainWorld}
    (hr : Reach plainStep writesAccepted PlainStart s) :
    s.client.sent = s.server.received ++ s.client.queued ∧
      s.server.sent = s.client.received ++ s.server.queued ∧
      (s.conn.active = false →
        ((s.client.ended = true ∧ s.server.received = s.client.sent) ∨ s.client.broken = true) ∨
          (s.server.ended = true ∧ s.client.received = s.server.sent) ∨ s.server.broken = true) ∧
      ∀ writeP writeC s', Accepts writeP → Accepts writeC →
        plainStep s (.relay writeP writeC) = some s' →
          (s'.conn.active = false ↔
            (s.client.atEnd = true ∨ s.client.broken = true) ∨
              s.server.atEnd = true ∨ s.server.broken = true) := by
  have inv : Inv s := hr.invariant (fun _ => inv_start) fun _ _ _ => inv_step
  refine ⟨inv.up, inv.down, fun hdead => ?_, ?_⟩
  · exact (inv.closed hdead).imp (delivered_of_over inv.up) (delivered_of_over inv.down)
  · intro writeP writeC s' hP hC hs
    simp only [plainStep] at hs
    split at hs
    · next hready =>
      obtain rfl := Option.some.inj hs
      simp only [Bool.and_eq_true] at hready
      obtain ⟨hc, hp⟩ := inv.fds hready.1
      rw [(plainRelay_spec hready.1 hc hp hP hC).1, Bool.not_eq_false', Bool.or_eq_true,
        Peer.over, Peer.over, Bool.or_eq_true, Bool.or_eq_true]
    · cases hs

/-! ## The client ends first -/

/-- A closed connection has delivered everything in both directions. -/
def Transparent (s : PlainWorld) : Prop :=
  s.conn.active = false → s.client.received = s.server.sent ∧ s.server.received = s.client.sent

def firstWorld : PlainWorld := ⟨ByteStream.newPair, .new, .new⟩

theorem firstWorld_start : PlainStart firstWorld := ⟨rfl, by decide, by decide, rfl, rfl, rfl⟩

/-- The server's byte is queued when the client's FIN arrives; then the relay runs. -/
def earlyEnd : List PlainEvent := [.serverSends [1], .clientEnds, .relay [] []]

/-- The server's byte never left the queue. -/
def cutWorld : PlainWorld :=
  ⟨ByteStream.newPair.closed, ⟨[], true, false, [], []⟩, ⟨[1], false, false, [1], []⟩⟩

theorem cutWorld_reachable : Reach plainStep writesAccepted PlainStart cutWorld := by
  have hrun : run plainStep firstWorld earlyEnd = some cutWorld := by decide
  refine (Reach.start firstWorld_start).run (fun t l hl => ?_) hrun
  simp only [earlyEnd, List.mem_cons, List.not_mem_nil, or_false] at hl
  rcases hl with rfl | rfl | rfl
  · trivial
  · trivial
  · exact ⟨by simp [Accepts], by simp [Accepts]⟩

theorem relay_closes_at_first_end_cutWorld :
    cutWorld.client.sent = cutWorld.server.received ++ cutWorld.client.queued ∧
      cutWorld.server.sent = cutWorld.client.received ++ cutWorld.server.queued ∧
      (cutWorld.conn.active = false →
        ((cutWorld.client.ended = true ∧ cutWorld.server.received = cutWorld.client.sent) ∨
            cutWorld.client.broken = true) ∨
          (cutWorld.server.ended = true ∧ cutWorld.client.received = cutWorld.server.sent) ∨
            cutWorld.server.broken = true) ∧
      ∀ writeP writeC s', Accepts writeP → Accepts writeC →
        plainStep cutWorld (.relay writeP writeC) = some s' →
          (s'.conn.active = false ↔
            (cutWorld.client.atEnd = true ∨ cutWorld.client.broken = true) ∨
              cutWorld.server.atEnd = true ∨ cutWorld.server.broken = true) :=
  relay_closes_at_first_end cutWorld_reachable

theorem client_end_discards_server_bytes :
    Reach plainStep writesAccepted PlainStart cutWorld ∧ cutWorld.client.ended = true ∧
      ¬ Transparent cutWorld := by
  refine ⟨cutWorld_reachable, rfl, fun h => ?_⟩
  exact absurd (h rfl).1 (by decide)

end Proxiflare.Guarantees.HalfClose
