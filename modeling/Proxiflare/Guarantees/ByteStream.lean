import Proxiflare.Daemon.Tproxy

/-!
# The relay as a byte stream

Over any sequence of calls that leaves the connection active, each peer receives
exactly what was read from the other if and only if no write was refused in the
middle of a chunk: the rest of such a chunk is dropped, and counted as delivered.
-/

namespace Proxiflare.Guarantees.ByteStream

open Lib.CString
open Proxiflare.Daemon

/-- The results refuse a write (`EAGAIN`, `WANT_*`) before `n` bytes are accepted. -/
def refusesWithin (conn : Connection) (isClient : Bool) : List (IoRes Nat) → Nat → Bool
  | _, 0 => false
  | [], _ + 1 => false
  | .ret (k + 1) :: ws, n + 1 => refusesWithin conn isClient ws (n - k)
  | w :: _, _ + 1 => relayCheckErr conn isClient w = 1

/-- The chunk read in one direction is refused by the other peer. -/
def refusesHalf (conn : Connection) (fromClient : Bool) (rd : IoRes CStr) (ws : List (IoRes Nat)) :
    Bool :=
  match rd with
  | .ret bytes => refusesWithin conn (!fromClient) ws (bytes.take pfBufSize).length
  | .error _ => false

def refusesCall (conn : Connection) (io : RelayIo) : Bool :=
  refusesHalf conn true io.readC io.writeP || refusesHalf conn false io.readP io.writeC

/-! ## One write loop -/

theorem writeLoop_isPrefix (conn : Connection) (isClient : Bool) (ws : List (IoRes Nat))
    (buf : CStr) : (writeLoop conn isClient ws buf).1 <+: buf := by
  induction ws generalizing buf with
  | nil => cases buf <;> exact List.prefix_rfl
  | cons w ws ih =>
    cases buf with
    | nil => exact List.prefix_rfl
    | cons b left =>
      cases w with
      | error e => exact List.nil_prefix
      | ret k =>
        cases k with
        | zero => exact List.nil_prefix
        | succ n =>
          obtain ⟨rest, hrest⟩ := ih ((b :: left).drop (n + 1))
          refine ⟨rest, ?_⟩
          show (b :: left).take (n + 1) ++ _ ++ rest = b :: left
          rw [List.append_assoc, hrest, List.take_append_drop]

theorem writeLoop_done (conn : Connection) (isClient : Bool) (ws : List (IoRes Nat)) (buf : CStr) :
    (writeLoop conn isClient ws buf).2 = .done ↔ (writeLoop conn isClient ws buf).1 = buf := by
  induction ws generalizing buf with
  | nil => cases buf <;> simp [writeLoop]
  | cons w ws ih =>
    cases buf with
    | nil => simp [writeLoop]
    | cons b left =>
      cases w with
      | error e =>
        simp only [writeLoop]
        split <;> simp
      | ret k =>
        cases k with
        | zero => simp [writeLoop, relayCheckErr]
        | succ n =>
          show (writeLoop conn isClient ws _).2 = .done ↔ (b :: left).take (n + 1) ++ _ = b :: left
          rw [ih]
          nth_rewrite 5 [← List.take_append_drop (n + 1) (b :: left)]
          exact (List.append_cancel_left_eq _ _ _).symm.to_iff

theorem writeLoop_refused (conn : Connection) (isClient : Bool) (ws : List (IoRes Nat))
    (buf : CStr) : (writeLoop conn isClient ws buf).2 = .refused ↔
      refusesWithin conn isClient ws buf.length = true := by
  induction ws generalizing buf with
  | nil => cases buf <;> simp [writeLoop, refusesWithin]
  | cons w ws ih =>
    cases buf with
    | nil => simp [writeLoop, refusesWithin]
    | cons b left =>
      cases w with
      | error e =>
        simp only [writeLoop, refusesWithin, List.length_cons]
        split <;> simp [*]
      | ret k =>
        cases k with
        | zero => simp [writeLoop, refusesWithin, relayCheckErr]
        | succ n =>
          show (writeLoop conn isClient ws _).2 = .refused ↔ _
          rw [ih, List.length_drop, List.length_cons, Nat.add_sub_add_right]
          rfl

/-! ## One direction, one call -/

/-- A direction that does not close the connection delivers a prefix of its chunk, all of it
unless a write was refused. -/
theorem relayHalf_delivers {conn : Connection} {fromClient : Bool} {rd : IoRes CStr}
    {ws : List (IoRes Nat)} (h : (relayHalf conn fromClient rd ws).ok = true) :
    (relayHalf conn fromClient rd ws).wrote <+: (relayHalf conn fromClient rd ws).read ∧
      ((relayHalf conn fromClient rd ws).wrote = (relayHalf conn fromClient rd ws).read ↔
        refusesHalf conn fromClient rd ws = false) := by
  cases rd with
  | error e => exact ⟨List.prefix_rfl, by simp [relayHalf, refusesHalf]⟩
  | ret bytes =>
    simp only [relayHalf] at h ⊢
    split
    · next hnil => simp [refusesHalf, hnil, refusesWithin]
    · next hne =>
      rw [if_neg hne] at h
      refine ⟨writeLoop_isPrefix conn (!fromClient) ws _, ?_⟩
      show (writeLoop conn (!fromClient) ws _).1 = _ ↔ _
      rw [← writeLoop_done, refusesHalf, ← Bool.not_eq_true, ← writeLoop_refused]
      have hok : (writeLoop conn (!fromClient) ws (bytes.take pfBufSize)).2 ≠ .failed :=
        of_decide_eq_true h
      cases hend : (writeLoop conn (!fromClient) ws (bytes.take pfBufSize)).2 with
      | done => simp
      | refused => simp
      | failed => exact absurd hend hok

/-- Two directions that deliver a prefix deliver everything together only if both do. -/
theorem append_eq_append_iff_of_prefix {a b c d : CStr} (h : a <+: b) (hl : c.length ≤ d.length) :
    a ++ c = b ++ d ↔ a = b ∧ c = d := by
  constructor
  · intro heq
    have hlen := congrArg List.length heq
    have hle := h.length_le
    simp only [List.length_append] at hlen
    exact List.append_inj heq (by omega)
  · rintro ⟨rfl, rfl⟩
    rfl

/-- What one call does to a connection it leaves active. -/
structure Call (conn : Connection) (io : RelayIo) (out : RelayOut) : Prop where
  up : out.moved.wroteP <+: out.moved.readC
  down : out.moved.wroteC <+: out.moved.readP
  all_iff : (out.moved.wroteP = out.moved.readC ∧ out.moved.wroteC = out.moved.readP) ↔
    refusesCall conn io = false
  tx : out.conn.bytesTx = conn.bytesTx + UInt64.ofNat out.moved.readC.length
  rx : out.conn.bytesRx = conn.bytesRx + UInt64.ofNat out.moved.readP.length
  same : ∀ io', refusesCall out.conn io' = refusesCall conn io'

theorem refusesCall_congr {c c' : Connection} (hi : c'.inspect = c.inspect)
    (hc : c'.clientSsl = c.clientSsl) (hs : c'.serverSsl = c.serverSsl) (io : RelayIo) :
    refusesCall c' io = refusesCall c io := by
  have herr : relayCheckErr c' = relayCheckErr c := by
    funext isClient ret
    unfold relayCheckErr usesSsl
    rw [hi, hc, hs]
  have hwithin : refusesWithin c' = refusesWithin c := by
    funext isClient ws n
    induction ws generalizing n with
    | nil => cases n <;> rfl
    | cons w ws ih =>
      cases n with
      | zero => rfl
      | succ n =>
        match w with
        | .ret (k + 1) => exact ih (n - k)
        | .ret 0 => simp only [refusesWithin, herr]
        | .error e => simp only [refusesWithin, herr]
  simp only [refusesCall, refusesHalf, hwithin]

theorem pfTproxyRelay_call {conn : Connection} {io : RelayIo}
    (hok : (pfTproxyRelay conn io).ok = true) : Call conn io (pfTproxyRelay conn io) := by
  obtain ⟨-, hup, hdown, hconn, hmoved⟩ := pfTproxyRelay_ok hok
  obtain ⟨hpre, hall⟩ := relayHalf_delivers hup
  obtain ⟨hpre', hall'⟩ := relayHalf_delivers hdown
  refine ⟨?_, ?_, ?_, ?_, ?_, ?_⟩
  · simpa only [hmoved] using hpre
  · simpa only [hmoved] using hpre'
  · simp only [hmoved, hall, hall', refusesCall, Bool.or_eq_false_iff]
  · rw [hconn, hmoved]
  · rw [hconn, hmoved]
  · intro io'
    exact refusesCall_congr (by rw [hconn]) (by rw [hconn]) (by rw [hconn]) io'

/-! ## Runs of calls -/

/-- A sequence of calls on one connection, and everything they moved. -/
def relayRun (conn : Connection) : List RelayIo → Connection × Streams
  | [] => (conn, .empty)
  | io :: ios =>
    let out := pfTproxyRelay conn io
    let rest := relayRun out.conn ios
    (rest.1, Streams.append out.moved rest.2)

theorem relayRun_inactive {conn : Connection} (h : conn.active = false) (ios : List RelayIo) :
    (relayRun conn ios).1.active = false := by
  induction ios generalizing conn with
  | nil => exact h
  | cons io ios ih =>
    have hout : (pfTproxyRelay conn io).conn = conn := by simp [pfTproxyRelay, h]
    show (relayRun (pfTproxyRelay conn io).conn ios).1.active = false
    rw [hout]
    exact ih h

/-- Every byte read was written to the other peer, in order, and counted. -/
def Delivered (conn : Connection) (s : Streams) : Prop :=
  s.wroteP = s.readC ∧ s.wroteC = s.readP ∧
    conn.bytesTx = UInt64.ofNat s.wroteP.length ∧ conn.bytesRx = UInt64.ofNat s.wroteC.length

/-- What a run that ends active did, starting from any counters. -/
structure RunSpec (conn : Connection) (ios : List RelayIo) (out : Connection × Streams) : Prop where
  up : out.2.wroteP.length ≤ out.2.readC.length
  down : out.2.wroteC.length ≤ out.2.readP.length
  all_iff : (out.2.wroteP = out.2.readC ∧ out.2.wroteC = out.2.readP) ↔
    ∀ io ∈ ios, refusesCall conn io = false
  tx : out.1.bytesTx = conn.bytesTx + UInt64.ofNat out.2.readC.length
  rx : out.1.bytesRx = conn.bytesRx + UInt64.ofNat out.2.readP.length

theorem relayRun_spec {conn : Connection} {ios : List RelayIo} (hc : 0 ≤ conn.clientFd)
    (hp : 0 ≤ conn.proxyFd) (hend : (relayRun conn ios).1.active = true) :
    RunSpec conn ios (relayRun conn ios) := by
  induction ios generalizing conn with
  | nil =>
    refine ⟨le_rfl, le_rfl, ?_, ?_, ?_⟩ <;> simp [relayRun, Streams.empty]
  | cons io ios ih =>
    have hrest : (relayRun (pfTproxyRelay conn io).conn ios).1.active = true := hend
    have hact : (pfTproxyRelay conn io).conn.active = true := by
      by_contra hna
      rw [relayRun_inactive (Bool.eq_false_of_not_eq_true hna) ios] at hrest
      cases hrest
    have hok := pfTproxyRelay_ok_of_active hc hp hact
    have call := pfTproxyRelay_call hok
    obtain ⟨-, -, -, hconn, -⟩ := pfTproxyRelay_ok hok
    have run := ih (by rw [hconn]; exact hc) (by rw [hconn]; exact hp) hrest
    set out := pfTproxyRelay conn io
    set rest := relayRun out.conn ios
    have hrun : relayRun conn (io :: ios) = (rest.1, Streams.append out.moved rest.2) := rfl
    rw [hrun]
    refine ⟨?_, ?_, ?_, ?_, ?_⟩
    · have hup := call.up.length_le
      have hrest' := run.up
      simp only [Streams.append, List.length_append]
      omega
    · have hdown := call.down.length_le
      have hrest' := run.down
      simp only [Streams.append, List.length_append]
      omega
    · simp only [Streams.append, append_eq_append_iff_of_prefix call.up run.up,
        append_eq_append_iff_of_prefix call.down run.down, List.forall_mem_cons]
      rw [and_and_and_comm, call.all_iff, run.all_iff]
      simp only [call.same]
    · show rest.1.bytesTx = _
      rw [run.tx, call.tx]
      simp only [Streams.append, List.length_append, UInt64.ofNat_add, UInt64.add_assoc]
    · show rest.1.bytesRx = _
      rw [run.rx, call.rx]
      simp only [Streams.append, List.length_append, UInt64.ofNat_add, UInt64.add_assoc]

/-- A connection as the accept thread hands it over: open and with no bytes counted. -/
structure Fresh (conn : Connection) : Prop where
  active : conn.active = true
  client : 0 ≤ conn.clientFd
  proxy : 0 ≤ conn.proxyFd
  tx : conn.bytesTx = 0
  rx : conn.bytesRx = 0

/-- As long as the connection stays active, the streams are delivered gap-free and counted exactly
when no call had a write refused before its chunk was complete. -/
theorem relay_delivers_iff_never_refused (conn : Connection) (ios : List RelayIo)
    (hfresh : Fresh conn) (hend : (relayRun conn ios).1.active = true) :
    Delivered (relayRun conn ios).1 (relayRun conn ios).2 ↔
      ∀ io ∈ ios, refusesCall conn io = false := by
  have run := relayRun_spec hfresh.client hfresh.proxy hend
  rw [← run.all_iff]
  constructor
  · intro hdel
    obtain ⟨hup, hdown, -, -⟩ := hdel
    exact ⟨hup, hdown⟩
  · intro hall
    obtain ⟨hup, hdown⟩ := hall
    refine ⟨hup, hdown, ?_, ?_⟩
    · rw [run.tx, hfresh.tx, hup, UInt64.zero_add]
    · rw [run.rx, hfresh.rx, hdown, UInt64.zero_add]

/-- Both sockets, nothing transferred yet. -/
def newPair : Connection :=
  (⟨.snprintf (lit "1.2.3.4"), 443, .empty, false⟩ : AcceptInfo).connection 5 7

theorem newPair_fresh : Fresh newPair := ⟨rfl, by decide, by decide, rfl, rfl⟩

/-- The client sends three bytes; the proxy's socket takes one and then refuses. -/
def refusedCall : RelayIo where
  readC := .ret [1, 2, 3]
  writeP := [.ret 1, .error ⟨.other, .eagain⟩]
  readP := .error ⟨.other, .eagain⟩
  writeC := []

theorem relay_delivers_iff_refusedCall :
    Delivered (relayRun newPair [refusedCall]).1 (relayRun newPair [refusedCall]).2 ↔
      ∀ io ∈ [refusedCall], refusesCall newPair io = false :=
  relay_delivers_iff_never_refused newPair [refusedCall] newPair_fresh (by decide)

theorem refused_write_drops_bytes :
    Fresh newPair ∧ (relayRun newPair [refusedCall]).1.active = true ∧
      (relayRun newPair [refusedCall]).2.wroteP = [1] ∧
      ¬ Delivered (relayRun newPair [refusedCall]).1 (relayRun newPair [refusedCall]).2 := by
  refine ⟨newPair_fresh, by decide, by decide, ?_⟩
  intro hdel
  obtain ⟨h, -⟩ := hdel
  exact absurd h (by decide)

end Proxiflare.Guarantees.ByteStream
