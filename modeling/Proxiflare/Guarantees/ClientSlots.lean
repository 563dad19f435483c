import Proxiflare.Lib.Occupancy
import Proxiflare.Lib.Runs
import Proxiflare.Daemon.Ipc

/-!
# Which IPC clients are served

The counter of clients is always the number of occupied slots, and never exceeds
`PF_MAX_CLIENTS`. The main loop looks for a readable descriptor among that many
slots from the first on, so a client behind a freed slot may never be read again.
-/

namespace Proxiflare.Guarantees.ClientSlots

open Lib.Occupancy Lib.Runs Lib.CString
open Proxiflare.Daemon

variable {ν σ : Type} {env : IpcEnv ν σ}

structure Server (σ : Type) where
  ipc : Ipc
  state : σ

/-- `accept` returns `cfd`; `readable` is an event on a client's descriptor with what `read` would
return. -/
inductive ServerEvent where
  | accept (cfd : Int) (uid : Option Nat) (nonblock : Bool)
  | readable (fd : Int) (rd : ReadRes)

def occupied (c : IpcClient) : Bool := 0 ≤ c.fd

/-- A descriptor that is open is not handed out again; only one that is open becomes readable.
A descriptor not found among the clients is looked for among the relayed connections. -/
def Server.step (env : IpcEnv ν σ) (s : Server σ) : ServerEvent → Option (Server σ)
  | .accept cfd uid nonblock =>
    if s.ipc.clients.all fun c => !occupied c || c.fd ≠ cfd then
      some { s with ipc := (pfIpcAccept s.ipc cfd uid nonblock).1 }
    else none
  | .readable fd rd =>
    if s.ipc.clients.any fun c => occupied c && c.fd = fd then
      match dispatch s.ipc fd with
      | some j =>
        let (ipc, st) := pfIpcProcess env s.state s.ipc j rd
        some ⟨ipc, st⟩
      | none => some s
    else none

def Server.Start (s : Server σ) : Prop := s.ipc = pfIpcInit

/-- A readable event on the descriptor of any occupied slot reaches that slot. -/
def Served (ipc : Ipc) : Prop :=
  ∀ (i : Nat) (c : IpcClient), ipc.clients[i]? = some c → occupied c = true →
    dispatch ipc c.fd = some i

/-! ## The invariant -/

/-- Occupied slots have different descriptors. -/
def DistinctFds (clients : List IpcClient) : Prop :=
  ∀ (i j : Nat) (c d : IpcClient), clients[i]? = some c → clients[j]? = some d →
    occupied c = true → c.fd = d.fd → i = j

structure SlotsOk (ipc : Ipc) : Prop where
  length : ipc.clients.length = pfMaxClients
  count : ipc.clientCount = ipc.clients.countP occupied
  distinct : DistinctFds ipc.clients

variable {ipc : Ipc} {c c' : IpcClient} {i : Nat}

theorem occupied_congr (h : c.fd = c'.fd) : occupied c = occupied c' := by
  unfold occupied
  rw [h]

theorem start_slotsOk : SlotsOk pfIpcInit := by
  refine ⟨by decide, by decide, ?_⟩
  intro i j c d hi _ hocc
  have hmem := List.mem_of_getElem? hi
  obtain rfl := List.eq_of_mem_replicate hmem
  exact absurd hocc (by decide)

theorem countP_set_of_getElem? (h : ipc.clients[i]? = some c) (c' : IpcClient) :
    (ipc.clients.set i c').countP occupied + (if occupied c = true then 1 else 0) =
      ipc.clients.countP occupied + (if occupied c' = true then 1 else 0) := by
  obtain ⟨hlt, rfl⟩ := List.getElem?_eq_some_iff.mp h
  rw [List.countP_set hlt]
  have hle := List.boole_getElem_le_countP (p := occupied) hlt
  omega

/-- Writing a slot keeps the descriptors apart if the new one is free or used nowhere else. -/
theorem DistinctFds.set (h : DistinctFds ipc.clients) (i : Nat) (c' : IpcClient)
    (hnew : occupied c' = true → ∀ (j : Nat) (d : IpcClient), ipc.clients[j]? = some d → j ≠ i →
      d.fd ≠ c'.fd) : DistinctFds (ipc.clients.set i c') := by
  intro j k c d hj hk hocc hfd
  rw [List.getElem?_set] at hj hk
  split at hj
  · next hij =>
    split at hk
    · next hik => exact hij.symm.trans hik
    · next hik =>
      split at hj
      · obtain rfl := Option.some.inj hj
        exact absurd hfd.symm (hnew hocc k d hk (Ne.symm hik))
      · cases hj
  · next hij =>
    split at hk
    · next hik =>
      split at hk
      · obtain rfl := Option.some.inj hk
        have hocc' : occupied c' = true := (occupied_congr hfd).symm.trans hocc
        exact absurd hfd (hnew hocc' j c hj (Ne.symm hij))
      · cases hk
    · exact h j k c d hj hk hocc hfd

/-- A slot rewritten with its own descriptor. -/
theorem SlotsOk.setSame (h : SlotsOk ipc) (hi : ipc.clients[i]? = some c) (hfd : c'.fd = c.fd) :
    SlotsOk { ipc with clients := ipc.clients.set i c' } := by
  have hocc : occupied c' = occupied c := occupied_congr hfd
  have hcount := countP_set_of_getElem? hi c'
  rw [hocc, Nat.add_right_cancel_iff] at hcount
  refine ⟨by rw [List.length_set, h.length], by rw [hcount, h.count], ?_⟩
  refine h.distinct.set i c' fun hocc' j d hj hne heq => hne ?_
  rw [hocc] at hocc'
  exact (h.distinct i j c d hi hj hocc' (hfd.symm.trans heq.symm)).symm

theorem SlotsOk.remove (h : SlotsOk ipc) (hi : ipc.clients[i]? = some c)
    (hocc : occupied c = true) : SlotsOk (clientRemove ipc i) := by
  have hcount := countP_set_of_getElem? hi .free
  have hfree : occupied .free = false := rfl
  rw [hocc, hfree] at hcount
  refine ⟨by rw [clientRemove, List.length_set, h.length], ?_, ?_⟩
  · show ipc.clientCount - 1 = _
    rw [h.count]
    simp only [if_true, Bool.false_eq_true, if_false] at hcount
    show _ = (((ipc.clients.set i .free).countP occupied : Nat) : Int)
    omega
  · refine h.distinct.set i .free fun hocc' => ?_
    rw [hfree] at hocc'
    cases hocc'

/-- Taking a client in fills a free slot, and only while the counter allows it. -/
theorem SlotsOk.accept (h : SlotsOk ipc) {cfd : Int} (uid : Option Nat) (nonblock : Bool)
    (hnew : ∀ d ∈ ipc.clients, occupied d = true → d.fd ≠ cfd) :
    SlotsOk (pfIpcAccept ipc cfd uid nonblock).1 := by
  unfold pfIpcAccept
  split_ifs with hneg huid hfull hnb
  · exact h
  · exact h
  · exact h
  · exact h
  · cases hfind : ipc.clients.findIdx? fun c => c.fd < 0 with
    | none => exact h
    | some i =>
      obtain ⟨hlt, hfree, -⟩ := List.findIdx?_eq_some_iff_getElem.mp hfind
      have hi : ipc.clients[i]? = some ipc.clients[i] := List.getElem?_eq_getElem hlt
      have hold : occupied ipc.clients[i] = false := by
        unfold occupied
        simpa using hfree
      have hocc : occupied ⟨cfd, [], false, false⟩ = true := by
        unfold occupied
        simpa using hneg
      have hcount := countP_set_of_getElem? hi ⟨cfd, [], false, false⟩
      rw [hold, hocc] at hcount
      simp only [if_true, Bool.false_eq_true, if_false] at hcount
      refine ⟨by rw [List.length_set, h.length], ?_, ?_⟩
      · show ipc.clientCount + 1 = _
        rw [h.count]
        show _ = (((ipc.clients.set i ⟨cfd, [], false, false⟩).countP occupied : Nat) : Int)
        omega
      · refine h.distinct.set i _ fun _ j d hj _ heq => ?_
        have hd : occupied d = true := (occupied_congr heq).trans hocc
        exact hnew d (List.mem_of_getElem? hj) hd heq

/-! ## Handling requests keeps the descriptor -/

theorem builtin_fd {method : CStr} (h : builtin c method = some c') : c'.fd = c.fd := by
  unfold builtin at h
  split at h
  · rw [← Option.some.inj h]
  · split at h
    · rw [← Option.some.inj h]
    · split at h
      · rw [← Option.some.inj h]
      · split at h
        · rw [← Option.some.inj h]
        · cases h

theorem respond_fd (st : σ) (c : IpcClient) (req : Cjson ν) :
    (respond env st c req).2.2.fd = c.fd := by
  rcases respond_client env st c req with hsame | ⟨method, -, hbuiltin⟩
  · rw [hsame]
  · exact builtin_fd hbuiltin

theorem line_fd (s : IpcSession ν σ) (line : CStr) :
    (s.line env line).client.fd = s.client.fd := by
  unfold IpcSession.line
  split
  · rfl
  · exact respond_fd s.state s.client _

theorem processLines_fd (n : Nat) (start : CStr) (s : IpcSession ν σ) :
    (processLines env n start s).2.client.fd = s.client.fd := by
  induction n generalizing start s with
  | zero => rfl
  | succ n ih =>
    unfold processLines
    split
    · rfl
    · exact (ih _ _).trans (line_fd s _)

theorem processClient_fd {s s' : IpcSession ν σ} {rd : ReadRes}
    (h : processClient env s rd = some s') : s'.client.fd = s.client.fd := by
  unfold processClient at h
  split at h
  · cases h
  · cases rd with
    | again => rw [← Option.some.inj h]
    | error => cases h
    | data bytes =>
      cases bytes with
      | nil => cases h
      | cons b bytes =>
        obtain rfl := Option.some.inj h
        exact processLines_fd _ _ s

theorem SlotsOk.process (h : SlotsOk ipc) (hi : ipc.clients[i]? = some c)
    (hocc : occupied c = true) (st : σ) (rd : ReadRes) : SlotsOk (pfIpcProcess env st ipc i rd).1 := by
  unfold pfIpcProcess
  rw [hi]
  cases hp : processClient env ⟨st, c, [], []⟩ rd with
  | some s =>
    have hset := h.setSame hi (processClient_fd hp)
    simpa only [hp] using hset
  | none =>
    have hrem := h.remove hi hocc
    simpa only [hp] using hrem

/-- A slot the scan stops at holds the descriptor. -/
theorem dispatch_some {fd : Int} {j : Nat} (h : dispatch ipc fd = some j) :
    ∃ c, ipc.clients[j]? = some c ∧ c.fd = fd := by
  obtain ⟨hlt, hfd, -⟩ := List.findIdx?_eq_some_iff_getElem.mp h
  rw [List.length_take] at hlt
  rw [List.getElem_take] at hfd
  exact ⟨_, List.getElem?_eq_getElem (by omega), of_decide_eq_true hfd⟩

/-- The invariant of the whole server. -/
def Server.Ok (s : Server σ) : Prop := SlotsOk s.ipc

theorem step_ok {s s' : Server σ} {e : ServerEvent} (h : s.Ok) (hs : s.step env e = some s') :
    s'.Ok := by
  cases e with
  | accept cfd uid nonblock =>
    obtain ⟨hall, heq⟩ := Option.ite_none_right_eq_some.mp hs
    obtain rfl := Option.some.inj heq
    refine SlotsOk.accept h uid nonblock fun d hd hocc heq => ?_
    have hd' := List.all_eq_true.mp hall d hd
    simp [hocc, heq] at hd'
  | readable fd rd =>
    obtain ⟨hany, heq⟩ := Option.ite_none_right_eq_some.mp hs
    obtain ⟨d, -, hd⟩ := List.any_eq_true.mp hany
    simp only [Bool.and_eq_true, decide_eq_true_eq] at hd
    cases hdisp : dispatch s.ipc fd with
    | none =>
      rw [hdisp] at heq
      obtain rfl := Option.some.inj heq
      exact h
    | some j =>
      rw [hdisp] at heq
      obtain rfl := Option.some.inj heq
      obtain ⟨c, hc, hfd⟩ := dispatch_some hdisp
      have hocc : occupied c = true := (occupied_congr (hfd.trans hd.2.symm)).trans hd.1
      exact SlotsOk.process h hc hocc s.state rd

/-! ## The result -/

/-- The scan reaches an occupied slot exactly when it lies below the counter. -/
theorem SlotsOk.dispatch_iff (h : SlotsOk ipc) (hi : ipc.clients[i]? = some c)
    (hocc : occupied c = true) : dispatch ipc c.fd = some i ↔ i < ipc.clients.countP occupied := by
  unfold dispatch
  rw [h.count, Int.toNat_natCast]
  refine findIdx?_take_of_unique hi (decide_eq_true rfl) fun j d hj hd => ?_
  exact (h.distinct i j c d hi hj hocc (of_decide_eq_true hd).symm).symm

theorem SlotsOk.served_iff (h : SlotsOk ipc) : Served ipc ↔ Compact occupied ipc.clients := by
  rw [← below_countP_iff]
  constructor
  · intro hserved i c hi hocc
    exact (h.dispatch_iff hi hocc).mp (hserved i c hi hocc)
  · intro hbelow i c hi hocc
    exact (h.dispatch_iff hi hocc).mpr (hbelow i c hi hocc)

/-- In every reachable state the counter is right and within bounds, and all clients are served
exactly when no free slot lies before an occupied one. -/
theorem served_iff_compact (env : IpcEnv ν σ) {s : Server σ}
    (hr : Reach (Server.step env) (fun _ _ => True) Server.Start s) :
    s.ipc.clientCount = s.ipc.clients.countP occupied ∧ s.ipc.clientCount ≤ pfMaxClients ∧
      (Served s.ipc ↔ Compact occupied s.ipc.clients) := by
  have hok : s.Ok := by
    refine hr.invariant (fun s hs => ?_) fun _ _ _ hinv _ hs => step_ok hinv hs
    rw [Server.Ok, hs]
    exact start_slotsOk
  have hcount := SlotsOk.count hok
  refine ⟨hcount, ?_, SlotsOk.served_iff hok⟩
  rw [hcount, ← SlotsOk.length hok]
  exact_mod_cast List.countP_le_length

/-- Nothing parses, so nothing is answered. -/
def muteEnv : IpcEnv Int Unit := ⟨id, fun _ => none, fun st _ _ => (none, st)⟩

/-- Two clients connect, the first one disconnects and a third one takes its slot. -/
def dropAndRefill : List ServerEvent :=
  [.accept 5 (some 1000) true, .accept 6 (some 1000) true, .readable 5 (.data []),
    .accept 7 (some 1000) true]

def refilled : Ipc :=
  ⟨⟨7, [], false, false⟩ :: ⟨6, [], false, false⟩ :: List.replicate 14 .free, 2⟩

theorem refilled_server_served :
    refilled.clientCount = refilled.clients.countP occupied ∧ refilled.clientCount ≤ pfMaxClients ∧
      (Served refilled ↔ Compact occupied refilled.clients) := by
  have hrun : run (Server.step muteEnv) ⟨pfIpcInit, ()⟩ dropAndRefill = some ⟨refilled, ()⟩ := by rfl
  have hstart : Server.Start (⟨pfIpcInit, ()⟩ : Server Unit) := rfl
  exact served_iff_compact muteEnv (s := ⟨refilled, ()⟩)
    (Reach.run (.start hstart) (fun _ _ _ => trivial) hrun)

/-- Two clients connect and the first one disconnects. -/
def acceptTwoDropFirst : List ServerEvent :=
  [.accept 5 (some 1000) true, .accept 6 (some 1000) true, .readable 5 (.data [])]

/-- The second client sits in slot 1 while one slot is scanned. -/
theorem second_client_unserved :
    ∃ s : Server Unit, Reach (Server.step muteEnv) (fun _ _ => True) Server.Start s ∧
      ¬ Served s.ipc := by
  have hrun : run (Server.step muteEnv) ⟨pfIpcInit, ()⟩ acceptTwoDropFirst =
      some ⟨⟨.free :: ⟨6, [], false, false⟩ :: List.replicate 14 .free, 1⟩, ()⟩ := by rfl
  have hstart : Server.Start (⟨pfIpcInit, ()⟩ : Server Unit) := rfl
  refine ⟨_, Reach.run (.start hstart) (fun _ _ _ => trivial) hrun, fun h => ?_⟩
  have hserved := h 1 ⟨6, [], false, false⟩ rfl rfl
  exact absurd hserved (by decide)

end Proxiflare.Guarantees.ClientSlots
