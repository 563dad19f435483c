import Proxiflare.Daemon.ConnThreads
import Proxiflare.Lib.Runs

/-!
# Whose descriptors a failed relay releases

`pf_tproxy_relay` frees the slot and closes both descriptors; the main loop then
deregisters the remembered numbers and closes the slot once more. In between an
accept thread may take the slot or the numbers. Runs in which none does are safe;
the connection count is right in every run.
-/

namespace Proxiflare.Guarantees.SlotOwnership

open Lib.Runs
open Proxiflare.Daemon

/-- The connection whose descriptors the main loop is entitled to. -/
def victim (s : Sys) : Option Nat :=
  match s.main with
  | .idle => none
  | .found i _ _ => s.claimedBy i
  | .cleanup _ _ _ _ v => v

/-- Every open descriptor of another connection stays open and keeps its registration. -/
def Spares (s s' : Sys) : Prop :=
  ∀ fd t, s.owner fd = some t → some t ≠ victim s →
    s'.owner fd = some t ∧ s'.epoll fd = s.epoll fd

/-- The steps that handle a relay: the call itself and what follows its failure. -/
def Handles : SysLabel → Prop
  | .relay _ => True
  | .cleanup => True
  | _ => False

/-! ## The condition -/

/-- The numbers still to be deregistered. -/
def pending (s : Sys) : List Int :=
  match s.main with
  | .cleanup .delClient _ cfd pfd _ => [cfd, pfd]
  | .cleanup .delProxy _ _ pfd _ => [pfd]
  | _ => []

/-- The slot freed by the failed relay, until its handling ends. -/
def freedSlot (s : Sys) : Option Nat :=
  match s.main with
  | .cleanup _ i _ _ _ => some i
  | _ => none

/-- Registering `fd` hits a number the main loop is about to deregister. -/
def collides (s : Sys) (fd : Int) : Bool := (s.owner fd).isSome && fd ∈ pending s

/-- No accept thread claims the freed slot or registers a number still to be deregistered. -/
def undisturbed (s : Sys) : SysLabel → Bool
  | .claim _ => freedSlot s = none || findFreeSlot s.tp ≠ freedSlot s
  | .addClient t => !s.threads[t]?.any fun th => collides s th.cfd
  | .addProxy t => !s.threads[t]?.any fun th => th.pfd.any (collides s)
  | _ => true

/-! ## The invariant -/

/-- An active slot, its record and its connection. -/
def Active (s : Sys) (i : Nat) (c : Connection) : Prop :=
  s.tp.conns[i]? = some c ∧ c.active = true

/-- The thread has not claimed a slot yet. -/
def Early (th : AcceptThread) : Prop := th.pc = .connecting ∨ th.pc = .connected

structure Inv (s : Sys) : Prop where
  registered : ∀ fd, s.epoll fd = true → (s.owner fd).isSome
  known : ∀ fd t, s.owner fd = some t → t < s.threads.length
  slots : ∀ i c, Active s i c → ∃ t, s.claimedBy i = some t ∧ t < s.threads.length ∧
    s.owner c.clientFd = some t ∧ s.owner c.proxyFd = some t ∧ 0 ≤ c.clientFd ∧ 0 ≤ c.proxyFd
  once : ∀ i j c d, Active s i c → Active s j d → s.claimedBy i = s.claimedBy j → i = j
  early : ∀ t th, s.threads[t]? = some th → Early th →
    s.owner th.cfd = some t ∧ 0 ≤ th.cfd ∧
      (∀ fd, th.pfd = some fd → s.owner fd = some t ∧ 0 ≤ fd ∧ fd ≠ th.cfd) ∧
      ∀ i c, Active s i c → s.claimedBy i ≠ some t
  found : ∀ i cfd pfd, s.main = .found i cfd pfd →
    ∃ c, Active s i c ∧ c.clientFd = cfd ∧ c.proxyFd = pfd
  freed : ∀ i c, freedSlot s = some i → s.tp.conns[i]? = some c → c.active = false
  cleared : ∀ fd ∈ pending s, s.epoll fd = false

theorem inv_start : Inv Sys.start := by
  have hinactive : ∀ i c, ¬ Active Sys.start i c := by
    rintro i c ⟨hget, hact⟩
    have hmem := List.mem_of_getElem? hget
    obtain rfl := List.eq_of_mem_replicate hmem
    cases hact
  refine ⟨?_, ?_, ?_, ?_, ?_, ?_, ?_, ?_⟩
  · intro fd h
    cases h
  · intro fd t h
    cases h
  · intro i c h
    exact absurd h (hinactive i c)
  · intro i j c d h
    exact absurd h (hinactive i c)
  · intro t th h
    simp [Sys.start] at h
  · intro i cfd pfd h
    cases h
  · intro i c h
    cases h
  · intro fd h
    cases h

/-! ## Steps of an accept thread -/

theorem pending_congr {s s' : Sys} (h : s'.main = s.main) : pending s' = pending s := by
  unfold pending
  rw [h]

theorem freedSlot_congr {s s' : Sys} (h : s'.main = s.main) : freedSlot s' = freedSlot s := by
  unfold freedSlot
  rw [h]

/-- What a thread without a slot may do: open and close descriptors of its own and change its
record. -/
structure Private (s s' : Sys) (t : Nat) : Prop where
  tp : s'.tp = s.tp
  claimedBy : s'.claimedBy = s.claimedBy
  main : s'.main = s.main
  grows : s.threads.length ≤ s'.threads.length
  known : t < s'.threads.length
  owner : ∀ fd u, u ≠ t → (s'.owner fd = some u ↔ s.owner fd = some u)
  epoll : ∀ fd, s'.epoll fd = true → s.epoll fd = true ∧ (s'.owner fd).isSome
  threads : ∀ u, u ≠ t → s'.threads[u]? = s.threads[u]?
  noSlot : ∀ i c, Active s i c → s.claimedBy i ≠ some t
  early : ∀ th, s'.threads[t]? = some th → Early th →
    s'.owner th.cfd = some t ∧ 0 ≤ th.cfd ∧
      ∀ fd, th.pfd = some fd → s'.owner fd = some t ∧ 0 ≤ fd ∧ fd ≠ th.cfd

theorem Inv.private {s s' : Sys} {t : Nat} (inv : Inv s) (h : Private s s' t) : Inv s' := by
  have hactive : ∀ i c, Active s' i c ↔ Active s i c := by
    intro i c
    unfold Active
    rw [h.tp]
  refine ⟨fun fd hfd => (h.epoll fd hfd).2, ?_, ?_, ?_, ?_, ?_, ?_, ?_⟩
  · intro fd u hu
    by_cases hut : u = t
    · rw [hut]
      exact h.known
    · exact (inv.known fd u ((h.owner fd u hut).mp hu)).trans_le h.grows
  · intro i c hact
    obtain ⟨u, hu, hlt, hc, hp, hpos⟩ := inv.slots i c ((hactive i c).mp hact)
    have hut : u ≠ t := fun he => h.noSlot i c ((hactive i c).mp hact) (he ▸ hu)
    refine ⟨u, by rw [h.claimedBy, hu], hlt.trans_le h.grows, ?_, ?_, hpos⟩
    · exact (h.owner _ u hut).mpr hc
    · exact (h.owner _ u hut).mpr hp
  · intro i j c d hi hj heq
    rw [h.claimedBy] at heq
    exact inv.once i j c d ((hactive i c).mp hi) ((hactive j d).mp hj) heq
  · intro u th hth he
    rw [h.claimedBy]
    by_cases hut : u = t
    · subst hut
      obtain ⟨hc, hpos, hp⟩ := h.early th hth he
      exact ⟨hc, hpos, hp, fun i c hact => h.noSlot i c ((hactive i c).mp hact)⟩
    · rw [h.threads u hut] at hth
      obtain ⟨hc, hpos, hp, hno⟩ := inv.early u th hth he
      refine ⟨(h.owner _ u hut).mpr hc, hpos, fun fd hfd => ?_, fun i c hact => ?_⟩
      · exact ⟨(h.owner fd u hut).mpr (hp fd hfd).1, (hp fd hfd).2⟩
      · exact hno i c ((hactive i c).mp hact)
  · intro i cfd pfd hm
    rw [h.main] at hm
    obtain ⟨c, hact, hfds⟩ := inv.found i cfd pfd hm
    exact ⟨c, (hactive i c).mpr hact, hfds⟩
  · intro i c hf hget
    rw [freedSlot_congr h.main] at hf
    rw [h.tp] at hget
    exact inv.freed i c hf hget
  · intro fd hfd
    rw [pending_congr h.main] at hfd
    have hclear := inv.cleared fd hfd
    by_contra hreg
    rw [(h.epoll fd (by simpa using hreg)).1] at hclear
    cases hclear

theorem free_iff {s : Sys} {fd : Int} : s.free fd = true ↔ 0 ≤ fd ∧ s.owner fd = none := by
  simp [Sys.free]

/-- Opening a free number for `t` is nobody else's business. -/
theorem openFd_owner {s : Sys} {fd : Int} {t : Nat} (hfree : s.owner fd = none) (x : Int) (u : Nat)
    (hut : u ≠ t) : (s.openFd fd t).owner x = some u ↔ s.owner x = some u := by
  show (if x = fd then some t else s.owner x) = some u ↔ _
  split
  · next hx =>
    rw [hx, hfree]
    simp [hut.symm]
  · rfl

/-- So is closing numbers that `t` owns. -/
theorem closeFds_owner {s : Sys} {fds : List Int} {t : Nat} (hown : ∀ fd ∈ fds, s.owner fd = some t)
    (x : Int) (u : Nat) (hut : u ≠ t) :
    (s.closeFds fds).owner x = some u ↔ s.owner x = some u := by
  show (if x ∈ fds then none else s.owner x) = some u ↔ _
  split
  · next hx =>
    rw [hown x hx]
    simp [hut.symm]
  · rfl

theorem closeFds_epoll {s : Sys} (inv : Inv s) (fds : List Int) (fd : Int)
    (h : (s.closeFds fds).epoll fd = true) :
    s.epoll fd = true ∧ ((s.closeFds fds).owner fd).isSome := by
  have hreg : (if fd ∈ fds then false else s.epoll fd) = true := h
  show s.epoll fd = true ∧ (if fd ∈ fds then none else s.owner fd).isSome
  split at hreg
  · cases hreg
  · next hnot =>
    rw [if_neg hnot]
    exact ⟨hreg, inv.registered fd hreg⟩

theorem openFd_epoll {s : Sys} (inv : Inv s) (x : Int) (t : Nat) (fd : Int)
    (h : s.epoll fd = true) : s.epoll fd = true ∧ ((s.openFd x t).owner fd).isSome := by
  refine ⟨h, ?_⟩
  show (if fd = x then some t else s.owner fd).isSome
  split
  · rfl
  · exact inv.registered fd h

theorem setThread_other {s : Sys} {t : Nat} {th : AcceptThread} (u : Nat) (hut : u ≠ t) :
    (s.setThread t th).threads[u]? = s.threads[u]? :=
  List.getElem?_set_ne hut.symm

theorem setThread_self {s : Sys} {t : Nat} {th th' : AcceptThread}
    (h : (s.setThread t th).threads[t]? = some th') : th' = th := by
  simp only [Sys.setThread, List.getElem?_set_self'] at h
  obtain ⟨x, -, rfl⟩ := Option.map_eq_some_iff.mp h
  rfl

/-- A change of `t`'s record on top of a change of its descriptors. -/
theorem Private.setThread {s s₁ : Sys} {t : Nat} {th th' : AcceptThread} (inv : Inv s)
    (hth : s.threads[t]? = some th) (he : Early th) (htp : s₁.tp = s.tp)
    (hcl : s₁.claimedBy = s.claimedBy) (hmain : s₁.main = s.main) (hths : s₁.threads = s.threads)
    (howner : ∀ fd u, u ≠ t → (s₁.owner fd = some u ↔ s.owner fd = some u))
    (hepoll : ∀ fd, s₁.epoll fd = true → s.epoll fd = true ∧ (s₁.owner fd).isSome)
    (hearly : Early th' → s₁.owner th'.cfd = some t ∧ 0 ≤ th'.cfd ∧
      ∀ fd, th'.pfd = some fd → s₁.owner fd = some t ∧ 0 ≤ fd ∧ fd ≠ th'.cfd) :
    Private s (s₁.setThread t th') t where
  tp := htp
  claimedBy := hcl
  main := hmain
  grows := by simp [Sys.setThread, hths]
  known := by
    obtain ⟨hlt, -⟩ := List.getElem?_eq_some_iff.mp hth
    simpa [Sys.setThread, hths] using hlt
  owner := howner
  epoll := hepoll
  threads := fun u hut => by rw [setThread_other u hut, hths]
  noSlot := (inv.early t th hth he).2.2.2
  early := fun x hx => by
    rw [setThread_self hx]
    exact hearly

theorem inv_accept {s : Sys} {fd : Int} {info : AcceptInfo} (inv : Inv s) (hfree : s.free fd = true) :
    Inv { s.openFd fd s.threads.length with
      threads := s.threads ++ [⟨fd, none, .connecting, info⟩] } := by
  obtain ⟨hpos, hnone⟩ := free_iff.mp hfree
  refine inv.private (t := s.threads.length) ⟨rfl, rfl, rfl, ?_, ?_, ?_, ?_, ?_, ?_, ?_⟩
  · simp
  · simp
  · exact openFd_owner hnone
  · exact openFd_epoll inv fd _
  · intro u hu
    show (s.threads ++ _)[u]? = s.threads[u]?
    rcases Nat.lt_or_ge u s.threads.length with hlt | hge
    · exact List.getElem?_append_left hlt
    · rw [List.getElem?_eq_none hge, List.getElem?_eq_none]
      simp only [List.length_append, List.length_singleton]
      omega
  · intro i c hact hclaim
    obtain ⟨t, ht, hlt, -⟩ := inv.slots i c hact
    rw [hclaim] at ht
    exact absurd (Option.some.inj ht) (by omega)
  · intro th hth he
    obtain rfl : ⟨fd, none, .connecting, info⟩ = th := by simpa using hth
    refine ⟨?_, hpos, fun x hx => by cases hx⟩
    show (if fd = fd then some s.threads.length else s.owner fd) = _
    rw [if_pos rfl]

theorem inv_openProxy {s : Sys} {t : Nat} {th : AcceptThread} {fd : Int} (inv : Inv s)
    (hth : s.threads[t]? = some th) (hpc : th.pc = .connecting) (hfree : s.free fd = true) :
    Inv ((s.openFd fd t).setThread t { th with pfd := some fd }) := by
  obtain ⟨hpos, hnone⟩ := free_iff.mp hfree
  obtain ⟨hc, hcpos, -, -⟩ := inv.early t th hth (.inl hpc)
  refine inv.private (.setThread inv hth (.inl hpc) rfl rfl rfl rfl (openFd_owner hnone)
    (openFd_epoll inv fd t) fun _ => ⟨?_, hcpos, fun x hx => ?_⟩)
  · show (if th.cfd = fd then some t else s.owner th.cfd) = some t
    rw [hc, ite_self]
  · obtain rfl := Option.some.inj hx
    refine ⟨?_, hpos, fun hsame => ?_⟩
    · show (if fd = fd then some t else s.owner fd) = _
      rw [if_pos rfl]
    · rw [show fd = th.cfd from hsame, hc] at hnone
      cases hnone

theorem inv_dropProxy {s : Sys} {t : Nat} {th : AcceptThread} {fd : Int} (inv : Inv s)
    (hth : s.threads[t]? = some th) (hpc : th.pc = .connecting) (hfd : th.pfd = some fd) :
    Inv ((s.closeFds [fd]).setThread t { th with pfd := none }) := by
  obtain ⟨hc, hcpos, hp, -⟩ := inv.early t th hth (.inl hpc)
  obtain ⟨hown, -, hne⟩ := hp fd hfd
  refine inv.private (.setThread inv hth (.inl hpc) rfl rfl rfl rfl
    (closeFds_owner (by simpa using hown)) (closeFds_epoll inv [fd])
    fun _ => ⟨?_, hcpos, fun x hx => by cases hx⟩)
  show (if th.cfd ∈ [fd] then none else s.owner th.cfd) = some t
  rw [if_neg (by simpa using hne.symm), hc]

theorem inv_connected {s : Sys} {t : Nat} {th : AcceptThread} (inv : Inv s)
    (hth : s.threads[t]? = some th) (hpc : th.pc = .connecting) :
    Inv (s.setThread t { th with pc := .connected }) := by
  obtain ⟨hc, hcpos, hp, -⟩ := inv.early t th hth (.inl hpc)
  exact inv.private (.setThread inv hth (.inl hpc) rfl rfl rfl rfl (fun _ _ _ => Iff.rfl)
    (fun fd h => ⟨h, inv.registered fd h⟩) fun _ => ⟨hc, hcpos, hp⟩)

theorem inv_giveUp {s : Sys} {t : Nat} {th : AcceptThread} (inv : Inv s)
    (hth : s.threads[t]? = some th) (he : Early th) :
    Inv ((s.closeFds (th.cfd :: th.pfd.toList)).setThread t { th with pfd := none, pc := .done }) := by
  obtain ⟨hc, -, hp, -⟩ := inv.early t th hth he
  have hown : ∀ fd ∈ th.cfd :: th.pfd.toList, s.owner fd = some t := by
    intro fd hfd
    rcases List.mem_cons.mp hfd with rfl | hfd
    · exact hc
    · exact (hp fd (Option.mem_toList.mp hfd)).1
  refine inv.private (.setThread inv hth he rfl rfl rfl rfl (closeFds_owner hown)
    (closeFds_epoll inv _) fun hdone => ?_)
  rcases hdone with h | h <;> cases h

/-- Registering a number keeps the invariant if the number is not about to be deregistered. -/
theorem inv_epollAdd {s : Sys} {t : Nat} {th : AcceptThread} {fd : Int} {pc : AcceptPc}
    (inv : Inv s) (hquiet : collides s fd = false) (hpc : ¬ (pc = .connecting ∨ pc = .connected)) :
    Inv ((s.epollAdd fd).setThread t { th with pc := pc }) := by
  have hlen : ((s.epollAdd fd).setThread t { th with pc := pc }).threads.length =
      s.threads.length := List.length_set
  refine ⟨?_, ?_, ?_, inv.once, ?_, inv.found, inv.freed, ?_⟩
  · intro x hx
    have hreg : (if x = fd then (s.owner fd).isSome else s.epoll x) = true := hx
    show (s.owner x).isSome
    split at hreg
    · next heq =>
      rw [heq]
      exact hreg
    · exact inv.registered x hreg
  · intro x u hu
    rw [hlen]
    exact inv.known x u hu
  · intro i c hact
    rw [hlen]
    exact inv.slots i c hact
  · intro u th' hth' he
    by_cases hut : u = t
    · subst hut
      rw [setThread_self hth'] at he
      exact absurd he hpc
    · rw [setThread_other u hut] at hth'
      exact inv.early u th' hth' he
  · intro x hx
    show (if x = fd then (s.owner fd).isSome else s.epoll x) = false
    split
    · next heq =>
      by_contra hopen
      have hcol : collides s fd = true := by
        simp only [collides, Bool.and_eq_true, decide_eq_true_eq]
        exact ⟨Bool.eq_true_of_not_eq_false hopen, heq ▸ hx⟩
      rw [hcol] at hquiet
      cases hquiet
    · exact inv.cleared x hx

/-- The active slots after slot `i` was overwritten. -/
theorem active_set {s s' : Sys} {i : Nat} {c' : Connection}
    (htp : s'.tp.conns = s.tp.conns.set i c') {j : Nat} {d : Connection} (h : Active s' j d) :
    (j = i ∧ d = c' ∧ c'.active = true) ∨ (j ≠ i ∧ Active s j d) := by
  obtain ⟨hget, hact⟩ := h
  rw [htp] at hget
  by_cases hji : j = i
  · subst hji
    rw [List.getElem?_set_self'] at hget
    obtain ⟨x, -, rfl⟩ := Option.map_eq_some_iff.mp hget
    exact .inl ⟨rfl, rfl, hact⟩
  · rw [List.getElem?_set_ne (Ne.symm hji)] at hget
    exact .inr ⟨hji, hget, hact⟩

theorem inv_claim {s : Sys} {t : Nat} {th : AcceptThread} {fd : Int} {i : Nat} {tp : ConnTable}
    (inv : Inv s) (hth : s.threads[t]? = some th) (hpc : th.pc = .connected)
    (hfd : th.pfd = some fd) (hclaim : claimSlot s.tp th.cfd fd th.info = some (i, tp))
    (hquiet : ∀ j, freedSlot s = some j → findFreeSlot s.tp ≠ some j) :
    Inv { s.setThread t { th with pc := .claimed } with
      tp := tp, claimedBy := fun j => if j = i then some t else s.claimedBy j } := by
  obtain ⟨hfree, rfl⟩ := claimSlot_some hclaim
  obtain ⟨hc, hcpos, hp, hno⟩ := inv.early t th hth (.inr hpc)
  obtain ⟨hpown, hppos, -⟩ := hp fd hfd
  have hlen : (s.setThread t { th with pc := .claimed }).threads.length = s.threads.length :=
    List.length_set
  have hlt : t < s.threads.length := (List.getElem?_eq_some_iff.mp hth).1
  refine ⟨inv.registered, ?_, ?_, ?_, ?_, ?_, ?_, inv.cleared⟩
  · intro x u hu
    exact hlen ▸ inv.known x u hu
  · intro j d hact
    show ∃ u, (if j = i then some t else s.claimedBy j) = some u ∧ _
    rcases active_set rfl hact with ⟨rfl, rfl, -⟩ | ⟨hji, hact⟩
    · exact ⟨t, if_pos rfl, hlen.symm ▸ hlt, hc, hpown, hcpos, hppos⟩
    · obtain ⟨u, hu, hult, hrest⟩ := inv.slots j d hact
      exact ⟨u, by rw [if_neg hji, hu], hlen.symm ▸ hult, hrest⟩
  · intro j k d e hj hk heq
    have heq' : (if j = i then some t else s.claimedBy j) =
        if k = i then some t else s.claimedBy k := heq
    rcases active_set rfl hj with ⟨hji, -, -⟩ | ⟨hji, hjold⟩ <;>
      rcases active_set rfl hk with ⟨hki, -, -⟩ | ⟨hki, hkold⟩
    · rw [hji, hki]
    · rw [if_pos hji, if_neg hki] at heq'
      exact absurd heq'.symm (hno k e hkold)
    · rw [if_pos hki, if_neg hji] at heq'
      exact absurd heq' (hno j d hjold)
    · rw [if_neg hji, if_neg hki] at heq'
      exact inv.once j k d e hjold hkold heq'
  · intro u th' hth' he
    by_cases hut : u = t
    · subst hut
      rw [setThread_self hth'] at he
      rcases he with he | he <;> cases he
    · rw [show (s.setThread t { th with pc := .claimed }).threads[u]? = s.threads[u]? from
        setThread_other u hut] at hth'
      obtain ⟨h₁, h₂, h₃, h₄⟩ := inv.early u th' hth' he
      refine ⟨h₁, h₂, h₃, fun j d hact => ?_⟩
      show (if j = i then some t else s.claimedBy j) ≠ some u
      rcases active_set rfl hact with ⟨rfl, -, -⟩ | ⟨hji, hact⟩
      · rw [if_pos rfl]
        exact fun heq => hut (Option.some.inj heq).symm
      · rw [if_neg hji]
        exact h₄ j d hact
  · intro j cfd pfd hm
    obtain ⟨c, ⟨hget, hact⟩, hfds⟩ := inv.found j cfd pfd hm
    have hji : j ≠ i := by
      rintro rfl
      obtain ⟨c₀, hget₀, hinact⟩ := findFreeSlot_some hfree
      rw [hget] at hget₀
      obtain rfl := Option.some.inj hget₀
      rw [hact] at hinact
      cases hinact
    exact ⟨c, ⟨(List.getElem?_set_ne hji.symm).trans hget, hact⟩, hfds⟩
  · intro j d hf hget
    have hji : i ≠ j := fun heq => hquiet j hf (heq ▸ hfree)
    exact inv.freed j d hf ((List.getElem?_set_ne hji).symm.trans hget)

/-! ## Steps of the main loop -/

theorem slotOf_some {s : Sys} {fd : Int} {i : Nat} (h : s.slotOf fd = some i) :
    ∃ c, Active s i c := by
  obtain ⟨hi, hc, -⟩ := List.findIdx?_eq_some_iff_getElem.mp h
  simp only [Bool.and_eq_true] at hc
  exact ⟨s.tp.conns[i], List.getElem?_eq_getElem hi, hc.1⟩

theorem inv_find {s : Sys} {fd : Int} {i : Nat} {c : Connection} (inv : Inv s)
    (hslot : s.slotOf fd = some i) (hget : s.tp.conns[i]? = some c) :
    Inv { s with main := .found i c.clientFd c.proxyFd } := by
  obtain ⟨d, hd, hact⟩ := slotOf_some hslot
  rw [hget] at hd
  obtain rfl := Option.some.inj hd
  refine ⟨inv.registered, inv.known, inv.slots, inv.once, inv.early, ?_, ?_, ?_⟩
  · intro j cfd pfd hm
    cases hm
    exact ⟨c, ⟨hget, hact⟩, rfl, rfl⟩
  · intro j e hf
    cases hf
  · intro x hx
    cases hx

/-- A successful relay changes the counters of its slot only. -/
theorem inv_relay_ok {s : Sys} {i : Nat} {c c' : Connection} (inv : Inv s) (hact : Active s i c)
    (hact' : c'.active = true) (hcfd : c'.clientFd = c.clientFd) (hpfd : c'.proxyFd = c.proxyFd) :
    Inv { s.closeFds [] with tp := s.tp.set i c', main := .idle } := by
  have hslot : ∀ {j d}, Active ({ s.closeFds [] with tp := s.tp.set i c', main := .idle } : Sys) j d →
      ∃ d', Active s j d' ∧ d.clientFd = d'.clientFd ∧ d.proxyFd = d'.proxyFd := by
    intro j d h
    rcases active_set rfl h with ⟨rfl, rfl, -⟩ | ⟨-, hold⟩
    · exact ⟨c, hact, hcfd, hpfd⟩
    · exact ⟨d, hold, rfl, rfl⟩
  refine ⟨inv.registered, inv.known, ?_, ?_, ?_, ?_, ?_, ?_⟩
  · intro j d h
    obtain ⟨d', hold, hc, hp⟩ := hslot h
    rw [hc, hp]
    exact inv.slots j d' hold
  · intro j k d e hj hk
    obtain ⟨d', hj', -⟩ := hslot hj
    obtain ⟨e', hk', -⟩ := hslot hk
    exact inv.once j k d' e' hj' hk'
  · intro u th hth he
    obtain ⟨h₁, h₂, h₃, h₄⟩ := inv.early u th hth he
    refine ⟨h₁, h₂, h₃, fun j d h => ?_⟩
    obtain ⟨d', hold, -⟩ := hslot h
    exact h₄ j d' hold
  · intro j cfd pfd hm
    cases hm
  · intro j d hf
    cases hf
  · intro x hx
    cases hx

/-- The two descriptors of an active slot belong to the connection that claimed it. -/
theorem not_mem_pair {s : Sys} {i : Nat} {c : Connection} {fd : Int} {u : Nat} (inv : Inv s)
    (hact : Active s i c) (hfd : s.owner fd = some u) (hu : s.claimedBy i ≠ some u) :
    fd ∉ [c.clientFd, c.proxyFd] := by
  obtain ⟨t, ht, -, hc, hp, -⟩ := inv.slots i c hact
  intro hmem
  simp only [List.mem_cons, List.not_mem_nil, or_false] at hmem
  rcases hmem with rfl | rfl
  · rw [hc] at hfd
    exact hu (ht.trans hfd)
  · rw [hp] at hfd
    exact hu (ht.trans hfd)

theorem closeFds_of_not_mem {s : Sys} {fds : List Int} {fd : Int} (h : fd ∉ fds) :
    (s.closeFds fds).owner fd = s.owner fd ∧ (s.closeFds fds).epoll fd = s.epoll fd :=
  ⟨if_neg h, if_neg h⟩

theorem inv_relay_failed {s : Sys} {i : Nat} {c c' : Connection} {n : Nat} (inv : Inv s)
    (hact : Active s i c) (hdead : c'.active = false) :
    Inv { s.closeFds [c.clientFd, c.proxyFd] with
      tp := { s.tp.set i c' with connCount := n }
      main := .cleanup .delClient i c.clientFd c.proxyFd (s.claimedBy i) } := by
  have hslot : ∀ {j d}, Active ({ s.closeFds [c.clientFd, c.proxyFd] with
      tp := { s.tp.set i c' with connCount := n }
      main := .cleanup .delClient i c.clientFd c.proxyFd (s.claimedBy i) } : Sys) j d →
      j ≠ i ∧ Active s j d := by
    intro j d h
    rcases active_set rfl h with ⟨-, -, hlive⟩ | hold
    · rw [hdead] at hlive
      cases hlive
    · exact hold
  refine ⟨?_, ?_, ?_, ?_, ?_, ?_, ?_, ?_⟩
  · intro fd hfd
    exact (closeFds_epoll inv _ fd hfd).2
  · intro fd u hu
    have hu' : (if fd ∈ [c.clientFd, c.proxyFd] then none else s.owner fd) = some u := hu
    split at hu'
    · cases hu'
    · exact inv.known fd u hu'
  · intro j d h
    obtain ⟨hji, hold⟩ := hslot h
    obtain ⟨u, hu, hlt, hc, hp, hpos⟩ := inv.slots j d hold
    have hne : s.claimedBy i ≠ some u := fun heq => hji (inv.once j i d c hold hact (hu.trans heq.symm))
    refine ⟨u, hu, hlt, ?_, ?_, hpos⟩
    · exact (closeFds_of_not_mem (not_mem_pair inv hact hc hne)).1.trans hc
    · exact (closeFds_of_not_mem (not_mem_pair inv hact hp hne)).1.trans hp
  · intro j k d e hj hk
    exact inv.once j k d e (hslot hj).2 (hslot hk).2
  · intro u th hth he
    obtain ⟨h₁, h₂, h₃, h₄⟩ := inv.early u th hth he
    have hne := h₄ i c hact
    refine ⟨?_, h₂, fun fd hfd => ?_, fun j d h => h₄ j d (hslot h).2⟩
    · exact (closeFds_of_not_mem (not_mem_pair inv hact h₁ hne)).1.trans h₁
    · obtain ⟨hown, hrest⟩ := h₃ fd hfd
      exact ⟨(closeFds_of_not_mem (not_mem_pair inv hact hown hne)).1.trans hown, hrest⟩
  · intro j cfd pfd hm
    cases hm
  · intro j d hf hget
    cases hf
    rw [show (s.tp.set i c').conns[i]? = _ from List.getElem?_set_self'] at hget
    obtain ⟨x, -, rfl⟩ := Option.map_eq_some_iff.mp hget
    exact hdead
  · intro fd hfd
    exact if_pos hfd

theorem epollDel_epoll {s : Sys} {x fd : Int} (h : (s.epollDel x).epoll fd = true) :
    fd ≠ x ∧ s.epoll fd = true := by
  have h' : (if fd = x then false else s.epoll fd) = true := h
  split at h'
  · cases h'
  · next hne => exact ⟨hne, h'⟩

/-- Deregistering one of the two numbers; `next` keeps the freed slot and drops that number. -/
theorem inv_epollDel {s : Sys} {fd : Int} {next : MainPc} (inv : Inv s)
    (hfound : ∀ i cfd pfd, next ≠ .found i cfd pfd)
    (hfreed : ∀ i, freedSlot { s.epollDel fd with main := next } = some i → freedSlot s = some i)
    (hpending : ∀ x ∈ pending { s.epollDel fd with main := next }, x ∈ pending s) :
    Inv { s.epollDel fd with main := next } := by
  refine ⟨?_, inv.known, inv.slots, inv.once, inv.early, ?_, ?_, ?_⟩
  · intro x hx
    exact inv.registered x (epollDel_epoll hx).2
  · intro i cfd pfd hm
    exact absurd hm (hfound i cfd pfd)
  · intro i c hf
    exact inv.freed i c (hfreed i hf)
  · intro x hx
    by_contra hreg
    have hclear := inv.cleared x (hpending x hx)
    rw [(epollDel_epoll (Bool.eq_true_of_not_eq_false hreg)).2] at hclear
    cases hclear

theorem inv_cleanup_done {s : Sys} {tp : ConnTable} (inv : Inv s) (htp : tp = s.tp) :
    Inv { s.closeFds [] with tp := tp, main := .idle } := by
  subst htp
  refine ⟨inv.registered, inv.known, inv.slots, inv.once, inv.early, ?_, ?_, ?_⟩
  · intro i cfd pfd hm
    cases hm
  · intro i c hf
    cases hf
  · intro x hx
    cases hx

/-- The last step finds the slot inactive and does nothing. -/
theorem closeConn_noop {s : Sys} {i : Nat} (inv : Inv s) (hf : freedSlot s = some i) :
    pfTproxyCloseConn s.tp i = (s.tp, []) :=
  pfTproxyCloseConn_of_inactive fun c => inv.freed i c hf

theorem inv_mainStep {s s' : Sys} {l : SysLabel} (inv : Inv s) (hs : mainStep s l = some s') :
    Inv s' := by
  cases l with
  | accept fd info =>
    simp only [mainStep] at hs
    split at hs
    · next h =>
      obtain rfl := Option.some.inj hs
      exact inv_accept inv h.2
    · cases hs
  | find fd =>
    simp only [mainStep] at hs
    split at hs
    · obtain ⟨i, hslot, hs⟩ := Option.bind_eq_some_iff.mp hs
      obtain ⟨c, hget, rfl⟩ := Option.map_eq_some_iff.mp hs
      exact inv_find inv hslot hget
    · cases hs
  | relay io =>
    simp only [mainStep] at hs
    split at hs
    · next i cfd pfd hm =>
      obtain ⟨c, hact, rfl, rfl⟩ := inv.found i cfd pfd hm
      obtain ⟨t, ht, -, -, -, hc, hp⟩ := inv.slots i c hact
      rcases pfTproxyRelayAt_cases io hact.1 hact.2 hc hp with
        ⟨c', hlive, hcfd, hpfd, hout⟩ | ⟨c', hdead, hout⟩
      · rw [hout] at hs
        obtain rfl := Option.some.inj hs
        exact inv_relay_ok inv hact hlive hcfd hpfd
      · rw [hout] at hs
        obtain rfl := Option.some.inj hs
        exact inv_relay_failed inv hact hdead
    · cases hs
  | cleanup =>
    simp only [mainStep] at hs
    split at hs
    · next i cfd pfd v hm =>
      obtain rfl := Option.some.inj hs
      refine inv_epollDel inv (by simp) (fun j hj => ?_) fun x hx => ?_
      · rw [freedSlot, hm]
        exact hj
      · rw [pending, hm]
        exact List.mem_cons_of_mem _ hx
    · next i cfd pfd v hm =>
      obtain rfl := Option.some.inj hs
      refine inv_epollDel inv (by simp) (fun j hj => ?_) fun x hx => ?_
      · rw [freedSlot, hm]
        exact hj
      · cases hx
    · next i cfd pfd v hm =>
      have hnoop := closeConn_noop inv (i := i) (by rw [freedSlot, hm])
      rw [hnoop] at hs
      obtain rfl := Option.some.inj hs
      exact inv_cleanup_done inv rfl
    · cases hs
  | _ => cases hs

theorem inv_threadStep {s s' : Sys} {t : Nat} {th : AcceptThread} {l : SysLabel} (inv : Inv s)
    (hth : s.threads[t]? = some th) (hs : threadStep s t th l = some s')
    (hclaim : ∀ u, l = .claim u → ∀ j, freedSlot s = some j → findFreeSlot s.tp ≠ some j)
    (hclient : ∀ u, l = .addClient u → collides s th.cfd = false)
    (hproxy : ∀ u, l = .addProxy u → ∀ fd, th.pfd = some fd → collides s fd = false) : Inv s' := by
  cases l with
  | openProxy u fd =>
    simp only [threadStep] at hs
    split at hs
    · next h =>
      obtain rfl := Option.some.inj hs
      exact inv_openProxy inv hth h.1 h.2.2
    · cases hs
  | dropProxy u =>
    simp only [threadStep] at hs
    split at hs
    · next fd hfd =>
      split at hs
      · next hpc =>
        obtain rfl := Option.some.inj hs
        exact inv_dropProxy inv hth hpc hfd
      · cases hs
    · cases hs
  | connected u =>
    simp only [threadStep] at hs
    split at hs
    · next h =>
      obtain rfl := Option.some.inj hs
      exact inv_connected inv hth h.1
    · cases hs
  | claim u =>
    simp only [threadStep] at hs
    split at hs
    · next fd hfd hpc =>
      obtain ⟨⟨i, tp⟩, hcl, rfl⟩ := Option.map_eq_some_iff.mp hs
      exact inv_claim inv hth hpc hfd hcl (hclaim u rfl)
    · cases hs
  | giveUp u =>
    simp only [threadStep] at hs
    split at hs
    · next h =>
      obtain rfl := Option.some.inj hs
      exact inv_giveUp inv hth (h.imp id And.left)
    · cases hs
  | addClient u =>
    simp only [threadStep] at hs
    split at hs
    · obtain rfl := Option.some.inj hs
      exact inv_epollAdd inv (hclient u rfl) (by simp)
    · cases hs
  | addProxy u =>
    simp only [threadStep] at hs
    split at hs
    · next fd hfd =>
      split at hs
      · obtain rfl := Option.some.inj hs
        exact inv_epollAdd inv (hproxy u rfl fd hfd) (by simp)
      · cases hs
    · cases hs
  | _ => cases hs

theorem inv_step {s s' : Sys} {l : SysLabel} (inv : Inv s) (hg : undisturbed s l = true)
    (hs : sysStep s l = some s') : Inv s' := by
  have hthread : ∀ t, (s.threads[t]?.bind fun th => threadStep s t th l) = some s' →
      (∀ u, l = .claim u → u = t) → (∀ u, l = .addClient u → u = t) →
      (∀ u, l = .addProxy u → u = t) → Inv s' := by
    intro t hbind hcl hac hap
    obtain ⟨th, hth, hstep⟩ := Option.bind_eq_some_iff.mp hbind
    refine inv_threadStep inv hth hstep ?_ ?_ ?_
    · rintro u rfl j hj heq
      simp [undisturbed, hj, heq] at hg
    · rintro u rfl
      obtain rfl := hac u rfl
      simpa [undisturbed, hth] using hg
    · rintro u rfl fd hfd
      obtain rfl := hap u rfl
      simpa [undisturbed, hth, hfd] using hg
  cases l with
  | openProxy t fd => exact hthread t hs (by simp) (by simp) (by simp)
  | dropProxy t => exact hthread t hs (by simp) (by simp) (by simp)
  | connected t => exact hthread t hs (by simp) (by simp) (by simp)
  | claim t => exact hthread t hs (by simp) (by simp) (by simp)
  | giveUp t => exact hthread t hs (by simp) (by simp) (by simp)
  | addClient t => exact hthread t hs (by simp) (by simp) (by simp)
  | addProxy t => exact hthread t hs (by simp) (by simp) (by simp)
  | accept fd info => exact inv_mainStep (l := .accept fd info) inv hs
  | find fd => exact inv_mainStep (l := .find fd) inv hs
  | relay io => exact inv_mainStep (l := .relay io) inv hs
  | cleanup => exact inv_mainStep (l := .cleanup) inv hs

/-! ## What the handling releases -/

theorem spares_of_eq {s s' : Sys} (howner : s'.owner = s.owner) (hepoll : s'.epoll = s.epoll) :
    Spares s s' := by
  intro fd t hfd _
  rw [howner, hepoll]
  exact ⟨hfd, rfl⟩

/-- Deregistering a number that is not registered changes nothing. -/
theorem epollDel_unregistered {s : Sys} {fd : Int} (h : s.epoll fd = false) :
    (s.epollDel fd).epoll = s.epoll := by
  funext x
  show (if x = fd then false else s.epoll x) = s.epoll x
  split
  · next heq => rw [heq, h]
  · rfl

theorem spares_relay {s s' : Sys} {io : RelayIo} (inv : Inv s)
    (hs : mainStep s (.relay io) = some s') : Spares s s' := by
  simp only [mainStep] at hs
  split at hs
  · next i cfd pfd hm =>
    obtain ⟨c, hact, rfl, rfl⟩ := inv.found i cfd pfd hm
    obtain ⟨t, ht, -, -, -, hc, hp⟩ := inv.slots i c hact
    rcases pfTproxyRelayAt_cases io hact.1 hact.2 hc hp with ⟨c', -, -, -, hout⟩ | ⟨c', -, hout⟩
    · rw [hout] at hs
      obtain rfl := Option.some.inj hs
      exact spares_of_eq rfl rfl
    · rw [hout] at hs
      obtain rfl := Option.some.inj hs
      intro fd u hfd hu
      have hvictim : victim s = s.claimedBy i := by rw [victim, hm]
      have hnot := not_mem_pair inv hact hfd fun heq => hu (hvictim.trans heq).symm
      obtain ⟨howner, hepoll⟩ := closeFds_of_not_mem (s := s) hnot
      exact ⟨howner.trans hfd, hepoll⟩
  · cases hs

theorem spares_cleanup {s s' : Sys} (inv : Inv s) (hs : mainStep s .cleanup = some s') :
    Spares s s' := by
  simp only [mainStep] at hs
  split at hs
  · next i cfd pfd v hm =>
    obtain rfl := Option.some.inj hs
    have hclear : s.epoll cfd = false := inv.cleared cfd (by rw [pending, hm]; simp)
    exact spares_of_eq rfl (epollDel_unregistered hclear)
  · next i cfd pfd v hm =>
    obtain rfl := Option.some.inj hs
    have hclear : s.epoll pfd = false := inv.cleared pfd (by rw [pending, hm]; simp)
    exact spares_of_eq rfl (epollDel_unregistered hclear)
  · next i cfd pfd v hm =>
    rw [closeConn_noop inv (i := i) (by rw [freedSlot, hm])] at hs
    obtain rfl := Option.some.inj hs
    exact spares_of_eq rfl rfl
  · cases hs

/-! ## The connection count -/

def CountOk (s : Sys) : Prop := s.tp.connCount = s.tp.activeSlots

theorem count_threadStep {s s' : Sys} {t : Nat} {th : AcceptThread} {l : SysLabel}
    (h : CountOk s) (hs : threadStep s t th l = some s') : CountOk s' := by
  cases l with
  | claim u =>
    simp only [threadStep] at hs
    split at hs
    · obtain ⟨⟨i, tp⟩, hcl, rfl⟩ := Option.map_eq_some_iff.mp hs
      exact claimSlot_count h hcl
    · cases hs
  | accept _ _ => cases hs
  | find _ => cases hs
  | relay _ => cases hs
  | cleanup => cases hs
  | _ =>
    simp only [threadStep] at hs
    repeat' split at hs
    all_goals first
      | (obtain rfl := Option.some.inj hs; exact h)
      | cases hs

theorem count_mainStep {s s' : Sys} {l : SysLabel} (h : CountOk s)
    (hs : mainStep s l = some s') : CountOk s' := by
  cases l with
  | accept fd info =>
    simp only [mainStep] at hs
    split at hs
    · obtain rfl := Option.some.inj hs
      exact h
    · cases hs
  | find fd =>
    simp only [mainStep] at hs
    split at hs
    · obtain ⟨i, -, hs⟩ := Option.bind_eq_some_iff.mp hs
      obtain ⟨c, -, rfl⟩ := Option.map_eq_some_iff.mp hs
      exact h
    · cases hs
  | relay io =>
    simp only [mainStep] at hs
    split at hs
    · obtain rfl := Option.some.inj hs
      exact pfTproxyRelayAt_count h _ io
    · cases hs
  | cleanup =>
    simp only [mainStep] at hs
    split at hs
    · obtain rfl := Option.some.inj hs
      exact h
    · obtain rfl := Option.some.inj hs
      exact h
    · obtain rfl := Option.some.inj hs
      exact pfTproxyCloseConn_count h _
    · cases hs
  | _ => cases hs

/-- In every run, undisturbed or not. -/
theorem conn_count_reachable {s : Sys} (hr : Reach sysStep (fun _ _ => True) (· = Sys.start) s) :
    CountOk s := by
  refine hr.invariant (fun s hs => ?_) fun s l s' h _ hstep => ?_
  · subst hs
    simp [CountOk, Sys.start, pfTproxyInit, ConnTable.activeSlots, Connection.unused,
      List.countP_replicate]
  · have hthread : ∀ t, (s.threads[t]?.bind fun th => threadStep s t th l) = some s' →
        CountOk s' := by
      intro t hbind
      obtain ⟨th, -, ht⟩ := Option.bind_eq_some_iff.mp hbind
      exact count_threadStep h ht
    unfold sysStep at hstep
    split at hstep
    all_goals first
      | exact hthread _ hstep
      | exact count_mainStep h hstep

/-- In runs in which no accept thread takes the freed slot or a number still to be deregistered:
the count is right in every state, and no step that handles a relay closes or deregisters a
descriptor of another connection. -/
theorem failed_relay_spares_others {s : Sys}
    (hr : Reach sysStep (fun s l => undisturbed s l = true) (· = Sys.start) s) :
    s.tp.connCount = s.tp.activeSlots ∧
      ∀ l s', Handles l → sysStep s l = some s' → Spares s s' := by
  have inv : Inv s := hr.invariant (fun _ h => h ▸ inv_start) fun _ _ _ => inv_step
  refine ⟨conn_count_reachable (hr.mono fun _ _ _ => trivial), fun l s' hl hs => ?_⟩
  cases l with
  | relay io => exact spares_relay inv hs
  | cleanup => exact spares_cleanup inv hs
  | _ => cases hl

/-! ## A late claim -/

def anyInfo : AcceptInfo := ⟨.snprintf [], 443, .empty, false⟩

/-- The client closed its side. -/
def clientEof : RelayIo := ⟨.ret [], [], .error ⟨.other, .eagain⟩, []⟩

/-- Connection 0 is relayed and connection 1 is connected, its slot not yet claimed. -/
def twoConnections : List SysLabel :=
  [.accept 5 anyInfo, .openProxy 0 6, .connected 0, .claim 0, .addClient 0, .addProxy 0,
    .accept 7 anyInfo, .openProxy 1 8, .connected 1, .find 5]

def foundState : Sys := (run (guarded sysStep undisturbed) Sys.start twoConnections).getD Sys.start

theorem foundState_reachable :
    Reach sysStep (fun s l => undisturbed s l = true) (· = Sys.start) foundState := by
  have hsome : (run (guarded sysStep undisturbed) Sys.start twoConnections).isSome = true := by
    decide
  have hstart : Reach sysStep (fun s l => undisturbed s l = true) (· = Sys.start) Sys.start :=
    .start rfl
  obtain ⟨s, hs⟩ := Option.isSome_iff_exists.mp hsome
  have hfound : foundState = s := by rw [foundState, hs, Option.getD_some]
  rw [hfound]
  exact hstart.run_guarded hs

theorem failed_relay_spares_others_found :
    foundState.tp.connCount = foundState.tp.activeSlots ∧
      ∀ l s', Handles l → sysStep foundState l = some s' → Spares foundState s' :=
  failed_relay_spares_others foundState_reachable

/-- Between the failed relay of connection 0 and the last step of its handling, connection 1 claims
the freed slot; its descriptors are closed. -/
def lateClaim : List SysLabel := [.relay clientEof, .cleanup, .claim 1, .cleanup]

theorem late_claim_is_closed :
    ∃ s s', Reach sysStep (fun _ _ => True) (· = Sys.start) s ∧ sysStep s .cleanup = some s' ∧
      ¬ Spares s s' := by
  have hrun : ((run sysStep foundState lateClaim).bind fun s => (sysStep s .cleanup).map fun s' =>
      (s.owner 7, victim s, s'.owner 7)) = some (some 1, some 0, none) := by
    decide
  obtain ⟨s, hs, hrest⟩ := Option.bind_eq_some_iff.mp hrun
  obtain ⟨s', hs', heq⟩ := Option.map_eq_some_iff.mp hrest
  simp only [Prod.mk.injEq] at heq
  obtain ⟨howner, hvictim, hclosed⟩ := heq
  refine ⟨s, s', ?_, hs', fun hspares => ?_⟩
  · exact (foundState_reachable.mono fun _ _ _ => trivial).run (fun _ _ _ => trivial) hs
  · have hkept := (hspares 7 1 howner (by rw [hvictim]; decide)).1
    rw [hclosed] at hkept
    cases hkept

end Proxiflare.Guarantees.SlotOwnership
