import Proxiflare.Daemon.SshPool

/-!
# What the SSH pool holds

Whatever the network and libssh2 answer: the sockets and sessions that are open belong to the
connected slots, one pair to each, a proxy has at most one slot, and none is open after the pool
has been closed.
-/

namespace Proxiflare.Guarantees.SshSessions

open Lib.CString Lib.Handles
open Proxiflare.Daemon SshPool

abbrev opsOf (calls : List Call) : List (Op Handle) := calls.flatMap Call.ops

/-- The session and the socket of each connected slot. -/
def held (pool : Pool) : Set Handle :=
  {h | ∃ i, (pool.slot i).connected = true ∧
    (h = .session (pool.slot i).session ∨ h = .socket (pool.slot i).sockFd)}

structure Sound (pool : Pool) : Prop where
  fits : pool.count ≤ pfMaxProxies
  used : ∀ i, (pool.slot i).connected = true → i < pool.count
  live : ∀ i, (pool.slot i).connected = true →
    (pool.slot i).session.isSome = true ∧ 0 ≤ (pool.slot i).sockFd
  ids : ∀ i j, (pool.slot i).connected = true → (pool.slot j).connected = true →
    (pool.slot i).proxyId = (pool.slot j).proxyId → i = j
  sessions : ∀ i j, (pool.slot i).connected = true → (pool.slot j).connected = true →
    (pool.slot i).session = (pool.slot j).session → i = j
  sockets : ∀ i j, (pool.slot i).connected = true → (pool.slot j).connected = true →
    (pool.slot i).sockFd = (pool.slot j).sockFd → i = j

variable {pool pool' : Pool} {calls : List Call} {p : Proxy}

/-! ## The pool at start -/

theorem slot_init (mutex : Bool) (i : Nat) : ((pfSshPoolInit mutex).slot i).connected = false := by
  by_cases hi : i < pfMaxProxies
  · simp [Pool.slot, pfSshPoolInit, hi]
  · exact Pool.slot_of_ge (Nat.le_of_not_lt hi)

theorem sound_init (mutex : Bool) : Sound (pfSshPoolInit mutex) := by
  have hoff : ∀ i, ((pfSshPoolInit mutex).slot i).connected ≠ true := fun i h => by
    rw [slot_init] at h
    cases h
  exact {
    fits := Nat.zero_le _
    used := fun i h => absurd h (hoff i)
    live := fun i h => absurd h (hoff i)
    ids := fun i _ h => absurd h (hoff i)
    sessions := fun i _ h => absurd h (hoff i)
    sockets := fun i _ h => absurd h (hoff i) }

theorem held_init (mutex : Bool) : held (pfSshPoolInit mutex) = ∅ := by
  refine Set.eq_empty_of_forall_notMem fun h hh => ?_
  obtain ⟨i, hi, -⟩ := hh
  rw [slot_init] at hi
  cases hi

/-! ## Giving up a slot -/

theorem Sound.off {i : Nat} {s : Session} (h : Sound pool) (hs : s.connected = false) :
    Sound (pool.set i s) := by
  have hslot : ∀ j, ((pool.set i s).slot j).connected = true →
      (pool.slot j).connected = true ∧ (pool.set i s).slot j = pool.slot j := by
    intro j hj
    obtain ⟨hne, hj⟩ := (Pool.connected_off hs).mp hj
    exact ⟨hj, Pool.slot_set_of_ne hne⟩
  exact {
    fits := h.fits
    used := fun j hj => h.used j (hslot j hj).1
    live := fun j hj => (hslot j hj).2 ▸ h.live j (hslot j hj).1
    ids := fun j k hj hk heq => h.ids j k (hslot j hj).1 (hslot k hk).1
      (by rwa [(hslot j hj).2, (hslot k hk).2] at heq)
    sessions := fun j k hj hk heq => h.sessions j k (hslot j hj).1 (hslot k hk).1
      (by rwa [(hslot j hj).2, (hslot k hk).2] at heq)
    sockets := fun j k hj hk heq => h.sockets j k (hslot j hj).1 (hslot k hk).1
      (by rwa [(hslot j hj).2, (hslot k hk).2] at heq) }

theorem channel_notMem (c : Nat) : .channel c ∉ held pool := by
  intro ⟨i, _, h⟩
  rcases h with h | h <;> cases h

/-- Where the slot held nothing, nothing is lost. -/
theorem held_off {i : Nat} {s : Session} (hs : s.connected = false)
    (hi : (pool.slot i).connected = false) : held (pool.set i s) = held pool := by
  ext handle
  constructor
  · intro ⟨j, hj, hh⟩
    obtain ⟨hne, hj⟩ := (Pool.connected_off hs).mp hj
    rw [Pool.slot_set_of_ne hne] at hh
    exact ⟨j, hj, hh⟩
  · intro ⟨j, hj, hh⟩
    have hne : j ≠ i := fun h => by
      rw [h, hi] at hj
      cases hj
    refine ⟨j, (Pool.connected_off hs).mpr ⟨hne, hj⟩, ?_⟩
    rwa [Pool.slot_set_of_ne hne]

theorem held_given_up {i : Nat} {s : Session} (h : Sound pool) (hs : s.connected = false)
    (hi : (pool.slot i).connected = true) :
    held (pool.set i s) =
      (held pool \ {.session (pool.slot i).session}) \ {.socket (pool.slot i).sockFd} := by
  ext handle
  constructor
  · intro ⟨j, hj, hh⟩
    obtain ⟨hne, hj⟩ := (Pool.connected_off hs).mp hj
    rw [Pool.slot_set_of_ne hne] at hh
    refine ⟨⟨⟨j, hj, hh⟩, ?_⟩, ?_⟩
    · intro heq
      rcases hh with rfl | rfl
      · exact hne (h.sessions j i hj hi (Handle.session.inj heq))
      · cases heq
    · intro heq
      rcases hh with rfl | rfl
      · cases heq
      · exact hne (h.sockets j i hj hi (Handle.socket.inj heq))
  · intro ⟨⟨⟨j, hj, hh⟩, hsession⟩, hsocket⟩
    have hne : j ≠ i := by
      rintro rfl
      rcases hh with rfl | rfl
      · exact hsession rfl
      · exact hsocket rfl
    refine ⟨j, (Pool.connected_off hs).mpr ⟨hne, hj⟩, ?_⟩
    rwa [Pool.slot_set_of_ne hne]

theorem session_mem {i : Nat} (hi : (pool.slot i).connected = true) :
    .session (pool.slot i).session ∈ held pool := ⟨i, hi, .inl rfl⟩

theorem socket_mem {i : Nat} (hi : (pool.slot i).connected = true) :
    .socket (pool.slot i).sockFd ∈ held pool := ⟨i, hi, .inr rfl⟩

theorem sessionInvalidate_leads {i : Nat} (h : Sound pool) (hi : (pool.slot i).connected = true) :
    Leads (held pool) (opsOf (sessionInvalidate pool i).1) fun now =>
      Sound (sessionInvalidate pool i).2 ∧ now = held (sessionInvalidate pool i).2 := by
  obtain ⟨hsession, hsocket⟩ := h.live i hi
  have hcalls : opsOf (sessionInvalidate pool i).1 =
      [.uses (.session (pool.slot i).session), .closes (.session (pool.slot i).session),
        .closes (.socket (pool.slot i).sockFd)] := by
    simp [sessionInvalidate, hsession, hsocket, opsOf, Call.ops]
  rw [hcalls]
  refine .uses (session_mem hi) (.closes (session_mem hi) (.closes ⟨socket_mem hi, by simp⟩ (.nil ?_)))
  exact ⟨h.off rfl, (held_given_up h rfl hi).symm⟩

/-! ## A new session -/

theorem tcpConnect_leads (addrs : List AddrRes) :
    ∀ pre, Leads pre (opsOf (tcpConnect p addrs).1) fun now =>
      match (tcpConnect p addrs).2 with
      | none => now = pre
      | some fd => 0 ≤ fd ∧ .socket fd ∉ pre ∧ now = insert (.socket fd) pre := by
  intro pre
  induction addrs with
  | nil => exact .nil rfl
  | cons a addrs ih =>
    cases a with
    | noSocket => exact ih
    | refused fd =>
      refine .opens fun hfresh => .uses (Set.mem_insert _ _) (.closes (Set.mem_insert _ _) ?_)
      rw [Set.insert_sdiff_self_of_notMem hfresh]
      exact ih
    | connected fd =>
      refine .opens fun hfresh => .uses (Set.mem_insert _ _) (.nil ?_)
      exact ⟨Int.natCast_nonneg fd, hfresh, rfl⟩

/-- Authentication only uses the session. -/
theorem authenticate_ops (p : Proxy) (s : Nat) (ok : Bool) :
    ∀ op ∈ opsOf (authenticate p s ok).1, op = .uses (.session (some s)) := by
  unfold authenticate
  split
  · cases ok <;> simp [opsOf, Call.ops]
  · split
    · cases ok <;> simp [opsOf, Call.ops]
    · simp [opsOf]

section Exchange

variable {pre : Set Handle} {s : Nat} {fd : Int} {ok : Bool} {more : List Call}
variable {post : Set Handle → Prop}

theorem authenticate_leads (hs : .session (some s) ∈ pre) (h : Leads pre (opsOf more) post) :
    Leads pre (opsOf ((authenticate p s ok).1 ++ more)) post := by
  have hops := authenticate_ops p s ok
  rw [opsOf] at hops
  rw [opsOf, List.flatMap_append]
  generalize (authenticate p s ok).1.flatMap Call.ops = ops at hops
  induction ops with
  | nil => exact h
  | cons op ops ih =>
    obtain ⟨rfl, hrest⟩ := List.forall_mem_cons.mp hops
    exact .uses hs (ih hrest)

theorem handshake_leads
    (h : .session (some s) ∉ insert (.socket fd) pre →
      Leads (insert (.session (some s)) (insert (.socket fd) pre)) (opsOf more) post) :
    Leads (insert (.socket fd) pre)
      (opsOf ([.sessionInit s, .handshake (some s) fd ok] ++ more)) post :=
  .opens fun hnew => .uses (Set.mem_insert _ _) (.uses (by simp) (h hnew))

/-- The exits after `libssh2_session_init`. -/
theorem freed_leads (hs : .session (some s) ∉ insert (.socket fd) pre)
    (hfd : .socket fd ∉ pre) :
    Leads (insert (.session (some s)) (insert (.socket fd) pre))
      (opsOf [.sessionFree (some s), .close fd]) fun now => now = pre := by
  refine .closes (Set.mem_insert _ _) ?_
  rw [Set.insert_sdiff_self_of_notMem hs]
  refine .closes (Set.mem_insert _ _) (.nil ?_)
  exact Set.insert_sdiff_self_of_notMem hfd

end Exchange

/-- What one call of `ssh_session_create` leaves open. -/
def Created (pre now : Set Handle) : Option (Nat × Int) → Prop
  | none => now = pre
  | some (s, fd) => 0 ≤ fd ∧ .socket fd ∉ pre ∧ .session (some s) ∉ pre ∧
      now = insert (.session (some s)) (insert (.socket fd) pre)

theorem sshSessionCreate_leads (o : CreateRes) (p : Proxy) (pre : Set Handle) :
    Leads pre (opsOf (sshSessionCreate o p).1) fun now =>
      Created pre now (sshSessionCreate o p).2 := by
  have hdial := tcpConnect_leads (p := p) o.addrs pre
  unfold sshSessionCreate
  generalize tcpConnect p o.addrs = dialled at hdial
  obtain ⟨calls, _ | fd⟩ := dialled
  · exact hdial
  · dsimp only
    -- the socket is the only handle so far
    have hrest : ∀ {more : List Call} {created : Option (Nat × Int)},
        (0 ≤ fd → .socket fd ∉ pre →
          Leads (insert (.socket fd) pre) (opsOf more) fun now => Created pre now created) →
        Leads pre (opsOf (calls ++ more)) fun now => Created pre now created := by
      intro more created hmore
      rw [opsOf, List.flatMap_append]
      refine hdial.append fun now hnow => ?_
      obtain ⟨hfd, hfresh, rfl⟩ := hnow
      exact hmore hfd hfresh
    cases o.session with
    | none =>
      refine hrest fun _ hfresh => .closes (Set.mem_insert _ _) (.nil ?_)
      exact Set.insert_sdiff_self_of_notMem hfresh
    | some s =>
      dsimp only
      split
      · cases hok : (authenticate p s o.auth).2 with
        | true =>
          rw [if_pos rfl, List.append_assoc, List.append_assoc]
          refine hrest fun hfd hfresh => handshake_leads fun hnew => ?_
          refine authenticate_leads (Set.mem_insert _ _) (.uses (Set.mem_insert _ _) (.nil ?_))
          exact ⟨hfd, hfresh, fun h => hnew (.inr h), rfl⟩
        | false =>
          rw [if_neg (by decide), List.append_assoc, List.append_assoc]
          refine hrest fun _ hfresh => handshake_leads fun hnew => ?_
          refine authenticate_leads (Set.mem_insert _ _) (.uses (Set.mem_insert _ _) ?_)
          exact freed_leads hnew hfresh
      · rw [List.append_assoc]
        refine hrest fun _ hfresh => handshake_leads fun hnew => .uses (Set.mem_insert _ _) ?_
        exact freed_leads hnew hfresh

/-! ## Taking a slot -/

section Fill

variable {i s : Nat} {fd id : Int}

theorem fill_slot_cases (pool : Pool) (s : Nat) (fd id : Int) (hi : i < pfMaxProxies) (j : Nat) :
    j = i ∧ (pool.fill i s fd id).slot j = ⟨some s, fd, id, true⟩ ∨
      j ≠ i ∧ (pool.fill i s fd id).slot j = pool.slot j := by
  by_cases hj : j = i
  · subst hj
    exact .inl ⟨rfl, Pool.slot_set_self hi⟩
  · exact .inr ⟨hj, Pool.slot_set_of_ne hj⟩

theorem held_fill (hi : i < pfMaxProxies) (hoff : (pool.slot i).connected = false) :
    held (pool.fill i s fd id) =
      insert (.session (some s)) (insert (.socket fd) (held pool)) := by
  have hself : (pool.fill i s fd id).slot i = ⟨some s, fd, id, true⟩ := Pool.slot_set_self hi
  ext handle
  constructor
  · intro ⟨j, hj, hh⟩
    obtain ⟨rfl, hslot⟩ | ⟨-, hslot⟩ := fill_slot_cases pool s fd id hi j
    · rw [hslot] at hh
      exact hh.elim .inl fun h => .inr (.inl h)
    · rw [hslot] at hj hh
      exact .inr (.inr ⟨j, hj, hh⟩)
  · intro hh
    obtain rfl | rfl | ⟨j, hj, hh⟩ := hh
    · exact ⟨i, by rw [hself], .inl (by rw [hself])⟩
    · exact ⟨i, by rw [hself], .inr (by rw [hself])⟩
    · have hne : j ≠ i := fun h => by
        rw [h, hoff] at hj
        cases hj
      have hslot : (pool.fill i s fd id).slot j = pool.slot j := Pool.slot_set_of_ne hne
      exact ⟨j, by rwa [hslot], by rwa [hslot]⟩

theorem Sound.fill (h : Sound pool) (hi : i < pfMaxProxies) (hcount : i ≤ pool.count)
    (hs : .session (some s) ∉ held pool) (hfd : .socket fd ∉ held pool) (hpos : 0 ≤ fd)
    (hid : ∀ j, (pool.slot j).connected = true → (pool.slot j).proxyId ≠ id) :
    Sound (pool.fill i s fd id) := by
  have hgrown : pool.count ≤ (pool.fill i s fd id).count ∧ i < (pool.fill i s fd id).count ∧
      (pool.fill i s fd id).count ≤ pfMaxProxies := by
    have hfits := h.fits
    unfold Pool.fill
    dsimp only
    split <;> omega
  -- what two slots share, they share as the same slot
  have hsame : ∀ {α : Type} (f : Session → α),
      (∀ j k, (pool.slot j).connected = true → (pool.slot k).connected = true →
        f (pool.slot j) = f (pool.slot k) → j = k) →
      (∀ j, (pool.slot j).connected = true → f (pool.slot j) ≠ f ⟨some s, fd, id, true⟩) →
      ∀ j k, ((pool.fill i s fd id).slot j).connected = true →
        ((pool.fill i s fd id).slot k).connected = true →
        f ((pool.fill i s fd id).slot j) = f ((pool.fill i s fd id).slot k) → j = k := by
    intro α f hold hnew j k hj hk heq
    obtain ⟨rfl, hjs⟩ | ⟨-, hjs⟩ := fill_slot_cases pool s fd id hi j <;>
      obtain ⟨rfl, hks⟩ | ⟨-, hks⟩ := fill_slot_cases pool s fd id hi k <;>
      rw [hjs] at hj heq <;> rw [hks] at hk heq
    · exact absurd heq.symm (hnew k hk)
    · exact absurd heq (hnew j hj)
    · exact hold j k hj hk heq
  refine
    { fits := hgrown.2.2
      used := fun j hj => ?_
      live := fun j hj => ?_
      ids := hsame Session.proxyId h.ids hid
      sessions := hsame Session.session h.sessions fun j hj heq => hs ?_
      sockets := hsame Session.sockFd h.sockets fun j hj heq => hfd ?_ }
  · obtain ⟨rfl, -⟩ | ⟨-, hslot⟩ := fill_slot_cases pool s fd id hi j
    · exact hgrown.2.1
    · rw [hslot] at hj
      exact (h.used j hj).trans_le hgrown.1
  · obtain ⟨rfl, hslot⟩ | ⟨-, hslot⟩ := fill_slot_cases pool s fd id hi j
    · rw [hslot]
      exact ⟨rfl, hpos⟩
    · rw [hslot] at hj ⊢
      exact h.live j hj
  · exact ⟨j, hj, .inl (congrArg Handle.session heq.symm)⟩
  · exact ⟨j, hj, .inr (congrArg Handle.socket heq.symm)⟩

end Fill

/-! ## One connection -/

/-- Where the search leaves off, there is a slot that holds nothing, unless every slot is
connected. -/
theorem freeSlot_off (h : Sound pool) {id : Int} {freeSlot : Option Nat} {i : Nat}
    (hsearch : search id 0 none (pool.sessions.take pool.count) = .absent freeSlot)
    (hslot : (if pool.count < pfMaxProxies then some pool.count else freeSlot) = some i) :
    i < pfMaxProxies ∧ i ≤ pool.count ∧ (pool.slot i).connected = false := by
  have hfits := h.fits
  split at hslot
  · next hroom =>
    obtain rfl := Option.some.inj hslot
    refine ⟨hroom, Nat.le_refl _, ?_⟩
    cases hoff : (pool.slot pool.count).connected with
    | false => rfl
    | true => exact absurd (h.used _ hoff) (Nat.lt_irrefl _)
  · obtain hnone | ⟨j, sess, rfl, hget, hoff⟩ := (search_absent hsearch).2 i hslot
    · cases hnone
    · obtain ⟨hj, rfl⟩ := getElem?_used hget
      rw [Nat.zero_add]
      exact ⟨hj.trans_le hfits, Nat.le_of_lt hj, hoff⟩

theorem search_ids (h : Sound pool) {id : Int} {freeSlot : Option Nat}
    (hsearch : search id 0 none (pool.sessions.take pool.count) = .absent freeSlot) (j : Nat)
    (hj : (pool.slot j).connected = true) : (pool.slot j).proxyId ≠ id := by
  have hlt := h.used j hj
  have hmem : pool.slot j ∈ pool.sessions.take pool.count := by
    have hlen : j < pool.sessions.length := hlt.trans_le (pool.size ▸ h.fits)
    rw [List.mem_take_iff_getElem]
    exact ⟨j, by omega, by simp [Pool.slot, hlen]⟩
  exact (search_absent hsearch).1 _ hmem hj

/-- The slot that comes back belongs to the proxy. -/
theorem getSession_leads (h : Sound pool) {o : CreateRes} {res : Option Nat}
    (hget : pfSshGetSession pool o p = (calls, res, pool')) :
    Leads (held pool) (opsOf calls) fun now => (Sound pool' ∧ now = held pool') ∧
      ∀ i, res = some i → (pool'.slot i).connected = true ∧ (pool'.slot i).proxyId = idOf p := by
  unfold pfSshGetSession at hget
  cases hsearch : search (idOf p) 0 none (pool.sessions.take pool.count) with
  | found i =>
    rw [hsearch] at hget
    cases hget
    obtain ⟨j, sess, rfl, hslot, hid, hon⟩ := search_found hsearch
    obtain ⟨-, rfl⟩ := getElem?_used hslot
    rw [Nat.zero_add]
    refine .nil ⟨⟨h, rfl⟩, fun i hi => ?_⟩
    obtain rfl := Option.some.inj hi
    exact ⟨hon, hid⟩
  | absent freeSlot =>
    rw [hsearch] at hget
    dsimp only at hget
    cases hfree : (if pool.count < pfMaxProxies then some pool.count else freeSlot) with
    | none =>
      rw [hfree] at hget
      cases hget
      exact .nil ⟨⟨h, rfl⟩, fun i hi => by cases hi⟩
    | some i =>
      obtain ⟨hi, hcount, hoff⟩ := freeSlot_off h hsearch hfree
      have hcreate := sshSessionCreate_leads o p (held pool)
      rw [hfree] at hget
      dsimp only at hget
      generalize sshSessionCreate o p = created at hget hcreate
      obtain ⟨calls', _ | ⟨s, fd⟩⟩ := created
      · cases hget
        refine hcreate.mono fun now hnow => ⟨⟨h.off rfl, ?_⟩, fun i hi => by cases hi⟩
        exact hnow.trans (held_off rfl hoff).symm
      · cases hget
        refine hcreate.mono fun now hnow => ?_
        obtain ⟨hpos, hfd, hs, rfl⟩ := hnow
        refine ⟨⟨h.fill hi hcount hs hfd hpos (search_ids h hsearch), (held_fill hi hoff).symm⟩, ?_⟩
        intro j hj
        obtain rfl := Option.some.inj hj
        have hself : (pool.fill i s fd (idOf p)).slot i = ⟨some s, fd, idOf p, true⟩ :=
          Pool.slot_set_self hi
        exact ⟨by rw [hself], by rw [hself]⟩

/-- What an attempt leaves open besides the pool. -/
def Opened (pool : Pool) (now : Set Handle) : Tried → Prop
  | .noSession => now = held pool
  | .opened c => .channel c ∉ held pool ∧ now = insert (.channel c) (held pool)
  | .failed i => now = held pool ∧ (pool.slot i).connected = true

theorem attempt_leads (h : Sound pool) {a : Attempt} {host : CStr} {port : Int} {res : Tried}
    (hattempt : attempt pool a p host port = (calls, res, pool')) :
    Leads (held pool) (opsOf calls) fun now => Sound pool' ∧ Opened pool' now res := by
  unfold attempt at hattempt
  rcases hget : pfSshGetSession pool a.create p with ⟨calls', _ | i, pool₁⟩
  · rw [hget] at hattempt
    cases hattempt
    exact (getSession_leads h hget).mono fun now hnow => hnow.1
  · have hleads := getSession_leads h hget
    rw [hget] at hattempt
    dsimp only at hattempt
    cases hchannel : a.channel with
    | some c =>
      rw [hchannel] at hattempt
      cases hattempt
      rw [opsOf, List.flatMap_append]
      refine hleads.append fun now hnow => ?_
      obtain ⟨⟨hsound, rfl⟩, hslot⟩ := hnow
      have hon := (hslot i rfl).1
      exact .uses (session_mem hon) (.opens fun hfresh => .nil ⟨hsound, hfresh, rfl⟩)
    | none =>
      rw [hchannel] at hattempt
      cases hattempt
      rw [opsOf, List.flatMap_append]
      refine hleads.append fun now hnow => ?_
      obtain ⟨⟨hsound, rfl⟩, hslot⟩ := hnow
      have hon := (hslot i rfl).1
      exact .uses (session_mem hon) (.uses (session_mem hon) (.nil ⟨hsound, rfl, hon⟩))

theorem connect_leads (h : Sound pool) {first second : Attempt} {host : CStr} {port : Int}
    {res : Option Nat}
    (hconnect : pfSshConnect pool first second p host port = (calls, res, pool')) :
    Leads (held pool) (opsOf calls) fun now => Sound pool' ∧
      match res with
      | none => now = held pool'
      | some c => .channel c ∉ held pool' ∧ now = insert (.channel c) (held pool') := by
  unfold pfSshConnect at hconnect
  split at hconnect
  · cases hconnect
    exact .nil ⟨h, rfl⟩
  · rcases hfirst : attempt pool first p host port with ⟨calls₁, _ | c | i, pool₁⟩
    · rw [hfirst] at hconnect
      cases hconnect
      exact attempt_leads h hfirst
    · rw [hfirst] at hconnect
      cases hconnect
      exact attempt_leads h hfirst
    · rw [hfirst] at hconnect
      dsimp only at hconnect
      -- the dead session goes before the second attempt
      have hgone : Leads (held pool) (opsOf (calls₁ ++ (sessionInvalidate pool₁ i).1)) fun now =>
          Sound (sessionInvalidate pool₁ i).2 ∧ now = held (sessionInvalidate pool₁ i).2 := by
        rw [opsOf, List.flatMap_append]
        refine (attempt_leads h hfirst).append fun now hnow => ?_
        obtain ⟨hsound, rfl, hon⟩ := hnow
        exact sessionInvalidate_leads hsound hon
      rcases hsecond : attempt (sessionInvalidate pool₁ i).2 second p host port with
        ⟨calls₂, tried, pool₂⟩
      have hboth : Leads (held pool) (opsOf (calls₁ ++ (sessionInvalidate pool₁ i).1 ++ calls₂))
          fun now => Sound pool₂ ∧ Opened pool₂ now tried := by
        rw [opsOf, List.flatMap_append]
        refine hgone.append fun now hnow => ?_
        obtain ⟨hsound, rfl⟩ := hnow
        exact attempt_leads hsound hsecond
      rw [hsecond] at hconnect
      cases tried with
      | noSession =>
        cases hconnect
        exact hboth
      | opened c =>
        cases hconnect
        exact hboth
      | failed j =>
        cases hconnect
        exact hboth.mono fun now hnow => ⟨hnow.1, hnow.2.1⟩

/-- The channel of a test is closed again. -/
theorem test_leads (h : Sound pool) {o : TestRes} {latency : Int}
    (htest : pfSshTest pool o p = (calls, latency, pool')) :
    Leads (held pool) (opsOf calls) fun now => Sound pool' ∧ now = held pool' := by
  unfold pfSshTest at htest
  split at htest
  · cases htest
    exact .nil ⟨h, rfl⟩
  · rcases hconnect : pfSshConnect pool o.first o.second p testHost testPort with
      ⟨calls', _ | c, pool₁⟩
    · rw [hconnect] at htest
      cases htest
      exact connect_leads h hconnect
    · rw [hconnect] at htest
      cases htest
      rw [opsOf, List.flatMap_append]
      refine (connect_leads h hconnect).append fun now hnow => ?_
      obtain ⟨hsound, hfresh, rfl⟩ := hnow
      refine .closes (Set.mem_insert _ _) (.nil ⟨hsound, ?_⟩)
      exact Set.insert_sdiff_self_of_notMem hfresh

/-! ## Runs -/

theorem runTests_leads (tests : List (TestRes × Proxy)) (h : Sound pool) :
    Leads (held pool) (opsOf (runTests pool tests).1) fun now =>
      Sound (runTests pool tests).2 ∧ now = held (runTests pool tests).2 := by
  induction tests generalizing pool with
  | nil => exact .nil ⟨h, rfl⟩
  | cons t tests ih =>
    obtain ⟨o, p⟩ := t
    rw [runTests]
    rcases htest : pfSshTest pool o p with ⟨calls, latency, pool₁⟩
    rw [opsOf, List.flatMap_append]
    refine (test_leads h htest).append fun now hnow => ?_
    obtain ⟨hsound, rfl⟩ := hnow
    exact ih hsound

/-- The first `n` slots are given up. -/
theorem invalidateAll_leads (n : Nat) (h : Sound pool) :
    Leads (held pool) (opsOf (invalidateAll n pool).1) fun now =>
      (Sound (invalidateAll n pool).2 ∧ now = held (invalidateAll n pool).2) ∧
        (invalidateAll n pool).2.count = pool.count ∧
        ∀ i < n, ((invalidateAll n pool).2.slot i).connected = false := by
  induction n with
  | zero => exact .nil ⟨⟨h, rfl⟩, rfl, fun i hi => absurd hi (Nat.not_lt_zero i)⟩
  | succ n ih =>
    rw [invalidateAll]
    generalize invalidateAll n pool = gone at ih
    obtain ⟨calls, pool₁⟩ := gone
    dsimp only at ih ⊢
    cases hon : (pool₁.slot n).connected with
    | true =>
      rw [if_pos rfl, opsOf, List.flatMap_append]
      refine ih.append fun now hnow => ?_
      obtain ⟨⟨hsound, rfl⟩, hcount, hoff⟩ := hnow
      refine (sessionInvalidate_leads hsound hon).mono fun now hnow => ⟨hnow, hcount, ?_⟩
      intro i hi
      rw [← Bool.not_eq_true]
      intro hi'
      obtain ⟨hne, hi'⟩ := (Pool.connected_off rfl).mp hi'
      rw [hoff i (by omega)] at hi'
      cases hi'
    | false =>
      rw [if_neg (by decide)]
      refine ih.mono fun now hnow => ⟨hnow.1, hnow.2.1, fun i hi => ?_⟩
      obtain hlt | rfl := Nat.lt_succ_iff_lt_or_eq.mp hi
      · exact hnow.2.2 i hlt
      · exact hon

theorem poolClose_leads (h : Sound pool) :
    Leads (held pool) (opsOf (pfSshPoolClose pool).1) fun now => now = ∅ := by
  refine (invalidateAll_leads pool.count h).mono fun now hnow => ?_
  obtain ⟨⟨hsound, rfl⟩, hcount, hoff⟩ := hnow
  refine Set.eq_empty_of_forall_notMem fun handle hhandle => ?_
  obtain ⟨i, hi, -⟩ := hhandle
  have hlt := hsound.used i hi
  rw [hoff i (hcount ▸ hlt)] at hi
  cases hi

variable {mutex : Bool} {tests : List (TestRes × Proxy)} {log : List Call}

/-- Tests of any proxies, whatever the network and libssh2 answer, then the end of the daemon. -/
theorem ssh_pool_keeps_its_handles (hrun : runTests (pfSshPoolInit mutex) tests = (log, pool))
    (hfresh : Fresh ∅ (opsOf (log ++ (pfSshPoolClose pool).1))) :
    Owned ∅ (opsOf (log ++ (pfSshPoolClose pool).1)) ∧ Sound pool ∧
      after ∅ (opsOf log) = held pool ∧ after ∅ (opsOf (log ++ (pfSshPoolClose pool).1)) = ∅ := by
  have hleads := runTests_leads tests (sound_init mutex)
  rw [held_init, hrun] at hleads
  rw [opsOf, List.flatMap_append] at hfresh ⊢
  obtain ⟨hran, hclosed⟩ := fresh_append.mp hfresh
  obtain ⟨howned, hsound, hafter⟩ := hleads hran
  rw [hafter] at hclosed
  obtain ⟨hlast, hempty⟩ := poolClose_leads hsound hclosed
  refine ⟨owned_append.mpr ⟨howned, ?_⟩, hsound, hafter, ?_⟩
  · rw [hafter]
    exact hlast
  · rw [after_append, hafter]
    exact hempty

def bastion : Proxy where
  id := 3
  name := .snprintf (lit "bastion")
  type := .ssh
  host := .snprintf (lit "192.0.2.7")
  port := 22
  username := .snprintf []
  password := .snprintf (lit "pw")
  sshKeyPath := .snprintf []
  health := 0
  latencyMs := 0
  enabled := 1

/-- The first channel is refused, and the session it was asked of is replaced. -/
def replaced : TestRes where
  first := ⟨⟨[.connected 5], some 1, true, true⟩, none⟩
  second := ⟨⟨[.refused 5, .connected 5], some 1, true, true⟩, some 9⟩
  elapsed := 40

theorem ops_replaced :
    opsOf ((runTests (pfSshPoolInit true) [(replaced, bastion)]).1 ++
      (pfSshPoolClose (runTests (pfSshPoolInit true) [(replaced, bastion)]).2).1) =
    [.opens (.socket 5), .uses (.socket 5), .opens (.session (some 1)), .uses (.session (some 1)),
      .uses (.socket 5), .uses (.session (some 1)), .uses (.session (some 1)),
      .uses (.session (some 1)), .uses (.session (some 1)), .uses (.session (some 1)),
      .closes (.session (some 1)), .closes (.socket 5),
      .opens (.socket 5), .uses (.socket 5), .closes (.socket 5),
      .opens (.socket 5), .uses (.socket 5), .opens (.session (some 1)), .uses (.session (some 1)),
      .uses (.socket 5), .uses (.session (some 1)), .uses (.session (some 1)),
      .uses (.session (some 1)), .opens (.channel 9), .closes (.channel 9),
      .uses (.session (some 1)), .closes (.session (some 1)), .closes (.socket 5)] := rfl

theorem fresh_replaced :
    Fresh ∅ (opsOf ((runTests (pfSshPoolInit true) [(replaced, bastion)]).1 ++
      (pfSshPoolClose (runTests (pfSshPoolInit true) [(replaced, bastion)]).2).1)) := by
  rw [ops_replaced]
  simp [Fresh, Op.Fresh, Op.after]

theorem replaced_session_keeps_its_handles :
    Owned ∅ (opsOf ((runTests (pfSshPoolInit true) [(replaced, bastion)]).1 ++
      (pfSshPoolClose (runTests (pfSshPoolInit true) [(replaced, bastion)]).2).1)) ∧
    Sound (runTests (pfSshPoolInit true) [(replaced, bastion)]).2 ∧
    after ∅ (opsOf (runTests (pfSshPoolInit true) [(replaced, bastion)]).1) =
      held (runTests (pfSshPoolInit true) [(replaced, bastion)]).2 ∧
    after ∅ (opsOf ((runTests (pfSshPoolInit true) [(replaced, bastion)]).1 ++
      (pfSshPoolClose (runTests (pfSshPoolInit true) [(replaced, bastion)]).2).1)) = ∅ :=
  ssh_pool_keeps_its_handles rfl fresh_replaced

/-! ## Whose session a channel runs over -/

def hasCredentials (q : Proxy) : Bool := q.password.nonempty || q.sshKeyPath.nonempty

/-- The last calls for a session of `q` that was established. -/
def established (q : Proxy) (s : Nat) (fd : Int) : List Call :=
  [.socket fd, .connect fd q true] ++ ([.sessionInit s, .handshake (some s) fd true] ++
    ((authenticate q s true).1 ++ [.setBlocking (some s)]))

/-- The session was established for `q`, and neither it nor its socket has been given back. -/
def Established (log : List Call) (q : Proxy) (s : Option Nat) (fd : Int) : Prop :=
  ∃ n pre mid, s = some n ∧ hasCredentials q = true ∧ log = pre ++ established q n fd ++ mid ∧
    .closes (.session s) ∉ opsOf mid ∧ .closes (.socket fd) ∉ opsOf mid

theorem Established.append {q : Proxy} {s : Option Nat} {fd : Int}
    (h : Established log q s fd) (hs : .closes (.session s) ∉ opsOf calls)
    (hfd : .closes (.socket fd) ∉ opsOf calls) : Established (log ++ calls) q s fd := by
  obtain ⟨n, pre, mid, hn, hcred, rfl, hmid, hmid'⟩ := h
  refine ⟨n, pre, mid ++ calls, hn, hcred, by simp, ?_, ?_⟩
  · rw [opsOf, List.flatMap_append]
    exact List.not_mem_append hmid hs
  · rw [opsOf, List.flatMap_append]
    exact List.not_mem_append hmid' hfd

theorem tcpConnect_connected {addrs : List AddrRes} {fd : Int}
    (h : tcpConnect p addrs = (calls, some fd)) :
    ∃ pre, calls = pre ++ [.socket fd, .connect fd p true] := by
  induction addrs generalizing calls with
  | nil => cases h
  | cons a addrs ih =>
    cases a with
    | noSocket => exact ih h
    | refused fd' =>
      rw [SshPool.tcpConnect] at h
      rcases hrest : SshPool.tcpConnect p addrs with ⟨calls', found⟩
      rw [hrest] at h
      cases h
      obtain ⟨pre, rfl⟩ := ih hrest
      exact ⟨.socket fd' :: .connect fd' p false :: .close fd' :: pre, rfl⟩
    | connected fd' =>
      cases h
      exact ⟨[], rfl⟩

theorem authenticate_ok {s : Nat} {ok : Bool} (h : (authenticate p s ok).2 = true) :
    hasCredentials p = true ∧ ok = true := by
  unfold authenticate at h
  split at h
  · next hpassword => exact ⟨by rw [hasCredentials, hpassword]; rfl, h⟩
  · split at h
    · next hkey => exact ⟨by rw [hasCredentials, hkey, Bool.or_true], h⟩
    · cases h

theorem sshSessionCreate_established {o : CreateRes} {s : Nat} {fd : Int}
    (h : sshSessionCreate o p = (calls, some (s, fd))) :
    hasCredentials p = true ∧ ∃ pre, calls = pre ++ established p s fd := by
  unfold sshSessionCreate at h
  rcases hdial : tcpConnect p o.addrs with ⟨dialled, _ | fd'⟩
  · rw [hdial] at h
    cases h
  · rw [hdial] at h
    dsimp only at h
    obtain ⟨pre, rfl⟩ := tcpConnect_connected hdial
    cases hs : o.session with
    | none =>
      rw [hs] at h
      cases h
    | some s' =>
      rw [hs] at h
      dsimp only at h
      split at h
      · next hshake =>
        cases hok : (authenticate p s' o.auth).2 with
        | true =>
          rw [hok, if_pos rfl, hshake] at h
          obtain ⟨hcred, hauth⟩ := authenticate_ok hok
          rw [hauth] at h
          cases h
          exact ⟨hcred, pre, by simp [established]⟩
        | false =>
          rw [hok, if_neg (by decide)] at h
          cases h
      · cases h

/-- Each connected slot has the session of a record with its id. -/
def Known (records : Proxy → Prop) (log : List Call) (pool : Pool) : Prop :=
  ∀ i, (pool.slot i).connected = true → ∃ q, records q ∧ idOf q = (pool.slot i).proxyId ∧
    Established log q (pool.slot i).session (pool.slot i).sockFd

variable {records : Proxy → Prop}

theorem Known.append (h : Known records log pool)
    (hcalls : ∀ r ∈ held pool, .closes r ∉ opsOf calls) : Known records (log ++ calls) pool := by
  intro i hi
  obtain ⟨q, hq, hid, hsession⟩ := h i hi
  exact ⟨q, hq, hid, hsession.append (hcalls _ (session_mem hi)) (hcalls _ (socket_mem hi))⟩

theorem Known.off {i : Nat} {sess : Session} (h : Known records log pool)
    (hs : sess.connected = false) : Known records log (pool.set i sess) := by
  intro j hj
  obtain ⟨hne, hj⟩ := (Pool.connected_off hs).mp hj
  rw [Pool.slot_set_of_ne hne]
  exact h j hj

/-- A new session gives back only what it was handed itself. -/
theorem sshSessionCreate_closes {o : CreateRes} {created : Option (Nat × Int)}
    (hcreate : sshSessionCreate o p = (calls, created)) {pre : Set Handle}
    (hfresh : Fresh pre (opsOf calls)) : ∀ r ∈ pre, .closes r ∉ opsOf calls := by
  intro r hr
  have hown := sshSessionCreate_leads o p ∅
  rw [hcreate] at hown
  have hempty : Fresh (∅ ∪ pre) (opsOf calls) := by
    rw [Set.empty_union]
    exact hfresh
  exact closes_notMem (Set.empty_disjoint pre) (hown (hfresh.anti (Set.empty_subset pre))).1 hempty hr

theorem getSession_known (h : Sound pool) (hknown : Known records log pool) (hp : records p)
    {o : CreateRes} {res : Option Nat} (hget : pfSshGetSession pool o p = (calls, res, pool'))
    (hfresh : Fresh (held pool) (opsOf calls)) : Known records (log ++ calls) pool' := by
  unfold pfSshGetSession at hget
  cases hsearch : search (idOf p) 0 none (pool.sessions.take pool.count) with
  | found i =>
    rw [hsearch] at hget
    cases hget
    rwa [List.append_nil]
  | absent freeSlot =>
    rw [hsearch] at hget
    dsimp only at hget
    cases hfree : (if pool.count < pfMaxProxies then some pool.count else freeSlot) with
    | none =>
      rw [hfree] at hget
      cases hget
      rwa [List.append_nil]
    | some i =>
      obtain ⟨hi, -, -⟩ := freeSlot_off h hsearch hfree
      rw [hfree] at hget
      dsimp only at hget
      rcases hcreate : sshSessionCreate o p with ⟨calls', _ | ⟨s, fd⟩⟩
      · rw [hcreate] at hget
        cases hget
        exact (hknown.append (sshSessionCreate_closes hcreate hfresh)).off rfl
      · rw [hcreate] at hget
        cases hget
        have hold := hknown.append (sshSessionCreate_closes hcreate hfresh)
        intro j hj
        obtain ⟨-, hslot⟩ | ⟨-, hslot⟩ := fill_slot_cases pool s fd (idOf p) hi j
        · obtain ⟨hcred, pre, rfl⟩ := sshSessionCreate_established hcreate
          refine ⟨p, hp, by rw [hslot], ?_⟩
          rw [hslot]
          exact ⟨s, log ++ pre, [], rfl, hcred, by simp, List.not_mem_nil, List.not_mem_nil⟩
        · rw [hslot] at hj ⊢
          exact hold j hj

theorem sessionInvalidate_known {i : Nat} (h : Sound pool) (hi : (pool.slot i).connected = true)
    (hknown : Known records log pool) :
    Known records (log ++ (sessionInvalidate pool i).1) (sessionInvalidate pool i).2 := by
  obtain ⟨hsession, hsocket⟩ := h.live i hi
  have hcalls : opsOf (sessionInvalidate pool i).1 =
      [.uses (.session (pool.slot i).session), .closes (.session (pool.slot i).session),
        .closes (.socket (pool.slot i).sockFd)] := by
    simp [sessionInvalidate, hsession, hsocket, opsOf, Call.ops]
  intro j hj
  obtain ⟨hne, hj⟩ := (Pool.connected_off rfl).mp hj
  have hslot : (sessionInvalidate pool i).2.slot j = pool.slot j := Pool.slot_set_of_ne hne
  obtain ⟨q, hq, hid, hq'⟩ := hknown j hj
  rw [hslot]
  refine ⟨q, hq, hid, hq'.append ?_ ?_⟩
  · rw [hcalls]
    simpa using fun heq => hne (h.sessions j i hj hi heq)
  · rw [hcalls]
    simpa using fun heq => hne (h.sockets j i hj hi heq)

/-- Each channel among `calls` is asked of a session with `P` at that point. -/
def Channels (P : List Call → Option Nat → Prop) (log calls : List Call) : Prop :=
  ∀ a s host port r b, calls = a ++ .directTcpip s host port r :: b → P (log ++ a) s

variable {P : List Call → Option Nat → Prop} {more : List Call}

theorem Channels.append (h : Channels P log calls) (h' : Channels P (log ++ calls) more) :
    Channels P log (calls ++ more) := by
  intro a s host port r b heq
  obtain ⟨a', rfl, hmore⟩ | ⟨c, rfl, hmore⟩ := List.append_eq_append_iff.mp heq
  · rw [← List.append_assoc]
    exact h' a' s host port r b hmore
  · cases c with
    | nil =>
      rw [List.append_nil] at h'
      have hlast := h' [] s host port r b hmore.symm
      rwa [List.append_nil] at hlast
    | cons c c' =>
      obtain ⟨rfl, -⟩ := List.cons.inj hmore
      exact h a s host port r c' rfl

def asksChannel : Call → Bool
  | .directTcpip _ _ _ _ => true
  | _ => false

theorem channels_of_none (h : ∀ c ∈ calls, asksChannel c = false) : Channels P log calls := by
  intro a s host port r b heq
  have hask := h (.directTcpip s host port r) (heq ▸ List.mem_append_right a List.mem_cons_self)
  cases hask

theorem channels_first {s : Option Nat} {host : CStr} {port : Int} {r : Option Nat}
    (h : P log s) (hmore : ∀ c ∈ more, asksChannel c = false) :
    Channels P log (.directTcpip s host port r :: more) := by
  intro a s' host' port' r' b heq
  cases a with
  | nil =>
    cases heq
    rwa [List.append_nil]
  | cons c a =>
    obtain ⟨rfl, rfl⟩ := List.cons.inj heq
    have hask := hmore (.directTcpip s' host' port' r') (List.mem_append_right a List.mem_cons_self)
    cases hask

theorem sshSessionCreate_asks (o : CreateRes) (p : Proxy) :
    ∀ c ∈ (sshSessionCreate o p).1, asksChannel c = false := by
  have hdial : ∀ addrs, ∀ c ∈ (SshPool.tcpConnect p addrs).1, asksChannel c = false := by
    intro addrs
    induction addrs with
    | nil => exact List.forall_mem_nil _
    | cons a addrs ih =>
      cases a with
      | noSocket => exact ih
      | refused fd => simpa [SshPool.tcpConnect, asksChannel] using ih
      | connected fd => simp [SshPool.tcpConnect, asksChannel]
  have hauth : ∀ s ok, ∀ c ∈ (authenticate p s ok).1, asksChannel c = false := by
    intro s ok
    unfold authenticate
    split
    · cases ok <;> simp [asksChannel]
    · split
      · cases ok <;> simp [asksChannel]
      · exact List.forall_mem_nil _
  have hcalls := hdial o.addrs
  unfold sshSessionCreate
  generalize SshPool.tcpConnect p o.addrs = dialled at hcalls
  obtain ⟨calls, _ | fd⟩ := dialled
  · exact hcalls
  · cases o.session with
    | none =>
      exact List.forall_mem_append.mpr ⟨hcalls, List.forall_mem_singleton.mpr rfl⟩
    | some s =>
      have hasked := hauth s o.auth
      dsimp only
      split
      · split <;> simp only [List.forall_mem_append] <;>
          exact ⟨⟨⟨hcalls, by simp [asksChannel]⟩, hasked⟩, by simp [asksChannel, giveUp]⟩
      · simp only [List.forall_mem_append]
        exact ⟨⟨hcalls, by simp [asksChannel]⟩, by simp [asksChannel]⟩

theorem getSession_asks {o : CreateRes} {res : Option Nat}
    (hget : pfSshGetSession pool o p = (calls, res, pool')) :
    ∀ c ∈ calls, asksChannel c = false := by
  have hcreate := sshSessionCreate_asks o p
  unfold pfSshGetSession at hget
  split at hget
  · cases hget
    exact List.forall_mem_nil _
  · split at hget
    · cases hget
      exact List.forall_mem_nil _
    · split at hget
      · next heq =>
        rw [heq] at hcreate
        cases hget
        exact hcreate
      · next heq =>
        rw [heq] at hcreate
        cases hget
        exact hcreate

/-- A record of the proxy's id, and its session. -/
def OwnSession (records : Proxy → Prop) (p : Proxy) (log : List Call) (s : Option Nat) : Prop :=
  ∃ q, records q ∧ idOf q = idOf p ∧ ∃ fd, Established log q s fd

theorem attempt_known (h : Sound pool) (hknown : Known records log pool) (hp : records p)
    {a : Attempt} {host : CStr} {port : Int} {res : Tried}
    (hattempt : attempt pool a p host port = (calls, res, pool'))
    (hfresh : Fresh (held pool) (opsOf calls)) :
    Channels (OwnSession records p) log calls ∧ Known records (log ++ calls) pool' := by
  unfold attempt at hattempt
  rcases hget : pfSshGetSession pool a.create p with ⟨calls', _ | i, pool₁⟩
  · rw [hget] at hattempt
    cases hattempt
    exact ⟨channels_of_none (getSession_asks hget), getSession_known h hknown hp hget hfresh⟩
  · rw [hget] at hattempt
    dsimp only at hattempt
    -- after the session has been found, the attempt gives nothing back
    have hrest : ∀ {r : Option Nat} {more : List Call}, (∀ c ∈ more, asksChannel c = false) →
        (∀ handle ∈ held pool₁, .closes handle ∉
          opsOf (.directTcpip (pool₁.slot i).session host port r :: more)) →
        Fresh (held pool) (opsOf (calls' ++
          .directTcpip (pool₁.slot i).session host port r :: more)) →
        Channels (OwnSession records p) log
            (calls' ++ .directTcpip (pool₁.slot i).session host port r :: more) ∧
          Known records (log ++ (calls' ++
            .directTcpip (pool₁.slot i).session host port r :: more)) pool₁ := by
      intro r more hmore hcloses hfresh
      rw [opsOf, List.flatMap_append] at hfresh
      have hget' := (fresh_append.mp hfresh).1
      obtain ⟨-, -, hslot⟩ := getSession_leads h hget hget'
      obtain ⟨hon, hid⟩ := hslot i rfl
      have hstored := getSession_known h hknown hp hget hget'
      obtain ⟨q, hq, hqid, hsession⟩ := hstored i hon
      refine ⟨Channels.append (channels_of_none (getSession_asks hget)) ?_, ?_⟩
      · exact channels_first ⟨q, hq, hqid.trans hid, _, hsession⟩ hmore
      · rw [← List.append_assoc]
        exact hstored.append hcloses
    cases hchannel : a.channel with
    | some c =>
      rw [hchannel] at hattempt
      cases hattempt
      exact hrest (List.forall_mem_nil _) (by simp [opsOf, Call.ops]) hfresh
    | none =>
      rw [hchannel] at hattempt
      cases hattempt
      exact hrest (List.forall_mem_singleton.mpr rfl) (by simp [opsOf, Call.ops]) hfresh

theorem sessionInvalidate_asks (pool : Pool) (i : Nat) :
    ∀ c ∈ (sessionInvalidate pool i).1, asksChannel c = false := by
  unfold sessionInvalidate
  refine List.forall_mem_append.mpr ⟨?_, ?_⟩ <;> split <;> simp [asksChannel]

theorem connect_known (h : Sound pool) (hknown : Known records log pool) (hp : records p)
    {first second : Attempt} {host : CStr} {port : Int} {res : Option Nat}
    (hconnect : pfSshConnect pool first second p host port = (calls, res, pool'))
    (hfresh : Fresh (held pool) (opsOf calls)) :
    Channels (OwnSession records p) log calls ∧ Known records (log ++ calls) pool' := by
  unfold pfSshConnect at hconnect
  split at hconnect
  · cases hconnect
    exact ⟨channels_of_none (List.forall_mem_nil _), by rwa [List.append_nil]⟩
  · rcases hfirst : attempt pool first p host port with ⟨calls₁, _ | c | i, pool₁⟩
    · rw [hfirst] at hconnect
      cases hconnect
      exact attempt_known h hknown hp hfirst hfresh
    · rw [hfirst] at hconnect
      cases hconnect
      exact attempt_known h hknown hp hfirst hfresh
    · rw [hfirst] at hconnect
      dsimp only at hconnect
      rcases hsecond : attempt (sessionInvalidate pool₁ i).2 second p host port with
        ⟨calls₂, tried, pool₂⟩
      rw [hsecond] at hconnect
      obtain ⟨rfl, rfl⟩ : calls = calls₁ ++ (sessionInvalidate pool₁ i).1 ++ calls₂ ∧
          pool' = pool₂ := by
        cases tried <;> cases hconnect <;> exact ⟨rfl, rfl⟩
      rw [opsOf, List.flatMap_append, List.flatMap_append] at hfresh
      obtain ⟨hgone, hfresh₂⟩ := fresh_append.mp hfresh
      obtain ⟨hfresh₁, hclosed⟩ := fresh_append.mp hgone
      obtain ⟨-, hsound, hafter, hon⟩ := attempt_leads h hfirst hfresh₁
      obtain ⟨hchannels, hknown₁⟩ := attempt_known h hknown hp hfirst hfresh₁
      rw [hafter] at hclosed
      obtain ⟨-, hsound', hafter'⟩ := sessionInvalidate_leads hsound hon hclosed
      rw [after_append, hafter, hafter'] at hfresh₂
      have hinvalid := sessionInvalidate_known hsound hon hknown₁
      obtain ⟨hchannels₂, hknown₂⟩ := attempt_known hsound' hinvalid hp hsecond hfresh₂
      rw [List.append_assoc] at hchannels₂
      refine ⟨Channels.append (hchannels.append
        (channels_of_none (sessionInvalidate_asks pool₁ i))) hchannels₂, ?_⟩
      simpa only [List.append_assoc] using hknown₂

theorem test_known (h : Sound pool) (hknown : Known records log pool) (hp : records p)
    {o : TestRes} {latency : Int} (htest : pfSshTest pool o p = (calls, latency, pool'))
    (hfresh : Fresh (held pool) (opsOf calls)) :
    Channels (OwnSession records p) log calls ∧ Known records (log ++ calls) pool' := by
  unfold pfSshTest at htest
  split at htest
  · cases htest
    exact ⟨channels_of_none (List.forall_mem_nil _), by rwa [List.append_nil]⟩
  · rcases hconnect : pfSshConnect pool o.first o.second p testHost testPort with
      ⟨calls', _ | c, pool₁⟩
    · rw [hconnect] at htest
      cases htest
      exact connect_known h hknown hp hconnect hfresh
    · rw [hconnect] at htest
      cases htest
      rw [opsOf, List.flatMap_append] at hfresh
      obtain ⟨hchannels, hknown'⟩ :=
        connect_known h hknown hp hconnect (fresh_append.mp hfresh).1
      refine ⟨hchannels.append (channels_of_none (List.forall_mem_singleton.mpr rfl)), ?_⟩
      rw [← List.append_assoc]
      refine hknown'.append fun r hr hclose => ?_
      obtain ⟨rfl⟩ : r = .channel c := by simpa [opsOf, Call.ops] using hclose
      exact channel_notMem c hr

theorem runTests_known (tests : List (TestRes × Proxy)) (h : Sound pool)
    (hknown : Known records log pool) (hrecords : ∀ t ∈ tests, records t.2)
    (hfresh : Fresh (held pool) (opsOf (runTests pool tests).1)) :
    Known records (log ++ (runTests pool tests).1) (runTests pool tests).2 := by
  induction tests generalizing pool log with
  | nil => rwa [runTests, List.append_nil]
  | cons t tests ih =>
    obtain ⟨o, p⟩ := t
    obtain ⟨hp, hrest⟩ := List.forall_mem_cons.mp hrecords
    rcases htest : pfSshTest pool o p with ⟨calls, latency, pool₁⟩
    rw [runTests, htest] at hfresh ⊢
    rw [opsOf, List.flatMap_append] at hfresh
    obtain ⟨hfirst, hlater⟩ := fresh_append.mp hfresh
    obtain ⟨-, hsound, hafter⟩ := test_leads h htest hfirst
    obtain ⟨-, hknown₁⟩ := test_known h hknown hp htest hfirst
    rw [hafter] at hlater
    rw [← List.append_assoc]
    exact ih hsound hknown₁ hrest hlater

/-- After any tests of any proxies, a channel that is asked for in the test of `p` runs over a
session that is still open, to the host and port of a record of the same id and authenticated with
its credentials: `p` itself, or the record this proxy had in an earlier test. -/
theorem channel_runs_over_own_session {o : TestRes} {latency : Int}
    (hrun : runTests (pfSshPoolInit mutex) tests = (log, pool))
    (htest : pfSshTest pool o p = (calls, latency, pool'))
    (hfresh : Fresh ∅ (opsOf (log ++ calls))) {a b : List Call} {s : Option Nat} {host : CStr}
    {port : Int} {r : Option Nat} (hcall : calls = a ++ .directTcpip s host port r :: b) :
    ∃ q, (q = p ∨ ∃ o', (o', q) ∈ tests) ∧ idOf q = idOf p ∧
      ∃ fd, Established (log ++ a) q s fd := by
  have hstart : Known (fun q => q = p ∨ ∃ o', (o', q) ∈ tests) [] (pfSshPoolInit mutex) := by
    intro i hi
    rw [slot_init] at hi
    cases hi
  rw [opsOf, List.flatMap_append] at hfresh
  obtain ⟨hran, htested⟩ := fresh_append.mp hfresh
  have hleads := runTests_leads tests (sound_init mutex)
  have hknown := runTests_known tests (sound_init mutex) hstart
    fun t ht => .inr ⟨t.1, ht⟩
  rw [held_init, hrun] at hleads hknown
  obtain ⟨-, hsound, hafter⟩ := hleads hran
  rw [hafter] at htested
  have hchannels := (test_known hsound (hknown hran) (.inl rfl) htest htested).1
  rw [List.nil_append] at hchannels
  exact hchannels a s host port r b hcall

/-- The calls up to the second channel, and that one. -/
theorem calls_replaced :
    (pfSshTest (pfSshPoolInit true) replaced bastion).1 =
      established bastion 1 5 ++ [.directTcpip (some 1) testHost testPort none,
        .lastError (some 1), .disconnect (some 1), .sessionFree (some 1), .close 5, .socket 5,
        .connect 5 bastion false, .close 5] ++ established bastion 1 5 ++
      .directTcpip (some 1) testHost testPort (some 9) :: [.channelFree 9] := rfl

theorem runTests_singleton (pool : Pool) (o : TestRes) (p : Proxy) :
    (runTests pool [(o, p)]).1 = (pfSshTest pool o p).1 := List.append_nil _

theorem fresh_replaced_test :
    Fresh ∅ (opsOf ([] ++ (pfSshTest (pfSshPoolInit true) replaced bastion).1)) := by
  have hall := fresh_replaced
  rw [opsOf, List.flatMap_append] at hall
  have hran := (fresh_append.mp hall).1
  rwa [runTests_singleton] at hran

theorem replaced_channel_runs_over_own_session :
    ∃ q, (q = bastion ∨ ∃ o', (o', q) ∈ ([] : List (TestRes × Proxy))) ∧ idOf q = idOf bastion ∧
      ∃ fd, Established ([] ++ (established bastion 1 5 ++
        [.directTcpip (some 1) testHost testPort none, .lastError (some 1), .disconnect (some 1),
          .sessionFree (some 1), .close 5, .socket 5, .connect 5 bastion false, .close 5] ++
        established bastion 1 5)) q (some 1) fd := by
  have hrun : runTests (pfSshPoolInit true) [] = ([], pfSshPoolInit true) := rfl
  have htest : pfSshTest (pfSshPoolInit true) replaced bastion =
      ((pfSshTest (pfSshPoolInit true) replaced bastion).1,
        (pfSshTest (pfSshPoolInit true) replaced bastion).2.1,
        (pfSshTest (pfSshPoolInit true) replaced bastion).2.2) := rfl
  exact channel_runs_over_own_session hrun htest fresh_replaced_test calls_replaced

end Proxiflare.Guarantees.SshSessions
