import Proxiflare.Daemon.Net
import Proxiflare.Lib.Handles

/-!
# The pool of SSH sessions

`daemon/src/proxy_ssh.c`. What `getaddrinfo`, the sockets and libssh2 answer is given with each
call; `Call` is what the daemon asks of them, in order. The pool is used on the thread of the main
loop, from `proxy.test`.
-/

namespace Proxiflare.Daemon.SshPool

open Lib.CString Lib.Handles

/-- `NULL` is a session that is never open. -/
inductive Handle where
  | socket (fd : Int)
  | session (s : Option Nat)
  | channel (c : Nat)
  deriving DecidableEq

inductive Call where
  | socket (fd : Int)
  | connect (fd : Int) (p : Proxy) (ok : Bool)
  | close (fd : Int)
  | sessionInit (s : Nat)
  | handshake (s : Option Nat) (fd : Int) (ok : Bool)
  | userauthPassword (s : Option Nat) (user password : CStr) (ok : Bool)
  | userauthPublickey (s : Option Nat) (user path : CStr) (ok : Bool)
  | setBlocking (s : Option Nat)
  | lastError (s : Option Nat)
  | disconnect (s : Option Nat)
  | sessionFree (s : Option Nat)
  | directTcpip (s : Option Nat) (host : CStr) (port : Int) (channel : Option Nat)
  | channelFree (c : Nat)
  deriving DecidableEq

/-- A channel lies in its session: it is open after the session has been used for it. -/
def Call.ops : Call → List (Op Handle)
  | .socket fd => [.opens (.socket fd)]
  | .connect fd _ _ => [.uses (.socket fd)]
  | .close fd => [.closes (.socket fd)]
  | .sessionInit s => [.opens (.session (some s))]
  | .handshake s fd _ => [.uses (.session s), .uses (.socket fd)]
  | .userauthPassword s _ _ _ => [.uses (.session s)]
  | .userauthPublickey s _ _ _ => [.uses (.session s)]
  | .setBlocking s => [.uses (.session s)]
  | .lastError s => [.uses (.session s)]
  | .disconnect s => [.uses (.session s)]
  | .sessionFree s => [.closes (.session s)]
  | .directTcpip s _ _ none => [.uses (.session s)]
  | .directTcpip s _ _ (some c) => [.uses (.session s), .opens (.channel c)]
  | .channelFree c => [.closes (.channel c)]

/-- `pf_ssh_session_t`. -/
structure Session where
  session : Option Nat
  sockFd : Int
  proxyId : Int
  connected : Bool
  deriving DecidableEq

/-- `pf_ssh_pool_t`. -/
structure Pool where
  sessions : List Session
  count : Nat
  size : sessions.length = pfMaxProxies

namespace Pool

def slot (pool : Pool) (i : Nat) : Session := pool.sessions.getD i ⟨none, 0, 0, false⟩

theorem set_size {sessions : List Session} (h : sessions.length = pfMaxProxies) (i : Nat)
    (s : Session) : (sessions.set i s).length = pfMaxProxies := by
  rw [List.length_set, h]

def set (pool : Pool) (i : Nat) (s : Session) : Pool where
  sessions := pool.sessions.set i s
  count := pool.count
  size := set_size pool.size i s

/-- The slot of a session that was established; `count` goes up for a new one. -/
def fill (pool : Pool) (i s : Nat) (fd id : Int) : Pool where
  sessions := pool.sessions.set i ⟨some s, fd, id, true⟩
  count := if i = pool.count then pool.count + 1 else pool.count
  size := set_size pool.size i ⟨some s, fd, id, true⟩

end Pool

theorem replicate_size (s : Session) : (List.replicate pfMaxProxies s).length = pfMaxProxies :=
  List.length_replicate

/-- `pf_ssh_pool_init`: without its mutex it returns before `sock_fd` is set. -/
def pfSshPoolInit (mutex : Bool) : Pool where
  sessions := List.replicate pfMaxProxies ⟨none, if mutex then -1 else 0, 0, false⟩
  count := 0
  size := replicate_size _

/-! ## One session -/

/-- `tcp_connect`, for the addresses found. -/
def tcpConnect (p : Proxy) : List AddrRes → List Call × Option Int
  | [] => ([], none)
  | .noSocket :: rest => tcpConnect p rest
  | .refused fd :: rest =>
    let (calls, found) := tcpConnect p rest
    (.socket fd :: .connect fd p false :: .close fd :: calls, found)
  | .connected fd :: _ => ([.socket fd, .connect fd p true], some fd)

/-- What the system and libssh2 answer to `ssh_session_create`. -/
structure CreateRes where
  addrs : List AddrRes
  session : Option Nat
  handshake : Bool
  auth : Bool

def userOf (p : Proxy) : CStr := if p.username.nonempty then p.username.chars else lit "root"

/-- The exits after a failed authentication. -/
def giveUp (s : Nat) (fd : Int) : List Call :=
  [.disconnect (some s), .sessionFree (some s), .close fd]

/-- A password comes before a key; without either nothing is tried. -/
def authenticate (p : Proxy) (s : Nat) (ok : Bool) : List Call × Bool :=
  if p.password.nonempty then
    ([.userauthPassword (some s) (userOf p) p.password.chars ok] ++
      (if ok then [] else [.lastError (some s)]), ok)
  else if p.sshKeyPath.nonempty then
    ([.userauthPublickey (some s) (userOf p) p.sshKeyPath.chars ok] ++
      (if ok then [] else [.lastError (some s)]), ok)
  else ([], false)

/-- The session and the socket of a session that was established. -/
def sshSessionCreate (o : CreateRes) (p : Proxy) : List Call × Option (Nat × Int) :=
  match tcpConnect p o.addrs with
  | (calls, none) => (calls, none)
  | (calls, some fd) =>
    match o.session with
    | none => (calls ++ [.close fd], none)
    | some s =>
      let calls := calls ++ [.sessionInit s, .handshake (some s) fd o.handshake]
      if o.handshake then
        let (asked, ok) := authenticate p s o.auth
        if ok then (calls ++ asked ++ [.setBlocking (some s)], some (s, fd))
        else (calls ++ asked ++ giveUp s fd, none)
      else (calls ++ [.lastError (some s), .sessionFree (some s), .close fd], none)

/-- The slot keeps its `proxy_id`. -/
def sessionInvalidate (pool : Pool) (i : Nat) : List Call × Pool :=
  let sess := pool.slot i
  ((if sess.session.isSome then [.disconnect sess.session, .sessionFree sess.session] else []) ++
    (if 0 ≤ sess.sockFd then [.close sess.sockFd] else []),
    pool.set i { sess with session := none, sockFd := -1, connected := false })

/-! ## The pool -/

inductive Search where
  | found (i : Nat)
  | absent (freeSlot : Option Nat)
  deriving DecidableEq

/-- The loop over the slots in use, from slot `i` on. -/
def search (id : Int) : (i : Nat) → (freeSlot : Option Nat) → List Session → Search
  | _, freeSlot, [] => .absent freeSlot
  | i, freeSlot, s :: rest =>
    if s.proxyId = id && s.connected then .found i
    else search id (i + 1) (if !s.connected && freeSlot.isNone then some i else freeSlot) rest

/-- `(int)proxy->id`. -/
def idOf (p : Proxy) : Int := (p.id : Int).bmod 4294967296

/-- The slot of the session. A slot that is cleared for a session that is not established stays
clear. -/
def pfSshGetSession (pool : Pool) (o : CreateRes) (p : Proxy) : List Call × Option Nat × Pool :=
  match search (idOf p) 0 none (pool.sessions.take pool.count) with
  | .found i => ([], some i, pool)
  | .absent freeSlot =>
    match if pool.count < pfMaxProxies then some pool.count else freeSlot with
    | none => ([], none, pool)
    | some i =>
      match sshSessionCreate o p with
      | (calls, none) => (calls, none, pool.set i ⟨none, -1, 0, false⟩)
      | (calls, some (s, fd)) =>
        (calls, some i, pool.fill i s fd (idOf p))

structure Attempt where
  create : CreateRes
  channel : Option Nat

inductive Tried where
  | noSession
  | opened (c : Nat)
  | failed (i : Nat)

/-- From `retry_connect` to the channel. -/
def attempt (pool : Pool) (a : Attempt) (p : Proxy) (host : CStr) (port : Int) :
    List Call × Tried × Pool :=
  match pfSshGetSession pool a.create p with
  | (calls, none, pool) => (calls, .noSession, pool)
  | (calls, some i, pool) =>
    let s := (pool.slot i).session
    match a.channel with
    | some c => (calls ++ [.directTcpip s host port (some c)], .opened c, pool)
    | none => (calls ++ [.directTcpip s host port none, .lastError s], .failed i, pool)

/-- A second attempt that fails leaves its session in the pool. -/
def pfSshConnect (pool : Pool) (first second : Attempt) (p : Proxy) (host : CStr) (port : Int) :
    List Call × Option Nat × Pool :=
  if port < 1 || 65535 < port then ([], none, pool)
  else
    match attempt pool first p host port with
    | (calls, .noSession, pool) => (calls, none, pool)
    | (calls, .opened c, pool) => (calls, some c, pool)
    | (calls, .failed i, pool) =>
      let (closed, pool) := sessionInvalidate pool i
      match attempt pool second p host port with
      | (more, .opened c, pool) => (calls ++ closed ++ more, some c, pool)
      | (more, _, pool) => (calls ++ closed ++ more, none, pool)

def testHost : CStr := lit "httpbin.org"

def testPort : Int := 443

/-- What one `proxy.test` meets, and the time it takes. -/
structure TestRes where
  first : Attempt
  second : Attempt
  elapsed : Int

/-- The latency, or -1. -/
def pfSshTest (pool : Pool) (o : TestRes) (p : Proxy) : List Call × Int × Pool :=
  if p.type ≠ .ssh then ([], -1, pool)
  else
    match pfSshConnect pool o.first o.second p testHost testPort with
    | (calls, none, pool) => (calls, -1, pool)
    | (calls, some c, pool) => (calls ++ [.channelFree c], o.elapsed, pool)

/-- The loop of `pf_ssh_pool_close` over the first `n` slots. -/
def invalidateAll : (n : Nat) → Pool → List Call × Pool
  | 0, pool => ([], pool)
  | n + 1, pool =>
    let (calls, pool) := invalidateAll n pool
    if (pool.slot n).connected then
      let (closed, pool) := sessionInvalidate pool n
      (calls ++ closed, pool)
    else (calls, pool)

def pfSshPoolClose (pool : Pool) : List Call × Pool :=
  let (calls, pool) := invalidateAll pool.count pool
  (calls, { pool with count := 0 })

/-- One test after the other. -/
def runTests (pool : Pool) : List (TestRes × Proxy) → List Call × Pool
  | [] => ([], pool)
  | (o, p) :: rest =>
    let (calls, _, pool) := pfSshTest pool o p
    let (more, pool) := runTests pool rest
    (calls ++ more, pool)

/-! ## Slots -/

namespace Pool

variable {pool : Pool} {i j : Nat} {s : Session}

theorem slot_set_self (h : i < pfMaxProxies) : (pool.set i s).slot i = s := by
  rw [← pool.size] at h
  simp [slot, set, h]

theorem slot_set_of_ne (h : j ≠ i) : (pool.set i s).slot j = pool.slot j := by
  simp [slot, set, List.getElem?_set_ne h.symm]

theorem slot_of_ge (h : pfMaxProxies ≤ i) : (pool.slot i).connected = false := by
  rw [← pool.size] at h
  simp [slot, h]

/-- Where a slot is given up, no other one changes its state. -/
theorem connected_off (hs : s.connected = false) :
    ((pool.set i s).slot j).connected ↔ j ≠ i ∧ (pool.slot j).connected := by
  by_cases hij : j = i
  · subst hij
    by_cases hj : j < pfMaxProxies
    · simp [slot_set_self hj, hs]
    · simp [slot_of_ge (Nat.le_of_not_lt hj)]
  · simp [slot_set_of_ne hij, hij]

end Pool

theorem search_found {id : Int} {l : List Session} {i k : Nat} {freeSlot : Option Nat}
    (h : search id i freeSlot l = .found k) :
    ∃ j s, k = i + j ∧ l[j]? = some s ∧ s.proxyId = id ∧ s.connected = true := by
  induction l generalizing i freeSlot with
  | nil => cases h
  | cons s l ih =>
    rw [search] at h
    split at h
    · next hfound =>
      cases h
      simp only [Bool.and_eq_true, decide_eq_true_eq] at hfound
      exact ⟨0, s, rfl, rfl, hfound⟩
    · obtain ⟨j, s', rfl, hget, hs'⟩ := ih h
      exact ⟨j + 1, s', by omega, hget, hs'⟩

theorem search_absent {id : Int} {l : List Session} {i : Nat} {freeSlot found : Option Nat}
    (h : search id i freeSlot l = .absent found) :
    (∀ s ∈ l, s.connected = true → s.proxyId ≠ id) ∧
      ∀ k, found = some k → freeSlot = some k ∨
        ∃ j s, k = i + j ∧ l[j]? = some s ∧ s.connected = false := by
  induction l generalizing i freeSlot with
  | nil =>
    cases h
    exact ⟨List.forall_mem_nil _, fun k hk => .inl hk⟩
  | cons s l ih =>
    rw [search] at h
    split at h
    · cases h
    · next hother =>
      obtain ⟨hids, hfree⟩ := ih h
      refine ⟨List.forall_mem_cons.mpr ⟨?_, hids⟩, fun k hk => ?_⟩
      · intro hs hid
        exact hother (by simp [hs, hid])
      · obtain hk | ⟨j, s', rfl, hget, hs'⟩ := hfree k hk
        · split at hk
          · next hnew =>
            obtain rfl := Option.some.inj hk
            simp only [Bool.and_eq_true, Bool.not_eq_true'] at hnew
            exact .inr ⟨0, s, rfl, rfl, hnew.1⟩
          · exact .inl hk
        · exact .inr ⟨j + 1, s', by omega, hget, hs'⟩

/-- The slots that the loop goes through. -/
theorem getElem?_used {pool : Pool} {j : Nat} {s : Session}
    (h : (pool.sessions.take pool.count)[j]? = some s) : j < pool.count ∧ pool.slot j = s := by
  rw [List.getElem?_take] at h
  split at h
  · next hj => exact ⟨hj, by simp [Pool.slot, h]⟩
  · cases h

end Proxiflare.Daemon.SshPool
