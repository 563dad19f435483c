import Proxiflare.Daemon.Connectors

/-!
# SOCKS dialogues

What the server sends in one handshake, as a record of its fields, and the records
on which the exchanges of `proxy_socks.c` and `chain.c` succeed. The server's
bytes come in pieces of any size; the records speak of the stream only.
-/

namespace Proxiflare.Daemon

open Lib.CString Lib

/-! ## SOCKS4 -/

/-- Eight bytes with code `0x5A` in the second. -/
structure Socks4Reply where
  version : UInt8
  tail : CStr
  tail_length : tail.length = 6

def Socks4Reply.bytes (r : Socks4Reply) : CStr := [r.version, 0x5A] ++ r.tail

theorem socks4Exchange_takes {fd : Fd} {dst userid : CStr} {port : Int} {net net' : Net}
    (h : Act.Gives (socks4Exchange fd dst port userid) net ⟨⟩ net') :
    ∃ r : Socks4Reply, net.stream = r.bytes ++ net'.stream := by
  obtain ⟨_, net₁, hsend, h⟩ := Act.gives_bind_iff.mp h
  obtain ⟨resp, net₂, hrecv, h⟩ := Act.gives_bind_iff.mp h
  obtain ⟨hcode, rfl⟩ := Act.gives_require_iff.mp h
  obtain ⟨hlen, hstream⟩ := recvAll_takes hrecv
  obtain ⟨a, resp, rfl⟩ := List.exists_cons_of_length_eq_add_one hlen
  obtain ⟨b, resp, rfl⟩ := List.exists_cons_of_length_eq_add_one (Nat.succ.inj hlen)
  obtain rfl : b = 0x5A := of_decide_eq_true hcode
  refine ⟨⟨a, resp, Nat.succ.inj (Nat.succ.inj hlen)⟩, ?_⟩
  rw [← sendAll_stream hsend, hstream]
  rfl

/-! ## SOCKS5 -/

/-- The bound address and its port, with the length byte of a name. -/
def BoundComplete (atyp : UInt8) (bound : CStr) : Prop :=
  (atyp = 0x01 ∧ bound.length = 4 + 2) ∨ (atyp = 0x04 ∧ bound.length = 16 + 2) ∨
  (atyp = 0x03 ∧ ∃ len addr, bound = len :: addr ∧ addr.length = len.toNat + 2)

/-- An authentication reply, its version and status, follows method 2 and no other. -/
structure Socks5Dialogue where
  version : UInt8
  method : UInt8
  auth : Option (UInt8 × UInt8)
  replyVersion : UInt8
  rep : UInt8
  rsv : UInt8
  atyp : UInt8
  bound : CStr
  auth_isSome : auth.isSome = true ↔ method = 0x02
  bound_complete : BoundComplete atyp bound

def authBytes : Option (UInt8 × UInt8) → CStr
  | none => []
  | some (version, status) => [version, status]

def Socks5Dialogue.bytes (d : Socks5Dialogue) : CStr :=
  [d.version, d.method] ++ authBytes d.auth ++ [d.replyVersion, d.rep, d.rsv, d.atyp] ++ d.bound

/-- What the code looks at. -/
structure Socks5Dialogue.Checked (user : CStr) (d : Socks5Dialogue) : Prop where
  version : d.version = 0x05
  method : d.method ≠ 0xFF
  auth : ∀ a ∈ d.auth, user ≠ [] ∧ a.2 = 0x00
  rep : d.rep = 0x00

theorem socks5Auth_takes {fd : Fd} {user pass : CStr} {method : UInt8} {net net' : Net}
    (h : Act.Gives (socks5Auth fd user pass method) net ⟨⟩ net') :
    ∃ auth, (auth.isSome = true ↔ method = 0x02) ∧ (∀ a ∈ auth, user ≠ [] ∧ a.2 = 0x00) ∧
      net.stream = authBytes auth ++ net'.stream := by
  unfold socks5Auth at h
  split at h
  · next hmethod =>
    obtain ⟨_, _, hset, h⟩ := Act.gives_bind_iff.mp h
    obtain ⟨huser, rfl⟩ := Act.gives_require_iff.mp hset
    obtain ⟨_, net₁, hsend, h⟩ := Act.gives_bind_iff.mp h
    obtain ⟨status, net₂, hrecv, h⟩ := Act.gives_bind_iff.mp h
    obtain ⟨hstatus, rfl⟩ := Act.gives_require_iff.mp h
    obtain ⟨hlen, hstream⟩ := recvAll_takes hrecv
    obtain ⟨a, b, rfl⟩ := List.length_eq_two.mp hlen
    refine ⟨some (a, b), by simp [hmethod], ?_, ?_⟩
    · rintro _ ⟨⟩
      exact ⟨by simpa using huser, of_decide_eq_true hstatus⟩
    · rw [← sendAll_stream hsend, hstream]
      rfl
  · next hmethod =>
    obtain ⟨-, rfl⟩ := Act.gives_pure_iff.mp h
    exact ⟨none, by simp [hmethod], by simp, rfl⟩

/-- Reading the bound address takes what its type says, the port included. -/
theorem socks5Addr_takes {atyp : UInt8} {addrLen : Nat} {net net₁ net' : Net} {got : CStr}
    (hlen : Act.Gives (socks5AddrLen atyp) net addrLen net₁)
    (hrecv : Act.Gives (recvAll (addrLen + 2)) net₁ got net') :
    ∃ bound, BoundComplete atyp bound ∧ net.stream = bound ++ net'.stream := by
  obtain ⟨hgot, hstream⟩ := recvAll_takes hrecv
  unfold socks5AddrLen at hlen
  split at hlen
  · next htype =>
    obtain ⟨rfl, rfl⟩ := Act.gives_pure_iff.mp hlen
    exact ⟨got, .inl ⟨htype, hgot⟩, hstream⟩
  · split at hlen
    · next htype =>
      obtain ⟨rfl, rfl⟩ := Act.gives_pure_iff.mp hlen
      exact ⟨got, .inr (.inl ⟨htype, hgot⟩), hstream⟩
    · split at hlen
      · next htype =>
        obtain ⟨name, net₂, hname, hlen⟩ := Act.gives_bind_iff.mp hlen
        obtain ⟨rfl, rfl⟩ := Act.gives_pure_iff.mp hlen
        obtain ⟨hone, hfirst⟩ := recvAll_takes hname
        obtain ⟨len, rfl⟩ := List.length_eq_one_iff.mp hone
        refine ⟨len :: got, .inr (.inr ⟨htype, len, got, rfl, hgot⟩), ?_⟩
        rw [hfirst, hstream]
        rfl
      · exact absurd hlen Act.not_gives_fail

/-- A successful exchange takes one dialogue off the stream, and the code's checks hold of it. -/
theorem socks5Exchange_takes {fd : Fd} {dst user pass : CStr} {port : Int} {net net' : Net}
    (h : Act.Gives (socks5Exchange fd dst port user pass) net ⟨⟩ net') :
    ∃ d : Socks5Dialogue, net.stream = d.bytes ++ net'.stream ∧ d.Checked user := by
  obtain ⟨_, net₁, hgreet, h⟩ := Act.gives_bind_iff.mp h
  obtain ⟨rep, net₂, hrep, h⟩ := Act.gives_bind_iff.mp h
  obtain ⟨_, _, hfive, h⟩ := Act.gives_bind_iff.mp h
  obtain ⟨hversion, rfl⟩ := Act.gives_require_iff.mp hfive
  obtain ⟨_, _, hany, h⟩ := Act.gives_bind_iff.mp h
  obtain ⟨hmethod, rfl⟩ := Act.gives_require_iff.mp hany
  obtain ⟨_, net₃, hauth, h⟩ := Act.gives_bind_iff.mp h
  obtain ⟨_, net₄, hrequest, h⟩ := Act.gives_bind_iff.mp h
  obtain ⟨resp, net₅, hresp, h⟩ := Act.gives_bind_iff.mp h
  obtain ⟨_, _, hgranted, h⟩ := Act.gives_bind_iff.mp h
  obtain ⟨hcode, rfl⟩ := Act.gives_require_iff.mp hgranted
  obtain ⟨addrLen, net₆, haddr, h⟩ := Act.gives_bind_iff.mp h
  obtain ⟨got, net₇, hdrain, h⟩ := Act.gives_bind_iff.mp h
  obtain ⟨-, rfl⟩ := Act.gives_pure_iff.mp h
  obtain ⟨hlen₂, hstream₂⟩ := recvAll_takes hrep
  obtain ⟨version, method, rfl⟩ := List.length_eq_two.mp hlen₂
  obtain ⟨auth, hsome, hchecked, hstream₃⟩ := socks5Auth_takes hauth
  obtain ⟨hlen₄, hstream₄⟩ := recvAll_takes hresp
  obtain ⟨ver, resp, rfl⟩ := List.exists_cons_of_length_eq_add_one hlen₄
  obtain ⟨code, rsv, atyp, rfl⟩ := List.length_eq_three.mp (Nat.succ.inj hlen₄)
  obtain ⟨bound, hbound, hstream₅⟩ := socks5Addr_takes haddr hdrain
  refine ⟨⟨version, method, auth, ver, code, rsv, atyp, bound, hsome, hbound⟩, ?_,
    ⟨of_decide_eq_true hversion, of_decide_eq_true hmethod, hchecked, of_decide_eq_true hcode⟩⟩
  calc net.stream = [version, method] ++ net₂.stream := (sendAll_stream hgreet).symm.trans hstream₂
    _ = [version, method] ++ (authBytes auth ++ net₃.stream) := by rw [hstream₃]
    _ = [version, method] ++ (authBytes auth ++ ([ver, code, rsv, atyp] ++ net₅.stream)) := by
      rw [← sendAll_stream hrequest, hstream₄]
    _ = _ := by
      rw [hstream₅]
      simp [Socks5Dialogue.bytes]

/-! ## Dialogues that succeed -/

theorem socks5Auth_gives {user : CStr} {method : UInt8} {auth : Option (UInt8 × UInt8)}
    {net : Net} {rest : CStr} (hsome : auth.isSome = true ↔ method = 0x02)
    (hchecked : ∀ a ∈ auth, user ≠ [] ∧ a.2 = 0x00) (hsends : net.sends = [])
    (hstream : net.stream = authBytes auth ++ rest) (fd : Fd) (pass : CStr) :
    ∃ net', Act.Gives (socks5Auth fd user pass method) net ⟨⟩ net' ∧ net'.stream = rest ∧
      net'.sends = [] := by
  unfold socks5Auth
  cases auth with
  | none =>
    rw [if_neg fun hmethod => Bool.noConfusion (hsome.mpr hmethod)]
    exact ⟨net, .pure _, hstream, hsends⟩
  | some a =>
    obtain ⟨version, status⟩ := a
    obtain ⟨huser, rfl⟩ : user ≠ [] ∧ status = 0x00 := hchecked _ rfl
    rw [if_pos (hsome.mp rfl)]
    obtain ⟨net', hrecv, hrest, hsends'⟩ :=
      recvAll_gives_stream (net.emit (.sent fd _)) [version, 0x00] hstream
    exact ⟨net', .bind (.require (by simpa using huser)) (.bind (sendAll_gives hsends fd _)
      (.bind hrecv (.require rfl))), hrest, hsends'.trans hsends⟩

theorem socks5Addr_gives {atyp : UInt8} {bound : CStr} {net : Net} {rest : CStr}
    (hbound : BoundComplete atyp bound) (hstream : net.stream = bound ++ rest) :
    ∃ addrLen net₁ got net', Act.Gives (socks5AddrLen atyp) net addrLen net₁ ∧
      Act.Gives (recvAll (addrLen + 2)) net₁ got net' ∧ net'.stream = rest := by
  obtain ⟨rfl, hlen⟩ | ⟨rfl, hlen⟩ | ⟨rfl, len, addr, rfl, hlen⟩ := hbound
  · obtain ⟨net', hrecv, hrest, -⟩ := recvAll_gives_stream net bound hstream
    rw [hlen] at hrecv
    exact ⟨4, net, bound, net', .pure 4, hrecv, hrest⟩
  · obtain ⟨net', hrecv, hrest, -⟩ := recvAll_gives_stream net bound hstream
    rw [hlen] at hrecv
    exact ⟨16, net, bound, net', .pure 16, hrecv, hrest⟩
  · obtain ⟨net₁, hfirst, hstream₁, -⟩ := recvAll_gives_stream net [len] hstream
    obtain ⟨net', hrecv, hrest, -⟩ := recvAll_gives_stream net₁ addr hstream₁
    rw [hlen] at hrecv
    exact ⟨len.toNat, net₁, addr, net', .bind hfirst (.pure _), hrecv, hrest⟩

/-- The code's checks are all it takes. -/
theorem socks5Exchange_gives {d : Socks5Dialogue} {user : CStr} (hd : d.Checked user) (net : Net)
    {rest : CStr} (hsends : net.sends = []) (hstream : net.stream = d.bytes ++ rest) (fd : Fd)
    (dst pass : CStr) (port : Int) :
    ∃ net', Act.Gives (socks5Exchange fd dst port user pass) net ⟨⟩ net' ∧ net'.stream = rest := by
  obtain ⟨version, method, auth, ver, rep, rsv, atyp, bound, hsome, hbound⟩ := d
  obtain ⟨rfl, hmethod, hauth, rfl⟩ : version = 0x05 ∧ method ≠ 0xFF ∧
    (∀ a ∈ auth, user ≠ [] ∧ a.2 = 0x00) ∧ rep = 0x00 := ⟨hd.version, hd.method, hd.auth, hd.rep⟩
  simp only [Socks5Dialogue.bytes, List.append_assoc] at hstream
  let greeting : CStr := if user.isEmpty then [0x05, 0x01, 0x00] else [0x05, 0x02, 0x00, 0x02]
  let request : CStr := [0x05, 0x01, 0x00, 0x03, UInt8.ofNat dst.length] ++ dst ++ portBytes port
  obtain ⟨net₁, hmethodRep, hstream₁, hsends₁⟩ :=
    recvAll_gives_stream (net.emit (.sent fd greeting)) [0x05, method] hstream
  obtain ⟨net₂, hauthGives, hstream₂, hsends₂⟩ :=
    socks5Auth_gives hsome hauth (hsends₁.trans hsends) hstream₁ fd pass
  obtain ⟨net₃, hresp, hstream₃, -⟩ :=
    recvAll_gives_stream (net₂.emit (.sent fd request)) [ver, 0x00, rsv, atyp] hstream₂
  obtain ⟨addrLen, net₄, got, net', haddr, hdrain, hrest⟩ := socks5Addr_gives hbound hstream₃
  refine ⟨net', ?_, hrest⟩
  refine .bind (sendAll_gives hsends fd greeting) ?_
  refine .bind hmethodRep (.bind (.require rfl) (.bind (.require (decide_eq_true hmethod)) ?_))
  refine .bind hauthGives (.bind (sendAll_gives hsends₂ fd request) ?_)
  exact .bind hresp (.bind (.require rfl) (.bind haddr (.bind hdrain (.pure _))))

/-! ## The fields are where the bytes say -/

theorem BoundComplete.append_inj {atyp : UInt8} {bound bound' rest rest' : CStr}
    (h : BoundComplete atyp bound) (h' : BoundComplete atyp bound')
    (heq : bound ++ rest = bound' ++ rest') : bound = bound' ∧ rest = rest' := by
  have hlen : bound.length = bound'.length := by
    obtain ⟨rfl, hlen⟩ | ⟨rfl, hlen⟩ | ⟨rfl, len, addr, rfl, hlen⟩ := h
    · obtain ⟨-, hlen'⟩ | ⟨hno, -⟩ | ⟨hno, -⟩ := h'
      · rw [hlen, hlen']
      · exact absurd hno (by decide)
      · exact absurd hno (by decide)
    · obtain ⟨hno, -⟩ | ⟨-, hlen'⟩ | ⟨hno, -⟩ := h'
      · exact absurd hno (by decide)
      · rw [hlen, hlen']
      · exact absurd hno (by decide)
    · obtain ⟨hno, -⟩ | ⟨hno, -⟩ | ⟨-, len', addr', rfl, hlen'⟩ := h'
      · exact absurd hno (by decide)
      · exact absurd hno (by decide)
      · obtain ⟨rfl, -⟩ := List.cons.inj heq
        rw [List.length_cons, List.length_cons, hlen, hlen']
  exact List.append_inj heq hlen

theorem authBytes_append_inj {auth auth' : Option (UInt8 × UInt8)} {rest rest' : CStr}
    (h : auth.isSome = auth'.isSome) (heq : authBytes auth ++ rest = authBytes auth' ++ rest') :
    auth = auth' ∧ rest = rest' := by
  cases auth with
  | none =>
    cases auth' with
    | none => exact ⟨rfl, heq⟩
    | some a => cases h
  | some a =>
    cases auth' with
    | none => cases h
    | some a' =>
      obtain ⟨hversion, heq⟩ := List.cons.inj heq
      obtain ⟨hstatus, heq⟩ := List.cons.inj heq
      exact ⟨congrArg some (Prod.ext hversion hstatus), heq⟩

/-- A stream starts with at most one dialogue. -/
theorem Socks5Dialogue.bytes_append_inj {d d' : Socks5Dialogue} {rest rest' : CStr}
    (heq : d.bytes ++ rest = d'.bytes ++ rest') : d = d' ∧ rest = rest' := by
  obtain ⟨version, method, auth, ver, rep, rsv, atyp, bound, hsome, hbound⟩ := d
  obtain ⟨version', method', auth', ver', rep', rsv', atyp', bound', hsome', hbound'⟩ := d'
  simp only [bytes, List.append_assoc, List.cons_append, List.nil_append, List.cons.injEq] at heq
  obtain ⟨rfl, rfl, heq⟩ := heq
  have hpresent : auth.isSome = auth'.isSome := Bool.eq_iff_iff.mpr (hsome.trans hsome'.symm)
  obtain ⟨rfl, htail⟩ := authBytes_append_inj hpresent heq
  simp only [List.cons.injEq] at htail
  obtain ⟨rfl, rfl, rfl, rfl, hbytes⟩ := htail
  obtain ⟨rfl, rfl⟩ := hbound.append_inj hbound' hbytes
  exact ⟨rfl, rfl⟩

end Proxiflare.Daemon
