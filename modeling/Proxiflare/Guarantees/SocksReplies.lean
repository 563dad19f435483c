import Proxiflare.Daemon.Dialogues

/-!
# What the SOCKS handshakes take and accept

A handshake takes the server's replies off the stream and not a byte more, in
whatever pieces they arrive. Which replies it accepts is another matter: the code
compares the first version byte, the reply code and the two status bytes only.
-/

namespace Proxiflare.Guarantees.SocksReplies

open Lib.CString Lib
open Proxiflare.Daemon

variable {α : Type}

/-! ## The bytes a handshake takes -/

/-- Success takes bytes of this kind and leaves the rest of the stream. -/
def TakesExactly (replies : CStr → Prop) (m : Act Net α) : Prop :=
  ∀ net a net', Act.Gives m net a net' →
    ∃ bytes, replies bytes ∧ net.stream = bytes ++ net'.stream

theorem TakesExactly.require {replies : CStr → Prop} {m : Act Net α} (b : Bool)
    (hm : TakesExactly replies m) : TakesExactly replies (do Act.require b; m) := by
  intro net a net' h
  obtain ⟨_, _, hcheck, h⟩ := Act.gives_bind_iff.mp h
  obtain ⟨-, rfl⟩ := Act.gives_require_iff.mp hcheck
  exact hm _ a net' h

theorem TakesExactly.dialled {replies : CStr → Prop} {exchange : Fd → Act Net PUnit} (p : Proxy)
    (h : ∀ fd, TakesExactly replies (exchange fd)) :
    TakesExactly replies (do
      let fd ← tcpConnect p
      Act.update (Net.emit (.reach p fd))
      (exchange fd).onFail (closeFd fd)
      pure fd) := by
  intro net fd net' hrun
  obtain ⟨net₁, hinbox, hexchange⟩ := gives_of_dialled hrun
  obtain ⟨bytes, hbytes, hstream⟩ := h fd _ _ _ hexchange
  exact ⟨bytes, hbytes, (congrArg Lib.stream hinbox).symm.trans hstream⟩

/-- Eight bytes. -/
def IsSocks4Reply (bytes : CStr) : Prop := ∃ r : Socks4Reply, bytes = r.bytes

/-- The method reply, the authentication reply if there is one, and the whole CONNECT reply. -/
def IsSocks5Dialogue (bytes : CStr) : Prop := ∃ d : Socks5Dialogue, bytes = d.bytes

theorem socks4Exchange_takesExactly (fd : Fd) (dst : CStr) (port : Int) (userid : CStr) :
    TakesExactly IsSocks4Reply (socks4Exchange fd dst port userid) := by
  intro net _ net' h
  obtain ⟨r, hstream⟩ := socks4Exchange_takes h
  exact ⟨r.bytes, ⟨r, rfl⟩, hstream⟩

theorem socks5Exchange_takesExactly (fd : Fd) (dst : CStr) (port : Int) (user pass : CStr) :
    TakesExactly IsSocks5Dialogue (socks5Exchange fd dst port user pass) := by
  intro net _ net' h
  obtain ⟨d, hstream, -⟩ := socks5Exchange_takes h
  exact ⟨d.bytes, ⟨d, rfl⟩, hstream⟩

/-- For every stream and every way it is cut into `recv` results. -/
theorem handshakes_take_replies (p : Proxy) (dst : CStr) (port : Int) (fd : Fd) :
    TakesExactly IsSocks4Reply (pfSocks4Connect p dst port) ∧
    TakesExactly IsSocks5Dialogue (pfSocks5Connect p dst port) ∧
    TakesExactly IsSocks4Reply (socks4NegotiateOnFd fd p dst port) ∧
    TakesExactly IsSocks5Dialogue (socks5NegotiateOnFd fd p dst port) :=
  ⟨.require _ (.require _ (.dialled p fun _ => socks4Exchange_takesExactly _ _ _ _)),
    .require _ (.require _ (.dialled p fun _ => socks5Exchange_takesExactly _ _ _ _ _)),
    .require _ (.require _ (socks4Exchange_takesExactly _ _ _ _)),
    .require _ (.require _ (socks5Exchange_takesExactly _ _ _ _ _))⟩

/-- No credentials. -/
def openProxy : Proxy :=
  ⟨1, .snprintf (lit "p"), .socks5, .snprintf (lit "10.0.0.1"), 1080, .empty, .empty, .empty, 0, 0, 1⟩

/-- A named bound address, cut anywhere; the tunnel's first byte is in the last piece. -/
theorem named_reply_taken :
    ∃ net', Act.Gives (pfSocks5Connect openProxy (lit "a.b") 443)
        ⟨[[.connected 3]], [], [[5], [0, 5, 0], [0, 3, 2, 97], [98, 1, 187, 77]], []⟩ 3 net' ∧
      ∃ bytes, IsSocks5Dialogue bytes ∧
        [5, 0, 5, 0, 0, 3, 2, 97, 98, 1, 187, 77] = bytes ++ net'.stream := by
  have hsome : (pfSocks5Connect openProxy (lit "a.b") 443
      ⟨[[.connected 3]], [], [[5], [0, 5, 0], [0, 3, 2, 97], [98, 1, 187, 77]], []⟩).1 = some 3 := by
    decide
  have hgives := Act.gives_of_fst hsome
  exact ⟨_, hgives, (handshakes_take_replies openProxy (lit "a.b") 443 3).2.1 _ _ _ hgives⟩

/-! ## The dialogues a handshake accepts -/

/-- The methods the greeting lists. -/
def offeredMethods (user : CStr) : CStr := if user.isEmpty then [0x00] else [0x00, 0x02]

/-- The dialogue the two RFCs allow; that the address is complete is part of the record. -/
structure Conforming (user : CStr) (d : Socks5Dialogue) : Prop where
  version : d.version = 0x05
  method : d.method ∈ offeredMethods user
  auth : ∀ a ∈ d.auth, a = (0x01, 0x00)
  replyVersion : d.replyVersion = 0x05
  rep : d.rep = 0x00

/-- Whenever the handshake succeeds on this stream, a conforming dialogue came first. -/
def AcceptsOnlyConforming (user bytes : CStr) (m : Act Net α) : Prop :=
  ∀ net a net', net.stream = bytes → Act.Gives m net a net' →
    ∃ d rest, bytes = d.bytes ++ rest ∧ Conforming user d

/-- The bytes the code does not look at: the method is one that was offered, and the version bytes
of the authentication reply and of the CONNECT reply are right. -/
def UncheckedBytesRight (user : CStr) (d : Socks5Dialogue) : Prop :=
  d.method ∈ offeredMethods user ∧ (∀ a ∈ d.auth, a.1 = 0x01) ∧ d.replyVersion = 0x05

/-- A dialogue at the front of the stream that passes the code's checks is right in the bytes the
code skips. -/
def SkippedRight (user bytes : CStr) : Prop :=
  ∀ d rest, bytes = d.bytes ++ rest → d.Checked user → UncheckedBytesRight user d

def argsOk (p : Proxy) (dst : CStr) (port : Int) : Bool :=
  validPort port && socks5LengthsOk dst p.username.chars p.password.chars

theorem conforming_iff {user : CStr} {d : Socks5Dialogue} (h : d.Checked user) :
    Conforming user d ↔ UncheckedBytesRight user d := by
  constructor
  · intro hc
    exact ⟨hc.method, fun a ha => congrArg Prod.fst (hc.auth a ha), hc.replyVersion⟩
  · rintro ⟨hmethod, hauth, hversion⟩
    exact ⟨h.version, hmethod, fun a ha => Prod.ext (hauth a ha) (h.auth a ha).2, hversion, h.rep⟩

/-- A run whose success tells that the arguments are in range and that a checked dialogue came
first, and that succeeds on every such stream. -/
theorem acceptsOnlyConforming_iff {user bytes : CStr} {ok : Bool} {m : Act Net α}
    (hsound : ∀ net a net', Act.Gives m net a net' → ok = true ∧
      ∃ d : Socks5Dialogue, net.stream = d.bytes ++ net'.stream ∧ d.Checked user)
    (hcomplete : ∀ (d : Socks5Dialogue) (rest : CStr), ok = true → d.Checked user →
      ∃ net a net', net.stream = d.bytes ++ rest ∧ Act.Gives m net a net') :
    AcceptsOnlyConforming user bytes m ↔ (ok = true → SkippedRight user bytes) := by
  constructor
  · rintro h hok d rest rfl hchecked
    obtain ⟨net, a, net', hstream, hgives⟩ := hcomplete d rest hok hchecked
    obtain ⟨d', rest', heq, hconforming⟩ := h net a net' hstream hgives
    obtain ⟨rfl, -⟩ := Socks5Dialogue.bytes_append_inj heq
    exact (conforming_iff hchecked).mp hconforming
  · rintro h net a net' rfl hgives
    obtain ⟨hok, d, hstream, hchecked⟩ := hsound net a net' hgives
    exact ⟨d, net'.stream, hstream, (conforming_iff hchecked).mpr (h hok d _ hstream hchecked)⟩

theorem gives_of_argsOk {p : Proxy} {dst : CStr} {port : Int} {m : Act Net α} {net net' : Net}
    {a : α} :
    Act.Gives (do
      Act.require (validPort port)
      Act.require (socks5LengthsOk dst p.username.chars p.password.chars)
      m) net a net' ↔ argsOk p dst port = true ∧ Act.Gives m net a net' := by
  constructor
  · intro h
    obtain ⟨_, _, hfirst, h⟩ := Act.gives_bind_iff.mp h
    obtain ⟨hport, rfl⟩ := Act.gives_require_iff.mp hfirst
    obtain ⟨_, _, hsecond, h⟩ := Act.gives_bind_iff.mp h
    obtain ⟨hlengths, rfl⟩ := Act.gives_require_iff.mp hsecond
    exact ⟨Bool.and_eq_true_iff.mpr ⟨hport, hlengths⟩, h⟩
  · rintro ⟨hok, h⟩
    obtain ⟨hport, hlengths⟩ := Bool.and_eq_true_iff.mp hok
    exact .bind (.require hport) (.bind (.require hlengths) h)

/-- For every stream: what succeeds is conforming exactly when the bytes the code skips are right in
the dialogue the stream starts with, or the arguments are refused. -/
theorem accepts_only_conforming_iff (p : Proxy) (dst : CStr) (port : Int) (fd : Fd) (bytes : CStr) :
    (AcceptsOnlyConforming p.username.chars bytes (pfSocks5Connect p dst port) ↔
      (argsOk p dst port = true → SkippedRight p.username.chars bytes)) ∧
    (AcceptsOnlyConforming p.username.chars bytes (socks5NegotiateOnFd fd p dst port) ↔
      (argsOk p dst port = true → SkippedRight p.username.chars bytes)) := by
  constructor
  · refine acceptsOnlyConforming_iff ?_ ?_
    · intro net fd' net' h
      obtain ⟨hok, hrun⟩ := gives_of_argsOk.mp h
      obtain ⟨net₁, hinbox, hexchange⟩ := gives_of_dialled hrun
      obtain ⟨d, hstream, hchecked⟩ := socks5Exchange_takes hexchange
      exact ⟨hok, d, (congrArg Lib.stream hinbox).symm.trans hstream, hchecked⟩
    · intro d rest hok hchecked
      let net : Net := ⟨[[.connected fd]], [], [d.bytes ++ rest], []⟩
      have hstream : net.stream = d.bytes ++ rest := stream_singleton _
      obtain ⟨net', hgives, -⟩ :=
        socks5Exchange_gives hchecked
          ((Net.emit (.dial p fd) { net with lookups := [] }).emit (.reach p fd)) rfl hstream fd dst
          p.password.chars port
      exact ⟨net, fd, net', hstream, gives_of_argsOk.mpr ⟨hok, dialled_gives rfl hgives⟩⟩
  · refine acceptsOnlyConforming_iff ?_ ?_
    · intro net _ net' h
      obtain ⟨hok, hexchange⟩ := gives_of_argsOk.mp h
      exact ⟨hok, socks5Exchange_takes hexchange⟩
    · intro d rest hok hchecked
      let net : Net := ⟨[], [], [d.bytes ++ rest], []⟩
      have hstream : net.stream = d.bytes ++ rest := stream_singleton _
      obtain ⟨net', hgives, -⟩ :=
        socks5Exchange_gives hchecked net rfl hstream fd dst p.password.chars port
      exact ⟨net, ⟨⟩, net', hstream, gives_of_argsOk.mpr ⟨hok, hgives⟩⟩

/-- Method 1 was not offered, and the CONNECT reply has version 4. -/
theorem unoffered_method_accepted :
    ¬ AcceptsOnlyConforming openProxy.username.chars [5, 1, 4, 0, 0, 1, 0, 0, 0, 0, 0, 0]
      (pfSocks5Connect openProxy (lit "a.b") 443) := by
  intro h
  obtain ⟨d, rest, heq, hconforming⟩ := h
    ⟨[[.connected 3]], [], [[5, 1, 4, 0, 0, 1, 0, 0, 0, 0, 0, 0]], []⟩ 3 _ rfl
    (Act.gives_of_fst (by decide))
  have hmethod : (1 : UInt8) = d.method := (List.cons.inj (List.cons.inj heq).2).1
  have hoffered := hconforming.method
  rw [← hmethod] at hoffered
  exact absurd hoffered (by decide)

end Proxiflare.Guarantees.SocksReplies
