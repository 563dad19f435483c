import Proxiflare.Daemon.ConnectMemory

/-!
# The length guards of the CONNECT builders

Both builders check the length of the request only after the last `snprintf`, so a text that does
not fit makes the size passed to the next one wrap round; and the bounds on `creds` let through
credentials whose base64 text and NUL do not fit into `b64`.
-/

namespace Proxiflare.Guarantees.ConnectGuards

open Lib Lib.CString
open Proxiflare.Daemon

/-- The run leaves its buffers alone and computes no wrapped size; where credentials or request do
not fit it returns -1, in the state `refused`. -/
structure Guarded {α : Type} (overflows : Prop) (refused : Net) (run : Option (Option α × Net)) :
    Prop where
  inside : run.isSome = true
  refuses : overflows → run = some (none, refused)

variable {dst user pass : CStr} {port : Int} {credsCap : Nat} {b64Cap : Option Nat} {net : Net}

/-- What does not fit is not built. -/
theorem httpRequest_of_overflows (hb64Cap : ∀ cap ∈ b64Cap, 509 ≤ cap)
    (hcap : Memory.credsFit < credsCap) (hroom : Memory.RoomForRequest credsCap dst port user pass)
    (h : Memory.Overflows credsCap dst port user pass) :
    httpRequest credsCap b64Cap dst port user pass = none := by
  unfold Memory.RoomForRequest at hroom
  by_cases huser : user.isEmpty = true
  · have hlong := h.resolve_left fun h => by
      rw [huser] at h
      cases h.1
    rw [Memory.httpRequest_eq_ite hb64Cap (.inl huser) hcap]
    exact if_neg (by omega)
  · rw [if_neg huser] at hroom
    by_cases hcreds : credsCap ≤ (Memory.credentials user pass).length
    · exact Memory.httpRequest_eq_none huser hcreds
    · have hlong := h.resolve_left fun h => hcreds h.2
      have hfits := (hroom.resolve_left hcreds).1
      rw [Memory.httpRequest_eq_ite hb64Cap (.inr hfits) hcap]
      exact if_neg (by omega)

theorem httpExchange_of_none (h : httpRequest credsCap b64Cap dst port user pass = none) (fd : Fd) :
    httpExchange credsCap b64Cap fd dst port user pass net = (none, net) := by
  unfold httpExchange
  rw [h]
  rfl

/-- Over a connection, a builder is guarded exactly where there is room. -/
theorem guarded_negotiate (b : Memory.Buffers 384) (fd : Fd) (hport : validPort port = true) :
    Guarded (Memory.Overflows 384 dst port user pass) net
        (Memory.httpNegotiateOnFd b fd dst port user pass net) ↔
      Memory.RoomForRequest 384 dst port user pass := by
  unfold Memory.httpNegotiateOnFd
  rw [if_pos hport]
  by_cases hroom : Memory.RoomForRequest 384 dst port user pass
  · refine iff_of_true ?_ hroom
    have hb64 : ∀ cap ∈ (none : Option Nat), 509 ≤ cap := by simp
    rw [Memory.exchange_eq Memory.encodes_chain b (by decide) (by decide) hb64 hroom]
    refine ⟨rfl, fun h => ?_⟩
    rw [httpExchange_of_none (httpRequest_of_overflows (by simp) (by decide) hroom h)]
  · refine iff_of_false (fun h => ?_) hroom
    have hinside := h.inside
    rw [Memory.exchange_eq_fault Memory.encodes_chain b (by decide) (by decide) hroom] at hinside
    cases hinside

theorem guarded_connect (b : Memory.Buffers 386) {p : Proxy} {fd : Fd} {net₁ : Net}
    (hport : validPort port = true) (hdial : tcpConnect p net = (some fd, net₁)) :
    Guarded (Memory.Overflows 386 dst port user pass) (closeFd fd (net₁.emit (.reach p fd)))
        (Memory.pfHttpConnect b p dst port user pass net) ↔
      Memory.RoomForRequest 386 dst port user pass := by
  unfold Memory.pfHttpConnect
  rw [if_pos hport, hdial]
  dsimp only
  by_cases hroom : Memory.RoomForRequest 386 dst port user pass
  · refine iff_of_true ?_ hroom
    have hb64 : ∀ cap ∈ some 512, 509 ≤ cap := by simp
    rw [Memory.exchange_eq (Memory.encodes_evp none) b (by decide) (by decide) hb64 hroom]
    constructor
    · rcases httpExchange 386 (some 512) fd dst port user pass (net₁.emit (.reach p fd)) with
        ⟨_ | ⟨⟨⟩⟩, net₂⟩ <;> rfl
    · intro h
      rw [httpExchange_of_none (httpRequest_of_overflows (by simp) (by decide) hroom h)]
  · refine iff_of_false (fun h => ?_) hroom
    have hinside := h.inside
    rw [Memory.exchange_eq_fault (Memory.encodes_evp none) b (by decide) (by decide) hroom] at hinside
    cases hinside

/-- Each builder is guarded exactly where the running length stays within `req` until the last line
and credentials that are not refused have at most 381 bytes. -/
theorem connect_guards (hport : validPort port = true) :
    (∀ b fd net, Guarded (Memory.Overflows 384 dst port user pass) net
        (Memory.httpNegotiateOnFd b fd dst port user pass net) ↔
      Memory.RoomForRequest 384 dst port user pass) ∧
    (∀ b p net fd net₁, tcpConnect p net = (some fd, net₁) →
      (Guarded (Memory.Overflows 386 dst port user pass) (closeFd fd (net₁.emit (.reach p fd)))
          (Memory.pfHttpConnect b p dst port user pass net) ↔
        Memory.RoomForRequest 386 dst port user pass)) ∧
    ∀ b p net net₁, tcpConnect p net = (none, net₁) →
      Memory.pfHttpConnect b p dst port user pass net = some (none, net₁) := by
  refine ⟨fun b fd net => guarded_negotiate b fd hport,
    fun b p net fd net₁ hdial => guarded_connect b hport hdial, fun b p net net₁ hdial => ?_⟩
  unfold Memory.pfHttpConnect
  rw [if_pos hport, hdial]

theorem zeros_length (n : Nat) : (List.replicate n (0 : UInt8)).length = n := List.length_replicate

def buffers (credsCap : Nat) : Memory.Buffers credsCap where
  req := List.replicate pfBufSize 0
  creds := List.replicate credsCap 0
  b64 := List.replicate Memory.b64Size 0
  reqSize := List.length_replicate
  credsSize := zeros_length credsCap
  b64Full := List.length_replicate

def quiet : Net := ⟨[], [], [], []⟩

def httpProxy : Proxy :=
  ⟨1, .snprintf (lit "p"), .http, .snprintf (lit "10.0.0.1"), 3128, .empty, .empty, .empty, 0, 0, 1⟩

def reachable : Net := { quiet with lookups := [[.connected 5]] }

/-- A request with a name and a password is guarded in both. -/
theorem connect_guards_request :
    Guarded (Memory.Overflows 384 (lit "example.org") 443 (lit "user") (lit "secret")) quiet
      (Memory.httpNegotiateOnFd (buffers 384) 7 (lit "example.org") 443 (lit "user") (lit "secret")
        quiet) ∧
    Guarded (Memory.Overflows 386 (lit "example.org") 443 (lit "user") (lit "secret"))
      (closeFd 5 ((tcpConnect httpProxy reachable).2.emit (.reach httpProxy 5)))
      (Memory.pfHttpConnect (buffers 386) httpProxy (lit "example.org") 443 (lit "user")
        (lit "secret") reachable) ∧
    Memory.pfHttpConnect (buffers 386) httpProxy (lit "example.org") 443 (lit "user")
      (lit "secret") quiet = some (none, quiet) := by
  have hroom : ∀ cap, Memory.RoomForRequest cap (lit "example.org") 443 (lit "user")
      (lit "secret") :=
    fun cap => Memory.room_of_sizes (by decide) (by decide) (by decide) (by decide)
  have hport : validPort 443 = true := by decide
  exact ⟨((connect_guards hport).1 _ 7 quiet).mpr (hroom 384),
    ((connect_guards hport).2.1 _ httpProxy reachable 5 _ rfl).mpr (hroom 386),
    (connect_guards hport).2.2 _ httpProxy quiet quiet rfl⟩

theorem no_room_for_host (credsCap : Nat) :
    ¬ Memory.RoomForRequest credsCap (List.replicate 5000 104) 443 [] [] := by
  have hline := Memory.length_requestLine (List.replicate 5000 104) 443
  rw [List.length_replicate] at hline
  unfold Memory.RoomForRequest pfBufSize
  rw [if_pos (by rfl)]
  omega

theorem no_room_for_creds {credsCap : Nat} (hcap : 383 ≤ credsCap) (dst : CStr) :
    ¬ Memory.RoomForRequest credsCap dst 443 (List.replicate 190 117) (List.replicate 191 112) := by
  have hcreds : (Memory.credentials (List.replicate 190 117) (List.replicate 191 112)).length =
      382 := by
    have hcolon : (lit ":").length = 1 := by decide
    unfold Memory.credentials
    rw [List.length_append, List.length_append, List.length_replicate, List.length_replicate, hcolon]
  unfold Memory.RoomForRequest Memory.credsFit
  rw [if_neg (by decide), hcreds]
  omega

/-- A host name of 5000 bytes makes the size of the second `snprintf` wrap round, and the base64
text of 382 bytes of credentials leaves no room for its NUL. -/
theorem connect_guards_fail :
    ¬ Guarded (Memory.Overflows 384 (List.replicate 5000 104) 443 [] []) quiet
      (Memory.httpNegotiateOnFd (buffers 384) 7 (List.replicate 5000 104) 443 [] [] quiet) ∧
    ¬ Guarded (Memory.Overflows 386 (lit "example.org") 443 (List.replicate 190 117)
        (List.replicate 191 112))
      (closeFd 5 ((tcpConnect httpProxy reachable).2.emit (.reach httpProxy 5)))
      (Memory.pfHttpConnect (buffers 386) httpProxy (lit "example.org") 443 (List.replicate 190 117)
        (List.replicate 191 112) reachable) :=
  have hdial : tcpConnect httpProxy reachable = (some 5, (tcpConnect httpProxy reachable).2) := rfl
  ⟨(not_congr (guarded_negotiate (buffers 384) 7 (by decide))).mpr (no_room_for_host 384),
    (not_congr (guarded_connect (buffers 386) (by decide) hdial)).mpr
      (no_room_for_creds (by decide) _)⟩

end Proxiflare.Guarantees.ConnectGuards
