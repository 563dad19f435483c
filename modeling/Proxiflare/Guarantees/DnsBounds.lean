import Proxiflare.Daemon.DnsMemory

/-!
# Reading a DNS packet stays within the packet

Every pointer the callback forms is compared with the end of the packet before it is read,
and every loop moves its pointer forwards. So no access faults, however the lengths and
counts in the packet lie, and the name is terminated in `domain`.
-/

namespace Proxiflare.Guarantees.DnsBounds

open Lib Lib.CString Lib.CBody
open Proxiflare.Daemon

/-- What the decoder leaves in a zeroed `domain`: a string that ends within it, and a pointer that
is not past the packet. -/
structure Bounded (pkt : CStr) (after : Option Nat) (domain : CStr) : Prop where
  size : domain.length = pfDomainMax
  terminated : 0 ∈ domain
  inside : ∀ p ∈ after, p ≤ pkt.length

theorem bounded_of_ends {pkt domain : CStr} {result : CStr × Option CStr} {after : Option Nat}
    (h : Memory.QnameEnds pkt pfDomainMax result after domain) : Bounded pkt after domain := by
  obtain ⟨hroom, rfl, hafter⟩ := h
  refine ⟨length_padded (Nat.le_of_lt hroom), mem_padded hroom, fun p hp => ?_⟩
  cases after with
  | none => cases hp
  | some q =>
    obtain rfl := Option.some.inj hp
    exact hafter.1

/-- For every packet, rules and cache. -/
theorem dns_callback_bounded (rs : Ruleset) (pkt : CStr) (d : Dns) (turns : Nat)
    (hturns : pkt.length < turns) :
    call (Memory.dnsCallback rs pkt turns) d = some ((), dnsCallback rs pkt d) ∧
      ∀ ptr ≤ pkt.length, ∃ after domain,
        call (Memory.dnsParseQname pkt pfDomainMax turns ptr) (List.replicate pfDomainMax 0) =
          some (after, domain) ∧ Bounded pkt after domain := by
  constructor
  · have hmeets : Meets (Memory.dnsCallback rs pkt turns) d
        (fun _ t => t = dnsCallback rs pkt d) fun _ t => t = dnsCallback rs pkt d :=
      Memory.meets_dnsCallback hturns
    obtain ⟨_, t, hcall, rfl⟩ := hmeets.call
    exact hcall
  · intro ptr hptr
    have hsize : 0 < pfDomainMax := BufSize.pos
    obtain ⟨after, domain, hcall, hends⟩ := Memory.call_dnsParseQname
      (n := pkt.length - ptr + 1) hsize hptr hturns (by omega)
    exact ⟨after, domain, hcall, bounded_of_ends hends⟩

/-- A response whose question is a compression pointer to itself, cut off after it. -/
def pointerPacket : CStr :=
  [0x45, 0, 0, 0, 0, 0, 0, 0, 64, 17] ++ List.replicate 18 0 ++
    [1, 2, 128, 0, 0, 1, 255, 255, 0, 0, 0, 0, 0xC0, 12]

theorem pointerPacket_bounded :
    call (Memory.dnsCallback [] pointerPacket 43) (.start 0) =
        some ((), dnsCallback [] pointerPacket (.start 0)) ∧
      ∃ after domain,
        call (Memory.dnsParseQname pointerPacket pfDomainMax 43 40) (List.replicate pfDomainMax 0) =
          some (after, domain) ∧ Bounded pointerPacket after domain :=
  have h := dns_callback_bounded [] pointerPacket (.start 0) 43 (by decide)
  ⟨h.1, h.2 40 (by decide)⟩

end Proxiflare.Guarantees.DnsBounds
