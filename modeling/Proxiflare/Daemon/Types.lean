import Proxiflare.Lib.CString
import Mathlib.Data.List.TakeWhile

/-!
# Limits, enumerations and records of the daemon

`daemon/include/proxiflare.h` and the string conversions of `main.c`. A fixed
`char` buffer is a `CBuf`: its contents are NUL-free and leave room for the
terminator, so every record carries the length bounds its C struct imposes.
`enabled` columns stay C integers, tested against zero.
-/

namespace Proxiflare.Daemon

open Lib.CString

def pfMaxProxies : Nat := 256
def pfMaxRules : Nat := 1024
def pfMaxHops : Nat := 8
def pfBufSize : Nat := 8192
def pfDomainMax : Nat := 253
def pfPathMax : Nat := 4096

/-- The capacities a `char` array can have. -/
class BufSize (cap : Nat) : Type where
  pos : 0 < cap

instance (n : Nat) : BufSize (n + 1) := ⟨n.succ_pos⟩
instance : BufSize pfPathMax := ⟨by decide⟩
instance : BufSize pfDomainMax := ⟨by decide⟩

/-- The string held by a `char buf[cap]`. -/
structure CBuf (cap : Nat) where
  chars : CStr
  fits : chars.length < cap
  noNul : 0 ∉ chars
  deriving DecidableEq

namespace CBuf

variable {cap : Nat}

/-- `snprintf(buf, cap, "%s", s)`: truncates to `cap - 1` bytes. -/
def snprintf [BufSize cap] (s : CStr) : CBuf cap where
  chars := (cstr s).take (cap - 1)
  fits := by
    have h : 0 < cap := BufSize.pos
    have hl := List.length_take_le (cap - 1) (cstr s)
    omega
  noNul h := cstr_noNul s (List.mem_of_mem_take h)

def empty [BufSize cap] : CBuf cap := ⟨[], BufSize.pos, by simp⟩

/-- `buf[0] != '\0'`. -/
def nonempty (b : CBuf cap) : Bool := !b.chars.isEmpty

/-- A string that fits is copied whole. -/
theorem snprintf_of_fits [BufSize cap] {s : CStr} (hfits : s.length < cap) (hnul : 0 ∉ s) :
    (snprintf s : CBuf cap).chars = s := by
  show (cstr s).take (cap - 1) = s
  rw [cstr_of_noNul hnul]
  exact List.take_of_length_le (by omega)

/-- Copying a buffer into one of its own size loses nothing. -/
@[simp] theorem snprintf_chars [BufSize cap] (b : CBuf cap) : snprintf b.chars = b := by
  obtain ⟨chars, fits, noNul⟩ := b
  have hchars := snprintf_of_fits fits noNul
  rw [CBuf.mk.injEq]
  exact hchars

end CBuf

inductive ProxyType where
  | socks4 | socks5 | http | ssh
  deriving DecidableEq

inductive Action where
  | direct | proxy | chain | block | reject
  deriving DecidableEq

/-- `pf_proxy_type_str`. -/
def pfProxyTypeStr : ProxyType → CStr
  | .socks4 => lit "socks4"
  | .socks5 => lit "socks5"
  | .http => lit "http"
  | .ssh => lit "ssh"

/-- `pf_proxy_type_from_str`: exact spellings; anything else, NULL included, is SOCKS5. -/
def pfProxyTypeFromStr (s : Option CStr) : ProxyType :=
  if s = some (lit "socks4") then .socks4
  else if s = some (lit "socks5") then .socks5
  else if s = some (lit "http") then .http
  else if s = some (lit "ssh") then .ssh
  else .socks5

/-- `pf_action_str`. -/
def pfActionStr : Action → CStr
  | .direct => lit "DIRECT"
  | .proxy => lit "PROXY"
  | .chain => lit "CHAIN"
  | .block => lit "BLOCK"
  | .reject => lit "REJECT"

/-- `pf_action_from_str`: case-insensitive; anything else, NULL included, is DIRECT. -/
def pfActionFromStr (s : Option CStr) : Action :=
  match s with
  | none => .direct
  | some s =>
    if strcaseeq s (lit "direct") then .direct
    else if strcaseeq s (lit "proxy") then .proxy
    else if strcaseeq s (lit "chain") then .chain
    else if strcaseeq s (lit "block") then .block
    else if strcaseeq s (lit "reject") then .reject
    else .direct

theorem pfProxyTypeFromStr_str (t : ProxyType) :
    pfProxyTypeFromStr (some (pfProxyTypeStr t)) = t := by
  cases t <;> decide

theorem pfActionFromStr_str (a : Action) : pfActionFromStr (some (pfActionStr a)) = a := by
  cases a <;> decide

/-- `pf_proxy_t`. -/
structure Proxy where
  id : Nat
  name : CBuf 64
  type : ProxyType
  host : CBuf (pfDomainMax + 1)
  port : UInt16
  username : CBuf 128
  password : CBuf 128
  sshKeyPath : CBuf pfPathMax
  health : Int
  latencyMs : UInt32
  enabled : Int
  deriving DecidableEq

/-- `pf_rule_t`. Lower `priority` is matched first; an empty string or port 0 is no criterion. -/
structure Rule where
  id : Nat
  name : CBuf 64
  priority : Int
  appPath : CBuf pfPathMax
  domain : CBuf (pfDomainMax + 1)
  ipCidr : CBuf 48
  dstPort : UInt16
  action : Action
  proxyId : Nat
  chainId : Nat
  enabled : Int
  deriving DecidableEq

/-- `memset(&r, 0, sizeof(r))`. -/
def Rule.zero : Rule :=
  ⟨0, .empty, 0, .empty, .empty, .empty, 0, .direct, 0, 0, 0⟩

/-- `pf_chain_t`: `hops[0 .. hop_count)` are proxy ids in order. -/
structure Chain where
  id : Nat
  name : CBuf 64
  hops : List Nat
  hopsFit : hops.length ≤ pfMaxHops
  enabled : Int
  deriving DecidableEq

end Proxiflare.Daemon
