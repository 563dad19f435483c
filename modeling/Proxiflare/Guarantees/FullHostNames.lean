import Proxiflare.Daemon.Routing
import Proxiflare.Guarantees.SniRoundTrip

/-!
# Full host names

`PF_DOMAIN_MAX` is the length of the longest host name. The buffer of the accept thread and the
field of the connection record have just that size, so the longest name loses its last byte to the
terminator.
-/

namespace Proxiflare.Guarantees.FullHostNames

open Lib Lib.CString Lib.ClientHello
open Proxiflare.Daemon
open SniRoundTrip (copied pfSniExtract_record copied_of_fits)

def isHostByte (c : UInt8) : Bool :=
  isDigit c || (65 ≤ c && c ≤ 90) || (97 ≤ c && c ≤ 122) || c = 45

/-- Labels of 1 to 63 letters, digits and hyphens with dots between them, 253 bytes at most. -/
structure LegalName (name : CStr) : Prop where
  length_le : name.length ≤ 253
  bytes : ∀ c ∈ name, isHostByte c = true ∨ c = 46
  labels : ∀ label ∈ name.splitOn 46, 1 ≤ label.length ∧ label.length ≤ 63

variable {a : Accepted} {name : CStr}

theorem LegalName.noNul (h : LegalName name) : 0 ∉ name := fun hmem =>
  (h.bytes 0 hmem).elim (by decide) (by decide)

/-! ## From the thread to the record -/

end Proxiflare.Guarantees.FullHostNames
