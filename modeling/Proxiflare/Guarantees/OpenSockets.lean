import Proxiflare.Daemon.ConnectorExits
import Proxiflare.Guarantees.ConnectGuards

/-!
# The descriptors a connector opens

From the first successful `socket` to the return a connector has one descriptor, and each exit
closes it. The builders of a CONNECT request may write beyond their buffers before they come to
an exit.
-/

namespace Proxiflare.Guarantees.OpenSockets

open Lib Lib.CString Lib.CBody Lib.Ledger
open Proxiflare.Daemon
open Proxiflare.Guarantees.ConnectGuards (buffers httpProxy no_room_for_host)

variable {α β : Type}

/-- `socket` comes right before its `connect`, which is on record. -/
def fdEffect : Event → Effect Fd
  | .dial _ fd => .opens fd
  | .direct fd _ _ => .opens fd
  | .closed fd => .closes fd
  | .useProxy _ => .none
  | .useChain _ => .none
  | .reach _ _ => .none
  | .sent _ _ => .none

variable {fd : Fd} {m : Act Net α} {post : Option β → List Fd}

/-- A hop negotiates over the descriptor it is given. -/
theorem negotiateHop_moves (fd : Fd) (p : Proxy) (dst : CStr) (port : Int) :
    Act.Moves (Adds fun e => fdEffect e = .none) (negotiateHopOnFd fd p dst port) :=
  negotiateHopOnFd_adds (P := fun e => fdEffect e = .none) (fun _ _ => rfl) rfl dst port

theorem negotiateHops_moves (fd : Fd) (hops : List Proxy) (dst : CStr) (port : Int) :
    Act.Moves (Adds fun e => fdEffect e = .none) (negotiateHops fd hops dst port) := by
  induction hops with
  | nil => exact .pure _
  | cons hop rest ih =>
    cases rest with
    | nil => exact negotiateHop_moves fd hop dst port
    | cons next rest => exact .bind (negotiateHop_moves fd hop _ _) fun _ => ih

/-! ## The connectors -/

end Proxiflare.Guarantees.OpenSockets
