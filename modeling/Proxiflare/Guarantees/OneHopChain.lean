import Proxiflare.Daemon.ChainWire
import Proxiflare.Daemon.Routing

/-!
# A chain of one hop is the direct connector

`chain.c` has its own handshakes and its own base64 encoder. On a chain of one hop they
make the calls of the direct connector of the same record, in the same order, whatever
the proxy answers.
-/

namespace Proxiflare.Guarantees.OneHopChain

open Lib.CString Lib
open Proxiflare.Daemon

variable {p : Proxy} {dst : CStr} {port : Int}

theorem socks5LengthsOk_of_le (p : Proxy) (hdst : dst.length ≤ 255) :
    socks5LengthsOk dst p.username.chars p.password.chars = true := by
  have huser := p.username.fits
  have hpass := p.password.fits
  simp only [socks5LengthsOk, Bool.and_eq_true, Bool.or_eq_true, decide_eq_true_eq]
  omega

theorem socks4FitsRequest_of_le (p : Proxy) (hdst : dst.length ≤ 255) :
    socks4FitsRequest dst p.username.chars = true := by
  have huser := p.username.fits
  have hfits : 8 + p.username.chars.length + 1 + dst.length + 1 ≤ pfBufSize := by
    rw [pfBufSize]
    omega
  exact decide_eq_true hfits

/-- `creds[384]` and `creds[256 + 1 + 128 + 1]` both hold the credentials of a record. -/
theorem httpRequest_same (p : Proxy) (hdst : dst.length ≤ 255) (hport : validPort port = true) :
    httpRequest 384 none dst port p.username.chars p.password.chars =
      httpRequest 386 (some 512) dst port p.username.chars p.password.chars := by
  rw [httpRequest_eq 384 none (by decide) (by simp) hdst p.username.fits p.password.fits hport,
    httpRequest_eq 386 (some 512) (by decide) (by simp) hdst p.username.fits p.password.fits hport]

/-- Once its checks have passed, a direct connector dials the proxy and asks it as a hop. -/
theorem single_eq_dialled_hop (htype : p.type ≠ .ssh) (hdst : dst.length ≤ 255)
    (hport : validPort port = true) :
    connectors.single p dst port = (do
      let fd ← tcpConnect p
      (negotiateHopOnFd fd p dst port).onFail (closeFd fd)
      pure fd) := by
  unfold Connectors.single negotiateHopOnFd negotiateSwitch
  cases hp : p.type with
  | socks5 =>
    simp only [socks5NegotiateOnFd, hport, socks5LengthsOk_of_le p hdst]
    show pfSocks5Connect p dst port = _
    unfold pfSocks5Connect
    rw [hport, socks5LengthsOk_of_le p hdst]
    rfl
  | socks4 =>
    simp only [socks4NegotiateOnFd, hport, socks4FitsRequest_of_le p hdst]
    show pfSocks4Connect p dst port = _
    unfold pfSocks4Connect
    rw [hport, socks4FitsRequest_of_le p hdst]
    rfl
  | http =>
    simp only [httpNegotiateOnFd, httpExchange, hport, httpRequest_same p hdst hport]
    show pfHttpConnect p dst port = _
    unfold pfHttpConnect
    rw [hport]
    rfl
  | ssh => exact absurd hp htype

/-- For every record that is no SSH proxy, every destination and every script: the same descriptor
or failure, the same calls with the same bytes, and the same input left. -/
theorem one_hop_chain_is_direct {chain : Chain} {proxies : List Proxy} {id : Nat}
    (hhops : chain.hops = [id]) (hfind : findProxy proxies id = some p) (htype : p.type ≠ .ssh)
    (hdst : dst.length ≤ 255) (hport : 1 ≤ port ∧ port ≤ 65535) (net : Net) :
    netCarrier.pfChainConnect chain proxies dst port net = connectors.single p dst port net := by
  have hvalid : validPort port = true := by
    simpa [validPort] using hport
  have hlookup : chain.hops.mapM (findProxy proxies) = some [p] := by
    rw [hhops, List.mapM_cons, hfind]
    rfl
  have hcount : (1 ≤ chain.hops.length && chain.hops.length ≤ pfMaxHops : Bool) = true := by
    rw [hhops]
    rfl
  rw [netCarrier_pfChainConnect, single_eq_dialled_hop htype hdst hvalid]
  unfold pfChainConnect
  rw [hcount, hvalid, hlookup]
  simp only [decide_eq_true htype]
  rfl

/-! ## An instance -/

def oneHop : Chain := ⟨4, .snprintf (lit "c"), [5], by decide, 1⟩

def namedHttp : Proxy :=
  ⟨5, .snprintf (lit "p"), .http, .snprintf (lit "10.0.0.1"), 3128, .snprintf (lit "me"),
    .snprintf (lit "pw"), .empty, 0, 0, 1⟩

/-- A proxy that answers in two pieces. -/
theorem named_http_is_direct :
    netCarrier.pfChainConnect oneHop [namedHttp] (lit "a.b") 443
        ⟨[[.connected 3]], [], [lit "HTTP/1.1 ", lit "200 OK\r\n\r\n"], []⟩ =
      connectors.single namedHttp (lit "a.b") 443
        ⟨[[.connected 3]], [], [lit "HTTP/1.1 ", lit "200 OK\r\n\r\n"], []⟩ :=
  one_hop_chain_is_direct rfl rfl (by decide) (by decide) (by decide) _

end Proxiflare.Guarantees.OneHopChain
