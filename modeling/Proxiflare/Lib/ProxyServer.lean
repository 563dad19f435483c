import Mathlib.Data.Option.Basic
import Proxiflare.Lib.HttpRequest
import Proxiflare.Lib.HttpText

/-!
# What a proxy server reads

The client's messages of SOCKS4a, of SOCKS5 with its user name and password exchange,
and of HTTP CONNECT. A reader takes one message off the front of the bytes and leaves
the rest; on the message put together from its fields it returns these fields.
-/

namespace Lib.ProxyServer

open Lib.CString Lib.HttpRequest Lib.HttpText

/-- A host and a port. -/
abbrev Endpoint := CStr × Nat

def portText (port : Nat) : CStr := [UInt8.ofNat (port / 256), UInt8.ofNat port]

def portOf (high low : UInt8) : Nat := high.toNat * 256 + low.toNat

/-- Bytes after their number. -/
def sized (s : CStr) : CStr := UInt8.ofNat s.length :: s

def readSized : CStr → Option (CStr × CStr)
  | [] => none
  | n :: s => if n.toNat ≤ s.length then some (s.take n.toNat, s.drop n.toNat) else none

variable {user pass host methods : CStr} {port : Nat}

theorem portOf_portText (h : port < 65536) :
    portOf (UInt8.ofNat (port / 256)) (UInt8.ofNat port) = port := by
  unfold portOf
  rw [UInt8.toNat_ofNat', UInt8.toNat_ofNat']
  omega

theorem readSized_sized {s : CStr} (h : s.length < 256) (rest : CStr) :
    readSized (sized s ++ rest) = some (s, rest) := by
  have hlen : (UInt8.ofNat s.length).toNat = s.length := by
    rw [UInt8.toNat_ofNat', Nat.mod_eq_of_lt h]
  rw [sized, List.cons_append, readSized, hlen, if_pos (by simp), List.take_left, List.drop_left]

/-! ## SOCKS4a -/

def socks4aRequest (user host : CStr) (port : Nat) : CStr :=
  [4, 1] ++ portText port ++ [0, 0, 0, 1] ++ user ++ [0] ++ host ++ [0]

/-- The address `0.0.0.x` says that a name follows the user's. -/
def readSocks4a : CStr → Option (Endpoint × CStr)
  | 4 :: 1 :: high :: low :: 0 :: 0 :: 0 :: x :: s => do
    guard (x ≠ 0)
    let (_, s) ← cut 0 s
    let (host, s) ← cut 0 s
    guard (host ≠ [])
    pure ((host, portOf high low), s)
  | _ => none

theorem readSocks4a_request (huser : 0 ∉ user) (hne : host ≠ []) (hhost : 0 ∉ host)
    (hport : port < 65536) (rest : CStr) :
    readSocks4a (socks4aRequest user host port ++ rest) = some ((host, port), rest) := by
  have hsplit : socks4aRequest user host port ++ rest =
      4 :: 1 :: UInt8.ofNat (port / 256) :: UInt8.ofNat port :: 0 :: 0 :: 0 :: 1 ::
        (user ++ 0 :: (host ++ 0 :: rest)) := by
    simp [socks4aRequest, portText]
  rw [hsplit, readSocks4a]
  simp [cut_append huser, cut_append hhost, hne, portOf_portText hport]

/-! ## SOCKS5 -/

def socks5Greeting (methods : CStr) : CStr := 5 :: sized methods

/-- The methods offered. -/
def readGreeting : CStr → Option (CStr × CStr)
  | 5 :: s => (readSized s).filter fun p => p.1 ≠ []
  | _ => none

theorem readGreeting_greeting (hne : methods ≠ []) (hlen : methods.length < 256) (rest : CStr) :
    readGreeting (socks5Greeting methods ++ rest) = some (methods, rest) := by
  show (readSized (sized methods ++ rest)).filter _ = _
  rw [readSized_sized hlen, Option.filter_some, if_pos (by simpa using hne)]

def socks5Credentials (user pass : CStr) : CStr := 1 :: sized user ++ sized pass

def readCredentials : CStr → Option ((CStr × CStr) × CStr)
  | 1 :: s => do
    let (user, s) ← readSized s
    guard (user ≠ [])
    let (pass, s) ← readSized s
    pure ((user, pass), s)
  | _ => none

theorem readCredentials_credentials (hne : user ≠ []) (huser : user.length < 256)
    (hpass : pass.length < 256) (rest : CStr) :
    readCredentials (socks5Credentials user pass ++ rest) = some ((user, pass), rest) := by
  have hsplit : socks5Credentials user pass ++ rest =
      1 :: (sized user ++ (sized pass ++ rest)) := by
    simp [socks5Credentials]
  rw [hsplit, readCredentials]
  simp [readSized_sized huser, readSized_sized hpass, hne]

def socks5Request (host : CStr) (port : Nat) : CStr := [5, 1, 0, 3] ++ sized host ++ portText port

/-- CONNECT to a name. -/
def readSocks5 : CStr → Option (Endpoint × CStr)
  | 5 :: 1 :: 0 :: 3 :: s => do
    let (host, s) ← readSized s
    guard (host ≠ [])
    match s with
    | high :: low :: s => pure ((host, portOf high low), s)
    | _ => none
  | _ => none

theorem readSocks5_request (hne : host ≠ []) (hlen : host.length < 256) (hport : port < 65536)
    (rest : CStr) : readSocks5 (socks5Request host port ++ rest) = some ((host, port), rest) := by
  have hsplit : socks5Request host port ++ rest =
      5 :: 1 :: 0 :: 3 :: (sized host ++
        (UInt8.ofNat (port / 256) :: UInt8.ofNat port :: rest)) := by
    simp [socks5Request, portText]
  rw [hsplit, readSocks5]
  simp [readSized_sized hlen, hne, portOf_portText hport]

/-! ## HTTP -/

/-- A request head up to its blank line, which asks for a tunnel. -/
def readConnect (s : CStr) : Option (Endpoint × CStr) := do
  let r ← parseRequest (s.take (headEnd s))
  guard (r.method = lit "CONNECT")
  let (host, port) ← parseAuthority r.target
  pure ((host, (atoi port).toNat), s.drop (headEnd s))

theorem render_eq_headText (r : Request) :
    render r = headText ((r.method ++ 32 :: r.target ++ 32 :: lit "HTTP/1.1") ::
      r.fields.map fieldLine) := by
  simp [render, headText, crlfEnded, List.flatMap_map]

theorem isLine_fieldLine {f : CStr × CStr} (h : FieldOk f) : IsLine (fieldLine f) where
  ne_nil := List.append_ne_nil_of_left_ne_nil h.name_ne_nil _
  noCr := by
    have hname : (13 : UInt8) ∉ f.1 := notMem_of_class h.name (by decide)
    have hvalue : (13 : UInt8) ∉ f.2 := notMem_of_class h.value (by decide)
    simp [fieldLine, hname, hvalue]

/-- The blank line of a request is the first. -/
theorem headEnd_render {r : Request} (h : RequestOk r) (rest : CStr) :
    headEnd (render r ++ rest) = (render r).length := by
  have hmethod : (13 : UInt8) ∉ r.method := notMem_of_class h.method (by decide)
  have htarget : (13 : UInt8) ∉ r.target := notMem_of_class h.target (by decide)
  have hversion : (13 : UInt8) ∉ lit "HTTP/1.1" := by decide
  have hline : IsLine (r.method ++ 32 :: r.target ++ 32 :: lit "HTTP/1.1") :=
    ⟨by simp, by simp [hmethod, htarget, hversion]⟩
  rw [render_eq_headText]
  refine headEnd_head (List.cons_ne_nil _ _) ?_ rest
  intro line hmem
  rcases List.mem_cons.mp hmem with rfl | hmem
  · exact hline
  · obtain ⟨f, hf, rfl⟩ := List.mem_map.mp hmem
    exact isLine_fieldLine (h.fields f hf)

theorem readConnect_render {r : Request} (h : RequestOk r) (hmethod : r.method = lit "CONNECT")
    (htarget : parseAuthority r.target = some (host, decimal port)) (hport : port < 2 ^ 31)
    (rest : CStr) : readConnect (render r ++ rest) = some ((host, port), rest) := by
  unfold readConnect
  rw [headEnd_render h, List.take_left, List.drop_left, parseRequest_render h]
  simp [hmethod, htarget, atoi_decimal_self hport]

end Lib.ProxyServer
