import Proxiflare.Daemon.ChainWire
import Proxiflare.Lib.CBody

/-!
# The CONNECT builders on their buffers

How `pf_http_connect` of `daemon/src/proxy_http.c` and `http_negotiate_on_fd` of `chain.c` fill
`req`, `creds` and `b64`, with every write checked against its buffer. Where no access faults
they send what the connectors of `Connectors` send.
-/

namespace Proxiflare.Daemon.Memory

open Lib Lib.CString Lib.CBody

def intMax : Nat := 2147483647

def b64Size : Nat := 512

/-- What the three buffers hold on entry. `creds` has another size in each of the two functions. -/
structure Buffers (credsCap : Nat) where
  req : CStr
  creds : CStr
  b64 : CStr
  reqSize : req.length = pfBufSize
  credsSize : creds.length = credsCap
  b64Full : b64.length = b64Size

section Builder

variable {ρ σ : Type}

/-- What `snprintf` returns: the length of the whole text, -1 where that is no `int`. -/
def wouldBe (text : CStr) : Int := if text.length ≤ intMax then text.length else -1

/-- `snprintf(buf + pos, size, ...)`. -/
def snprintf (buf : CStr) (pos size : Nat) (text : CStr) : CBody ρ σ (CStr × Int) := do
  let buf ← if size = 0 then pure buf else store buf pos (text.take (size - 1) ++ [0])
  pure (buf, wouldBe text)

/-- `sizeof(req) - (size_t)req_len`, which wraps round for a length that is negative or beyond the
buffer: a fault here. -/
def sizeLeft (len : Int) : CBody ρ σ Nat :=
  if 0 ≤ len ∧ len ≤ pfBufSize then pure (pfBufSize - len.toNat) else fault

/-- `req_len += snprintf(req + req_len, sizeof(req) - (size_t)req_len, ...)`. -/
def append (req : CStr) (len : Int) (text : CStr) : CBody ρ σ (CStr × Int) := do
  let size ← sizeLeft len
  let (req, n) ← snprintf req len.toNat size text
  pure (req, len + n)

def requestLine (dst : CStr) (port : Int) : CStr :=
  lit "CONNECT " ++ (dst ++ lit ":" ++ decimal port.toNat) ++ lit " HTTP/1.1\r\nHost: " ++
    (dst ++ lit ":" ++ decimal port.toNat) ++ lit "\r\n"

def authLine (b64 : CStr) : CStr := lit "Proxy-Authorization: Basic " ++ b64 ++ lit "\r\n"

/-- `if (has_auth)`: the credentials, their base64 text and its header line. `encode` is the base64
encoder of the function, `r` what it returns where it gives up. -/
def appendAuth (r : ρ) (encode : CStr → Nat → CStr → CBody ρ σ CStr) {credsCap : Nat}
    (b : Buffers credsCap) (user pass : CStr) (req : CStr) (len : Int) :
    CBody ρ σ (CStr × Int) := do
  let (creds, clen) ← snprintf b.creds 0 credsCap (user ++ lit ":" ++ pass)
  require (0 < clen ∧ clen < credsCap) r
  let b64 ← encode creds clen.toNat b.b64
  let text ← loadUntil b64 0
  append req len (authLine text)

/-- The blank line, the check of the length and the bytes to send. -/
def finish (r : ρ) (req : CStr) (len : Int) : CBody ρ σ CStr := do
  let (req, len) ← append req len (lit "\r\n")
  require (0 < len ∧ len < pfBufSize) r
  loadRange req 0 len.toNat

def buildRequest (r : ρ) (encode : CStr → Nat → CStr → CBody ρ σ CStr) {credsCap : Nat}
    (b : Buffers credsCap) (dst : CStr) (port : Int) (user pass : CStr) : CBody ρ σ CStr := do
  let (req, len) ← append b.req 0 (requestLine dst port)
  if user.isEmpty then finish r req len
  else do
    let (req, len) ← appendAuth r encode b user pass req len
    finish r req len

/-- `base64_encode` of `proxy_http.c`. `EVP_EncodeBlock` ends what it writes with a NUL. -/
def evpEncode (r : ρ) (creds : CStr) (clen : Nat) (b64 : CStr) : CBody ρ σ CStr := do
  let src ← loadRange creds 0 clen
  let outLen := (base64Encode src).length
  let b64 ← store b64 0 (base64Encode src ++ [0])
  require (outLen < b64Size) r
  store b64 outLen [0]

/-- The four letters of one turn of the encoder of `chain.c`. -/
def chainGroup (creds : CStr) (clen i : Nat) : CBody ρ σ CStr := do
  let a ← load creds i
  let val : UInt32 := a.toUInt32 <<< 16
  let val ← if i + 1 < clen then do
      let b ← load creds (i + 1)
      pure (val ||| b.toUInt32 <<< 8)
    else pure val
  let val ← if i + 2 < clen then do
      let c ← load creds (i + 2)
      pure (val ||| c.toUInt32)
    else pure val
  pure [b64Char (val >>> 18), b64Char (val >>> 12), if i + 1 < clen then b64Char (val >>> 6) else 61,
    if i + 2 < clen then b64Char val else 61]

/-- One turn of `for (int i = 0; i < clen; i += 3)`, with `b64` and `b64_len`. -/
def chainTurn (creds : CStr) (clen : Nat) : Nat × CStr × Nat → CBody ρ σ ((Nat × CStr × Nat) ⊕ (CStr × Nat))
  | (i, b64, b64Len) =>
    if i < clen then do
      let group ← chainGroup creds clen i
      let b64 ← store b64 b64Len group
      pure (.inl (i + 3, b64, b64Len + 4))
    else pure (.inr (b64, b64Len))

def chainEncode (creds : CStr) (clen : Nat) (b64 : CStr) : CBody ρ σ CStr := do
  let (b64, b64Len) ← loop (chainTurn creds clen) (clen + 1) (0, b64, 0)
  store b64 b64Len [0]

end Builder

/-! ## The two functions -/

def ofAct {ρ α : Type} (r : ρ) (m : Act Net α) : CBody ρ Net α := fun net =>
  match m net with
  | (some a, net) => some (.ok a, net)
  | (none, net) => some (.error r, net)

/-- From the request on, over a connection. -/
def exchange (encode : CStr → Nat → CStr → CBody (Option PUnit) Net CStr) {credsCap : Nat}
    (b : Buffers credsCap) (fd : Fd) (dst : CStr) (port : Int) (user pass : CStr) :
    CBody (Option PUnit) Net (Option PUnit) := do
  let req ← buildRequest none encode b dst port user pass
  let _ ← ofAct none do
    sendAll fd req
    let resp ← recvResponse
    Act.require (statusCode resp = some 200)
  pure (some ⟨⟩)

/-- `none` is a fault, in the result `none` is the -1 of the source. -/
def httpNegotiateOnFd (b : Buffers 384) (fd : Fd) (dst : CStr) (port : Int) (user pass : CStr)
    (net : Net) : Option (Option PUnit × Net) :=
  if validPort port then call (exchange chainEncode b fd dst port user pass) net else some (none, net)

/-- `p` has the `proxy_host` and `proxy_port` that are connected to. -/
def pfHttpConnect (b : Buffers 386) (p : Proxy) (dst : CStr) (port : Int) (user pass : CStr)
    (net : Net) : Option (Option Fd × Net) :=
  if validPort port then
    match tcpConnect p net with
    | (none, net) => some (none, net)
    | (some fd, net) =>
      match call (exchange (evpEncode none) b fd dst port user pass) (net.emit (.reach p fd)) with
      | none => none
      | some (none, net) => some (none, closeFd fd net)
      | some (some _, net) => some (some fd, net)
  else some (none, net)

/-- The `switch` of `negotiate_hop_on_fd`, its HTTP case on its buffers. -/
def negotiateSwitch (b : Buffers 384) (fd : Fd) (p : Proxy) (dst : CStr) (port : Int) (net : Net) :
    Option (Option PUnit × Net) :=
  match p.type with
  | .socks5 => some (socks5NegotiateOnFd fd p dst port net)
  | .socks4 => some (socks4NegotiateOnFd fd p dst port net)
  | .http => httpNegotiateOnFd b fd dst port p.username.chars p.password.chars net
  | .ssh => some (none, net)

def negotiateHopOnFd (b : Buffers 384) (fd : Fd) (p : Proxy) (dst : CStr) (port : Int) (net : Net) :
    Option (Option PUnit × Net) :=
  negotiateSwitch b fd p dst port (net.emit (.reach p fd))

/-! ## Appending to the request -/

/-- The request text so far, as long as it fits with its NUL. -/
structure Holds (req text : CStr) : Prop where
  size : req.length = pfBufSize
  take : text.length < pfBufSize → req.take text.length = text

variable {ρ σ : Type} {req t text creds b64 src : CStr}

theorem sizeLeft_eq {n : Nat} (h : n ≤ pfBufSize) :
    (sizeLeft n : CBody ρ σ Nat) = pure (pfBufSize - n) := by
  unfold sizeLeft
  rw [if_pos ⟨by omega, by omega⟩]
  rfl

theorem sizeLeft_eq_fault {n : Int} (h : n < 0 ∨ (pfBufSize : Int) < n) :
    (sizeLeft n : CBody ρ σ Nat) = fault := by
  unfold sizeLeft
  rw [if_neg (by omega)]

theorem snprintf_eq (text : CStr) {pos size : Nat} (h : pos + size ≤ req.length) :
    ∃ req', (snprintf req pos size text : CBody ρ σ (CStr × Int)) =
        pure (req', wouldBe text) ∧
      req'.length = req.length ∧
      (text.length < size → ∃ rest, req' = req.take pos ++ (text ++ 0 :: rest)) := by
  unfold snprintf
  by_cases hzero : size = 0
  · rw [if_pos hzero]
    refine ⟨req, rfl, rfl, fun hlt => ?_⟩
    omega
  · have hfits : pos + (text.take (size - 1) ++ [0]).length ≤ req.length := by
      rw [List.length_append, List.length_take, List.length_singleton]
      omega
    rw [if_neg hzero, store_eq hfits]
    refine ⟨_, rfl, length_overwrite hfits, fun hlt =>
      ⟨req.drop (pos + (text ++ [0]).length), ?_⟩⟩
    rw [List.take_of_length_le (show text.length ≤ size - 1 by omega), overwrite, List.append_assoc,
      List.append_assoc]
    rfl

theorem append_eq (hreq : Holds req t) (hlen : t.length ≤ pfBufSize) (text : CStr) :
    ∃ req', (append req t.length text : CBody ρ σ (CStr × Int)) =
        pure (req', t.length + wouldBe text) ∧
      Holds req' (t ++ text) := by
  have hsize := hreq.size
  have hroom : t.length + (pfBufSize - t.length) ≤ req.length := by omega
  obtain ⟨req', hprint, hlen', htext⟩ :=
    snprintf_eq (ρ := ρ) (σ := σ) text hroom
  refine ⟨req', ?_, hlen'.trans hsize, fun hlt => ?_⟩
  · unfold append
    rw [sizeLeft_eq hlen, pure_then, Int.toNat_natCast, hprint, pure_then]
  · rw [List.length_append] at hlt
    obtain ⟨rest, rfl⟩ := htext (by omega)
    rw [hreq.take (by omega), ← List.append_assoc, List.take_left]

theorem append_eq_fault {n : Int} (h : n < 0 ∨ (pfBufSize : Int) < n) (text : CStr) :
    (append req n text : CBody ρ σ (CStr × Int)) = fault := by
  unfold append
  rw [sizeLeft_eq_fault h, fault_then]

/-! ## The two base64 encoders -/

/-- The longest credentials whose base64 text and NUL fit into `b64`. -/
def credsFit : Nat := 381

/-- An encoder leaves the base64 text of its input in `b64`, or faults because there is no room. -/
structure Encodes (credsCap : Nat) (encode : CStr → Nat → CStr → CBody ρ σ CStr) : Prop where
  fits : ∀ creds b64 src rest, creds = src ++ rest → b64.length = b64Size → src.length ≤ credsFit →
    ∃ rest', encode creds src.length b64 = pure (base64Encode src ++ 0 :: rest')
  faults : ∀ creds b64 src rest, creds = src ++ rest → b64.length = b64Size → credsFit < src.length →
    src.length < credsCap → encode creds src.length b64 = fault

theorem b64At_ne_zero (n : Nat) : b64At n ≠ 0 := by
  have hall : b64chars.all (· ≠ 0) = true := by decide
  have hlen : n % 64 < b64chars.length := Nat.mod_lt n (by decide)
  unfold b64At
  rw [List.getD_eq_getElem?_getD, List.getElem?_eq_getElem hlen]
  exact of_decide_eq_true (List.all_eq_true.mp hall _ (List.getElem_mem hlen))

theorem ne_zero_of_mem_base64Encode {s : CStr} {c : UInt8} (h : c ∈ base64Encode s) : c ≠ 0 := by
  induction s using base64Encode.induct with
  | case1 => simp [base64Encode] at h
  | case2 a =>
    simp only [base64Encode, List.mem_cons, List.not_mem_nil, or_false] at h
    rcases h with rfl | rfl | rfl | rfl
    · exact b64At_ne_zero _
    · exact b64At_ne_zero _
    · decide
    · decide
  | case3 a b =>
    simp only [base64Encode, List.mem_cons, List.not_mem_nil, or_false] at h
    rcases h with rfl | rfl | rfl | rfl
    · exact b64At_ne_zero _
    · exact b64At_ne_zero _
    · exact b64At_ne_zero _
    · decide
  | case4 a b c' rest ih =>
    simp only [base64Encode, List.mem_append, List.mem_cons, List.not_mem_nil, or_false] at h
    rcases h with (rfl | rfl | rfl | rfl) | h
    · exact b64At_ne_zero _
    · exact b64At_ne_zero _
    · exact b64At_ne_zero _
    · exact b64At_ne_zero _
    · exact ih h

theorem encodes_evp (r : ρ) : Encodes 386 (evpEncode r : CStr → Nat → CStr → CBody ρ σ CStr) where
  fits creds b64 src rest hcreds hb64 hsrc := by
    have hlen := base64Encode_length src
    have hroom : (base64Encode src).length < b64Size := by
      unfold b64Size credsFit at *
      omega
    have hwrite : 0 + (base64Encode src ++ [0]).length ≤ b64.length := by
      rw [List.length_append, List.length_singleton]
      omega
    unfold evpEncode
    rw [hcreds, loadRange_eq (by simp), pure_then, List.drop_zero, List.take_left]
    dsimp only
    rw [store_eq hwrite, pure_then, require_eq hroom, pure_then, overwrite_zero, List.append_assoc,
      store_eq ?_]
    · exact ⟨_, congrArg pure (overwrite_append _ _ _)⟩
    · simp

  faults creds b64 src rest hcreds hb64 hsrc hcap := by
    have hlen := base64Encode_length src
    have hover : b64.length < 0 + (base64Encode src ++ [0]).length := by
      rw [List.length_append, List.length_singleton]
      unfold b64Size credsFit at *
      omega
    unfold evpEncode
    rw [hcreds, loadRange_eq (by simp), pure_then, List.drop_zero, List.take_left]
    dsimp only
    rw [store_eq_fault hover, fault_then]

theorem load_getD {creds src rest : CStr} {i : Nat} (hcreds : creds = src ++ rest)
    (hi : i < src.length) : (load creds i : CBody ρ σ UInt8) = pure (src.getD i 0) := by
  apply load_eq
  rw [hcreds, List.getElem?_append_left hi, List.getD_eq_getElem?_getD, List.getElem?_eq_getElem hi]
  rfl

/-- A turn has the letters of one turn of the loop over the whole text. -/
theorem chainGroup_eq {rest : CStr} {i : Nat} (hcreds : creds = src ++ rest) (hi : i < src.length) :
    ∃ group, (chainGroup creds src.length i : CBody ρ σ CStr) = pure group ∧ group.length = 4 ∧
      base64Loop src i = group ++ base64Loop src (i + 3) := by
  rw [base64Loop, if_pos hi]
  unfold chainGroup
  rw [load_getD hcreds hi, pure_then]
  by_cases h1 : i + 1 < src.length
  · by_cases h2 : i + 2 < src.length
    · simp only [if_pos h1, if_pos h2, load_getD hcreds h1, load_getD hcreds h2, pure_then]
      exact ⟨_, rfl, rfl, rfl⟩
    · simp only [if_pos h1, if_neg h2, load_getD hcreds h1, pure_then]
      exact ⟨_, rfl, rfl, rfl⟩
  · by_cases h2 : i + 2 < src.length
    · omega
    · simp only [if_neg h1, if_neg h2, pure_then]
      exact ⟨_, rfl, rfl, rfl⟩

/-- What is written to `b64`, and what the loop has still to write, is the whole text. -/
def Encoding (src b64 : CStr) : Nat × CStr × Nat → Prop
  | (i, now, len) => ∃ done, now = done ++ b64.drop done.length ∧ len = done.length ∧
    done ++ base64Loop src i = base64Encode src

/-- The loop stays within `b64` and leaves the base64 text at its start. -/
theorem chainLoop_eq {rest : CStr} (hcreds : creds = src ++ rest) (hb64 : b64.length = b64Size)
    (hsrc : src.length < 384) :
    (loop (chainTurn creds src.length) (src.length + 1) (0, b64, 0) : CBody ρ σ (CStr × Nat)) =
      pure (base64Encode src ++ b64.drop (base64Encode src).length, (base64Encode src).length) := by
  funext s
  have hlen := base64Encode_length src
  have hroom : (base64Encode src).length ≤ b64.length := by
    unfold b64Size at hb64
    omega
  apply Meets.eq
  refine meets_loop (fun x t => t = s ∧ Encoding src b64 x) (fun x => src.length - x.1) ?_
    ⟨rfl, [], rfl, rfl, base64Loop_eq src⟩ (by simp)
  rintro ⟨i, b64', len⟩ t ⟨rfl, done, rfl, rfl, hdone⟩
  unfold chainTurn
  dsimp only
  by_cases hi : i < src.length
  · obtain ⟨group, hgroup, hfour, hloop⟩ := chainGroup_eq (ρ := ρ) (σ := σ) hcreds hi
    have htotal := congrArg List.length hdone
    rw [hloop, List.length_append, List.length_append] at htotal
    have hstore : done.length + group.length ≤ (done ++ b64.drop done.length).length := by
      rw [List.length_append, List.length_drop]
      omega
    rw [if_pos hi, hgroup, pure_then, store_eq hstore, pure_then, meets_pure]
    refine ⟨⟨rfl, done ++ group, ?_, ?_, ?_⟩, ?_⟩
    · show overwrite (done ++ b64.drop done.length) done.length group = _
      rw [overwrite_append, List.drop_drop, List.length_append, List.append_assoc]
    · rw [List.length_append, hfour]
    · rw [List.append_assoc, ← hloop, hdone]
    · show src.length - (i + 3) < src.length - i
      omega
  · have hend : base64Loop src i = [] := by
      rw [base64Loop, if_neg hi]
    rw [hend, List.append_nil] at hdone
    rw [if_neg hi, meets_pure, ← hdone]
    exact ⟨rfl, rfl⟩

theorem encodes_chain : Encodes 384 (chainEncode : CStr → Nat → CStr → CBody ρ σ CStr) where
  fits creds b64 src rest hcreds hb64 hsrc := by
    have hlen := base64Encode_length src
    have hroom : (base64Encode src).length + [(0 : UInt8)].length ≤
        (base64Encode src ++ b64.drop (base64Encode src).length).length := by
      rw [List.length_append, List.length_drop, List.length_singleton]
      unfold b64Size credsFit at *
      omega
    unfold chainEncode
    rw [chainLoop_eq hcreds hb64 (by unfold credsFit at hsrc; omega), pure_then]
    dsimp only
    rw [store_eq hroom, overwrite_append]
    exact ⟨_, rfl⟩
  faults creds b64 src rest hcreds hb64 hsrc hcap := by
    have hlen := base64Encode_length src
    have hover : (base64Encode src ++ b64.drop (base64Encode src).length).length <
        (base64Encode src).length + [(0 : UInt8)].length := by
      rw [List.length_append, List.length_drop, List.length_singleton]
      unfold b64Size credsFit at *
      omega
    unfold chainEncode
    rw [chainLoop_eq hcreds hb64 hcap, pure_then]
    exact store_eq_fault hover

/-! ## The whole request -/

def credentials (user pass : CStr) : CStr := user ++ lit ":" ++ pass

/-- No running length is beyond `req` when the next text is appended, and credentials that are not
refused leave room for their base64 text and its NUL. -/
def RoomForRequest (credsCap : Nat) (dst : CStr) (port : Int) (user pass : CStr) : Prop :=
  if user.isEmpty then (requestLine dst port).length ≤ pfBufSize
  else credsCap ≤ (credentials user pass).length ∨
    (credentials user pass).length ≤ credsFit ∧
      (requestLine dst port ++ authLine (base64Encode (credentials user pass))).length ≤ pfBufSize

/-- The credentials or the request do not fit. -/
def Overflows (credsCap : Nat) (dst : CStr) (port : Int) (user pass : CStr) : Prop :=
  (user.isEmpty = false ∧ credsCap ≤ (credentials user pass).length) ∨
    pfBufSize ≤ (connectText dst port user pass).length

variable {r : ρ} {encode : CStr → Nat → CStr → CBody ρ σ CStr} {credsCap : Nat}
  {b64Cap : Option Nat} {dst user pass : CStr} {port : Int}

theorem length_requestLine (dst : CStr) (port : Int) :
    (requestLine dst port).length = 2 * (dst.length + (decimal port.toNat).length) + 29 := by
  have hlits : (lit "CONNECT ").length = 8 ∧ (lit ":").length = 1 ∧
      (lit " HTTP/1.1\r\nHost: ").length = 17 ∧ (lit "\r\n").length = 2 := by decide
  obtain ⟨hconnect, hcolon, hhost, hcrlf⟩ := hlits
  unfold requestLine
  simp only [List.length_append, hconnect, hcolon, hhost, hcrlf]
  omega

theorem length_authLine (b64 : CStr) : (authLine b64).length = b64.length + 29 := by
  have hlits : (lit "Proxy-Authorization: Basic ").length = 27 ∧ (lit "\r\n").length = 2 := by
    decide
  obtain ⟨hname, hcrlf⟩ := hlits
  unfold authLine
  simp only [List.length_append, hname, hcrlf]
  omega

theorem connectText_eq (dst : CStr) (port : Int) (user pass : CStr) :
    connectText dst port user pass = (requestLine dst port ++
      (if user.isEmpty then [] else authLine (base64Encode (credentials user pass)))) ++
        lit "\r\n" := rfl

theorem httpRequest_eq_ite (hb64Cap : ∀ cap ∈ b64Cap, 509 ≤ cap)
    (hcreds : user.isEmpty = true ∨ (credentials user pass).length ≤ credsFit)
    (hcap : credsFit < credsCap) :
    httpRequest credsCap b64Cap dst port user pass =
      if (connectText dst port user pass).length < pfBufSize then
        some (connectText dst port user pass)
      else none := by
  have hgo : ¬ (!user.isEmpty && ((user ++ lit ":" ++ pass).length ≥ credsCap ||
      b64Cap.any ((base64Encode (user ++ lit ":" ++ pass)).length ≥ ·))) = true := by
    rcases hcreds with huser | hcreds
    · simp [huser]
    · have hshort : ¬ (user ++ lit ":" ++ pass).length ≥ credsCap := by
        unfold credentials at hcreds
        omega
      have hlen := base64Encode_length (user ++ lit ":" ++ pass)
      have hany : b64Cap.any ((base64Encode (user ++ lit ":" ++ pass)).length ≥ ·) = false := by
        cases b64Cap with
        | none => rfl
        | some cap =>
          have hroom := hb64Cap cap rfl
          rw [Option.any_some, decide_eq_false_iff_not]
          unfold credentials credsFit at hcreds
          omega
      rw [hany, Bool.or_false, Bool.and_eq_true, decide_eq_true_eq]
      exact fun h => hshort h.2
  refine (if_neg hgo).trans ?_
  by_cases hlt : (connectText dst port user pass).length < pfBufSize
  · rw [if_pos hlt]
    exact if_neg (by show ¬ (connectText dst port user pass).length ≥ pfBufSize; omega)
  · rw [if_neg hlt]
    exact if_pos (by show (connectText dst port user pass).length ≥ pfBufSize; omega)

theorem httpRequest_eq_none (huser : ¬ user.isEmpty = true)
    (hlong : credsCap ≤ (credentials user pass).length) :
    httpRequest credsCap b64Cap dst port user pass = none := by
  refine if_pos ?_
  unfold credentials at hlong
  have hge : (user ++ lit ":" ++ pass).length ≥ credsCap := hlong
  simp only [Bool.and_eq_true, Bool.or_eq_true, decide_eq_true_eq, Bool.not_eq_true']
  exact ⟨Bool.eq_false_iff.mpr huser, .inl hge⟩

theorem wouldBe_of_le (h : text.length ≤ pfBufSize) : wouldBe text = text.length := by
  unfold wouldBe
  rw [if_pos (h.trans (by decide))]

theorem wouldBe_of_gt {cap : Nat} (h : cap ≤ text.length) : wouldBe text < 0 ∨ (cap : Int) ≤ wouldBe text := by
  unfold wouldBe
  split
  · exact .inr (by omega)
  · exact .inl (by omega)

/-- The last line, the check and the bytes sent. -/
theorem finish_eq (hreq : Holds req t) (hlen : t.length ≤ pfBufSize) :
    (finish r req t.length : CBody ρ σ CStr) =
      if (t ++ lit "\r\n").length < pfBufSize then pure (t ++ lit "\r\n") else ret r := by
  obtain ⟨req', happend, hreq'⟩ := append_eq (ρ := ρ) (σ := σ) hreq hlen (lit "\r\n")
  have htwo : (lit "\r\n").length = 2 := by decide
  have hsize := hreq'.size
  unfold finish
  rw [happend, pure_then]
  dsimp only
  rw [wouldBe_of_le (by rw [htwo]; decide), ← Int.natCast_add, ← List.length_append]
  by_cases hlt : (t ++ lit "\r\n").length < pfBufSize
  · have hpos : 0 < (t ++ lit "\r\n").length := by
      rw [List.length_append, htwo]
      omega
    rw [if_pos hlt, require_eq ⟨by omega, by omega⟩, pure_then, Int.toNat_natCast,
      loadRange_eq (by omega), List.drop_zero, hreq'.take hlt]
  · rw [if_neg hlt, require_eq_ret (by omega), ret_then]

/-- The request line goes to the start of the buffer, whatever its length. -/
theorem append_first (b : Buffers credsCap) (line : CStr) :
    ∃ req, (append b.req 0 line : CBody ρ σ (CStr × Int)) = pure (req, wouldBe line) ∧
      Holds req line := by
  have hreq : Holds b.req [] := ⟨b.reqSize, fun _ => rfl⟩
  obtain ⟨req, happend, hreq⟩ := append_eq (ρ := ρ) (σ := σ) hreq (Nat.zero_le _) line
  refine ⟨req, ?_, hreq⟩
  rwa [List.length_nil, Int.natCast_zero, Int.zero_add] at happend

/-- The credentials are printed whole, or refused. -/
theorem snprintf_creds (b : Buffers credsCap) (hsmall : credsCap ≤ pfBufSize) (text : CStr) :
    ∃ creds, (snprintf b.creds 0 credsCap text : CBody ρ σ (CStr × Int)) =
        pure (creds, wouldBe text) ∧
      (text.length < credsCap → wouldBe text = text.length ∧ ∃ rest, creds = text ++ rest) := by
  have hroom : 0 + credsCap ≤ b.creds.length := by
    rw [b.credsSize]
    omega
  obtain ⟨creds, hprint, -, hcreds⟩ := snprintf_eq (ρ := ρ) (σ := σ) text hroom
  refine ⟨creds, hprint, fun hlt => ⟨wouldBe_of_le (by omega), ?_⟩⟩
  obtain ⟨rest, rfl⟩ := hcreds hlt
  exact ⟨0 :: rest, rfl⟩

theorem appendAuth_eq_ret (b : Buffers credsCap) (hsmall : credsCap ≤ pfBufSize)
    (hlong : credsCap ≤ (credentials user pass).length) (n : Int) :
    appendAuth r encode b user pass req n = ret r := by
  obtain ⟨creds, hprint, -⟩ := snprintf_creds (ρ := ρ) (σ := σ) b hsmall (credentials user pass)
  have hout := wouldBe_of_gt hlong
  unfold credentials at hprint hout
  unfold appendAuth
  rw [hprint, pure_then]
  dsimp only
  rw [require_eq_ret (by omega), ret_then]

theorem appendAuth_eq_fault (henc : Encodes credsCap encode) (b : Buffers credsCap)
    (hsmall : credsCap ≤ pfBufSize) (hcreds : (credentials user pass).length < credsCap)
    (hlong : credsFit < (credentials user pass).length) (n : Int) :
    appendAuth r encode b user pass req n = fault := by
  obtain ⟨creds, hprint, hwhole⟩ := snprintf_creds (ρ := ρ) (σ := σ) b hsmall (credentials user pass)
  obtain ⟨hlen, rest, hsplit⟩ := hwhole hcreds
  have hfault := henc.faults creds b.b64 _ rest hsplit b.b64Full hlong hcreds
  unfold credentials at hprint hlen hcreds hlong hfault
  unfold appendAuth
  rw [hprint, pure_then]
  dsimp only
  rw [hlen, require_eq (by omega), pure_then, Int.toNat_natCast, hfault, fault_then]

/-- Credentials that fit are appended in base64. -/
theorem appendAuth_eq (henc : Encodes credsCap encode) (b : Buffers credsCap)
    (hsmall : credsCap ≤ pfBufSize) (hcap : credsFit < credsCap)
    (hfits : (credentials user pass).length ≤ credsFit) (n : Int) :
    appendAuth r encode b user pass req n =
      append req n (authLine (base64Encode (credentials user pass))) := by
  obtain ⟨creds, hprint, hwhole⟩ := snprintf_creds (ρ := ρ) (σ := σ) b hsmall (credentials user pass)
  obtain ⟨hlen, rest, hsplit⟩ := hwhole (by omega)
  obtain ⟨rest', henc⟩ := henc.fits creds b.b64 _ rest hsplit b.b64Full hfits
  have hpos : 0 < (credentials user pass).length := by
    have hcolon : (lit ":").length = 1 := by decide
    unfold credentials
    rw [List.length_append, List.length_append, hcolon]
    omega
  have htext : (base64Encode (credentials user pass) ++ 0 :: rest').takeWhile (· ≠ 0) =
      base64Encode (credentials user pass) := by
    rw [List.takeWhile_append_of_pos fun c hc => decide_eq_true (ne_zero_of_mem_base64Encode hc)]
    simp
  unfold appendAuth
  rw [show user ++ lit ":" ++ pass = credentials user pass from rfl, hprint, pure_then]
  dsimp only
  rw [hlen, require_eq (by omega), pure_then, Int.toNat_natCast, henc, pure_then,
    loadUntil_eq (by simp), pure_then, htext]

/-- Where there is room, the builder gives the request of `Connectors`. -/
theorem buildRequest_eq (henc : Encodes credsCap encode) (b : Buffers credsCap)
    (hsmall : credsCap ≤ pfBufSize) (hcap : credsFit < credsCap)
    (hb64Cap : ∀ cap ∈ b64Cap, 509 ≤ cap) (h : RoomForRequest credsCap dst port user pass) :
    buildRequest r encode b dst port user pass =
      orReturn r (httpRequest credsCap b64Cap dst port user pass) := by
  obtain ⟨req, hfirst, hreq⟩ := append_first (ρ := ρ) (σ := σ) b (requestLine dst port)
  unfold RoomForRequest at h
  unfold buildRequest
  rw [hfirst, pure_then]
  dsimp only
  by_cases huser : user.isEmpty = true
  · rw [if_pos huser] at h
    rw [if_pos huser, wouldBe_of_le h, finish_eq hreq h, httpRequest_eq_ite hb64Cap (.inl huser) hcap,
      connectText_eq, if_pos huser, List.append_nil]
    split <;> rfl
  · rw [if_neg huser] at h
    rw [if_neg huser]
    rcases h with hlong | ⟨hfits, hroom⟩
    · rw [appendAuth_eq_ret b hsmall hlong, ret_then, httpRequest_eq_none huser hlong]
      rfl
    · rw [List.length_append] at hroom
      have hline : (requestLine dst port).length ≤ pfBufSize := by omega
      obtain ⟨req', happend, hreq'⟩ := append_eq (ρ := ρ) (σ := σ) hreq hline
        (authLine (base64Encode (credentials user pass)))
      rw [appendAuth_eq henc b hsmall hcap hfits, wouldBe_of_le hline, happend, pure_then]
      dsimp only
      rw [wouldBe_of_le (by omega), ← Int.natCast_add, ← List.length_append,
        finish_eq hreq' (by rw [List.length_append]; omega),
        httpRequest_eq_ite hb64Cap (.inr hfits) hcap, connectText_eq, if_neg huser]
      split <;> rfl

theorem finish_eq_fault {n : Int} (h : n < 0 ∨ (pfBufSize : Int) < n) :
    (finish r req n : CBody ρ σ CStr) = fault := by
  unfold finish
  rw [append_eq_fault h, fault_then]

/-- Where there is none, a write leaves its buffer or a size wraps round. -/
theorem buildRequest_eq_fault (henc : Encodes credsCap encode) (b : Buffers credsCap)
    (hsmall : credsCap ≤ pfBufSize) (hcap : credsFit < credsCap)
    (h : ¬ RoomForRequest credsCap dst port user pass) :
    buildRequest r encode b dst port user pass = fault := by
  obtain ⟨req, hfirst, hreq⟩ := append_first (ρ := ρ) (σ := σ) b (requestLine dst port)
  have hbeyond : ∀ {text : CStr}, pfBufSize < text.length →
      wouldBe text < 0 ∨ (pfBufSize : Int) < wouldBe text := by
    intro text hlen
    have hout := wouldBe_of_gt (show pfBufSize + 1 ≤ text.length from hlen)
    omega
  unfold RoomForRequest at h
  unfold buildRequest
  rw [hfirst, pure_then]
  dsimp only
  by_cases huser : user.isEmpty = true
  · rw [if_pos huser] at h
    rw [if_pos huser, finish_eq_fault (hbeyond (by omega))]
  · rw [if_neg huser] at h
    obtain ⟨hcreds, hroom⟩ := not_or.mp h
    rw [if_neg huser]
    by_cases hfits : (credentials user pass).length ≤ credsFit
    · have hlong : ¬ (requestLine dst port ++
          authLine (base64Encode (credentials user pass))).length ≤ pfBufSize :=
        fun hle => hroom ⟨hfits, hle⟩
      rw [List.length_append] at hlong
      rw [appendAuth_eq henc b hsmall hcap hfits]
      by_cases hline : (requestLine dst port).length ≤ pfBufSize
      · obtain ⟨req', happend, -⟩ := append_eq (ρ := ρ) (σ := σ) hreq hline
          (authLine (base64Encode (credentials user pass)))
        have hauth : (authLine (base64Encode (credentials user pass))).length ≤ pfBufSize := by
          have hlen := base64Encode_length (credentials user pass)
          rw [length_authLine]
          unfold credsFit at hfits
          unfold pfBufSize
          omega
        rw [wouldBe_of_le hline, happend, pure_then]
        dsimp only
        rw [wouldBe_of_le hauth, finish_eq_fault (.inr (by omega))]
      · rw [append_eq_fault (hbeyond (by omega)), fault_then]
    · rw [appendAuth_eq_fault henc b hsmall (by omega) (by omega), fault_then]

/-! ## The exchange -/

variable {encode : CStr → Nat → CStr → CBody (Option PUnit) Net CStr} {net : Net}

section OfAct

variable {α β : Type} {r : ρ}

theorem ofAct_pure (a : α) : ofAct r (pure a) = pure a := rfl

theorem ofAct_bind (m : Act Net α) (f : α → Act Net β) :
    ofAct r (m >>= f) = ofAct r m >>= fun a => ofAct r (f a) := by
  funext net
  rw [bind_eq]
  unfold ofAct
  rcases hm : m net with ⟨_ | a, t⟩
  · rw [Act.bind_of_none hm]
  · rw [Act.Gives.bind_eq hm]

theorem ofAct_update (f : Net → Net) :
    ofAct r (Act.update f) = modify f >>= fun _ => pure ⟨⟩ := rfl

theorem ofAct_onFail (m : Act Net α) (cleanup : Net → Net) :
    ofAct r (m.onFail cleanup) = (ofAct r m).onReturn cleanup := by
  funext net
  rw [ofAct, Act.onFail, onReturn, ofAct]
  rcases m net with ⟨_ | a, t⟩ <;> rfl

theorem ofAct_exchange {credsCap : Nat} {b64Cap : Option Nat} (fd : Fd) :
    ofAct r (httpExchange credsCap b64Cap fd dst port user pass) =
      orReturn r (httpRequest credsCap b64Cap dst port user pass) >>= fun req => ofAct r (do
        sendAll fd req
        let resp ← recvResponse
        Act.require (statusCode resp = some 200)) := by
  unfold httpExchange
  cases httpRequest credsCap b64Cap dst port user pass with
  | none => rfl
  | some req => rfl

/-- A function that ends with a computation over the sockets returns what that gives. -/
theorem call_ofAct (m : Act Net α) (net : Net) :
    call (ofAct none m >>= fun a => (pure (some a) : CBody (Option α) Net (Option α))) net =
      some (m net) := by
  unfold call
  rw [bind_eq]
  unfold ofAct
  rcases m net with ⟨_ | a, t⟩ <;> rfl

end OfAct

theorem exchange_eq (henc : Encodes credsCap encode) (b : Buffers credsCap)
    (hsmall : credsCap ≤ pfBufSize) (hcap : credsFit < credsCap)
    (hb64Cap : ∀ cap ∈ b64Cap, 509 ≤ cap) (h : RoomForRequest credsCap dst port user pass) (fd : Fd)
    (net : Net) :
    call (exchange encode b fd dst port user pass) net =
      some (httpExchange credsCap b64Cap fd dst port user pass net) := by
  unfold exchange httpExchange
  rw [buildRequest_eq henc b hsmall hcap hb64Cap h]
  cases httpRequest credsCap b64Cap dst port user pass with
  | none => rfl
  | some req =>
    exact call_ofAct _ net

theorem exchange_eq_fault (henc : Encodes credsCap encode) (b : Buffers credsCap)
    (hsmall : credsCap ≤ pfBufSize) (hcap : credsFit < credsCap)
    (h : ¬ RoomForRequest credsCap dst port user pass) (fd : Fd) (net : Net) :
    call (exchange encode b fd dst port user pass) net = none := by
  unfold exchange
  rw [buildRequest_eq_fault henc b hsmall hcap h, fault_then]
  rfl

/-- What a connector does with the exchange once it is connected. -/
theorem dialled_eq {p : Proxy} {fd : Fd} {net₁ : Net} {talk : Fd → Act Net PUnit}
    (hdial : tcpConnect p net = (some fd, net₁)) :
    (do
      let fd ← tcpConnect p
      Act.update (Net.emit (.reach p fd))
      (talk fd).onFail (closeFd fd)
      pure fd : Act Net Fd) net =
      match talk fd (net₁.emit (.reach p fd)) with
      | (none, net) => (none, closeFd fd net)
      | (some _, net) => (some fd, net) := by
  rw [Act.Gives.bind_eq hdial, Act.Gives.bind_eq (Act.Gives.update _)]
  rcases htalk : talk fd (net₁.emit (.reach p fd)) with ⟨_ | ⟨⟨⟩⟩, net₂⟩
  · refine Act.bind_of_none ?_
    unfold Act.onFail
    rw [htalk]
  · exact Act.Gives.bind_eq (Act.Gives.onFail htalk)

/-- With the names of a record the connector is the one of `Connectors`. -/
theorem pfHttpConnect_eq (b : Buffers 386) (p : Proxy)
    (h : RoomForRequest 386 dst port p.username.chars p.password.chars) (net : Net) :
    pfHttpConnect b p dst port p.username.chars p.password.chars net =
      some (Daemon.pfHttpConnect p dst port net) := by
  have hb64 : ∀ cap ∈ some 512, 509 ≤ cap := by simp
  have hexchange := exchange_eq (encodes_evp none) b (by decide) (by decide) hb64 h
  unfold pfHttpConnect Daemon.pfHttpConnect
  cases hport : validPort port with
  | false => rfl
  | true =>
    rw [Act.Gives.bind_eq (.require rfl)]
    rcases hdial : tcpConnect p net with ⟨_ | fd, net₁⟩
    · rw [Act.bind_of_none hdial]
      rfl
    · rw [dialled_eq hdial]
      dsimp only
      rw [if_pos rfl, hexchange]
      rcases httpExchange 386 (some 512) fd dst port p.username.chars p.password.chars
        (net₁.emit (.reach p fd)) with ⟨_ | ⟨⟨⟩⟩, net₂⟩ <;> rfl

/-- The names of a record leave room. -/
theorem room_of_sizes (hdst : dst.length ≤ 255) (huser : user.length < 128)
    (hpass : pass.length < 128) (hport : validPort port = true) :
    RoomForRequest credsCap dst port user pass := by
  simp only [validPort, Bool.and_eq_true, decide_eq_true_eq] at hport
  have hdec : (decimal port.toNat).length ≤ 5 := decimal_length_le (by decide) (by omega)
  have hline := length_requestLine dst port
  have hauth := length_authLine (base64Encode (credentials user pass))
  have hb64 := base64Encode_length (credentials user pass)
  have hcreds : (credentials user pass).length = user.length + pass.length + 1 := by
    have hcolon : (lit ":").length = 1 := by decide
    unfold credentials
    rw [List.length_append, List.length_append, hcolon]
    omega
  unfold RoomForRequest
  unfold pfBufSize credsFit
  split
  · omega
  · rw [List.length_append]
    exact .inr ⟨by omega, by omega⟩

end Proxiflare.Daemon.Memory
