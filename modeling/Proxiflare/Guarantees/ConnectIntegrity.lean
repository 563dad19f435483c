import Proxiflare.Daemon.Handshakes
import Proxiflare.Daemon.Routing
import Proxiflare.Daemon.Sni
import Proxiflare.Lib.HttpRequest

/-!
# The CONNECT request for an intercepted name

The name of a ClientHello is copied as it stands and printed into the request, in
`proxy_http.c` and in `chain.c` alike. What the proxy receives is the one request
that was meant exactly when the name is a registered name.
-/

namespace Proxiflare.Guarantees.ConnectIntegrity

open Lib.CString Lib Lib.HttpRequest
open Proxiflare.Daemon

variable {α : Type}

/-! ## The request that is meant -/

/-- `CONNECT name:port` with the two fields of the source and nothing else. -/
def intended (name : CStr) (port : Nat) (user pass : CStr) : Request where
  method := lit "CONNECT"
  target := name ++ 58 :: decimal port
  fields := (lit "Host", name ++ 58 :: decimal port) ::
    if user.isEmpty then []
    else [(lit "Proxy-Authorization", lit "Basic " ++ base64Encode (user ++ lit ":" ++ pass))]

/-- The bytes are one request, its target being this name and this port. -/
def Intact (name : CStr) (port : Nat) (user pass bytes : CStr) : Prop :=
  parseRequest bytes = some (intended name port user pass) ∧
    parseAuthority (intended name port user pass).target = some (name, decimal port)

def IsHostName (name : CStr) : Prop := name ≠ [] ∧ isRegName name = true

theorem connectText_eq_render (name : CStr) (port : Nat) (user pass : CStr) :
    connectText name port user pass = render (intended name port user pass) := by
  have hlits : lit "CONNECT " = lit "CONNECT" ++ [32] ∧ lit ":" = [58] ∧
      lit " HTTP/1.1\r\nHost: " = 32 :: lit "HTTP/1.1" ++ 13 :: 10 :: (lit "Host" ++ [58, 32]) ∧
      lit "\r\n" = [13, 10] ∧
      lit "Proxy-Authorization: Basic " = lit "Proxy-Authorization" ++ 58 :: 32 :: lit "Basic " := by
    decide
  obtain ⟨hconnect, hcolon, hhost, hcrlf, hauth⟩ := hlits
  unfold connectText render intended
  rw [hconnect, hcolon, hhost, hcrlf, hauth, Int.toNat_natCast]
  by_cases huser : user.isEmpty = true
  · simp [huser, fieldLine]
  · simp [huser, fieldLine]

/-! ## Its parts are well formed -/

theorem b64At_vchar (n : Nat) : isVchar (b64At n) = true := by
  have hall : b64chars.all isVchar = true := by decide
  have hlen : n % 64 < b64chars.length := Nat.mod_lt n (by decide)
  unfold b64At
  rw [List.getD_eq_getElem?_getD, List.getElem?_eq_getElem hlen]
  exact List.all_eq_true.mp hall _ (List.getElem_mem hlen)

theorem base64Encode_vchar (s : CStr) : ∀ b ∈ base64Encode s, isVchar b = true := by
  induction s using base64Encode.induct with
  | case1 => exact List.forall_mem_nil _
  | case2 a => simp [base64Encode, b64At_vchar, show isVchar 61 = true from rfl]
  | case3 a b => simp [base64Encode, b64At_vchar, show isVchar 61 = true from rfl]
  | case4 a b c rest ih =>
    intro d hd
    rw [base64Encode] at hd
    rcases List.mem_append.mp hd with hd | hd
    · simp only [List.mem_cons, List.not_mem_nil, or_false] at hd
      obtain rfl | rfl | rfl | rfl := hd <;> exact b64At_vchar _
    · exact ih d hd

theorem isBlank_of_isVchar {b : UInt8} (h : isVchar b = true) : HttpRequest.isBlank b = false := by
  by_contra hblank
  rw [Bool.not_eq_false] at hblank
  simp only [HttpRequest.isBlank, Bool.or_eq_true, decide_eq_true_eq] at hblank
  rcases hblank with rfl | rfl <;> cases h

theorem isFieldByte_of_isVchar {b : UInt8} (h : isVchar b = true) : isFieldByte b = true := by
  simp [isFieldByte, h]

/-- Printable text is a field value. -/
theorem fieldOk_of_vchar {name value : CStr} (hne : name ≠ []) (hname : ∀ b ∈ name, isTchar b = true)
    (hvalue : ∀ b ∈ value, isVchar b = true) : FieldOk (name, value) where
  name_ne_nil := hne
  name := hname
  value b hb := isFieldByte_of_isVchar (hvalue b hb)
  head b hb := isBlank_of_isVchar (hvalue b (List.mem_of_mem_head? hb))
  last b hb := isBlank_of_isVchar (hvalue b (List.mem_of_getLast? hb))

theorem authField_ok (creds : CStr) (hcreds : creds ≠ []) :
    FieldOk (lit "Proxy-Authorization", lit "Basic " ++ base64Encode creds) where
  name_ne_nil := (by decide : lit "Proxy-Authorization" ≠ [])
  name := List.all_eq_true.mp (by decide : (lit "Proxy-Authorization").all isTchar = true)
  value b hb := by
    rcases List.mem_append.mp hb with hb | hb
    · exact List.all_eq_true.mp (show (lit "Basic ").all isFieldByte = true by decide) b hb
    · exact isFieldByte_of_isVchar (base64Encode_vchar creds b hb)
  head b hb := by
    obtain rfl : 66 = b := Option.some.inj hb
    decide
  last b hb := by
    have hne : base64Encode creds ≠ [] := by
      have hpos := List.length_pos_iff.mpr hcreds
      have hlen := base64Encode_length creds
      exact List.ne_nil_of_length_pos (by omega)
    rw [List.getLast?_append_of_ne_nil _ hne] at hb
    exact isBlank_of_isVchar (base64Encode_vchar creds b (List.mem_of_getLast? hb))

theorem isVchar_of_isDigit {b : UInt8} (h : isDigit b = true) : isVchar b = true := by
  simp only [isDigit, isVchar, Bool.and_eq_true, decide_eq_true_eq] at h ⊢
  have hlow : (33 : UInt8) ≤ 48 := by decide
  have hhigh : (57 : UInt8) ≤ 126 := by decide
  exact ⟨UInt8.le_trans hlow h.1, UInt8.le_trans h.2 hhigh⟩

theorem intended_ok {name : CStr} (hname : IsHostName name) (port : Nat) (user pass : CStr) :
    RequestOk (intended name port user pass) := by
  have htarget : ∀ b ∈ name ++ 58 :: decimal port, isVchar b = true := by
    intro b hb
    rcases List.mem_append.mp hb with hb | hb
    · exact isRegName_vchar hname.2 b hb
    · rcases List.mem_cons.mp hb with rfl | hb
      · rfl
      · exact isVchar_of_isDigit (isDigit_of_mem_decimal hb)
  have hhost : FieldOk (lit "Host", name ++ 58 :: decimal port) :=
    fieldOk_of_vchar (by decide) (List.all_eq_true.mp (by decide)) htarget
  have hmethod : (lit "CONNECT").all isTchar = true := by decide
  refine ⟨(by decide : lit "CONNECT" ≠ []), List.all_eq_true.mp hmethod, by simp [intended],
    htarget, ?_⟩
  intro f hf
  rcases List.mem_cons.mp hf with rfl | hf
  · exact hhost
  · by_cases huser : user.isEmpty = true
    · rw [if_pos huser] at hf
      cases hf
    · rw [if_neg huser] at hf
      obtain rfl := List.mem_singleton.mp hf
      exact authField_ok _ (by simp [show lit ":" = [58] from rfl])

theorem intact_of_hostName {name : CStr} (hname : IsHostName name) (port : Nat) (user pass : CStr) :
    Intact name port user pass (connectText name port user pass) := by
  constructor
  · rw [connectText_eq_render]
    exact parseRequest_render (intended_ok hname port user pass)
  · exact parseAuthority_append hname.1 hname.2 (isRegName_notMem hname.2 (by decide) (by decide))
      (decimal_ne_nil port) fun b hb => isDigit_of_mem_decimal hb

/-! ## What a connector puts on the wire -/

theorem sendLoop_whole {sends : List Nat} (h : ∀ n ∈ sends, n ≠ 0) (buf : CStr) :
    (sendLoop sends buf).1 = buf ∧ ∀ n ∈ (sendLoop sends buf).2.2, n ≠ 0 := by
  fun_induction sendLoop sends buf with
  | case1 => exact ⟨rfl, h⟩
  | case2 => exact ⟨rfl, List.forall_mem_nil _⟩
  | case3 n => exact absurd rfl (h 0 List.mem_cons_self)
  | case4 n sends b buf hn sent ok rest hrec ih =>
    obtain ⟨hsent, hrest⟩ := ih fun k hk => h k (List.mem_cons_of_mem n hk)
    rw [hrec] at hsent hrest
    exact ⟨by rw [show sent = _ from hsent, List.take_append_drop], hrest⟩

/-- From a script without failing sends: still none, and what was sent since is `req`. -/
def SendsOnly (req : CStr) (net net' : Net) : Prop :=
  (∀ n ∈ net.sends, n ≠ 0) →
    (∀ n ∈ net'.sends, n ≠ 0) ∧ Adds (fun e => ∀ fd bytes, e = .sent fd bytes → bytes = req) net net'

instance (req : CStr) : Std.Refl (SendsOnly req) := ⟨fun net h => ⟨h, Std.Refl.refl net⟩⟩

instance (req : CStr) : IsTrans Net (SendsOnly req) := ⟨by
  intro a b c hab hbc ha
  obtain ⟨hb, eab⟩ := hab ha
  obtain ⟨hc, ebc⟩ := hbc hb
  exact ⟨hc, IsTrans.trans _ _ _ eab ebc⟩⟩

variable {req : CStr}

theorem SendsOnly.emit {e : Event} (he : ∀ fd bytes, e ≠ .sent fd bytes) (net : Net) :
    SendsOnly req net (net.emit e) :=
  fun h => ⟨h, Adds.emit (fun fd bytes heq => absurd heq (he fd bytes)) net⟩

def noRules : Ctx := ⟨none, Db.empty, [], 0⟩

end Proxiflare.Guarantees.ConnectIntegrity
