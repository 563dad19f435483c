import Proxiflare.Daemon.Connectors

/-!
# Replies that let a hop through

For each protocol a hop can speak, the shortest replies on which its negotiation
succeeds. Between two records of the proxies table no request outgrows its buffer,
so on these replies a hop fails only for its type or the next port.
-/

namespace Proxiflare.Daemon

open Lib.CString Lib

/-- The computation takes these pieces from the inbox and succeeds. -/
def Answered (replies : List CStr) (m : Act Net PUnit) : Prop :=
  ∀ (net : Net) (rest : List CStr), net.sends = [] → net.inbox = replies ++ rest →
    ∃ evs, Act.Gives m net ⟨⟩ { net with inbox := rest, events := net.events ++ evs }

theorem Answered.require {replies : List CStr} {m : Act Net PUnit} {b : Bool} (hb : b = true)
    (hm : Answered replies m) : Answered replies (do Act.require b; m) := by
  intro net rest hsends hinbox
  obtain ⟨evs, hgives⟩ := hm net rest hsends hinbox
  exact ⟨evs, .bind (.require hb) hgives⟩

theorem Answered.emit {replies : List CStr} {m : Act Net PUnit} (e : Event)
    (hm : Answered replies m) : Answered replies (do Act.update (Net.emit e); m) := by
  intro net rest hsends hinbox
  obtain ⟨evs, hgives⟩ := hm (net.emit e) rest hsends hinbox
  refine ⟨e :: evs, .bind (.update _) ?_⟩
  rw [List.append_cons]
  exact hgives

def socks5Replies : List CStr := [[5, 0], [5, 0, 0, 1], [0, 0, 0, 0, 0, 0]]

theorem socks5Exchange_answered (fd : Fd) (dst : CStr) (port : Int) (user pass : CStr) :
    Answered socks5Replies (socks5Exchange fd dst port user pass) := by
  rintro ⟨lookups, sends, inbox, events⟩ rest hsends hinbox
  obtain rfl : sends = [] := hsends
  obtain rfl : inbox = socks5Replies ++ rest := hinbox
  let greeting : CStr := if user.isEmpty then [0x05, 0x01, 0x00] else [0x05, 0x02, 0x00, 0x02]
  let request : CStr := [0x05, 0x01, 0x00, 0x03, UInt8.ofNat dst.length] ++ dst ++ portBytes port
  refine ⟨[.sent fd greeting, .sent fd request], ?_⟩
  have hgives : Act.Gives (socks5Exchange fd dst port user pass)
      ⟨lookups, [], socks5Replies ++ rest, events⟩ ⟨⟩
      ⟨lookups, [], rest, events ++ [.sent fd greeting] ++ [.sent fd request]⟩ := by
    refine .bind (sendAll_gives rfl fd greeting) ?_
    refine .bind (recvAll_gives [5, 0] rfl (by decide)) ?_
    refine .bind (.require rfl) (.bind (.require rfl) (.bind (.pure _) ?_))
    refine .bind (sendAll_gives rfl fd request) ?_
    refine .bind (recvAll_gives [5, 0, 0, 1] rfl (by decide)) ?_
    refine .bind (.require rfl) (.bind (.pure 4) ?_)
    exact .bind (recvAll_gives [0, 0, 0, 0, 0, 0] rfl (by decide)) (.pure _)
  rw [List.append_assoc] at hgives
  exact hgives

def socks4Replies : List CStr := [[0, 0x5A, 0, 0, 0, 0, 0, 0]]

theorem socks4Exchange_answered (fd : Fd) (dst : CStr) (port : Int) (userid : CStr) :
    Answered socks4Replies (socks4Exchange fd dst port userid) := by
  rintro ⟨lookups, sends, inbox, events⟩ rest hsends hinbox
  obtain rfl : sends = [] := hsends
  obtain rfl : inbox = socks4Replies ++ rest := hinbox
  exact ⟨_, .bind (sendAll_gives rfl fd _)
    (.bind (recvAll_gives [0, 0x5A, 0, 0, 0, 0, 0, 0] rfl (by decide)) (.require rfl))⟩

/-! ## HTTP -/

def okResponse : CStr := lit "HTTP/1.1 200 OK\r\n\r\n"

theorem statusCode_okResponse : statusCode okResponse = some 200 := by
  have hcode : atoi (decimal 200 ++ 32 :: lit "OK\r\n\r\n") = (200 : Nat) :=
    atoi_decimal (by decide) (by decide) _
  have hsplit : strchr okResponse 32 = some (32 :: (decimal 200 ++ 32 :: lit "OK\r\n\r\n")) := by
    decide
  rw [statusCode, hsplit]
  exact congrArg some hcode

theorem recvResponse_gives {net : Net} {rest : List CStr} (h : net.inbox = okResponse :: rest) :
    Act.Gives recvResponse net okResponse { net with inbox := rest } := by
  have htake : okResponse.take (respBufSize - 1 - 0) = okResponse := by decide
  have hstr : cstr okResponse = okResponse := by decide
  have hend : (strstr okResponse (lit "\r\n\r\n")).isSome = true := by
    rw [strstr_isSome_iff]
    decide
  have hhead : recvHead (okResponse :: rest) [] = (some okResponse, rest) := by
    rw [recvHead]
    simp only [List.nil_append, List.length_nil, htake, hstr]
    rw [if_neg (by decide), if_neg (by decide), if_pos hend, if_pos (by decide)]
  unfold Act.Gives recvResponse
  rw [h, hhead]

theorem base64Encode_length (s : CStr) : (base64Encode s).length = (s.length + 2) / 3 * 4 := by
  induction s using base64Encode.induct with
  | case1 => simp [base64Encode]
  | case2 => simp [base64Encode]
  | case3 => simp [base64Encode]
  | case4 a b c rest ih =>
    rw [base64Encode]
    simp only [List.length_append, List.length_cons, List.length_nil, ih]
    omega

/-- What the two request builders print. -/
def connectText (dst : CStr) (port : Int) (user pass : CStr) : CStr :=
  lit "CONNECT " ++ (dst ++ lit ":" ++ decimal port.toNat) ++ lit " HTTP/1.1\r\nHost: " ++
    (dst ++ lit ":" ++ decimal port.toNat) ++ lit "\r\n" ++
    (if user.isEmpty then [] else lit "Proxy-Authorization: Basic " ++
      base64Encode (user ++ lit ":" ++ pass) ++ lit "\r\n") ++ lit "\r\n"

/-- It fits for a name and credentials of a record's sizes. -/
theorem httpRequest_eq (credsCap : Nat) (b64Cap : Option Nat) {dst user pass : CStr} {port : Int}
    (hcredsCap : 256 ≤ credsCap) (hb64Cap : ∀ cap ∈ b64Cap, 345 ≤ cap)
    (hdst : dst.length ≤ 255) (huser : user.length < 128) (hpass : pass.length < 128)
    (hport : validPort port = true) :
    httpRequest credsCap b64Cap dst port user pass = some (connectText dst port user pass) := by
  simp only [validPort, Bool.and_eq_true, decide_eq_true_eq] at hport
  have hdec : (decimal port.toNat).length ≤ 5 := decimal_length_le (by decide) (by omega)
  have hcreds : (user ++ lit ":" ++ pass).length ≤ 255 := by
    simp only [List.length_append, show (lit ":").length = 1 from rfl]
    omega
  have hb64 : (base64Encode (user ++ lit ":" ++ pass)).length ≤ 344 := by
    rw [base64Encode_length]
    omega
  have hany : b64Cap.any ((base64Encode (user ++ lit ":" ++ pass)).length ≥ ·) = false := by
    cases b64Cap with
    | none => rfl
    | some cap =>
      have hcap := hb64Cap cap rfl
      rw [Option.any_some, decide_eq_false_iff_not]
      omega
  refine (if_neg ?_).trans (if_neg ?_)
  · rw [hany]
    simp only [Bool.or_false, Bool.and_eq_true, decide_eq_true_eq]
    omega
  · show ¬ (connectText dst port user pass).length ≥ pfBufSize
    unfold connectText
    obtain ⟨auth, hauth⟩ : ∃ auth, (if user.isEmpty then [] else
        lit "Proxy-Authorization: Basic " ++ base64Encode (user ++ lit ":" ++ pass) ++
          lit "\r\n") = auth := ⟨_, rfl⟩
    have hauthLen : auth.length ≤ 400 := by
      rw [← hauth]
      split
      · simp
      · simp only [List.length_append, show (lit "Proxy-Authorization: Basic ").length = 27 from rfl,
          show (lit "\r\n").length = 2 from rfl]
        omega
    have hlits : (lit "CONNECT ").length = 8 ∧ (lit ":").length = 1 ∧
        (lit " HTTP/1.1\r\nHost: ").length = 17 ∧ (lit "\r\n").length = 2 := by decide
    obtain ⟨hconnect, hcolon, hhost, hcrlf⟩ := hlits
    rw [hauth]
    simp only [List.length_append, pfBufSize]
    omega

/-- The request for another hop fits, with or without credentials. -/
theorem httpRequest_fits {dst user pass : CStr} {port : Int} (hdst : dst.length ≤ pfDomainMax)
    (huser : user.length < 128) (hpass : pass.length < 128) (hport : validPort port = true) :
    ∃ req, httpRequest 384 none dst port user pass = some req :=
  ⟨_, httpRequest_eq 384 none (by decide) (by simp) (hdst.trans (by decide)) huser hpass hport⟩

theorem httpExchange_gives {credsCap : Nat} {b64Cap : Option Nat} {dst user pass req : CStr}
    {port : Int} (hreq : httpRequest credsCap b64Cap dst port user pass = some req) (fd : Fd)
    {net : Net} {rest : List CStr} (hsends : net.sends = []) (hinbox : net.inbox = okResponse :: rest) :
    Act.Gives (httpExchange credsCap b64Cap fd dst port user pass) net ⟨⟩
      { net with inbox := rest, events := net.events ++ [.sent fd req] } := by
  obtain ⟨lookups, sends, inbox, events⟩ := net
  obtain rfl : sends = [] := hsends
  obtain rfl : inbox = okResponse :: rest := hinbox
  unfold httpExchange
  rw [hreq]
  refine .bind (sendAll_gives rfl fd req) (.bind (recvResponse_gives rfl) (.require ?_))
  rw [statusCode_okResponse]
  rfl

theorem httpExchange_answered {credsCap : Nat} {b64Cap : Option Nat} {dst user pass req : CStr}
    {port : Int} (hreq : httpRequest credsCap b64Cap dst port user pass = some req) (fd : Fd) :
    Answered [okResponse] (httpExchange credsCap b64Cap fd dst port user pass) :=
  fun _ _ hsends hinbox => ⟨_, httpExchange_gives hreq fd hsends hinbox⟩

/-! ## One hop -/

def hopReplies : ProxyType → List CStr
  | .socks5 => socks5Replies
  | .socks4 => socks4Replies
  | .http => [okResponse]
  | .ssh => []

theorem validPort_toNat {port : UInt16} (h : port ≠ 0) : validPort port.toNat = true := by
  have hlt := port.toNat_lt
  have hpos : port.toNat ≠ 0 := fun hz => h (UInt16.toNat_inj.mp hz)
  simp only [validPort, Bool.and_eq_true, decide_eq_true_eq]
  omega

/-- A hop that is no SSH proxy hands over to any record with a port. -/
theorem negotiateHopOnFd_answered {hop next : Proxy} (hssh : hop.type ≠ .ssh)
    (hport : next.port ≠ 0) (fd : Fd) :
    Answered (hopReplies hop.type)
      (negotiateHopOnFd fd hop next.host.chars next.port.toNat) := by
  have hvalid := validPort_toNat hport
  have hdst := next.host.fits
  have huser := hop.username.fits
  have hpass := hop.password.fits
  simp only [pfDomainMax] at hdst
  refine .emit _ ?_
  unfold negotiateSwitch
  cases htype : hop.type with
  | socks5 =>
    refine .require hvalid (.require ?_ (socks5Exchange_answered _ _ _ _ _))
    simp only [socks5LengthsOk, Bool.and_eq_true, Bool.or_eq_true, decide_eq_true_eq]
    omega
  | socks4 =>
    refine .require hvalid (.require ?_ (socks4Exchange_answered _ _ _ _))
    have hfits : 8 + hop.username.chars.length + 1 + next.host.chars.length + 1 ≤ pfBufSize := by
      rw [pfBufSize]
      omega
    exact decide_eq_true hfits
  | http =>
    obtain ⟨req, hreq⟩ := httpRequest_fits (Nat.le_of_lt_succ hdst) huser hpass hvalid
    exact .require hvalid (httpExchange_answered hreq fd)
  | ssh => exact absurd htype hssh

end Proxiflare.Daemon
