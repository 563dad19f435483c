import Proxiflare.Daemon.Handshakes

/-!
# What the HTTP handshake leaves of the tunnel

The response is read in pieces as large as the buffer has room for, not byte by
byte, so the piece that brings the blank line may bring the first tunnel bytes as
well, and they are dropped. The tunnel is left whole exactly when a piece ends with
the blank line, or when the head fills the buffer to its last byte.
-/

namespace Proxiflare.Guarantees.TunnelHandover

open Lib.CString Lib
open Proxiflare.Daemon

def blankLine : CStr := lit "\r\n\r\n"

/-- A response head: a blank line ends it, and none comes earlier. -/
structure IsHead (head : CStr) : Prop where
  ends : blankLine <:+ head
  first : ¬ blankLine <:+: head.dropLast

variable {head tunnel : CStr}

theorem IsHead.pos (h : IsHead head) : 0 < head.length :=
  Nat.lt_of_lt_of_le (by decide) h.ends.length_le

/-- Where the stream shows a blank line, it shows the whole head. -/
theorem IsHead.prefix_of_infix (h : IsHead head) {x : CStr} (hx : x <+: head ++ tunnel)
    (hin : blankLine <:+: x) : head <+: x := by
  rcases Nat.lt_or_ge x.length head.length with hlt | hge
  · have hdrop : x <+: head ++ tunnel → x <+: head.dropLast := fun hx =>
      List.prefix_of_prefix_length_le hx ((List.dropLast_prefix head).trans (List.prefix_append _ _))
        (by rw [List.length_dropLast]; omega)
    exact absurd (hin.trans (hdrop hx).isInfix) h.first
  · exact List.prefix_of_prefix_length_le (List.prefix_append _ _) hx hge

/-! ## Reading the head -/

/-- The response is a string at the front of what has arrived, and has a blank line. -/
theorem recvHead_finds {inbox rest : List CStr} {got resp : CStr}
    (h : recvHead inbox got = (some resp, rest)) :
    resp <+: got ++ stream inbox ∧ 0 ∉ resp ∧ blankLine <:+: resp := by
  fun_induction recvHead inbox got with
  | case1 => cases h
  | case2 => cases h
  | case3 => cases h
  | case4 chunk inbox got room raw hroom hne hfound =>
    obtain ⟨hresp, -⟩ := Prod.mk.inj h
    obtain rfl := Option.some.inj hresp
    refine ⟨?_, cstr_noNul raw, (strstr_isSome_iff _ _).mp hfound⟩
    have hraw : raw <+: got ++ stream (chunk :: inbox) := by
      rw [stream_cons hne, ← List.append_assoc]
      exact ((List.prefix_append_right_inj got).mpr (List.take_prefix room chunk)).trans
        (List.prefix_append _ _)
    exact (List.takeWhile_prefix _).trans hraw
  | case5 chunk inbox got room raw hroom hne hfound hle ih =>
    obtain ⟨hstart, hrest⟩ := ih h
    rw [stream_cons hne, ← List.append_assoc]
    rw [show raw = got ++ chunk from congrArg (got ++ ·) (List.take_of_length_le hle)] at hstart
    exact ⟨hstart, hrest⟩
  | case6 => cases h

/-- A piece ends with the head, or the head fills the buffer. -/
def EndsPiece (got : CStr) (inbox : List CStr) (head : CStr) : Prop :=
  (∃ j, got ++ (inbox.take j).flatten = head) ∨ head.length = respBufSize - 1

theorem endsPiece_cons {got chunk : CStr} {inbox : List CStr} (h : got.length < head.length) :
    EndsPiece got (chunk :: inbox) head ↔ EndsPiece (got ++ chunk) inbox head := by
  refine or_congr_left ⟨?_, ?_⟩
  · rintro ⟨j, hj⟩
    cases j with
    | zero =>
      rw [List.take_zero, List.flatten_nil, List.append_nil] at hj
      exact absurd (congrArg List.length hj) (Nat.ne_of_lt h)
    | succ j => exact ⟨j, by simpa using hj⟩
  · rintro ⟨j, hj⟩
    exact ⟨j + 1, by simpa using hj⟩

/-- The step that finds the blank line: `raw` has arrived, and `taken` bytes of the last piece
are in it. -/
theorem handsOver_iff_length {got rest : CStr} {pieces : CStr} {taken : Nat}
    (hstream : head ++ tunnel = got ++ pieces) (hrest : rest = pieces.drop taken)
    (htaken : taken ≤ pieces.length) (hhead : head.length ≤ got.length + taken) :
    rest = tunnel ↔ got.length + taken = head.length := by
  have hlen : head.length + tunnel.length = got.length + pieces.length := by
    simpa using congrArg List.length hstream
  constructor
  · rintro rfl
    rw [hrest, List.length_drop] at hlen
    omega
  · intro heq
    have hdrop := congrArg (List.drop head.length) hstream
    rw [List.drop_left, ← heq, List.drop_append, List.drop_of_length_le (by omega),
      List.nil_append] at hdrop
    rw [hrest, hdrop]
    congr 1
    omega

theorem recvHead_hands_over {inbox rest : List CStr} {got resp : CStr} (hhead : IsHead head)
    (hnul : 0 ∉ head) (hstream : head ++ tunnel = got ++ stream inbox)
    (hshort : got.length < head.length) (h : recvHead inbox got = (some resp, rest)) :
    stream rest = tunnel ↔ EndsPiece got inbox head := by
  fun_induction recvHead inbox got with
  | case1 => cases h
  | case2 => cases h
  | case3 => cases h
  | case4 chunk inbox got room raw hroom hne hfound =>
    obtain ⟨-, hrest⟩ := Prod.mk.inj h
    have hsum : got.length + room = respBufSize - 1 := by
      have hlt := Nat.pos_of_ne_zero hroom
      omega
    have hraw : raw.length = got.length + min room chunk.length := by
      rw [List.length_append, List.length_take]
    have hstart : raw <+: head ++ tunnel := by
      rw [hstream, stream_cons hne, ← List.append_assoc]
      exact ((List.prefix_append_right_inj got).mpr (List.take_prefix room chunk)).trans
        (List.prefix_append _ _)
    have hin : blankLine <:+: raw :=
      ((strstr_isSome_iff _ _).mp hfound).trans (List.takeWhile_prefix _).isInfix
    have hlong : head.length ≤ raw.length := (hhead.prefix_of_infix hstart hin).length_le
    have hleft : stream rest = (stream (chunk :: inbox)).drop (min room chunk.length) := by
      rw [← hrest]
      split
      · next hle =>
        rw [Nat.min_eq_right hle, stream_cons hne, List.drop_left]
      · next hgt =>
        rw [Nat.min_eq_left (by omega), stream_drop_cons (by omega)]
    have htaken : min room chunk.length ≤ (stream (chunk :: inbox)).length := by
      rw [stream_cons hne, List.length_append]
      omega
    rw [handsOver_iff_length hstream hleft htaken (hraw ▸ hlong), endsPiece_cons hshort]
    constructor
    · intro heq
      rcases Nat.lt_or_ge room chunk.length with hlt | hge
      · exact .inr (by omega)
      · refine .inl ⟨0, ?_⟩
        rw [List.take_zero, List.flatten_nil, List.append_nil]
        have hgot : got ++ chunk <+: head ++ tunnel := by
          rw [hstream, stream_cons hne, ← List.append_assoc]
          exact List.prefix_append _ _
        have hpre := List.prefix_of_prefix_length_le hgot (List.prefix_append head tunnel)
          (by rw [List.length_append]; omega)
        exact hpre.eq_of_length (by rw [List.length_append]; omega)
    · rintro (⟨j, hj⟩ | hfull)
      · have hlen : got.length + chunk.length ≤ head.length := by
          have := congrArg List.length hj
          simp only [List.length_append] at this
          omega
        omega
      · omega
  | case5 chunk inbox got room raw hroom hne hfound hle ih =>
    have hraw : raw = got ++ chunk := congrArg (got ++ ·) (List.take_of_length_le hle)
    have hstream' : head ++ tunnel = raw ++ stream inbox := by
      rw [hraw, hstream, stream_cons hne, List.append_assoc]
    have hshort' : raw.length < head.length := by
      rcases Nat.lt_or_ge raw.length head.length with hlt | hge
      · exact hlt
      · have hpre : head <+: raw := List.prefix_of_prefix_length_le (List.prefix_append _ tunnel)
          (hstream' ▸ List.prefix_append _ _) hge
        have hcstr : blankLine <:+: cstr raw :=
          hhead.ends.isInfix.trans (prefix_cstr hpre hnul).isInfix
        exact absurd ((strstr_isSome_iff _ _).mpr hcstr) hfound
    rw [endsPiece_cons hshort, ← hraw]
    exact ih hstream' hshort' h
  | case6 => cases h

/-! ## The two implementations -/

theorem httpExchange_reads {credsCap : Nat} {b64Cap : Option Nat} {fd : Fd} {dst user pass : CStr}
    {port : Int} {net net' : Net}
    (h : Act.Gives (httpExchange credsCap b64Cap fd dst port user pass) net ⟨⟩ net') :
    ∃ resp, recvHead net.inbox [] = (some resp, net'.inbox) := by
  unfold httpExchange at h
  split at h
  · exact absurd h Act.not_gives_fail
  · obtain ⟨_, net₁, hsend, h⟩ := Act.gives_bind_iff.mp h
    obtain ⟨resp, net₂, hrecv, h⟩ := Act.gives_bind_iff.mp h
    obtain ⟨-, rfl⟩ := Act.gives_require_iff.mp h
    obtain ⟨hgot, rfl⟩ := Prod.mk.inj hrecv
    exact ⟨resp, sendAll_inbox hsend ▸ Prod.ext hgot rfl⟩

/-- A success leaves the whole tunnel exactly under the condition on the pieces. -/
def HandsOverIff {α : Type} (m : Act Net α) : Prop :=
  ∀ head tunnel net a net', IsHead head → net.stream = head ++ tunnel → Act.Gives m net a net' →
    (net'.stream = tunnel ↔ EndsPiece [] net.inbox head)

theorem httpExchange_handsOverIff (credsCap : Nat) (b64Cap : Option Nat) (fd : Fd) (dst : CStr)
    (port : Int) (user pass : CStr) :
    HandsOverIff (httpExchange credsCap b64Cap fd dst port user pass) := by
  intro head tunnel net _ net' hhead hstream h
  obtain ⟨resp, hrecv⟩ := httpExchange_reads h
  obtain ⟨hstart, hresp, hin⟩ := recvHead_finds hrecv
  have hpre : resp <+: head ++ tunnel := hstream ▸ hstart
  have hnul : 0 ∉ head := fun h0 => hresp ((hhead.prefix_of_infix hpre hin).subset h0)
  exact recvHead_hands_over hhead hnul hstream.symm hhead.pos hrecv

theorem handsOverIff_require {α : Type} {m : Act Net α} (b : Bool) (hm : HandsOverIff m) :
    HandsOverIff (do Act.require b; m) := by
  intro head tunnel net a net' hhead hstream h
  obtain ⟨_, _, hcheck, h⟩ := Act.gives_bind_iff.mp h
  obtain ⟨-, rfl⟩ := Act.gives_require_iff.mp hcheck
  exact hm head tunnel _ a net' hhead hstream h

/-- For every response head, every tunnel and every way the two are cut into `recv` results, in
`proxy_http.c` and in `chain.c`. -/
theorem tunnel_whole_iff (p : Proxy) (dst : CStr) (port : Int) (fd : Fd) :
    HandsOverIff (pfHttpConnect p dst port) ∧ HandsOverIff (httpNegotiateOnFd fd p dst port) := by
  constructor
  · refine handsOverIff_require _ ?_
    intro head tunnel net fd' net' hhead hstream h
    obtain ⟨net₁, hinbox, hexchange⟩ := gives_of_dialled h
    have hstream₁ : net₁.stream = head ++ tunnel := (congrArg Lib.stream hinbox).trans hstream
    rw [← hinbox]
    exact httpExchange_handsOverIff _ _ _ _ _ _ _ head tunnel net₁ _ net' hhead hstream₁ hexchange
  · exact handsOverIff_require _ (httpExchange_handsOverIff _ _ _ _ _ _ _)

/-! ## A piece that brings both -/

def plainProxy : Proxy :=
  ⟨1, .snprintf (lit "p"), .http, .snprintf (lit "10.0.0.1"), 3128, .empty, .empty, .empty, 0, 0, 1⟩

theorem isHead_okResponse : IsHead okResponse := ⟨by decide, by decide⟩

/-- The response and a server's greeting in one piece. -/
def greetedNet (events : List Event) : Net :=
  ⟨[[.connected 3]], [], [okResponse ++ lit "220 "], events⟩

/-- The greeting is lost, in both implementations. -/
theorem greeting_lost :
    ¬ (∀ head tunnel net fd net', IsHead head → net.stream = head ++ tunnel →
      Act.Gives (pfHttpConnect plainProxy (lit "a.b") 443) net fd net' → net'.stream = tunnel) ∧
    ¬ (∀ head tunnel net x net', IsHead head → net.stream = head ++ tunnel →
      Act.Gives (httpNegotiateOnFd 3 plainProxy (lit "a.b") 443) net x net' →
      net'.stream = tunnel) := by
  have hstream : (greetedNet []).stream = okResponse ++ lit "220 " := stream_singleton _
  constructor
  · intro h
    have hleft := h okResponse (lit "220 ") (greetedNet []) 3 _ isHead_okResponse hstream
      (Act.gives_of_fst (by decide +kernel))
    exact absurd hleft (by decide +kernel)
  · intro h
    have hleft := h okResponse (lit "220 ") (greetedNet []) ⟨⟩ _ isHead_okResponse hstream
      (Act.gives_of_fst (by decide +kernel))
    exact absurd hleft (by decide +kernel)

end Proxiflare.Guarantees.TunnelHandover
