import Proxiflare.Daemon.CaptureEntry
import Proxiflare.Guarantees.ReadableReplies

/-!
# A stored body and its length

`body_len` counts the bytes that were decoded, or copied where that failed; the body is handed over
as a C string. The two agree exactly where there is no NUL among the bytes.
-/

namespace Proxiflare.Guarantees.BodyLengths

open Lib.CString
open Proxiflare.Daemon
open ReadableReplies (storedBody natDoubles noCodecs)

variable {ν : Type} {d : Doubles ν} {codecs : Codecs} {m : CaptureMsg} {msg : HttpMsg}
  {s : Captures ν} {entry : Cjson ν}

/-- The entry's body is these bytes, and `body_len` their number. -/
structure BodyKept (d : Doubles ν) (bytes : CStr) (entry : Cjson ν) : Prop where
  body : (entry.getItem (lit "body")).bind Cjson.stringValue = some bytes
  length : entry.getItem (lit "body_len") = some (.num (d.ofInt bytes.length))

/-- Whether the body was decoded or not. -/
theorem bodyMembers_begin (d : Doubles ν) (codecs : Codecs) (hbody : msg.body ≠ []) :
    ∃ rest, bodyMembers d codecs msg = (lit "body", .str (storedBody codecs msg)) ::
      (lit "body_len", .num (d.ofInt (storedBody codecs msg).length)) :: rest := by
  unfold bodyMembers storedBody
  rw [if_neg hbody]
  dsimp only
  cases pfBodyDecode codecs (pfHttpGetHeader msg "Content-Encoding") msg.body pfInspectBodyCap with
  | some decoded => exact ⟨_, rfl⟩
  | none => exact ⟨_, rfl⟩

theorem captureEntry_body (d : Doubles ν) (codecs : Codecs) (m : CaptureMsg) (seq : UInt64)
    (hbody : msg.body ≠ []) :
    (captureEntry d codecs m msg seq).getItem (lit "body") =
        some (.str (storedBody codecs msg)) ∧
      (captureEntry d codecs m msg seq).getItem (lit "body_len") =
        some (.num (d.ofInt (storedBody codecs msg).length)) := by
  obtain ⟨rest, hmembers⟩ := bodyMembers_begin d codecs hbody
  constructor
  · rw [captureEntry_later (by decide +kernel) (by decide), bodyAndLength, hmembers]
    exact Cjson.getItem_cons_self (by decide)
  · rw [captureEntry_later (by decide +kernel) (by decide), bodyAndLength, hmembers,
      List.cons_append, Cjson.getItem_cons_of_ne (by decide)]
    exact Cjson.getItem_cons_self (by decide)

theorem cstr_eq_self_iff {bytes : CStr} : cstr bytes = bytes ↔ 0 ∉ bytes :=
  ⟨fun h => h ▸ cstr_noNul bytes, cstr_of_noNul⟩

theorem captureEntry_kept_iff (d : Doubles ν) (codecs : Codecs) (m : CaptureMsg) (seq : UInt64)
    (hbody : msg.body ≠ []) :
    BodyKept d (storedBody codecs msg) (captureEntry d codecs m msg seq) ↔
      0 ∉ storedBody codecs msg := by
  obtain ⟨htext, hlength⟩ := captureEntry_body d codecs m seq hbody
  rw [← cstr_eq_self_iff]
  constructor
  · intro h
    have hread := h.body
    rw [htext] at hread
    exact Option.some.inj hread
  · intro hwhole
    exact ⟨by rw [htext]; exact congrArg some hwhole, hlength⟩

/-- What a kept message leaves in the ring. -/
theorem kept_slot (d : Doubles ν) (codecs : Codecs) (s : Captures ν)
    (hkept : keptMessage m = some msg) :
    (captureProcessMsg d codecs s m).inspectRing.slots s.inspectRing.head =
      some (captureEntry d codecs m msg (s.inspectSeq + 1)) := by
  rw [captureProcessMsg, hkept]
  show Function.update s.inspectRing.slots s.inspectRing.head (some _) s.inspectRing.head = _
  rw [Function.update_self]

/-- For every message that is kept, in every state, and whatever the codecs make of its body. -/
theorem body_kept_iff (d : Doubles ν) (codecs : Codecs) (s : Captures ν)
    (hkept : keptMessage m = some msg) (hbody : msg.body ≠ [])
    (hentry : (captureProcessMsg d codecs s m).inspectRing.slots s.inspectRing.head = some entry) :
    BodyKept d (storedBody codecs msg) entry ↔ 0 ∉ storedBody codecs msg := by
  obtain rfl := Option.some.inj ((kept_slot d codecs s hkept).symm.trans hentry)
  exact captureEntry_kept_iff d codecs m (s.inspectSeq + 1) hbody

/-- A request with this body. -/
def post (body : CStr) : CaptureMsg where
  data := lit "POST / HTTP/1.1\x0d\x0a\x0d\x0a" ++ body
  isRequest := true
  isTls := true
  dstPort := 443
  tsSec := 0
  domain := .snprintf (lit "a")
  dstIp := .snprintf (lit "192.0.2.1")

def posted (body : CStr) : HttpMsg :=
  ⟨lit "POST", lit "/", lit "HTTP/1.1", [], body, 0, 0, []⟩

theorem text_body_kept :
    BodyKept natDoubles (storedBody noCodecs (posted (lit "ok")))
        (captureEntry natDoubles noCodecs (post (lit "ok")) (posted (lit "ok")) 1) ↔
      0 ∉ storedBody noCodecs (posted (lit "ok")) :=
  have hkept : keptMessage (post (lit "ok")) = some (posted (lit "ok")) := by decide +kernel
  body_kept_iff natDoubles noCodecs .start hkept (by decide) (kept_slot natDoubles noCodecs .start hkept)

/-- Of a body of three bytes the entry has one, and says three. -/
theorem nul_cuts_body :
    keptMessage (post [97, 0, 98]) = some (posted [97, 0, 98]) ∧
      (captureProcessMsg natDoubles noCodecs .start (post [97, 0, 98])).inspectRing.slots 0 =
        some (captureEntry natDoubles noCodecs (post [97, 0, 98]) (posted [97, 0, 98]) 1) ∧
      ¬ BodyKept natDoubles (storedBody noCodecs (posted [97, 0, 98]))
        (captureEntry natDoubles noCodecs (post [97, 0, 98]) (posted [97, 0, 98]) 1) := by
  have hkept : keptMessage (post [97, 0, 98]) = some (posted [97, 0, 98]) := by decide +kernel
  refine ⟨hkept, kept_slot natDoubles noCodecs .start hkept, ?_⟩
  rw [captureEntry_kept_iff natDoubles noCodecs (post [97, 0, 98]) 1 (by decide)]
  exact fun h => h (by decide +kernel)

end Proxiflare.Guarantees.BodyLengths
