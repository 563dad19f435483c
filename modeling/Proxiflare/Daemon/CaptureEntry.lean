import Proxiflare.Daemon.Captures

/-!
# The members of a stored message

What a captured message is stored as, read back by name. The names of an entry are all different.
-/

namespace Proxiflare.Daemon

open Lib.CString

variable {ν : Type} {d : Doubles ν} {codecs : Codecs} {m : CaptureMsg} {msg : HttpMsg}
  {seq : UInt64}

namespace Cjson

variable {ms ms' : List (CStr × Cjson ν)} {k key : CStr} {v : Cjson ν}

theorem getItem_cons_self (hk : cstr k = key) : (obj ((k, v) :: ms)).getItem key = some v := by
  rw [getItem, List.find?_cons_of_pos (by simpa using hk)]
  rfl

theorem getItem_cons_of_ne (hk : cstr k ≠ key) :
    (obj ((k, v) :: ms)).getItem key = (obj ms).getItem key := by
  rw [getItem, List.find?_cons_of_neg (by simpa using hk)]
  rfl

theorem getItem_append_of_ne (hms : ∀ m ∈ ms, cstr m.1 ≠ key) :
    (obj (ms ++ ms')).getItem key = (obj ms').getItem key := by
  induction ms with
  | nil => rfl
  | cons m ms ih =>
    obtain ⟨hm, hrest⟩ := List.forall_mem_cons.mp hms
    rw [List.cons_append, getItem_cons_of_ne hm, ih hrest]

end Cjson

/-- The members up to the headers. -/
def leadingMembers (d : Doubles ν) (m : CaptureMsg) (msg : HttpMsg) (seq : UInt64) :
    List (CStr × Cjson ν) :=
  [(lit "seq", .num (d.ofInt seq.toNat)), (lit "ts", .num (d.ofInt m.tsSec)),
    (lit "domain", .str m.domain.chars), (lit "dst_ip", .str m.dstIp.chars),
    (lit "dst_port", .num (d.ofInt m.dstPort)), (lit "is_request", .bool m.isRequest),
    (lit "tls", .bool m.isTls)] ++
    (if m.isRequest then requestMembers msg else responseMembers d msg)

def headersOf (msg : HttpMsg) : Cjson ν := .obj (msg.headers.map fun h => (h.key, .str h.value))

/-- The members from the body on. -/
def bodyAndLength (d : Doubles ν) (codecs : Codecs) (msg : HttpMsg) : List (CStr × Cjson ν) :=
  bodyMembers d codecs msg ++ [(lit "content_length", .num (d.ofInt msg.contentLength))]

theorem captureEntry_eq (d : Doubles ν) (codecs : Codecs) (m : CaptureMsg) (msg : HttpMsg)
    (seq : UInt64) : captureEntry d codecs m msg seq =
      .obj (leadingMembers d m msg seq ++
        (lit "headers", headersOf msg) :: bodyAndLength d codecs msg) := by
  rw [captureEntry, leadingMembers, bodyAndLength, headersOf]
  simp only [List.append_assoc, List.cons_append, List.nil_append]

/-- The names before the headers. -/
def leadingNames : List CStr :=
  [lit "seq", lit "ts", lit "domain", lit "dst_ip", lit "dst_port", lit "is_request", lit "tls",
    lit "method", lit "url", lit "version", lit "status", lit "status_text", lit "content_type"]

theorem mem_leadingNames {member : CStr × Cjson ν} (h : member ∈ leadingMembers d m msg seq) :
    member.1 ∈ leadingNames := by
  have hfixed : ∀ name ∈ [lit "seq", lit "ts", lit "domain", lit "dst_ip", lit "dst_port",
      lit "is_request", lit "tls"], name ∈ leadingNames := by simp [leadingNames]
  have hrequest : ∀ name ∈ [lit "method", lit "url", lit "version"], name ∈ leadingNames := by
    simp [leadingNames]
  have hresponse : ∀ name ∈ [lit "status", lit "status_text", lit "version"],
      name ∈ leadingNames := by simp [leadingNames]
  have htype : ∀ name ∈ [lit "content_type"], name ∈ leadingNames := by simp [leadingNames]
  have hname := List.mem_map_of_mem (f := Prod.fst) h
  unfold leadingMembers at hname
  rw [List.map_append] at hname
  rcases List.mem_append.mp hname with hname | hname
  · exact hfixed _ hname
  · split at hname
    · exact hrequest _ hname
    · unfold responseMembers at hname
      rw [List.map_append] at hname
      rcases List.mem_append.mp hname with hname | hname
      · exact hresponse _ hname
      · split at hname
        · exact htype _ hname
        · cases hname

theorem leading_ne {key : CStr} (hkey : ∀ name ∈ leadingNames, cstr name ≠ key) :
    ∀ member ∈ leadingMembers d m msg seq, cstr member.1 ≠ key :=
  fun _ h => hkey _ (mem_leadingNames h)

/-- A member after the headers. -/
theorem captureEntry_later {key : CStr} (hkey : ∀ name ∈ leadingNames, cstr name ≠ key)
    (hne : cstr (lit "headers") ≠ key) : (captureEntry d codecs m msg seq).getItem key =
      (Cjson.obj (bodyAndLength d codecs msg)).getItem key := by
  rw [captureEntry_eq, Cjson.getItem_append_of_ne (leading_ne hkey), Cjson.getItem_cons_of_ne hne]

end Proxiflare.Daemon
