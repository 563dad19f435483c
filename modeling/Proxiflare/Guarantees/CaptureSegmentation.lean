import Proxiflare.Daemon.CaptureRing
import Proxiflare.Guarantees.HttpRoundTrip
import Proxiflare.Guarantees.ReadableReplies

/-!
# Capture and the chunks of a stream

Every chunk the relay reads is parsed by itself. A stream can always be read in pieces
too short for any message, so two splits of it agree for certain only where no piece of
it is a message that is kept.
-/

namespace Proxiflare.Guarantees.CaptureSegmentation

open Lib.CString Lib.HttpText
open Proxiflare.Daemon
open Proxiflare.Guarantees.HttpRoundTrip
open Proxiflare.Guarantees.ReadableReplies (natDoubles noCodecs)

variable {ν : Type} (d : Doubles ν) (codecs : Codecs) (conn : Connection) (isRequest : Bool)

/-- The bytes of a read and its time. -/
abbrev Chunk := CStr × Int

structure SplitOf (stream : CStr) (chunks : List Chunk) : Prop where
  whole : (chunks.map Prod.fst).flatten = stream
  sizes : ∀ c ∈ chunks, 4 ≤ c.1.length ∧ c.1.length ≤ pfBufSize

def captureChunk (s : Captures ν) (c : Chunk) : Captures ν :=
  s.step d codecs (.chunk conn c.1 isRequest c.2)

/-- The entry a chunk adds, if it does. -/
def entryOf (s : Captures ν) (c : Chunk) : Option (Cjson ν) :=
  (onInspectData c.1 isRequest conn c.2).bind fun m =>
    (keptMessage m).map fun msg => captureEntry d codecs m msg (s.inspectSeq + 1)

/-- The entries appended to the ring while the chunks arrive. -/
def appended (s : Captures ν) : List Chunk → List (Cjson ν)
  | [] => []
  | c :: cs => (entryOf d codecs conn isRequest s c).toList ++
      appended (captureChunk d codecs conn isRequest s c) cs

/-- An entry without its number and its time. -/
def content : Cjson ν → Cjson ν
  | .obj members => .obj (members.filter fun m => m.1 ≠ lit "seq" && m.1 ≠ lit "ts")
  | v => v

/-- Whatever was captured before and whenever the chunks arrive. -/
def Independent (stream : CStr) : Prop :=
  ∀ (s s' : Captures ν) (chunks chunks' : List Chunk), SplitOf stream chunks →
    SplitOf stream chunks' →
      (appended d codecs conn isRequest s chunks).map content =
        (appended d codecs conn isRequest s' chunks').map content

/-- Too small, of a tracker, no message for the parser, or filtered by its type. -/
def Dropped (data : CStr) : Prop := (onInspectData data isRequest conn 0).bind keptMessage = none

/-- What a split leaves before and after a chunk. -/
def Cut (bytes : CStr) : Prop := bytes = [] ∨ 4 ≤ bytes.length

/-- No piece of the stream that can be a chunk is a message that is kept. -/
def Unseen (stream : CStr) : Prop :=
  ∀ before data after, stream = before ++ (data ++ after) → Cut before → Cut after →
    4 ≤ data.length → data.length ≤ pfBufSize → Dropped conn isRequest data

variable {d codecs conn isRequest} {s : Captures ν} {stream data : CStr} {chunks : List Chunk}

/-! ## What a chunk adds -/

/-- The ring after a chunk is the ring with its entry pushed. -/
theorem captureChunk_ring (s : Captures ν) (c : Chunk) :
    (captureChunk d codecs conn isRequest s c).inspectRing =
      (entryOf d codecs conn isRequest s c).toList.foldl (EntryRing.push pfInspectRingSize)
        s.inspectRing := by
  unfold captureChunk entryOf
  simp only [Captures.step]
  cases onInspectData c.1 isRequest conn c.2 with
  | none => rfl
  | some m =>
    simp only [captureProcessMsg, Option.bind_some]
    cases keptMessage m with
    | none => exact (skip_keeps s m).2
    | some msg => rfl

theorem appended_ring (s : Captures ν) (chunks : List Chunk) :
    (chunks.foldl (captureChunk d codecs conn isRequest) s).inspectRing =
      (appended d codecs conn isRequest s chunks).foldl (EntryRing.push pfInspectRingSize)
        s.inspectRing := by
  induction chunks generalizing s with
  | nil => rfl
  | cons c cs ih =>
    rw [List.foldl_cons, ih, appended, List.foldl_append, captureChunk_ring]

/-- The time of a chunk plays no part in what is kept. -/
theorem onInspectData_now (data : CStr) (now : Int) :
    (onInspectData data isRequest conn now).bind keptMessage =
      (onInspectData data isRequest conn 0).bind keptMessage := by
  unfold onInspectData
  by_cases hlen : data.length < 4
  · rw [if_pos hlen, if_pos hlen]
  · rw [if_neg hlen, if_neg hlen]
    by_cases htracker : (conn.domain.nonempty && domainIsTracker conn.domain.chars) = true
    · rw [if_pos htracker, if_pos htracker]
    · rw [if_neg htracker, if_neg htracker]
      rfl

theorem entryOf_eq_none_iff {c : Chunk} :
    entryOf d codecs conn isRequest s c = none ↔ Dropped conn isRequest c.1 := by
  unfold Dropped
  rw [← onInspectData_now c.1 c.2]
  unfold entryOf
  cases onInspectData c.1 isRequest conn c.2 with
  | none => simp
  | some m => simp

theorem appended_eq_nil (h : ∀ c ∈ chunks, Dropped conn isRequest c.1) :
    appended d codecs conn isRequest s chunks = [] := by
  induction chunks generalizing s with
  | nil => rfl
  | cons c cs ih =>
    obtain ⟨hc, hcs⟩ := List.forall_mem_cons.mp h
    rw [appended, entryOf_eq_none_iff.mpr hc, ih hcs]
    rfl

theorem appended_ne_nil {c : Chunk} (hc : c ∈ chunks) (h : ¬ Dropped conn isRequest c.1) :
    appended d codecs conn isRequest s chunks ≠ [] := by
  induction chunks generalizing s with
  | nil => cases hc
  | cons b bs ih =>
    rw [appended]
    rcases List.mem_cons.mp hc with rfl | hin
    · have hkept : entryOf d codecs conn isRequest s c ≠ none :=
        fun hn => h (entryOf_eq_none_iff.mp hn)
      obtain ⟨e, he⟩ := Option.ne_none_iff_exists'.mp hkept
      rw [he]
      simp
    · exact List.append_ne_nil_of_right_ne_nil _ (ih hin)

/-- Both parsers ask for ten bytes. -/
theorem dropped_of_short (h : data.length < 10) : Dropped conn isRequest data := by
  unfold Dropped onInspectData
  by_cases hlen : data.length < 4
  · rw [if_pos hlen]
    rfl
  · rw [if_neg hlen]
    by_cases htracker : (conn.domain.nonempty && domainIsTracker conn.domain.chars) = true
    · rw [if_pos htracker]
      rfl
    · rw [if_neg htracker, Option.bind_some]
      unfold keptMessage
      dsimp only
      cases isRequest with
      | true =>
        rw [if_pos rfl]
        by_cases hh2 : h2Preface.isPrefixOf data = true
        · rw [if_pos hh2]
        · rw [if_neg hh2]
          unfold pfHttpParseRequest
          rw [if_pos h]
      | false =>
        unfold pfHttpParseResponse
        rw [if_pos h]
        rfl

/-! ## Splits -/

/-- Any bytes but one, two or three can be read a few at a time. -/
theorem exists_small_split (bytes : CStr) (h : Cut bytes) :
    ∃ chunks, SplitOf bytes chunks ∧ ∀ c ∈ chunks, c.1.length < 10 := by
  by_cases hsmall : bytes.length < 8
  · rcases h with rfl | hfour
    · exact ⟨[], ⟨rfl, by simp⟩, by simp⟩
    · refine ⟨[(bytes, 0)], ⟨by simp, ?_⟩, ?_⟩
      · rw [List.forall_mem_singleton]
        refine ⟨hfour, ?_⟩
        unfold pfBufSize
        dsimp only
        omega
      · rw [List.forall_mem_singleton]
        dsimp only
        omega
  · have hrest : Cut (bytes.drop 4) := by
      right
      rw [List.length_drop]
      omega
    obtain ⟨chunks, hsplit, hlt⟩ := exists_small_split (bytes.drop 4) hrest
    have hfirst : (bytes.take 4).length = 4 := by
      rw [List.length_take]
      omega
    refine ⟨(bytes.take 4, 0) :: chunks, ⟨?_, ?_⟩, ?_⟩
    · rw [List.map_cons, List.flatten_cons, hsplit.whole, List.take_append_drop]
    · refine List.forall_mem_cons.mpr ⟨?_, hsplit.sizes⟩
      rw [hfirst]
      exact ⟨Nat.le_refl 4, by unfold pfBufSize; omega⟩
    · refine List.forall_mem_cons.mpr ⟨?_, hlt⟩
      rw [hfirst]
      decide
termination_by bytes.length
decreasing_by
  rw [List.length_drop]
  omega

theorem SplitOf.append {a b : CStr} {as bs : List Chunk} (ha : SplitOf a as) (hb : SplitOf b bs) :
    SplitOf (a ++ b) (as ++ bs) where
  whole := by rw [List.map_append, List.flatten_append, ha.whole, hb.whole]
  sizes := List.forall_mem_append.mpr ⟨ha.sizes, hb.sizes⟩

/-- Chunks are nothing or four bytes and more. -/
theorem cut_flatten (h : ∀ c ∈ chunks, 4 ≤ c.1.length ∧ c.1.length ≤ pfBufSize) :
    Cut (chunks.map Prod.fst).flatten := by
  cases chunks with
  | nil => exact .inl rfl
  | cons c cs =>
    right
    have hc := (h c (List.mem_cons_self ..)).1
    rw [List.map_cons, List.flatten_cons, List.length_append]
    omega

theorem dropped_of_split (hu : Unseen conn isRequest stream) (h : SplitOf stream chunks) :
    ∀ c ∈ chunks, Dropped conn isRequest c.1 := by
  intro c hc
  obtain ⟨as, bs, rfl⟩ := List.append_of_mem hc
  obtain ⟨has, hcbs⟩ := List.forall_mem_append.mp h.sizes
  obtain ⟨hc, hbs⟩ := List.forall_mem_cons.mp hcbs
  have hwhole := h.whole
  rw [List.map_append, List.flatten_append, List.map_cons, List.flatten_cons] at hwhole
  exact hu _ c.1 _ hwhole.symm (cut_flatten has) (cut_flatten hbs) hc.1 hc.2

/-- One split shows the piece, the other never shows the parser enough bytes. -/
theorem unseen_of_independent (hind : Independent d codecs conn isRequest stream) :
    Unseen conn isRequest stream := by
  intro before data after hstream hbefore hafter hmin hmax
  by_contra hkept
  obtain ⟨as, has, hasmall⟩ := exists_small_split before hbefore
  obtain ⟨bs, hbs, hbsmall⟩ := exists_small_split after hafter
  have hdata : SplitOf data [(data, 0)] := ⟨by simp, List.forall_mem_singleton.mpr ⟨hmin, hmax⟩⟩
  have hwith : SplitOf stream (as ++ ([(data, 0)] ++ bs)) := by
    rw [hstream]
    exact has.append (hdata.append hbs)
  have hcut : Cut stream := by
    right
    rw [hstream]
    simp only [List.length_append]
    omega
  obtain ⟨cs, hcs, hcsmall⟩ := exists_small_split stream hcut
  have hnone : appended d codecs conn isRequest .start cs = [] :=
    appended_eq_nil fun c hc => dropped_of_short (hcsmall c hc)
  have hsome : appended d codecs conn isRequest .start (as ++ ([(data, 0)] ++ bs)) ≠ [] :=
    appended_ne_nil (c := (data, 0)) (by simp) hkept
  have heq := hind .start .start _ cs hwith hcs
  rw [hnone, List.map_nil, List.map_eq_nil_iff] at heq
  exact hsome heq

/-- All splits of a stream give the same entries, exactly if no piece of it gives one. -/
theorem segmentation_independent_iff (d : Doubles ν) (codecs : Codecs) (conn : Connection)
    (isRequest : Bool) (stream : CStr) :
    Independent d codecs conn isRequest stream ↔ Unseen conn isRequest stream := by
  refine ⟨unseen_of_independent, fun hu s s' chunks chunks' h h' => ?_⟩
  rw [appended_eq_nil (dropped_of_split hu h), appended_eq_nil (dropped_of_split hu h')]

/-- No split of such a stream changes the ring. -/
theorem ring_of_unseen (hu : Unseen conn isRequest stream) (h : SplitOf stream chunks)
    (s : Captures ν) :
    (chunks.foldl (captureChunk d codecs conn isRequest) s).inspectRing = s.inspectRing := by
  rw [appended_ring, appended_eq_nil (dropped_of_split hu h), List.foldl_nil]

/-! ## Streams that begin with a message -/

/-- Where the head of the first message fits a chunk and is kept, some split shows it. -/
theorem not_unseen_of_head {head extra : CStr} (hmin : 4 ≤ head.length)
    (hmax : head.length + 4 ≤ pfBufSize) (hkept : ∀ e, ¬ Dropped conn isRequest (head ++ e)) :
    ¬ Unseen conn isRequest (head ++ extra) := by
  intro hu
  by_cases hfits : (head ++ extra).length ≤ pfBufSize
  · refine hkept extra (hu [] (head ++ extra) [] ?_ (.inl rfl) (.inl rfl) ?_ hfits)
    · rw [List.nil_append, List.append_nil]
    · rw [List.length_append]
      omega
  · -- what is left over is not one, two or three bytes
    let n := pfBufSize - 4 - head.length
    rw [List.length_append] at hfits
    refine hkept (extra.take n) (hu [] (head ++ extra.take n) (extra.drop n) ?_ (.inl rfl) ?_ ?_ ?_)
    · rw [List.nil_append, List.append_assoc, List.take_append_drop]
    · right
      rw [List.length_drop]
      omega
    · rw [List.length_append]
      omega
    · rw [List.length_append, List.length_take]
      omega

theorem onInspectData_isSome (isRequest : Bool) (hlen : 4 ≤ data.length)
    (htracker : (conn.domain.nonempty && domainIsTracker conn.domain.chars) = false) :
    ∃ m, onInspectData data isRequest conn 0 = some m ∧ m.data = data ∧ m.isRequest = isRequest := by
  unfold onInspectData
  rw [if_neg (by omega), if_neg (by rw [htracker]; decide)]
  exact ⟨_, rfl, rfl, rfl⟩

/-- A message of ten bytes and more that is kept whatever its body. -/
theorem not_independent_of_head {startLine : CStr} {fields : List HeaderField}
    (hstart : 10 ≤ startLine.length)
    (hmax : (headText (startLine :: fields.map HeaderField.line)).length + 4 ≤ pfBufSize)
    (htracker : (conn.domain.nonempty && domainIsTracker conn.domain.chars) = false)
    (hkept : ∀ body m, m.data = written startLine fields body → m.isRequest = isRequest →
      keptMessage m ≠ none) (body rest : CStr) :
    ¬ Independent d codecs conn isRequest (written startLine fields body ++ rest) := by
  intro hind
  rw [written, List.append_assoc] at hind
  have hhead : 10 ≤ (headText (startLine :: fields.map HeaderField.line)).length := by
    rw [headText_cons, List.length_append]
    omega
  refine not_unseen_of_head (by omega) hmax (fun e hdropped => ?_) (unseen_of_independent hind)
  have hlen : 4 ≤ (headText (startLine :: fields.map HeaderField.line) ++ e).length := by
    rw [List.length_append]
    omega
  obtain ⟨m, hm, hdata, hreq⟩ := onInspectData_isSome isRequest hlen htracker
  unfold Dropped at hdropped
  rw [hm, Option.bind_some] at hdropped
  exact hkept e m hdata hreq hdropped

/-- An HTTP/1.1 request is not the preface of HTTP/2. -/
theorem not_preface (r : RequestText) (hr : r.Fits) (hversion : r.version = lit "HTTP/1.1")
    (body : CStr) : h2Preface.isPrefixOf (written r.startLine r.headers body) = false := by
  by_contra hpre
  obtain ⟨t, ht⟩ := List.isPrefixOf_iff_prefix.mp (Bool.not_eq_false _ ▸ hpre)
  have hline : (13 : UInt8) ∉ r.startLine := by
    simp [RequestText.startLine, hr.method.2.2.1, hr.url.2.2.1, hr.version.2.2.1]
  have hne : r.startLine ≠ [] := by simp [RequestText.startLine]
  obtain ⟨-, hcr, htake, -⟩ := written_parts hline hne hr.headers body
  have hpreface : h2Preface = lit "PRI * HTTP/2.0" ++ 13 :: lit "\x0a\x0d\x0aSM\x0d\x0a\x0d\x0a" := by
    decide
  rw [← ht, hpreface, List.append_assoc, List.cons_append, memchr_append (by decide) _] at hcr
  rw [← ht, ← Option.some.inj hcr, hpreface, List.append_assoc, List.take_left] at htake
  have hend : r.startLine = (r.method ++ 32 :: (r.url ++ 32 :: lit "HTTP/1.")) ++ [49] := by
    rw [RequestText.startLine, hversion, show lit "HTTP/1.1" = lit "HTTP/1." ++ [49] by decide]
    simp
  have hlast := congrArg List.getLast? htake
  rw [hend, List.getLast?_concat] at hlast
  exact absurd hlast (by decide)

theorem version_length {version : CStr} (hversion : version = lit "HTTP/1.1") :
    version.length = 8 := by
  rw [hversion]
  decide

/-- A stream that begins with a request whose head fits a chunk. -/
theorem not_independent_of_request (r : RequestText) (hr : r.Fits)
    (hversion : r.version = lit "HTTP/1.1")
    (htracker : (conn.domain.nonempty && domainIsTracker conn.domain.chars) = false)
    (hmax : (headText (r.startLine :: r.headers.map HeaderField.line)).length + 4 ≤ pfBufSize)
    (rest : CStr) :
    ¬ Independent d codecs conn true (written r.startLine r.headers r.body ++ rest) := by
  have hstart : 10 ≤ r.startLine.length := by
    have hlen := version_length hversion
    simp only [RequestText.startLine, List.length_append, List.length_cons]
    omega
  refine not_independent_of_head hstart hmax htracker (fun body m hdata hreq hnone => ?_) r.body rest
  have hten : 10 ≤ (written r.startLine r.headers body).length := by
    rw [written, headText_cons, List.length_append, List.length_append]
    omega
  obtain ⟨len, hparsed, -⟩ := request_round_trip ⟨r.method, r.url, r.version, r.headers, body⟩
    ⟨hr.method, hr.url, hr.version, hr.count, hr.headers⟩ hten
  obtain ⟨msg, hmsg, -⟩ := Option.map_eq_some_iff.mp hparsed
  rw [keptMessage, hreq, if_pos rfl, hdata,
    if_neg (by rw [not_preface r hr hversion body]; decide)] at hnone
  exact absurd (hmsg.symm.trans hnone) (Option.some_ne_none msg)

/-- The same of a response, unless its type is that of an asset. -/
theorem not_independent_of_response (r : ResponseText) (hr : r.Fits)
    (hversion : r.version = lit "HTTP/1.1")
    (htracker : (conn.domain.nonempty && domainIsTracker conn.domain.chars) = false)
    (hmax : (headText (r.startLine :: r.headers.map HeaderField.line)).length + 4 ≤ pfBufSize)
    (htype : contentTypeIsAsset ((r.headers.find? fun f =>
      strcaseeq f.name (lit "Content-Type")).map HeaderField.value) = false) (rest : CStr) :
    ¬ Independent d codecs conn false (written r.startLine r.headers r.body ++ rest) := by
  have hstart : 10 ≤ r.startLine.length := by
    have hlen := version_length hversion
    have hdigits := List.length_pos_iff.mpr (decimal_ne_nil r.status)
    simp only [ResponseText.startLine, List.length_append, List.length_cons]
    omega
  refine not_independent_of_head hstart hmax htracker (fun body m hdata hreq hnone => ?_) r.body rest
  have hten : 10 ≤ (written r.startLine r.headers body).length := by
    rw [written, headText_cons, List.length_append, List.length_append]
    omega
  obtain ⟨len, hparsed, -⟩ := response_round_trip ⟨r.version, r.status, r.statusText, r.headers, body⟩
    ⟨hr.version, hr.status, hr.statusText, hr.count, hr.headers⟩ hten
  obtain ⟨msg, hmsg, hfields⟩ := Option.map_eq_some_iff.mp hparsed
  have hheaders : msg.headers = stored r.headers := congrArg (fun p => p.headers) hfields
  have hget : pfHttpGetHeader msg "Content-Type" = (r.headers.find? fun f =>
      strcaseeq f.name (lit "Content-Type")).map HeaderField.value := by
    rw [pfHttpGetHeader, hheaders, stored, List.find?_map, Option.map_map]
    rfl
  have hparse : pfHttpParseResponse m.data = some msg := by
    rw [hdata]
    exact hmsg
  rw [keptMessage, hreq, if_neg (by decide), hparse, Option.filter_some, hget, htype] at hnone
  cases hnone

/-- An inspected connection without a server name. -/
def inspectedConn : Connection := { Connection.unused with active := true, inspect := true }

/-- A request read at once is captured, and read a few bytes at a time it is not. -/
theorem split_request_lost :
    ¬ Independent natDoubles noCodecs inspectedConn true
      (written sampleRequest.startLine sampleRequest.headers sampleRequest.body ++ []) :=
  not_independent_of_request sampleRequest sampleRequest_fits rfl (by decide) (by decide) []

end Proxiflare.Guarantees.CaptureSegmentation
