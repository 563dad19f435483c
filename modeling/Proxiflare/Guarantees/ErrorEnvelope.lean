import Proxiflare.Guarantees.CapturedHeaders

/-!
# The error envelope

The handlers answer `result` or `error` inside the object that the server wraps in a
`result` of its own, and the client looks for `error` on the outside only. An error of
a handler reaches the caller as a success. A value reaches it where its text is read as it was
printed: an object with a name twice loses a member.
-/

namespace Proxiflare.Guarantees.ErrorEnvelope

open Lib.CString Lib.LastWins
open Proxiflare.Daemon Proxiflare.Gui
open ReadableReplies (allValid_reply)

variable {ν σ : Type} {env : IpcEnv ν σ} {w : Wire ν} {r : Serde ν} {st : σ} {c : IpcClient}

/-! ## A call whose lines arrive whole -/

/-- The request as the daemon has it, if its line fits and parses. -/
def received (env : IpcEnv ν σ) (w : Wire ν) (id : Nat) (method : CStr) (params : Cjson ν) :
    Option (Cjson ν) :=
  let line := w.toText (requestOf w id method params)
  if line.length + 1 < pfBufSize then env.parse (cstr line) else none

/-- What the handler returns for a request that gets to it. -/
def handlerOutput (env : IpcEnv ν σ) (st : σ) (c : IpcClient) (req : Cjson ν) : Option (Cjson ν) :=
  match (req.getItem (lit "method")).bind Cjson.stringValue with
  | none => none
  | some method =>
    match builtin c method with
    | some _ => none
    | none => (env.handler st method (req.getItem (lit "params"))).1

def answer (env : IpcEnv ν σ) (w : Wire ν) (st : σ) (c : IpcClient) (req : Cjson ν) : CStr :=
  (respond env st c req).1.print w.printNumber

/-- The daemon closes on a line that is too long. One that does not parse is skipped, and the client
waits for an answer until its read times out. -/
def sendRequest (env : IpcEnv ν σ) (w : Wire ν) (st : σ) (c : IpcClient) (id : Nat) (method : CStr)
    (params : Cjson ν) : Except ClientError (Cjson ν) :=
  let line := w.toText (requestOf w id method params)
  if line.length + 1 < pfBufSize then
    match env.parse (cstr line) with
    | none => .error .read
    | some req => readResponse w (answer env w st c req)
  else .error .closed

def produced (env : IpcEnv ν σ) (w : Wire ν) (st : σ) (c : IpcClient) (id : Nat) (method : CStr)
    (params : Cjson ν) : Option (Cjson ν) :=
  (received env w id method params).bind (handlerOutput env st c)

/-- An error for an error of the handler, a value for the same value, and nothing else. -/
structure Agrees (result : Except ClientError (Cjson ν)) (output : Option (Cjson ν)) : Prop where
  error : ∀ e, result = .error e ↔
    ∃ m, e = .daemon m ∧ output = some (.obj [(lit "error", .str m)])
  returned : ∀ v, result = .ok v →
    ∃ x, output = some (.obj [(lit "result", x)]) ∧ SameValue x v
  handled : ∀ x, output = some (.obj [(lit "result", x)]) →
    ∃ v, result = .ok v ∧ SameValue x v

theorem sendRequest_of_received {id : Nat} {method : CStr} {params req : Cjson ν}
    (h : received env w id method params = some req) :
    sendRequest env w st c id method params = readResponse w (answer env w st c req) := by
  obtain ⟨hfits, hparse⟩ := Option.ite_none_right_eq_some.mp h
  rw [sendRequest, if_pos hfits, hparse]

theorem sendRequest_of_not_received {id : Nat} {method : CStr} {params : Cjson ν}
    (h : received env w id method params = none) :
    sendRequest env w st c id method params = .error .read ∨
      sendRequest env w st c id method params = .error .closed := by
  unfold received at h
  unfold sendRequest
  dsimp only at h ⊢
  split at h
  · next hfits =>
    rw [if_pos hfits, h]
    exact .inl rfl
  · next hlong =>
    rw [if_neg hlong]
    exact .inr rfl

/-! ## Taking the response apart -/

section Response

variable (hmap : ∀ ms, MapOf ms (r.map ms))
include hmap

theorem unwrap_result (req out : Cjson ν) :
    unwrapResponse (r.value (reply req "result" out)) =
      .ok ((Gui.get (r.value out) (lit "result")).getD (r.value out)) := by
  have herror : Gui.get (r.value (reply req "result" out)) (lit "error") = none := by
    rw [reply, get_value hmap]
    rfl
  have houter : Gui.get (r.value (reply req "result" out)) (lit "result") = some (r.value out) := by
    rw [reply, get_value hmap]
    rfl
  unfold unwrapResponse
  rw [herror, houter]
  simp only [Option.getD_some]
  cases Gui.get (r.value out) (lit "result") with
  | none => rfl
  | some inner => rfl

theorem unwrap_error (req value : Cjson ν) :
    ∃ m, unwrapResponse (r.value (reply req "error" value)) = .error (.daemon m) := by
  have herror : Gui.get (r.value (reply req "error" value)) (lit "error") = some (r.value value) := by
    rw [reply, get_value hmap]
    rfl
  unfold unwrapResponse
  rw [herror]
  exact ⟨_, rfl⟩

/-- Without the handler the client gets an error of the server, or `true`. -/
theorem unwrap_unhandled {req : Cjson ν} (h : handlerOutput env st c req = none) :
    (∃ m, unwrapResponse (r.value (respond env st c req).1) = .error (.daemon m)) ∨
      unwrapResponse (r.value (respond env st c req).1) = .ok (.bool true) := by
  unfold handlerOutput at h
  cases hm : (req.getItem (lit "method")).bind Cjson.stringValue with
  | none =>
    left
    simp only [respond, hm]
    exact unwrap_error hmap req _
  | some method =>
    cases hb : builtin c method with
    | some c' =>
      right
      simp only [respond, hm, hb]
      exact unwrap_result hmap req _
    | none =>
      left
      simp only [hm, hb] at h
      simp only [respond, hm, hb, h]
      exact unwrap_error hmap req _

end Response

theorem respond_handled {req out : Cjson ν} (h : handlerOutput env st c req = some out) :
    (respond env st c req).1 = reply req "result" out := by
  unfold handlerOutput at h
  cases hm : (req.getItem (lit "method")).bind Cjson.stringValue with
  | none => simp [hm] at h
  | some method =>
    cases hb : builtin c method with
    | some c' => simp [hm, hb] at h
    | none =>
      simp only [hm, hb] at h
      simp [respond, hm, hb, h]

theorem answer_ne_nil (req : Cjson ν) : answer env w st c req ≠ [] := by
  obtain ⟨key, value, heq⟩ := respond_reply env st c req
  rw [answer, heq]
  exact List.cons_ne_nil _ _

theorem depth_reply_result (req x : Cjson ν) :
    (reply req "result" (.obj [(lit "result", x)])).depth = x.depth + 2 := by
  have hid : (replyId req).depth = 0 := by
    unfold replyId
    split
    · rfl
    · rfl
  simp only [reply, Cjson.depth, Cjson.depthMembers, hid]
  omega

/-! ## Where the two sides agree -/

theorem not_agrees_error {e : ClientError} {output : Option (Cjson ν)}
    (h : ∀ m, e = .daemon m → output ≠ some (.obj [(lit "error", .str m)])) :
    ¬ Agrees (.error e) output := by
  intro hagrees
  obtain ⟨m, he, hout⟩ := (hagrees.error e).mp rfl
  exact h m he hout

theorem not_agrees_none {result : Except ClientError (Cjson ν)} : ¬ Agrees result none := by
  intro hagrees
  cases result with
  | error e =>
    obtain ⟨m, -, hout⟩ := (hagrees.error e).mp rfl
    cases hout
  | ok v =>
    obtain ⟨x, hout, -⟩ := hagrees.returned v rfl
    cases hout

theorem agrees_ok_iff (hmap : ∀ ms, MapOf ms (r.map ms)) (out : Cjson ν) :
    Agrees (.ok ((Gui.get (r.value out) (lit "result")).getD (r.value out))) (some out) ↔
      ∃ x, out = .obj [(lit "result", x)] ∧ r.Keeps x := by
  have hinner : ∀ x : Cjson ν, Gui.get (r.value (.obj [(lit "result", x)])) (lit "result") =
      some (r.value x) := by
    intro x
    rw [get_value hmap]
    rfl
  constructor
  · intro hagrees
    obtain ⟨x, hout, hsame⟩ := hagrees.returned _ rfl
    obtain rfl := Option.some.inj hout
    rw [hinner, Option.getD_some] at hsame
    exact ⟨x, rfl, (sameValue_iff hmap x).mp hsame⟩
  · rintro ⟨x, rfl, hkeeps⟩
    have hsame := (sameValue_iff hmap x).mpr hkeeps
    rw [hinner, Option.getD_some]
    refine ⟨?_, ?_, ?_⟩
    · intro e
      simp [lit]
    · intro v hv
      obtain rfl := Except.ok.inj hv
      exact ⟨x, rfl, hsame⟩
    · intro x' hx'
      obtain rfl : x = x' := by simpa using hx'
      exact ⟨_, rfl, hsame⟩

/-- A reader that takes the answer as `serde_json` takes it, of every handler. -/
theorem agrees_iff (id : Nat) (method : CStr) (params : Cjson ν)
    (hnum : Cjson.PrintsNumbers w.printNumber)
    (hreads : ∀ req, received env w id method params = some req →
      w.ReadsAll r (respond env st c req).1) :
    Agrees (sendRequest env w st c id method params) (produced env w st c id method params) ↔
      ∃ req x, received env w id method params = some req ∧
        handlerOutput env st c req = some (.obj [(lit "result", x)]) ∧
          x.AllValid ∧ x.depth + 2 < 128 ∧ r.Keeps x := by
  cases hreq : received env w id method params with
  | none =>
    rw [produced, hreq, Option.bind_none]
    simpa using not_agrees_none
  | some req =>
    have hread := hreads req hreq
    have hmap := hread.map
    have hne : (respond env st c req).1.print w.printNumber ≠ [] := answer_ne_nil req
    rw [produced, hreq, Option.bind_some, sendRequest_of_received hreq, answer]
    simp only [Option.some.injEq, exists_and_left, exists_eq_left']
    cases hout : handlerOutput env st c req with
    | none => simpa using not_agrees_none
    | some out =>
      have hresponse := respond_handled hout
      have hvalid : (respond env st c req).1.AllValid ↔ out.AllValid := by
        rw [hresponse]
        exact allValid_reply (by decide) out
      have hdepth : ∀ x, out = .obj [(lit "result", x)] →
          (respond env st c req).1.depth = x.depth + 2 := by
        rintro x rfl
        rw [hresponse, depth_reply_result]
      have hname : Lib.Utf8.Valid (cstr (lit "result")) :=
        ReadableReplies.valid_of_asciiText (by decide)
      have hinside : ∀ x : Cjson ν, (Cjson.obj [(lit "result", x)]).AllValid → x.AllValid :=
        fun x h => ((Cjson.allValid_obj _).mp h _ (List.mem_singleton_self _)).2
      by_cases hutf8 : out.AllValid
      · by_cases hdeep : (respond env st c req).1.depth < 128
        · rw [readResponse_value hread.toReads hnum (hvalid.mpr hutf8) hdeep hne, hresponse,
            unwrap_result hmap, agrees_ok_iff hmap]
          constructor
          · rintro ⟨x, rfl, hkeeps⟩
            exact ⟨x, rfl, hinside x hutf8, by rw [← hdepth x rfl]; exact hdeep, hkeeps⟩
          · rintro ⟨x, hx, -, -, hkeeps⟩
            exact ⟨x, Option.some.inj hx, hkeeps⟩
        · rw [readResponse_deep hread hnum (hvalid.mpr hutf8) (Nat.le_of_not_lt hdeep) hne]
          refine iff_of_false (not_agrees_error fun m hm => by cases hm) ?_
          rintro ⟨x, hx, -, hshallow, -⟩
          rw [hdepth x (Option.some.inj hx)] at hdeep
          exact hdeep hshallow
      · rw [readResponse_not_utf8 hread.toReads hnum (mt hvalid.mp hutf8)]
        refine iff_of_false (not_agrees_error fun m hm => by cases hm) ?_
        rintro ⟨x, hx, hx', -⟩
        refine hutf8 ?_
        rw [Option.some.inj hx, Cjson.allValid_obj, List.forall_mem_singleton]
        exact ⟨hname, hx'⟩

/-! ## Two calls -/

open ReadableReplies CapturedHeaders

/-- A request the client makes as its call 1. -/
def firstRequest (method : String) (params : Cjson Nat) : Cjson Nat :=
  .obj [(lit "id", .num 1), (lit "method", .str (lit method)), (lit "params", params)]

/-- A daemon that receives this request. -/
def requestEnv (request : Cjson Nat) : IpcEnv Nat (Captures Nat) :=
  captureEnv natDoubles (fun t => if t = request.print decimal then some request else none)
    fun s _ _ => (none, s)

/-- A client that reads the answer to it. -/
def requestWire (s : Captures Nat) (request : Cjson Nat) : Wire Nat :=
  readsLine (respond (requestEnv request) s .free request).1

theorem received_first (s : Captures Nat) (method : String) (params : Cjson Nat)
    (hfits : ((firstRequest method params).print decimal).length + 1 < pfBufSize)
    (hcstr : cstr ((firstRequest method params).print decimal) =
      (firstRequest method params).print decimal) :
    received (requestEnv (firstRequest method params)) (requestWire s (firstRequest method params)) 1
      (lit method) params = some (firstRequest method params) := by
  have htext : (requestWire s (firstRequest method params)).toText
      (requestOf (requestWire s (firstRequest method params)) 1 (lit method) params) =
        (firstRequest method params).print decimal := rfl
  unfold received
  rw [htext]
  dsimp only
  rw [if_pos hfits, hcstr]
  exact if_pos rfl

def callFirst (s : Captures Nat) (method : String) (params : Cjson Nat) :
    Except ClientError (Cjson Nat) :=
  sendRequest (requestEnv (firstRequest method params)) (requestWire s (firstRequest method params))
    s .free 1 (lit method) params

def producedFirst (s : Captures Nat) (method : String) (params : Cjson Nat) : Option (Cjson Nat) :=
  produced (requestEnv (firstRequest method params)) (requestWire s (firstRequest method params))
    s .free 1 (lit method) params

def seqOne : Cjson Nat := .obj [(lit "seq", .num 1)]

/-- A response with two cookies, under names that differ in case. -/
def cookies : Message := twoCookies (lit "set-cookie")

instance (n : Nat) : Decidable (serde.number n = .num n) := .isTrue rfl

/-- `inspect.get` of its entry. -/
theorem cookies_agree :
    Agrees (callFirst (afterOne cookies) "inspect.get" seqOne)
      (producedFirst (afterOne cookies) "inspect.get" seqOne) := by
  have hkept : keptMessage (captured cookies) = some cookies.record := by decide +kernel
  have hreceived := received_first (afterOne cookies) "inspect.get" seqOne
    (by decide +kernel) (by decide +kernel)
  have hrequest : captureRequest natDoubles (afterOne cookies) (lit "inspect.get") (some seqOne) =
      some (.obj [(lit "result",
        captureEntry natDoubles noCodecs (captured cookies) cookies.record 1)]) := by
    have hfound := afterOne_found hkept
    rw [← hfound]
    rfl
  have hout : handlerOutput (requestEnv (firstRequest "inspect.get" seqOne)) (afterOne cookies)
      .free (firstRequest "inspect.get" seqOne) = some (.obj [(lit "result",
        captureEntry natDoubles noCodecs (captured cookies) cookies.record 1)]) := by
    have hmethod : ((firstRequest "inspect.get" seqOne).getItem (lit "method")).bind
        Cjson.stringValue = some (lit "inspect.get") := rfl
    have hparams : (firstRequest "inspect.get" seqOne).getItem (lit "params") = some seqOne := rfl
    have hbuiltin : builtin .free (lit "inspect.get") = none := rfl
    rw [handlerOutput, hmethod]
    dsimp only
    rw [hbuiltin, hparams]
    simp only [requestEnv, captureEnv, hrequest]
  have htexts : (Cjson.texts (captureEntry natDoubles noCodecs (captured cookies)
      cookies.record 1)).all (fun t => t.all (· < 128)) = true := by decide +kernel
  have hreply : (respond (requestEnv (firstRequest "inspect.get" seqOne)) (afterOne cookies) .free
      (firstRequest "inspect.get" seqOne)).1.depth < 128 := by
    rw [respond_handled hout, depth_reply_result]
    decide +kernel
  unfold callFirst producedFirst
  refine (agrees_iff (r := serde) 1 _ _ natDoubles_prints ?_).mpr
    ⟨_, _, hreceived, hout, ?_, by decide +kernel, by decide +kernel⟩
  · intro req hreq
    obtain rfl := Option.some.inj (hreceived.symm.trans hreq)
    exact ⟨readsLine_reads _, fun hdeep => absurd hreply (Nat.not_lt.mpr hdeep)⟩
  · exact fun t ht => Lib.Utf8.valid_of_all (List.all_eq_true.mp htexts t ht)

/-- `inspect.get` of an entry that is not there: the handler answers an error, the client returns a
value. -/
theorem not_found_returns_ok :
    producedFirst .start "inspect.get" seqOne =
        some (.obj [(lit "error", .str (lit "not found"))]) ∧
      ¬ Agrees (callFirst .start "inspect.get" seqOne)
        (producedFirst .start "inspect.get" seqOne) := by
  have hreceived := received_first .start "inspect.get" seqOne
    (by decide +kernel) (by decide +kernel)
  have hproduced : producedFirst .start "inspect.get" seqOne =
      some (.obj [(lit "error", .str (lit "not found"))]) := by
    unfold producedFirst produced
    rw [hreceived]
    rfl
  refine ⟨hproduced, ?_⟩
  intro hagrees
  have herror := (hagrees.error (.daemon (lit "not found"))).mpr ⟨_, rfl, hproduced⟩
  have hok : (callFirst .start "inspect.get" seqOne).isOk = true := by
    decide +kernel
  rw [herror] at hok
  cases hok

end Proxiflare.Guarantees.ErrorEnvelope
