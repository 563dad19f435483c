import Proxiflare.Guarantees.LockedCredentials
import Proxiflare.Gui.Commands

/-!
# Parameters sent and parameters required

A method of the daemon refuses a request for a missing parameter exactly when the
parameter is not there under the daemon's name for it, in the type it reads. Every
command of the GUI sends what its method requires, except that `credentials_unlock` has
`master_password` where `credentials.unlock` looks for `password`.
-/

namespace Proxiflare.Guarantees.CommandParameters

open Lib.CString Lib.Aead
open Proxiflare.Daemon Proxiflare.Gui
open Proxiflare.Guarantees.LockedCredentials (lockedDaemon mildOutside testPlatform)

variable {ν κ χ π : Type}

/-! ## What the daemon requires -/

def missingTexts : List String :=
  ["missing params", "missing id", "missing ids array", "missing key", "missing key or value",
    "missing password"]

def IsMissing (v : Cjson ν) : Prop := ∃ text ∈ missingTexts, v = errorOf (lit text)

/-- The parameters a method cannot do without are there. -/
def supplied (params : Option Json) : Method → Bool
  | .proxyAdd | .proxyEdit | .ruleAdd | .ruleEdit | .chainAdd | .chainEdit => params.isSome
  | .proxyDelete | .proxyTest | .ruleDelete | .chainDelete | .chainTest =>
    (itemOf params "id").isSome
  | .ruleReorder => (Host.reorderIds params).isSome
  | .configGet => (textOf params "key").isSome
  | .configSet => (textOf params "key").isSome && (textOf params "value").isSome
  | .credentialsUnlock => (unlockPassword params).isSome
  | _ => true

theorem not_isMissing_result (v : Cjson ν) : ¬ IsMissing (resultOf v) := by
  rintro ⟨text, -, heq⟩
  have hkey : lit "result" = lit "error" :=
    congrArg Prod.fst (List.cons.inj (Cjson.obj.inj heq)).1
  exact absurd hkey (by decide)

theorem isMissing_error {message : CStr} :
    IsMissing (errorOf message : Cjson ν) ↔ message ∈ missingTexts.map lit := by
  rw [List.mem_map]
  constructor
  · rintro ⟨text, htext, heq⟩
    simp only [errorOf, Cjson.obj.injEq, List.cons.injEq, Prod.mk.injEq, true_and, and_true,
      Cjson.str.injEq] at heq
    exact ⟨text, htext, heq.symm⟩
  · rintro ⟨text, htext, rfl⟩
    exact ⟨text, htext, rfl⟩

/-- All of them start with an `m`. -/
theorem missingTexts_head : ∀ message ∈ missingTexts.map lit, message.head? = some 109 := by
  decide

theorem not_isMissing_error {message : CStr} (h : message.head? ≠ some 109) :
    ¬ IsMissing (errorOf message : Cjson ν) :=
  fun hmissing => h (missingTexts_head _ (isMissing_error.mp hmissing))

theorem not_isMissing_ok : ¬ IsMissing (Reply.ok.json : Cjson ν) := not_isMissing_result _

theorem isMissing_refused {message : String} (hmessage : message ∈ missingTexts) (h : Host) :
    IsMissing ((h.refuse message).1.json : Cjson ν) := ⟨message, hmessage, rfl⟩

theorem not_isMissing_refused {message : String} (hmessage : (lit message).head? ≠ some 109)
    (h : Host) : ¬ IsMissing ((h.refuse message).1.json : Cjson ν) := not_isMissing_error hmessage

/-- Refused without the value, and never with it. -/
theorem isMissing_iff_of_cases {α : Type} {v : Option α} {f : Option α → Cjson ν}
    (hnone : IsMissing (f none)) (hsome : ∀ a, ¬ IsMissing (f (some a))) :
    IsMissing (f v) ↔ v.isSome = false := by
  cases v with
  | none => exact iff_of_true hnone rfl
  | some a => exact iff_of_false (hsome a) Bool.noConfusion

/-! ## Methods that need parameters at all -/

section

variable (printed : Nat → CStr) (h : Host) (p : Json)

theorem proxyAdd_answers : ¬ IsMissing ((h.proxyAdd (some p)).1.json : Cjson ν) := by
  unfold Host.proxyAdd
  dsimp only
  split
  · exact not_isMissing_refused (by decide) _
  · exact not_isMissing_ok

theorem proxyEdit_answers : ¬ IsMissing ((h.proxyEdit printed (some p)).1.json : Cjson ν) := by
  unfold Host.proxyEdit
  dsimp only
  split
  · exact not_isMissing_refused (by decide) _
  · split
    · exact not_isMissing_refused (by decide) _
    · exact not_isMissing_ok

theorem ruleAdd_answers : ¬ IsMissing ((h.ruleAdd printed (some p)).1.json : Cjson ν) := by
  unfold Host.ruleAdd
  dsimp only
  split
  · exact not_isMissing_refused (by decide) _
  · exact not_isMissing_ok

theorem ruleEdit_answers : ¬ IsMissing ((h.ruleEdit printed (some p)).1.json : Cjson ν) := by
  unfold Host.ruleEdit
  dsimp only
  split
  · exact not_isMissing_refused (by decide) _
  · split
    · exact not_isMissing_refused (by decide) _
    · exact not_isMissing_ok

theorem chainAdd_answers : ¬ IsMissing ((h.chainAdd (some p)).1.json : Cjson ν) := by
  unfold Host.chainAdd
  dsimp only
  split
  · exact not_isMissing_refused (by decide) _
  · exact not_isMissing_ok

theorem chainEdit_answers : ¬ IsMissing ((h.chainEdit (some p)).1.json : Cjson ν) := by
  unfold Host.chainEdit
  dsimp only
  split
  · exact not_isMissing_refused (by decide) _
  · exact not_isMissing_ok

end

/-! ## Methods that need an id -/

variable (params : Option Json)

/-- The message on a record in use starts like none of the refusals. -/
theorem not_isMissing_used {before : String} (h : Host) (refs : Nat) (after : String) {c : UInt8}
    {rest : CStr} (hbefore : lit before = c :: rest) (hc : c ≠ 0 ∧ c ≠ 109) :
    ¬ IsMissing ((h.refuseUsed before refs after).1.json : Cjson ν) := by
  have hchars : ∃ more, (CBuf.snprintf (lit before ++ decimal refs ++ lit after) : CBuf 128).chars =
      c :: more := by
    rw [hbefore]
    show ∃ more, (cstr (c :: (rest ++ decimal refs ++ lit after))).take 127 = c :: more
    rw [cstr, List.takeWhile_cons_of_pos (by simpa using hc.1)]
    exact ⟨_, rfl⟩
  obtain ⟨more, hmore⟩ := hchars
  refine not_isMissing_error fun hhead => ?_
  rw [hmore] at hhead
  exact hc.2 (Option.some.inj hhead)

theorem proxyDelete_missing_iff (h : Host) :
    IsMissing ((h.proxyDelete params).1.json : Cjson ν) ↔ (itemOf params "id").isSome = false := by
  unfold Host.proxyDelete
  cases itemOf params "id" with
  | none => exact iff_of_true (isMissing_refused (by simp [missingTexts]) h) rfl
  | some v =>
    refine iff_of_false ?_ Bool.noConfusion
    dsimp only
    split
    · exact not_isMissing_used _ _ _ rfl (by decide)
    · split
      · exact not_isMissing_refused (by decide) _
      · exact not_isMissing_ok

theorem chainDelete_missing_iff (h : Host) :
    IsMissing ((h.chainDelete params).1.json : Cjson ν) ↔ (itemOf params "id").isSome = false := by
  unfold Host.chainDelete
  cases itemOf params "id" with
  | none => exact iff_of_true (isMissing_refused (by simp [missingTexts]) h) rfl
  | some v =>
    refine iff_of_false ?_ Bool.noConfusion
    dsimp only
    split
    · exact not_isMissing_used _ _ _ rfl (by decide)
    · split
      · exact not_isMissing_refused (by decide) _
      · exact not_isMissing_ok

theorem ruleDelete_missing_iff (printed : Nat → CStr) (h : Host) :
    IsMissing ((h.ruleDelete printed params).1.json : Cjson ν) ↔
      (itemOf params "id").isSome = false := by
  unfold Host.ruleDelete itemOf
  cases params.bind (Json.getObjectItem · (lit "id")) with
  | none => exact iff_of_true (isMissing_refused (by simp [missingTexts]) h) rfl
  | some v =>
    refine iff_of_false ?_ Bool.noConfusion
    dsimp only
    split
    · exact not_isMissing_refused (by decide) _
    · exact not_isMissing_ok

variable (e : Platform ν κ) (w : Outside χ π) (s : PfCtx ν κ χ π)

theorem proxyTest_missing_iff :
    IsMissing (s.proxyTest e w params).1 ↔ (itemOf params "id").isSome = false := by
  unfold PfCtx.proxyTest
  cases itemOf params "id" with
  | none => exact iff_of_true (⟨_, by simp [missingTexts], rfl⟩) rfl
  | some v =>
    refine iff_of_false ?_ Bool.noConfusion
    dsimp only
    split
    · exact not_isMissing_error (by decide)
    · exact not_isMissing_result _

theorem chainTest_missing_iff :
    IsMissing (s.chainTest e w params).1 ↔ (itemOf params "id").isSome = false := by
  unfold PfCtx.chainTest
  cases itemOf params "id" with
  | none => exact iff_of_true (⟨_, by simp [missingTexts], rfl⟩) rfl
  | some v =>
    refine iff_of_false ?_ Bool.noConfusion
    dsimp only
    split
    · exact not_isMissing_error (by decide)
    · exact not_isMissing_result _

/-! ## Methods that need something else -/

theorem ruleReorder_missing_iff (h : Host) :
    IsMissing ((h.ruleReorder params).1.json : Cjson ν) ↔
      (Host.reorderIds params).isSome = false := by
  unfold Host.ruleReorder
  cases Host.reorderIds params with
  | none => exact iff_of_true (isMissing_refused (by simp [missingTexts]) h) rfl
  | some ids =>
    refine iff_of_false ?_ Bool.noConfusion
    dsimp only
    split
    · exact not_isMissing_ok
    · exact not_isMissing_refused (by decide) _

theorem configGet_missing_iff (h : Host) :
    IsMissing (h.configGet params : Cjson ν × Host).1 ↔ (textOf params "key").isSome = false := by
  unfold Host.configGet
  cases textOf params "key" with
  | none => exact iff_of_true (⟨_, by simp [missingTexts], rfl⟩) rfl
  | some key =>
    refine iff_of_false ?_ Bool.noConfusion
    dsimp only
    split
    · exact not_isMissing_error (by decide)
    · exact not_isMissing_result _

theorem configSet_missing_iff (h : Host) :
    IsMissing ((h.configSet params).1.json : Cjson ν) ↔
      ((textOf params "key").isSome && (textOf params "value").isSome) = false := by
  unfold Host.configSet
  cases textOf params "key" with
  | none => exact iff_of_true (isMissing_refused (by simp [missingTexts]) h) rfl
  | some key =>
    cases textOf params "value" with
    | none => exact iff_of_true (isMissing_refused (by simp [missingTexts]) h) rfl
    | some value =>
      refine iff_of_false ?_ Bool.noConfusion
      dsimp only
      split
      · exact not_isMissing_refused (by decide) _
      · exact not_isMissing_ok

theorem unlock_missing_iff :
    IsMissing (s.unlock e w params).1 ↔ (unlockPassword params).isSome = false := by
  unfold PfCtx.unlock
  cases hpw : unlockPassword params with
  | none =>
    refine iff_of_true ?_ rfl
    unfold credentialsUnlock
    rw [hpw]
    exact ⟨_, by simp [missingTexts], rfl⟩
  | some password =>
    refine iff_of_false ?_ Bool.noConfusion
    cases hkdf : w.kdfOk with
    | true =>
      rw [credentialsUnlock_derived hpw]
      exact not_isMissing_ok
    | false =>
      rw [credentialsUnlock_failed hpw]
      exact not_isMissing_error (by decide)

/-! ## All methods -/

theorem lists_answer :
    ¬ IsMissing (s.proxyList e w) ∧ ¬ IsMissing (s.ruleList e w) ∧ ¬ IsMissing (s.chainList e w) := by
  refine ⟨?_, ?_, ?_⟩
  · unfold PfCtx.proxyList
    split
    · exact not_isMissing_error (by decide)
    · exact not_isMissing_result _
  · unfold PfCtx.ruleList
    split
    · exact not_isMissing_error (by decide)
    · dsimp only
      split
      · exact not_isMissing_result _
      · exact not_isMissing_error (by decide)
  · unfold PfCtx.chainList
    split
    · exact not_isMissing_error (by decide)
    · exact not_isMissing_result _

theorem captures_answer (d : Doubles ν) (c : Captures ν) (params : Option (Cjson ν)) :
    ¬ IsMissing (logRecent d c params) ∧ ¬ IsMissing (inspectList d c params) ∧
      ¬ IsMissing (inspectGet d c params) := by
  refine ⟨not_isMissing_result _, not_isMissing_result _, ?_⟩
  unfold inspectGet
  dsimp only
  split
  · exact not_isMissing_result _
  · exact not_isMissing_error (by decide)

theorem switches_answer : ¬ IsMissing (s.dnsLeakEnable w params).1 ∧
    ¬ IsMissing s.inspectEnable.1 ∧ ¬ IsMissing (s.inspectGenerateCa w).1 ∧
    ∀ h : Host, ¬ IsMissing ((PfCtx.quicBlockEnable w h).1.json : Cjson ν) := by
  refine ⟨?_, ?_, ?_, fun h => ?_⟩
  · unfold PfCtx.dnsLeakEnable
    dsimp only
    split
    · exact not_isMissing_ok
    · exact not_isMissing_error (by decide)
  · unfold PfCtx.inspectEnable
    split
    · exact not_isMissing_error (by decide)
    · exact not_isMissing_ok
  · unfold PfCtx.inspectGenerateCa
    split
    · exact not_isMissing_error (by decide)
    · dsimp only
      split
      · exact not_isMissing_ok
      · exact not_isMissing_error (by decide)
  · unfold PfCtx.quicBlockEnable
    split
    · exact not_isMissing_ok
    · exact not_isMissing_refused (by decide) h

/-- A method refuses a request for a missing parameter exactly when it lacks one. -/
theorem handle_missing_iff (params : Option (Cjson ν)) (m : Method) :
    IsMissing (s.handle e w params m).1 ↔
      supplied (params.map (Cjson.toJson e.doubles)) m = false := by
  have hlists := lists_answer e w s
  have hcaptures := captures_answer e.doubles s.captures params
  have hswitches := switches_answer (params.map (Cjson.toJson e.doubles)) w s
  have hparams : IsMissing ((s.host.refuse "missing params").1.json : Cjson ν) :=
    isMissing_refused (by simp [missingTexts]) s.host
  cases m with
  | proxyList => exact iff_of_false hlists.1 Bool.noConfusion
  | proxyAdd =>
    exact isMissing_iff_of_cases (f := fun v => (s.host.proxyAdd v).1.json) hparams
      fun p => proxyAdd_answers s.host p
  | proxyEdit =>
    exact isMissing_iff_of_cases (f := fun v => (s.host.proxyEdit e.printed v).1.json) hparams
      fun p => proxyEdit_answers e.printed s.host p
  | proxyDelete => exact proxyDelete_missing_iff _ s.host
  | proxyTest => exact proxyTest_missing_iff _ e w s
  | ruleList => exact iff_of_false hlists.2.1 Bool.noConfusion
  | ruleAdd =>
    exact isMissing_iff_of_cases (f := fun v => (s.host.ruleAdd e.printed v).1.json) hparams
      fun p => ruleAdd_answers e.printed s.host p
  | ruleEdit =>
    exact isMissing_iff_of_cases (f := fun v => (s.host.ruleEdit e.printed v).1.json) hparams
      fun p => ruleEdit_answers e.printed s.host p
  | ruleDelete => exact ruleDelete_missing_iff _ e.printed s.host
  | chainList => exact iff_of_false hlists.2.2 Bool.noConfusion
  | chainAdd =>
    exact isMissing_iff_of_cases (f := fun v => (s.host.chainAdd v).1.json) hparams
      fun p => chainAdd_answers s.host p
  | chainEdit =>
    exact isMissing_iff_of_cases (f := fun v => (s.host.chainEdit v).1.json) hparams
      fun p => chainEdit_answers s.host p
  | chainDelete => exact chainDelete_missing_iff _ s.host
  | chainTest => exact chainTest_missing_iff _ e w s
  | ruleReorder => exact ruleReorder_missing_iff _ s.host
  | configGet => exact configGet_missing_iff _ s.host
  | configSet => exact configSet_missing_iff _ s.host
  | credentialsUnlock => exact unlock_missing_iff _ e w s
  | credentialsLock => exact iff_of_false not_isMissing_ok Bool.noConfusion
  | systemStatus => exact iff_of_false (not_isMissing_result _) Bool.noConfusion
  | systemVersion => exact iff_of_false (not_isMissing_result _) Bool.noConfusion
  | systemShutdown => exact iff_of_false (not_isMissing_result _) Bool.noConfusion
  | dnsLeakEnable => exact iff_of_false hswitches.1 Bool.noConfusion
  | dnsLeakDisable => exact iff_of_false not_isMissing_ok Bool.noConfusion
  | dnsLeakStatus => exact iff_of_false (not_isMissing_result _) Bool.noConfusion
  | logRecent => exact iff_of_false hcaptures.1 Bool.noConfusion
  | inspectList => exact iff_of_false hcaptures.2.1 Bool.noConfusion
  | inspectGet => exact iff_of_false hcaptures.2.2 Bool.noConfusion
  | inspectEnable => exact iff_of_false hswitches.2.1 Bool.noConfusion
  | inspectDisable => exact iff_of_false not_isMissing_ok Bool.noConfusion
  | quicBlockEnable => exact iff_of_false (hswitches.2.2.2 s.host) Bool.noConfusion
  | quicBlockDisable => exact iff_of_false not_isMissing_ok Bool.noConfusion
  | quicBlockStatus => exact iff_of_false (not_isMissing_result _) Bool.noConfusion
  | inspectStatus => exact iff_of_false (not_isMissing_result _) Bool.noConfusion
  | inspectGenerateCa => exact iff_of_false hswitches.2.2.1 Bool.noConfusion

/-! ## What the commands send -/

/-- The daemon has the method, and the parameters it requires are there. -/
def Supplies (d : Doubles ν) (r : Sent ν) : Prop :=
  ∃ m, Method.ofName (lit r.method) = some m ∧ supplied (some (r.params.toJson d)) m = true

/-- A member sent is found under its own name, unless an earlier one has it. -/
theorem itemOf_sent (d : Doubles ν) (method : String) (members : List (String × Cjson ν))
    (key : String) :
    itemOf (some ((sent method members).params.toJson d)) key =
      (members.find? fun m => strcaseeq (cstr (lit m.1)) (lit key)).map fun m => m.2.toJson d := by
  have hmembers : ∀ members : List (String × Cjson ν),
      (Cjson.toJsonMembers d (members.map fun m => (lit m.1, m.2))).find?
          (fun m => strcaseeq (cstr m.1) (lit key)) =
        (members.find? fun m => strcaseeq (cstr (lit m.1)) (lit key)).map
          fun m => (lit m.1, m.2.toJson d) := by
    intro members
    induction members with
    | nil => rfl
    | cons m rest ih =>
      rw [List.map_cons, Cjson.toJsonMembers, List.find?_cons, List.find?_cons, ih]
      cases strcaseeq (cstr (lit m.1)) (lit key) <;> rfl
  show ((Cjson.toJsonMembers d (members.map fun m => (lit m.1, m.2))).find? _).map Prod.snd = _
  rw [hmembers, Option.map_map]
  rfl

theorem itemOf_sent_first (d : Doubles ν) (method key : String)
    (hkey : strcaseeq (cstr (lit key)) (lit key) = true) (v : Cjson ν)
    (rest : List (String × Cjson ν)) :
    itemOf (some ((sent method ((key, v) :: rest)).params.toJson d)) key = some (v.toJson d) := by
  rw [itemOf_sent, List.find?_cons]
  simp only [hkey, Option.map_some]

variable (d : Doubles ν)

theorem id_sent (method : String) (id : UInt32) :
    (itemOf (some ((sent method [("id", u32 d id)]).params.toJson d)) "id").isSome = true := by
  rw [itemOf_sent_first d method _ (by decide)]
  rfl

theorem ids_sent (ids : List UInt32) :
    (Host.reorderIds (some ((sent "rule.reorder"
      [("ids", .arr (ids.map (u32 d)))]).params.toJson d))).isSome = true := by
  have hids : ((sent "rule.reorder" [("ids", .arr (ids.map (u32 d)))]).params.toJson d).getObjectItem
      (lit "ids") = some (.arr (Cjson.toJsonItems d (ids.map (u32 d)))) :=
    itemOf_sent_first d "rule.reorder" "ids" (by decide) (.arr (ids.map (u32 d))) []
  unfold Host.reorderIds
  rw [Option.bind_some, hids]
  rfl

theorem key_sent (key : CStr) :
    (textOf (some ((sent "config.get" [("key", .str key)]).params.toJson d)) "key").isSome =
      true := by
  unfold textOf
  rw [itemOf_sent_first d _ _ (by decide)]
  rfl

theorem setting_sent (key value : CStr) :
    ((textOf (some ((sent "config.set"
        [("key", .str key), ("value", .str value)]).params.toJson d)) "key").isSome &&
      (textOf (some ((sent "config.set"
        [("key", .str key), ("value", .str value)]).params.toJson d)) "value").isSome) = true := by
  have hother : strcaseeq (cstr (lit "key")) (lit "value") = false := by decide
  have hvalue : strcaseeq (cstr (lit "value")) (lit "value") = true := by decide
  unfold textOf
  rw [itemOf_sent_first d _ _ (by decide), itemOf_sent, List.find?_cons, List.find?_cons]
  simp only [hother, hvalue, Option.map_some]
  rfl

theorem sent_supplies {method : String} {members : List (String × Cjson ν)} (m : Method)
    (hname : (method, m) ∈ methodNames)
    (hparams : supplied (some ((sent method members).params.toJson d)) m = true) :
    ∀ r ∈ [sent method members], Supplies d r := by
  have hof : Method.ofName (lit method) = some m := Method.ofName_of_mem (method, m) hname
  exact List.forall_mem_singleton.mpr ⟨m, hof, hparams⟩

theorem requests_supply (existing : List (CStr × UInt64)) {cmd : Command}
    (hcmd : cmd.masterPassword = none) : ∀ r ∈ cmd.requests d existing, Supplies d r := by
  cases cmd with
  | proxyList => exact sent_supplies d .proxyList (by simp [methodNames]) rfl
  | proxyAdd => exact sent_supplies d .proxyAdd (by simp [methodNames]) rfl
  | proxyEdit => exact sent_supplies d .proxyEdit (by simp [methodNames]) rfl
  | proxyDelete => exact sent_supplies d .proxyDelete (by simp [methodNames]) (id_sent d _ _)
  | proxyTest => exact sent_supplies d .proxyTest (by simp [methodNames]) (id_sent d _ _)
  | ruleList => exact sent_supplies d .ruleList (by simp [methodNames]) rfl
  | ruleAdd => exact sent_supplies d .ruleAdd (by simp [methodNames]) rfl
  | ruleEdit => exact sent_supplies d .ruleEdit (by simp [methodNames]) rfl
  | ruleDelete => exact sent_supplies d .ruleDelete (by simp [methodNames]) (id_sent d _ _)
  | ruleReorder => exact sent_supplies d .ruleReorder (by simp [methodNames]) (ids_sent d _)
  | chainList => exact sent_supplies d .chainList (by simp [methodNames]) rfl
  | chainAdd => exact sent_supplies d .chainAdd (by simp [methodNames]) rfl
  | chainEdit => exact sent_supplies d .chainEdit (by simp [methodNames]) rfl
  | chainDelete => exact sent_supplies d .chainDelete (by simp [methodNames]) (id_sent d _ _)
  | chainTest => exact sent_supplies d .chainTest (by simp [methodNames]) (id_sent d _ _)
  | configGet => exact sent_supplies d .configGet (by simp [methodNames]) (key_sent d _)
  | configSet key value =>
    exact sent_supplies d .configSet (by simp [methodNames]) (setting_sent d key value)
  | credentialsUnlock => cases hcmd
  | credentialsLock => exact sent_supplies d .credentialsLock (by simp [methodNames]) rfl
  | systemStatus => exact sent_supplies d .systemStatus (by simp [methodNames]) rfl
  | systemVersion => exact sent_supplies d .systemVersion (by simp [methodNames]) rfl
  | dnsLeakEnable => exact sent_supplies d .dnsLeakEnable (by simp [methodNames]) rfl
  | dnsLeakDisable => exact sent_supplies d .dnsLeakDisable (by simp [methodNames]) rfl
  | dnsLeakStatus => exact sent_supplies d .dnsLeakStatus (by simp [methodNames]) rfl
  | quicBlockEnable => exact sent_supplies d .quicBlockEnable (by simp [methodNames]) rfl
  | quicBlockDisable => exact sent_supplies d .quicBlockDisable (by simp [methodNames]) rfl
  | quicBlockStatus => exact sent_supplies d .quicBlockStatus (by simp [methodNames]) rfl
  | inspectList => exact sent_supplies d .inspectList (by simp [methodNames]) rfl
  | inspectGet => exact sent_supplies d .inspectGet (by simp [methodNames]) rfl
  | inspectEnable => exact sent_supplies d .inspectEnable (by simp [methodNames]) rfl
  | inspectDisable => exact sent_supplies d .inspectDisable (by simp [methodNames]) rfl
  | inspectStatus => exact sent_supplies d .inspectStatus (by simp [methodNames]) rfl
  | inspectGenerateCa => exact sent_supplies d .inspectGenerateCa (by simp [methodNames]) rfl
  | logRecent => exact sent_supplies d .logRecent (by simp [methodNames]) rfl
  | listSystemApps => exact List.forall_mem_nil _
  | providersList => exact List.forall_mem_nil _
  | providersImport fetched =>
    cases fetched with
    | none => exact List.forall_mem_nil _
    | some imported =>
      have hlist := Method.ofName_of_mem ("proxy.list", .proxyList) (by simp [methodNames])
      have hadd := Method.ofName_of_mem ("proxy.add", .proxyAdd) (by simp [methodNames])
      refine List.forall_mem_cons.mpr ⟨⟨.proxyList, hlist, rfl⟩, fun r hr => ?_⟩
      obtain ⟨p, -, rfl⟩ := List.mem_map.mp hr
      exact ⟨.proxyAdd, hadd, rfl⟩

/-! ## From the GUI to the daemon -/

/-- What the server makes of a request of the GUI under this id. -/
def served (e : Platform ν κ) (w : Outside χ π) (wire : Wire ν) (parse : CStr → Option (Cjson ν))
    (id : Nat) (c : IpcClient) (s : PfCtx ν κ χ π) (r : Sent ν) :
    Cjson ν × PfCtx ν κ χ π × IpcClient :=
  respond (handlerEnv e w parse) s c (requestOf wire id (lit r.method) r.params)

/-- The daemon finds the parameters of every request of the command, and derives the master key from
the password of one that has one. -/
structure Agrees (e : Platform ν κ) (w : Outside χ π) (wire : Wire ν)
    (parse : CStr → Option (Cjson ν)) (id : Nat) (c : IpcClient) (s : PfCtx ν κ χ π)
    (existing : List (CStr × UInt64)) (cmd : Command) : Prop where
  found : ∀ r ∈ cmd.requests e.doubles existing, ∀ v,
    (served e w wire parse id c s r).1 =
      reply (requestOf wire id (lit r.method) r.params) "result" v → ¬ IsMissing v
  derives : ∀ password, cmd.masterPassword = some password → w.kdfOk = true →
    ∀ r ∈ cmd.requests e.doubles existing, ∃ salt,
      (served e w wire parse id c s r).2.1.crypto = ⟨e.crypto.kdf password salt, salt, true⟩

variable {e : Platform ν κ} {w : Outside χ π} {wire : Wire ν} {parse : CStr → Option (Cjson ν)}
  {id : Nat} {c : IpcClient} {s : PfCtx ν κ χ π}

/-- The names of the daemon's methods are read as they are, and none is taken by the server. -/
theorem methodNames_pass : ∀ entry ∈ methodNames, cstr (lit entry.1) = lit entry.1 ∧
    lit entry.1 ∉ ["log.subscribe", "log.unsubscribe", "stats.subscribe",
      "stats.unsubscribe"].map lit := by
  decide +kernel

theorem served_handled {r : Sent ν} {m : Method} (hm : Method.ofName (lit r.method) = some m) :
    served e w wire parse id c s r =
      (reply (requestOf wire id (lit r.method) r.params) "result"
          ((s.facing w).handle e w (some r.params) m).1,
        ((s.facing w).handle e w (some r.params) m).2, c) := by
  obtain ⟨entry, hfind, -⟩ := Option.map_eq_some_iff.mp hm
  have hfound := List.find?_some hfind
  have hentry : lit r.method = lit entry.1 := of_decide_eq_true hfound
  obtain ⟨hcstr, hother⟩ := methodNames_pass entry (List.mem_of_find?_eq_some hfind)
  rw [← hentry] at hcstr hother
  have hmethod : ((requestOf wire id (lit r.method) r.params).getItem (lit "method")).bind
      Cjson.stringValue = some (lit r.method) := congrArg some hcstr
  have hparams : (requestOf wire id (lit r.method) r.params).getItem (lit "params") =
      some r.params := rfl
  have hbuiltin : builtin c (lit r.method) = none := by
    simp only [List.map_cons, List.map_nil, List.mem_cons, List.not_mem_nil, or_false,
      not_or] at hother
    unfold builtin
    rw [if_neg hother.1, if_neg hother.2.1, if_neg hother.2.2.1, if_neg hother.2.2.2]
  unfold served respond
  simp only [hmethod, hbuiltin, hparams, handlerEnv, pfHandleRequest, hm]

theorem reply_inj {req v v' : Cjson ν} (h : reply req "result" v = reply req "result" v') :
    v = v' := by
  simp only [reply, Cjson.obj.injEq, List.cons.injEq, Prod.mk.injEq, true_and, and_true] at h
  exact h

/-- A request that has what its method requires is not refused for a parameter. -/
theorem served_found {r : Sent ν} (hr : Supplies e.doubles r) {v : Cjson ν}
    (hv : (served e w wire parse id c s r).1 =
      reply (requestOf wire id (lit r.method) r.params) "result" v) : ¬ IsMissing v := by
  obtain ⟨m, hm, hsupplied⟩ := hr
  rw [served_handled hm] at hv
  rw [← reply_inj hv, handle_missing_iff]
  exact fun hmissing => Bool.noConfusion (hsupplied.symm.trans hmissing)

theorem unlock_sent (password : CStr) :
    unlockPassword (some ((sent "credentials.unlock"
      [("master_password", .str password)]).params.toJson e.doubles)) = none := by
  have hitem := itemOf_sent e.doubles "credentials.unlock"
    [("master_password", .str password)] "password"
  have hother : strcaseeq (cstr (lit "master_password")) (lit "password") = false := by decide
  rw [List.find?_cons] at hitem
  simp only [hother, List.find?_nil, Option.map_none] at hitem
  unfold unlockPassword
  exact congrArg (Option.bind · Json.valuestring) hitem

theorem unlock_not_agrees (existing : List (CStr × UInt64)) (password : CStr) :
    ¬ Agrees e w wire parse id c s existing (.credentialsUnlock password) := by
  intro hagrees
  let r : Sent ν := sent "credentials.unlock" [("master_password", .str password)]
  have hname : Method.ofName (lit r.method) = some .credentialsUnlock :=
    Method.ofName_of_mem ("credentials.unlock", .credentialsUnlock) (by simp [methodNames])
  have hreply : (served e w wire parse id c s r).1 =
      reply (requestOf wire id (lit r.method) r.params) "result"
        ((s.facing w).handle e w (some r.params) .credentialsUnlock).1 :=
    congrArg Prod.fst (served_handled hname)
  have hfound := hagrees.found r (List.mem_singleton_self _) _ hreply
  rw [handle_missing_iff] at hfound
  exact hfound (congrArg Option.isSome (unlock_sent password))

/-- Exactly `credentials_unlock` does not agree with the daemon. -/
theorem parameters_agree_iff (e : Platform ν κ) (w : Outside χ π) (wire : Wire ν)
    (parse : CStr → Option (Cjson ν)) (id : Nat) (c : IpcClient) (s : PfCtx ν κ χ π)
    (existing : List (CStr × UInt64)) (cmd : Command) :
    Agrees e w wire parse id c s existing cmd ↔ cmd.masterPassword = none := by
  constructor
  · intro hagrees
    cases hcmd : cmd.masterPassword with
    | none => rfl
    | some password =>
      obtain rfl : cmd = .credentialsUnlock password := by
        cases cmd with
        | credentialsUnlock _ => rw [Option.some.inj hcmd]
        | _ => cases hcmd
      exact absurd hagrees (unlock_not_agrees existing password)
  · intro hnone
    refine ⟨fun r hr v hv => ?_, fun password hpassword => ?_⟩
    · exact served_found (requests_supply e.doubles existing hnone r hr) hv
    · cases hnone.symm.trans hpassword

/-- Numbers as they are, and texts that are never parsed. -/
def plainWire : Wire Int :=
  ⟨fun n => decimal n.toNat, fun v => v.print fun n => decimal n.toNat, fun _ => true,
    fun _ => none, Int.ofNat⟩

theorem unlock_loses_its_password :
    ¬ ∀ cmd, Agrees testPlatform mildOutside plainWire plainWire.fromText 1 (.free)
      (lockedDaemon "a") [] cmd :=
  fun h => unlock_not_agrees [] (lit "secret") (h (.credentialsUnlock (lit "secret")))

end Proxiflare.Guarantees.CommandParameters
