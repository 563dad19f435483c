import Proxiflare.Daemon.CaptureRing
import Proxiflare.Gui.ProvidersImport
import Proxiflare.Guarantees.LockedCredentials
import Proxiflare.Guarantees.ReadableReplies

/-!
# Importing in two batches

An import loads the stored proxies once and adds what it stores to none of them. Two calls
therefore store what one call stores exactly where the rows of the first leave every endpoint of
the rest as taken as it was.
-/

namespace Proxiflare.Guarantees.ImportBatches

open Lib.CString Lib.LastWins Lib.Utf8
open Proxiflare.Daemon Proxiflare.Gui
open Proxiflare.Guarantees.LockedCredentials (lockedDaemon mildOutside testPlatform)
open Proxiflare.Guarantees.ReadableReplies (allValid_members_iff asciiText valid_of_asciiText)

variable {ν κ χ π : Type} (l : Link ν κ χ π)

/-! ## The rows an import reads -/

def Readable (p : Proxy) : Prop :=
  Valid p.name.chars ∧ Valid p.host.chars ∧ Valid p.username.chars ∧ Valid p.password.chars

instance (p : Proxy) : Decidable (Readable p) := inferInstanceAs (Decidable (_ ∧ _))

/-- Of the proxies table, the rows `proxy.list` delivers: the first `PF_MAX_PROXIES` by name. One
text that is not UTF-8 costs the client the whole list. -/
def rowsRead (rows : List ProxyRow) : List ProxyRow :=
  match delivered l.outside.proxyQuery
      ((rows.insertionSort fun a b => a.name ≤ b.name).take pfMaxProxies) with
  | none => []
  | some listed => if ∀ row ∈ listed, Readable (rowToProxy row) then listed else []

/-- The stored proxy has the host and the port of the imported one. -/
def StandsAt (q : ImportedProxy) (row : ProxyRow) : Prop :=
  (rowToProxy row).host.chars = q.host ∧ (rowToProxy row).port = q.port

instance (q : ImportedProxy) (row : ProxyRow) : Decidable (StandsAt q row) :=
  inferInstanceAs (Decidable (_ ∧ _))

/-- The proxies whose endpoint no row that is read has. -/
def unknown (rows : List ProxyRow) (ps : List ImportedProxy) : List ImportedProxy :=
  ps.filter fun q => ∀ row ∈ rowsRead l rows, ¬ StandsAt q row

/-- `serde_json` on the answer to `proxy.list`, and `as_u64` on a port in it. -/
structure ReadsList (r : Serde ν) (id : Nat) (rows : List ProxyRow) : Prop where
  answer : l.wire.Reads r (answered (.num (l.wire.ofId id)) (listAnswer l rows))
  port : ∀ n : UInt16, portNumber l (r.number (l.platform.doubles.ofInt n.toNat)) = some n.toUInt64

variable {l} {r : Serde ν} {d : Doubles ν}

theorem readable_iff (p : Proxy) : (proxyToJson d p).AllValid ↔ Readable p := by
  have htype : Valid (cstr (pfProxyTypeStr p.type)) := by
    cases p.type <;> exact valid_of_asciiText (by decide)
  have hhealth : Valid (cstr (pfHealthStr p.health)) := by
    unfold pfHealthStr
    split
    · exact valid_of_asciiText (by decide)
    split
    · exact valid_of_asciiText (by decide)
    split
    · exact valid_of_asciiText (by decide)
    split <;> exact valid_of_asciiText (by decide)
  rw [proxyToJson, Cjson.allValid_obj, allValid_members_iff]
  · simp [Readable, htype, hhealth, cstr_of_noNul p.name.noNul, cstr_of_noNul p.host.noNul,
      cstr_of_noNul p.username.noNul, cstr_of_noNul p.password.noNul]
  · show List.all [lit "id", lit "name", lit "type", lit "host", lit "port", lit "username",
      lit "password", lit "health", lit "latency_ms", lit "enabled"] asciiText = true
    decide +kernel

/-- An entry of the list as the client has it. -/
theorem listedKey_value (hmap : ∀ ms, MapOf ms (r.map ms))
    (hport : ∀ n : UInt16, portNumber l (r.number (d.ofInt n.toNat)) = some n.toUInt64) (p : Proxy) :
    listedKey l (r.value (proxyToJson d p)) = some (p.host.chars, p.port.toUInt64) := by
  have hhost : get (r.value (proxyToJson d p)) (lit "host") = some (.str (cstr p.host.chars)) := by
    rw [proxyToJson, get_value hmap]
    rfl
  have hnumber : get (r.value (proxyToJson d p)) (lit "port") =
      some (r.number (d.ofInt p.port.toNat)) := by
    rw [proxyToJson, get_value hmap]
    rfl
  rw [listedKey, hhost, hnumber, Option.bind_some, Option.bind_some, hport,
    cstr_of_noNul p.host.noNul]
  rfl

theorem allValid_wrapped_iff (id : ν) (x : Cjson ν) :
    (wrapped (.num id) x).AllValid ↔ x.AllValid := by
  have hid : Valid (cstr (lit "id")) := valid_of_asciiText (by decide)
  have hresult : Valid (cstr (lit "result")) := valid_of_asciiText (by decide)
  simp [wrapped, Cjson.allValid_obj, hid, hresult]

theorem depth_listed (id : ν) (ps : List Proxy) :
    (wrapped (.num id) (.arr (ps.map (proxyToJson d)))).depth < 128 := by
  have hitems : Cjson.depthItems (ps.map (proxyToJson d)) ≤ 1 := by
    induction ps with
    | nil => exact Nat.zero_le 1
    | cons p ps ih => exact Nat.max_le.mpr ⟨Nat.le_of_eq rfl, ih⟩
  have harr : (Cjson.arr (ps.map (proxyToJson d))).depth ≤ 2 := by
    rw [Cjson.depth]
    omega
  have hinner : (Cjson.obj [(lit "result", Cjson.arr (ps.map (proxyToJson d)))]).depth ≤ 3 :=
    Cjson.depth_obj_le (List.forall_mem_singleton.mpr harr)
  have houter : (wrapped (.num id) (.arr (ps.map (proxyToJson d)))).depth ≤ 4 :=
    Cjson.depth_obj_le (List.forall_mem_cons.mpr
      ⟨Nat.zero_le _, List.forall_mem_singleton.mpr hinner⟩)
  omega

/-- The answer to a query that is refused is an object, and no list. -/
theorem existingKeys_error (hmap : ∀ ms, MapOf ms (r.map ms)) (id : ν) (message : CStr) :
    existingKeys l (unwrapResponse (r.value (answered (.num id) (errorOf message)))) = [] := by
  have herror : get (r.value (answered (.num id) (errorOf message))) (lit "error") = none := by
    rw [answered, get_value hmap]
    rfl
  have houter : get (r.value (answered (.num id) (errorOf message))) (lit "result") =
      some (r.value (errorOf message)) := by
    rw [answered, get_value hmap]
    rfl
  have hinner : get (r.value (errorOf message)) (lit "result") = none := by
    rw [errorOf, get_value hmap]
    rfl
  rw [unwrapResponse, herror, houter]
  dsimp only [Option.getD_some]
  rw [hinner]
  rfl

theorem existingKeys_list (hmap : ∀ ms, MapOf ms (r.map ms))
    (hport : ∀ n : UInt16, portNumber l (r.number (d.ofInt n.toNat)) = some n.toUInt64)
    (listed : List ProxyRow) :
    existingKeys l (.ok (r.value (.arr (listed.map fun st => proxyToJson d (rowToProxy st))))) =
      listed.map fun row => ((rowToProxy row).host.chars, (rowToProxy row).port.toUInt64) := by
  have hitems : ∀ vs : List (Cjson ν), r.items vs = vs.map r.value := by
    intro vs
    induction vs with
    | nil => rfl
    | cons v vs ih => rw [Serde.items, ih, List.map_cons]
  show (r.items _).filterMap (listedKey l) = _
  rw [hitems, List.map_map, List.filterMap_map, ← List.filterMap_eq_map]
  congr 1
  funext row
  exact listedKey_value hmap hport (rowToProxy row)

theorem knownKeys_eq {id : Nat} {rows : List ProxyRow}
    (hnum : Cjson.PrintsNumbers l.wire.printNumber) (h : ReadsList l r id rows) :
    knownKeys l id rows = (rowsRead l rows).map fun row =>
      ((rowToProxy row).host.chars, (rowToProxy row).port.toUInt64) := by
  have hanswer := h.answer
  unfold knownKeys received rowsRead
  cases hlisted : delivered l.outside.proxyQuery
      ((rows.insertionSort fun a b => a.name ≤ b.name).take pfMaxProxies) with
  | none =>
    have hlist : listAnswer l rows = errorOf (lit "db error") := by rw [listAnswer, hlisted]
    rw [hlist] at hanswer ⊢
    have hvalid : (answered (.num (l.wire.ofId id)) (errorOf (lit "db error"))).AllValid := by
      have hid : Valid (cstr (lit "id")) := valid_of_asciiText (by decide)
      have hresult : Valid (cstr (lit "result")) := valid_of_asciiText (by decide)
      have herror : Valid (cstr (lit "error")) := valid_of_asciiText (by decide)
      have htext : Valid (cstr (lit "db error")) := valid_of_asciiText (by decide)
      simp [answered, errorOf, Cjson.allValid_obj, hid, hresult, herror, htext]
    have hdepth : (answered (.num (l.wire.ofId id)) (errorOf (lit "db error"))).depth < 128 := by
      show 2 < 128
      decide
    rw [readResponse_value hanswer hnum hvalid hdepth (List.cons_ne_nil _ _),
      existingKeys_error hanswer.map, List.map_nil]
  | some listed =>
    have hlist : answered (.num (l.wire.ofId id)) (listAnswer l rows) =
        wrapped (.num (l.wire.ofId id)) (.arr (listed.map fun st =>
          proxyToJson l.platform.doubles (rowToProxy st))) := by
      rw [listAnswer, hlisted]
      rfl
    rw [hlist] at hanswer ⊢
    have hvalid := allValid_wrapped_iff (l.wire.ofId id) (.arr (listed.map fun st =>
      proxyToJson l.platform.doubles (rowToProxy st)))
    rw [Cjson.allValid_arr, List.forall_mem_map] at hvalid
    simp only [readable_iff] at hvalid
    dsimp only
    by_cases hall : ∀ row ∈ listed, Readable (rowToProxy row)
    · have hdepth := depth_listed (d := l.platform.doubles) (l.wire.ofId id) (listed.map rowToProxy)
      rw [List.map_map] at hdepth
      rw [if_pos hall, readResponse_wrapped _ hanswer hnum (hvalid.mpr hall) hdepth,
        existingKeys_list hanswer.map h.port]
    · rw [if_neg hall, readResponse_not_utf8 hanswer hnum (mt hvalid.mp hall), existingKeys,
        List.map_nil]

/-- A key is known exactly where a row that is read stands at its endpoint. -/
theorem mem_knownKeys {id : Nat} {rows : List ProxyRow}
    (hnum : Cjson.PrintsNumbers l.wire.printNumber) (h : ReadsList l r id rows) (q : ImportedProxy) :
    q.key ∈ knownKeys l id rows ↔ ∃ row ∈ rowsRead l rows, StandsAt q row := by
  rw [knownKeys_eq hnum h]
  simp [StandsAt, ImportedProxy.key, UInt16.toUInt64_inj]

/-- An import with the keys of the rows that are read. -/
theorem providersImport_eq {imported : List ImportedProxy} {id : Nat} {daemon : PfCtx ν κ χ π}
    (hnum : Cjson.PrintsNumbers l.wire.printNumber)
    (h : ReadsList l r id daemon.host.session.tables.proxies) :
    providersImport l imported id daemon =
      imported.foldl (importOne l ((rowsRead l daemon.host.session.tables.proxies).map fun row =>
          ((rowToProxy row).host.chars, (rowToProxy row).port.toUInt64)))
        ⟨⟨imported.length, 0, 0, 0, []⟩, id + 1, daemon.facing l.outside, []⟩ := by
  rw [providersImport, pfHandleRequest_proxyList, ← knownKeys_eq hnum h]
  rfl

/-! ## Two calls -/

/-- Two filters on a part keep the same of the whole where they agree on the part. -/
theorem mem_filters_iff {α : Type} (p r : α → Bool) {xs ys : List α} (hnodup : (xs ++ ys).Nodup) :
    (∀ x, x ∈ (xs ++ ys).filter p ↔ x ∈ xs.filter p ++ ys.filter r) ↔ ∀ y ∈ ys, p y = r y := by
  have hdisjoint := (List.nodup_append.mp hnodup).2.2
  simp only [List.filter_append, List.mem_append, List.mem_filter]
  constructor
  · intro h y hy
    have hnot : ¬ (y ∈ xs ∧ p y = true) := fun hx => hdisjoint y hx.1 y hy rfl
    have hsame := h y
    rw [or_iff_right hnot, or_iff_right hnot, and_iff_right hy, and_iff_right hy] at hsame
    exact Bool.eq_iff_iff.mpr hsame
  · intro h x
    refine or_congr Iff.rfl (and_congr_right fun hx => ?_)
    rw [h x hx]

/-- What is sent for a list is what is unknown of it. -/
theorem sentProxies_unknown {imported : List ImportedProxy} {id : Nat} {daemon : PfCtx ν κ χ π}
    (hnum : Cjson.PrintsNumbers l.wire.printNumber)
    (h : ReadsList l r id daemon.host.session.tables.proxies) :
    (providersImport l imported id daemon).sentProxies =
      unknown l daemon.host.session.tables.proxies imported := by
  rw [sentProxies_providersImport, unknown]
  refine List.filter_congr fun q _ => ?_
  rw [decide_eq_decide, mem_knownKeys hnum h]
  simp

/-- The host of the first as the daemon stores it, and the port, are those of the second. -/
def SameEndpoint (p q : ImportedProxy) : Prop :=
  (.snprintf p.host : CBuf (pfDomainMax + 1)).chars = q.host ∧ p.port = q.port

instance (p q : ImportedProxy) : Decidable (SameEndpoint p q) :=
  inferInstanceAs (Decidable (_ ∧ _))

theorem cstr_idem (s : CStr) : cstr (cstr s) = cstr s := cstr_of_noNul (cstr_noNul s)

theorem record_host (p : ImportedProxy) : (p.record d).host = .snprintf p.host := by
  have hitem : (Cjson.toJson d (importRequest d p).params).getObjectItem (lit "host") =
      some (.str p.host) := by
    simp only [importRequest, sent, List.map_cons, List.map_nil, Cjson.toJson, Cjson.toJsonMembers]
    rfl
  have hcopy : (.snprintf (cstr p.host) : CBuf (pfDomainMax + 1)) = .snprintf p.host := by
    rw [CBuf.mk.injEq]
    show (cstr (cstr p.host)).take _ = (cstr p.host).take _
    rw [cstr_idem]
  rw [ImportedProxy.record, proxyFromJson, hitem]
  exact hcopy

theorem record_port (hd : d.ExactInts) (p : ImportedProxy) : (p.record d).port = p.port := by
  have hitem : (Cjson.toJson d (importRequest d p).params).getObjectItem (lit "port") =
      some (.num (d.toInt (d.ofInt p.port.toNat))) := by
    simp only [importRequest, sent, List.map_cons, List.map_nil, Cjson.toJson, Cjson.toJsonMembers]
    rfl
  have hlt := p.port.toNat_lt
  rw [ImportedProxy.record, proxyFromJson, hitem, hd.toInt _ (by omega)]
  show portOfDouble p.port.toNat = p.port
  rw [portOfDouble, toInt32, if_pos (by omega), toUInt16_toNat]

theorem standsAt_record (hd : d.ExactInts) (id : Nat) (p q : ImportedProxy) :
    StandsAt q (proxyToRow id (p.record d)) ↔ SameEndpoint p q := by
  have hport : (rowToProxy (proxyToRow id (p.record d))).port = (p.record d).port :=
    toUInt16_toNat _
  have hhost : (rowToProxy (proxyToRow id (p.record d))).host = (p.record d).host :=
    CBuf.snprintf_chars _
  rw [StandsAt, hhost, hport, record_host, record_port hd, SameEndpoint]

/-- The rows of the proxies a call adds. -/
def addedRows (l : Link ν κ χ π) (t : Tables) (xs : List ImportedProxy) : List ProxyRow :=
  newRows l.platform.doubles t.proxySeq (unknown l t.proxies xs)

theorem mem_unknown {rows : List ProxyRow} (ps : List ImportedProxy) {q : ImportedProxy} :
    q ∈ unknown l rows ps ↔ q ∈ ps ∧ ¬ ∃ row ∈ rowsRead l rows, StandsAt q row := by
  simp [unknown]

theorem exists_newRows_iff (hd : d.ExactInts) (seq : Nat) (ps : List ImportedProxy)
    (q : ImportedProxy) :
    (∃ row ∈ newRows d seq ps, StandsAt q row) ↔ ∃ p ∈ ps, SameEndpoint p q := by
  induction ps generalizing seq with
  | nil => simp [newRows]
  | cons p ps ih =>
    rw [newRows, List.exists_mem_cons_iff, List.exists_mem_cons_iff, standsAt_record hd, ih]

/-- Every row of the table is read. -/
def ReadsWhole (l : Link ν κ χ π) (rows : List ProxyRow) : Prop :=
  ∀ row, row ∈ rowsRead l rows ↔ row ∈ rows

/-- One call stores the same proxies as two exactly where, for every endpoint of the rest, a row
that is read stands at it with the new rows of the first if and only if one did without. Where the
tables are read whole, that is: no two new proxies, one of each list, have the same endpoint. -/
theorem batches_agree_iff (l : Link ν κ χ π) (r : Serde ν) (hd : l.platform.doubles.ExactInts)
    (hnum : Cjson.PrintsNumbers l.wire.printNumber) (daemon : PfCtx ν κ χ π)
    (xs ys : List ImportedProxy) (i j : Nat)
    (hnames : ((xs ++ ys).map ImportedProxy.name).Nodup)
    (hwhole : (providersImport l (xs ++ ys) i daemon).AllStored)
    (hfirst : (providersImport l xs i daemon).AllStored)
    (hrest : (providersImport l ys j (providersImport l xs i daemon).daemon).AllStored)
    (hlist : ReadsList l r i daemon.host.session.tables.proxies)
    (hlist' : ReadsList l r j
      (providersImport l xs i daemon).daemon.host.session.tables.proxies) :
    let whole := providersImport l (xs ++ ys) i daemon
    let first := providersImport l xs i daemon
    let rest := providersImport l ys j first.daemon
    let t := daemon.host.session.tables
    let agree := ∀ p, p ∈ whole.sentProxies ↔ p ∈ first.sentProxies ++ rest.sentProxies
    whole.daemon.host.session.tables =
        withProxies l.platform.doubles t (unknown l t.proxies (xs ++ ys)) ∧
      rest.daemon.host.session.tables = withProxies l.platform.doubles t
        (unknown l t.proxies xs ++ unknown l (t.proxies ++ addedRows l t xs) ys) ∧
      (agree ↔ ∀ q ∈ ys, (∃ row ∈ rowsRead l t.proxies, StandsAt q row) ↔
        ∃ row ∈ rowsRead l (t.proxies ++ addedRows l t xs), StandsAt q row) ∧
      (ReadsWhole l t.proxies → ReadsWhole l (t.proxies ++ addedRows l t xs) →
        (agree ↔ ∀ p ∈ unknown l t.proxies xs, ∀ q ∈ unknown l t.proxies ys,
          ¬ SameEndpoint p q)) := by
  intro whole first rest t agree
  have hsent : whole.sentProxies = unknown l t.proxies (xs ++ ys) := sentProxies_unknown hnum hlist
  have hsentFirst : first.sentProxies = unknown l t.proxies xs := sentProxies_unknown hnum hlist
  have htables : first.daemon.host.session.tables.proxies = t.proxies ++ addedRows l t xs := by
    rw [tables_providersImport l hfirst, hsentFirst]
    rfl
  have hsentRest : rest.sentProxies = unknown l (t.proxies ++ addedRows l t xs) ys := by
    rw [← htables]
    exact sentProxies_unknown hnum hlist'
  have hagree : agree ↔ ∀ q ∈ ys, (∃ row ∈ rowsRead l t.proxies, StandsAt q row) ↔
      ∃ row ∈ rowsRead l (t.proxies ++ addedRows l t xs), StandsAt q row := by
    show (∀ p, p ∈ whole.sentProxies ↔ p ∈ first.sentProxies ++ rest.sentProxies) ↔ _
    rw [hsent, hsentFirst, hsentRest, unknown, unknown, unknown,
      mem_filters_iff _ _ (List.Nodup.of_map _ hnames)]
    refine forall₂_congr fun q _ => ?_
    rw [decide_eq_decide]
    refine Iff.trans ?_ not_iff_not
    simp only [not_exists, not_and]
  refine ⟨?_, ?_, hagree, fun hread hread' => hagree.trans ?_⟩
  · rw [← hsent]
    exact tables_providersImport l hwhole
  · rw [withProxies_append, ← hsentFirst, ← hsentRest, ← tables_providersImport l hfirst]
    exact tables_providersImport l hrest
  · have hexists : ∀ q, (∃ row ∈ rowsRead l (t.proxies ++ addedRows l t xs), StandsAt q row) ↔
        (∃ row ∈ rowsRead l t.proxies, StandsAt q row) ∨
          ∃ p ∈ unknown l t.proxies xs, SameEndpoint p q := by
      intro q
      have hold : ∀ row, row ∈ rowsRead l t.proxies ↔ row ∈ t.proxies := hread
      have hnew : ∀ row, row ∈ rowsRead l (t.proxies ++ addedRows l t xs) ↔
          row ∈ t.proxies ++ addedRows l t xs := hread'
      rw [← exists_newRows_iff hd t.proxySeq]
      simp only [hold, hnew, List.mem_append, or_and_right, exists_or]
      rfl
    simp only [hexists, mem_unknown ys]
    constructor
    · rintro h p hp q ⟨hq, hnew⟩ hsame
      exact hnew ((h q hq).mpr (.inr ⟨p, hp, hsame⟩))
    · refine fun h q hq => ⟨.inl, fun hstands => hstands.elim id ?_⟩
      rintro ⟨p, hp, hsame⟩
      by_contra hnew
      exact h p hp q ⟨hq, hnew⟩ hsame

/-! ## Imports into a daemon with one proxy -/

def serde : Serde Int := ⟨.num, dedupLast⟩

def printInt (n : Int) : CStr := decimal n.toNat

/-- It reads the texts of these values. -/
def readsLines (lines : List (Cjson Int)) : Wire Int where
  printNumber := printInt
  toText := Cjson.print printInt
  fromUtf8 bytes := (ByteArray.mk bytes.toArray).validateUTF8
  fromText bytes := (lines.find? fun v => v.print printInt = bytes).map serde.value
  ofId n := n

theorem readsLines_reads (before : List (Cjson Int)) {lines rest : List (Cjson Int)} {v : Cjson Int}
    (h : lines = before ++ v :: rest) (hother : ∀ u ∈ before, u.print printInt ≠ v.print printInt) :
    (readsLines lines).Reads serde v := by
  refine ⟨validateUTF8_iff, mapOf_dedupLast, fun _ _ => ?_⟩
  have hbefore : before.find? (fun u => u.print printInt = v.print printInt) = none := by
    rw [List.find?_eq_none]
    exact fun u hu heq => hother u hu (of_decide_eq_true heq)
  show (lines.find? fun u => u.print printInt = v.print printInt).map serde.value = _
  rw [h, List.find?_append, hbefore, Option.none_or, List.find?_cons_of_pos (by simp)]
  rfl

/-- The reply to `proxy.list` under this id. -/
def listLine (id : Nat) (rows : List ProxyRow) : Cjson Int :=
  answered (.num id) (listAnswer (χ := Unit) (π := Unit) ⟨testPlatform, mildOutside, readsLines [],
    fun _ => none⟩ rows)

def addLine (id : Nat) : Cjson Int := answered (.num id) Reply.ok.json

/-- The client reads the two lists under the ids 1 and 3, and that a proxy was added. -/
def testLink (rows rows' : List ProxyRow) : Link Int (Option (CStr × Salt)) Unit Unit where
  platform := testPlatform
  outside := mildOutside
  wire := readsLines [listLine 1 rows, listLine 3 rows', addLine 2, addLine 3, addLine 4]
  asU64 n := if 0 ≤ n then some (UInt64.ofNat n.toNat) else none

variable {rows rows' : List ProxyRow}

theorem testLink_port (n : UInt16) :
    portNumber (testLink rows rows')
      (serde.number ((testLink rows rows').platform.doubles.ofInt n.toNat)) = some n.toUInt64 := by
  show (if (0 : Int) ≤ n.toNat then some (UInt64.ofNat (Int.toNat n.toNat)) else none) = _
  rw [if_pos (Int.natCast_nonneg _), Int.toNat_natCast, UInt64.ofNat_uInt16ToNat]

theorem testLink_reads : ReadsList (testLink rows rows') serde 1 rows :=
  ⟨readsLines_reads [] rfl (List.forall_mem_nil _), testLink_port⟩

/-- Two replies differ in their ids. -/
theorem listLine_ne : (listLine 1 rows).print printInt ≠ (listLine 3 rows').print printInt := by
  intro h
  simp only [listLine, answered, Cjson.print, List.append_assoc] at h
  have htail := (List.cons.inj (List.append_cancel_left (List.cons.inj h).2)).2
  have h1 : printInt (1 : Nat) = [49] := by decide +kernel
  have h3 : printInt (3 : Nat) = [51] := by decide +kernel
  rw [h1, h3] at htail
  exact absurd (List.cons.inj htail).1 (by decide)

theorem testLink_reads' : ReadsList (testLink rows rows') serde 3 rows' :=
  ⟨readsLines_reads [listLine 1 rows] rfl (List.forall_mem_singleton.mpr listLine_ne), testLink_port⟩

theorem testDoubles_exact : testPlatform.doubles.ExactInts where
  toInt _ _ := rfl
  lt m n _ _ := by
    show decide ((m : Int) < n) = decide (m < n)
    rw [decide_eq_decide]
    exact Int.ofNat_lt

theorem printInt_prints : Cjson.PrintsNumbers printInt :=
  fun n => .inl (Lib.JsonText.number_decimal n.toNat)

def fetchedProxy (name : String) (kind : ProxyKind) (host : String) (port : UInt16) :
    ImportedProxy := ⟨lit name, kind, lit host, port, lit "u", lit "p"⟩

/-- The row it becomes. -/
def fetchedRow (id : Nat) (p : ImportedProxy) : ProxyRow := proxyToRow id (p.record testPlatform.doubles)

def gateway : ImportedProxy := fetchedProxy "gateway" .http "i" 80

def office : ImportedProxy := fetchedProxy "office" .http "j" 80

/-- It stands where the daemon has a proxy. -/
def renamed : ImportedProxy := fetchedProxy "renamed" .socks5 "h" 8080

def storedRow : ProxyRow := proxyToRow 1 (LockedCredentials.loneProxy "")

def threeLink : Link Int (Option (CStr × Salt)) Unit Unit :=
  testLink [storedRow] [storedRow, fetchedRow 2 gateway]

/-- Three proxies, the last of them on the endpoint of the stored one. -/
theorem batches_agree_iff_three :
    (providersImport threeLink ([gateway] ++ [office, renamed]) 1
        (lockedDaemon "")).sentProxies ⊆
      (providersImport threeLink [gateway] 1 (lockedDaemon "")).sentProxies ++
        (providersImport threeLink [office, renamed] 3
          (providersImport threeLink [gateway] 1 (lockedDaemon "")).daemon).sentProxies ∧
    (providersImport threeLink [gateway] 1 (lockedDaemon "")).sentProxies ++
        (providersImport threeLink [office, renamed] 3
          (providersImport threeLink [gateway] 1 (lockedDaemon "")).daemon).sentProxies ⊆
      (providersImport threeLink ([gateway] ++ [office, renamed]) 1
        (lockedDaemon "")).sentProxies := by
  have htable : (lockedDaemon "").host.session.tables.proxies = [storedRow] := by decide +kernel
  have hlist : ReadsList threeLink serde 1 (lockedDaemon "").host.session.tables.proxies := by
    rw [htable]
    exact testLink_reads
  have hwhole : (providersImport threeLink ([gateway] ++ [office, renamed]) 1
      (lockedDaemon "")).AllStored := by
    rw [providersImport_eq printInt_prints hlist]
    decide +kernel
  have hfirst : (providersImport threeLink [gateway] 1 (lockedDaemon "")).AllStored := by
    rw [providersImport_eq printInt_prints hlist]
    decide +kernel
  have htable' : (providersImport threeLink [gateway] 1
      (lockedDaemon "")).daemon.host.session.tables.proxies = [storedRow, fetchedRow 2 gateway] := by
    rw [providersImport_eq printInt_prints hlist]
    decide +kernel
  have hlist' : ReadsList threeLink serde 3 (providersImport threeLink [gateway] 1
      (lockedDaemon "")).daemon.host.session.tables.proxies := by
    rw [htable']
    exact testLink_reads'
  have hrest : (providersImport threeLink [office, renamed] 3
      (providersImport threeLink [gateway] 1 (lockedDaemon "")).daemon).AllStored := by
    rw [providersImport_eq printInt_prints hlist', providersImport_eq printInt_prints hlist]
    decide +kernel
  have hread : ReadsWhole threeLink (lockedDaemon "").host.session.tables.proxies := by
    have h : rowsRead threeLink [storedRow] = [storedRow] := by decide +kernel
    intro row
    rw [htable, h]
  have hread' : ReadsWhole threeLink ((lockedDaemon "").host.session.tables.proxies ++
      addedRows threeLink (lockedDaemon "").host.session.tables [gateway]) := by
    have hrows : (lockedDaemon "").host.session.tables.proxies ++
        addedRows threeLink (lockedDaemon "").host.session.tables [gateway] =
          [storedRow, fetchedRow 2 gateway] := by
      decide +kernel
    have h : rowsRead threeLink [storedRow, fetchedRow 2 gateway] =
        [fetchedRow 2 gateway, storedRow] := by
      decide +kernel
    intro row
    rw [hrows, h]
    simp only [List.mem_cons, List.not_mem_nil, or_false]
    exact or_comm
  have hagree := ((batches_agree_iff threeLink serde testDoubles_exact printInt_prints
    (lockedDaemon "") [gateway] [office, renamed] 1 3 (by decide +kernel) hwhole hfirst hrest hlist
      hlist').2.2.2 hread hread').mpr (by decide +kernel)
  exact ⟨fun p hp => (hagree p).mp hp, fun p hp => (hagree p).mpr hp⟩

/-- The two entries of one row, on one endpoint. -/
def httpEntry : ImportedProxy := fetchedProxy "proxy-cheap DE HTTP #7" .http "192.0.2.7" 9999

def socksEntry : ImportedProxy := fetchedProxy "proxy-cheap DE SOCKS5 #7" .socks5 "192.0.2.7" 9999

/-- The daemon of `lockedDaemon` with nothing stored. -/
def emptyDaemon : PfCtx Int (Option (CStr × Salt)) Unit Unit :=
  { lockedDaemon "" with host := Host.empty }

def oneRowLink : Link Int (Option (CStr × Salt)) Unit Unit :=
  testLink [] [fetchedRow 1 httpEntry]

/-- One call stores both, the second of two calls skips its one. -/
theorem one_row_in_two_batches :
    ¬ ∀ (daemon : PfCtx Int (Option (CStr × Salt)) Unit Unit) (xs ys : List ImportedProxy)
        (i j : Nat),
      ((xs ++ ys).map ImportedProxy.name).Nodup →
      (providersImport oneRowLink (xs ++ ys) i daemon).AllStored →
      (providersImport oneRowLink xs i daemon).AllStored →
      (providersImport oneRowLink ys j (providersImport oneRowLink xs i daemon).daemon).AllStored →
      ∀ p, p ∈ (providersImport oneRowLink (xs ++ ys) i daemon).sentProxies ↔
        p ∈ (providersImport oneRowLink xs i daemon).sentProxies ++
          (providersImport oneRowLink ys j (providersImport oneRowLink xs i daemon).daemon).sentProxies := by
  intro h
  have hlist : ReadsList oneRowLink serde 1 emptyDaemon.host.session.tables.proxies :=
    testLink_reads
  have hwhole : providersImport oneRowLink ([httpEntry] ++ [socksEntry]) 1 emptyDaemon = _ :=
    providersImport_eq printInt_prints hlist
  have hfirst : providersImport oneRowLink [httpEntry] 1 emptyDaemon = _ :=
    providersImport_eq printInt_prints hlist
  have htable : (providersImport oneRowLink [httpEntry] 1
      emptyDaemon).daemon.host.session.tables.proxies = [fetchedRow 1 httpEntry] := by
    rw [hfirst]
    decide +kernel
  have hlist' : ReadsList oneRowLink serde 3 (providersImport oneRowLink [httpEntry] 1
      emptyDaemon).daemon.host.session.tables.proxies := by
    rw [htable]
    exact testLink_reads'
  have hrest : providersImport oneRowLink [socksEntry] 3
      (providersImport oneRowLink [httpEntry] 1 emptyDaemon).daemon = _ :=
    providersImport_eq printInt_prints hlist'
  have hsame := h emptyDaemon [httpEntry] [socksEntry] 1 3 (by decide +kernel)
    (by rw [hwhole]; decide +kernel) (by rw [hfirst]; decide +kernel)
    (by rw [hrest, hfirst]; decide +kernel) socksEntry
  rw [hwhole, hrest, hfirst] at hsame
  exact absurd (hsame.mp (by decide +kernel)) (by decide +kernel)

end Proxiflare.Guarantees.ImportBatches
