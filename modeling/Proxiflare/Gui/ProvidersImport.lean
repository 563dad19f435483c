import Proxiflare.Gui.Commands
import Proxiflare.Gui.ReadJson

/-!
# Importing proxies from a provider

`providers_import` of `gui/src-tauri/src/commands.rs`, from the fetched list on, against the
handler of the daemon. A request reaches the handler as it is sent; the answer is printed into a
line and read from it.
-/

namespace Proxiflare.Gui

open Lib.CString Lib
open Proxiflare.Daemon

variable {ν κ χ π : Type}

/-- The daemon and the way to it. `asU64` is `as_u64` of a number. -/
structure Link (ν κ χ π : Type) where
  platform : Platform ν κ
  outside : Outside χ π
  wire : Wire ν
  asU64 : ν → Option UInt64

def asArray : Cjson ν → Option (List (Cjson ν))
  | .arr items => some items
  | _ => none

/-- The daemon's reply to a request that the handler has answered. -/
def answered (id answer : Cjson ν) : Cjson ν := .obj [(lit "id", id), (lit "result", answer)]

variable (l : Link ν κ χ π)

/-- What `send_request` returns to the request with this id where the handler has answered. -/
def received (id : Nat) (answer : Cjson ν) : Except ClientError (Cjson ν) :=
  readResponse l.wire ((answered (.num (l.wire.ofId id)) answer).print l.wire.printNumber)

def portNumber : Cjson ν → Option UInt64
  | .num n => l.asU64 n
  | _ => none

/-- The key of a listed proxy; one without it is left out. -/
def listedKey (p : Cjson ν) : Option (CStr × UInt64) := do
  let host ← (get p (lit "host")).bind asStr
  let port ← (get p (lit "port")).bind (portNumber l)
  return (host, port)

/-- `existing`, from what `proxy.list` returns. -/
def existingKeys : Except ClientError (Cjson ν) → List (CStr × UInt64)
  | .ok listed => ((asArray listed).getD []).filterMap (listedKey l)
  | .error _ => []

/-! ## The loop -/

/-- What stands behind the name in an error text. -/
inductive ImportFailure where
  | answered (message : CStr)
  | notSent (e : ClientError)
  deriving DecidableEq

structure ImportResult where
  fetched : Nat
  added : Nat
  skipped : Nat
  failed : Nat
  errors : List (CStr × ImportFailure)
  deriving DecidableEq

/-- The counting of one `proxy.add`. -/
def ImportResult.count (result : ImportResult) (name : CStr) :
    Except ClientError (Cjson ν) → ImportResult
  | .ok resp =>
    match get resp (lit "error") with
    | some error => { result with
        failed := result.failed + 1
        errors := result.errors ++ ((asStr error).map fun e => (name, .answered e)).toList }
    | none => { result with added := result.added + 1 }
  | .error e => { result with
      failed := result.failed + 1
      errors := result.errors ++ [(name, .notSent e)] }

/-- The loop with the client's next id and the daemon beside it. `answers` has every proxy that was
sent and the handler's answer, which the code does not keep. -/
structure ImportRun (ν κ χ π : Type) where
  result : ImportResult
  nextId : Nat
  daemon : PfCtx ν κ χ π
  answers : List (ImportedProxy × Cjson ν)

def ImportedProxy.key (p : ImportedProxy) : CStr × UInt64 := (p.host, p.port.toUInt64)

instance : LawfulBEq (CStr × UInt64) := inferInstance

def importOne (existing : List (CStr × UInt64)) (run : ImportRun ν κ χ π) (p : ImportedProxy) :
    ImportRun ν κ χ π :=
  if p.key ∈ existing then
    { run with result := { run.result with skipped := run.result.skipped + 1 } }
  else
    let request := importRequest l.platform.doubles p
    let (answer, daemon) := pfHandleRequest l.platform l.outside (lit request.method)
      (some request.params) run.daemon
    ⟨run.result.count p.name (received l run.nextId answer), run.nextId + 1, daemon,
      run.answers ++ [(p, answer)]⟩

/-- The set of known keys is read once, before the loop. -/
def providersImport (imported : List ImportedProxy) (id : Nat) (daemon : PfCtx ν κ χ π) :
    ImportRun ν κ χ π :=
  let (answer, daemon) := pfHandleRequest l.platform l.outside (lit "proxy.list")
    (some (.obj [])) daemon
  imported.foldl (importOne l (existingKeys l (received l id answer)))
    ⟨⟨imported.length, 0, 0, 0, []⟩, id + 1, daemon, []⟩

/-! ## What is sent -/

theorem importOne_answers (existing : List (CStr × UInt64)) (run : ImportRun ν κ χ π)
    (p : ImportedProxy) : (importOne l existing run p).answers.map Prod.fst =
      run.answers.map Prod.fst ++ [p].filter (·.key ∉ existing) := by
  rw [importOne]
  by_cases hknown : p.key ∈ existing
  · rw [if_pos hknown, List.filter_cons_of_neg (by simpa using hknown), List.filter_nil,
      List.append_nil]
  · rw [if_neg hknown, List.filter_cons_of_pos (by simpa using hknown), List.filter_nil,
      List.map_append]
    rfl

/-- The proxies whose key is not known are sent, in order. -/
theorem foldl_answers (existing : List (CStr × UInt64)) (run : ImportRun ν κ χ π)
    (imported : List ImportedProxy) :
    (imported.foldl (importOne l existing) run).answers.map Prod.fst =
      run.answers.map Prod.fst ++ imported.filter (·.key ∉ existing) := by
  induction imported generalizing run with
  | nil => rw [List.filter_nil, List.append_nil, List.foldl_nil]
  | cons p imported ih =>
    rw [List.foldl_cons, ih, importOne_answers, List.append_assoc, ← List.filter_append,
      List.singleton_append]

/-- An import sends what the command is listed with. -/
theorem requests_providersImport (imported : List ImportedProxy) (id : Nat)
    (daemon : PfCtx ν κ χ π) :
    Command.requests l.platform.doubles
        (existingKeys l (received l id (pfHandleRequest l.platform l.outside (lit "proxy.list")
          (some (.obj [])) daemon).1)) (.providersImport (some imported)) =
      sent "proxy.list" [] ::
        (providersImport l imported id daemon).answers.map fun a =>
          importRequest l.platform.doubles a.1 := by
  have hanswers := foldl_answers l
    (existingKeys l (received l id (pfHandleRequest l.platform l.outside (lit "proxy.list")
      (some (.obj [])) daemon).1))
    ⟨⟨imported.length, 0, 0, 0, []⟩, id + 1, (pfHandleRequest l.platform l.outside (lit "proxy.list")
      (some (.obj [])) daemon).2, []⟩ imported
  rw [List.map_nil, List.nil_append] at hanswers
  have hmap := congrArg (List.map (importRequest l.platform.doubles)) hanswers
  rw [List.map_map] at hmap
  exact congrArg (sent "proxy.list" [] :: ·) hmap.symm

/-! ## What is stored -/

/-- The record the daemon makes of a request for it. -/
def ImportedProxy.record (d : Doubles ν) (p : ImportedProxy) : Proxy :=
  proxyFromJson (Cjson.toJson d (importRequest d p).params)

/-- The rows of records added one after the other. -/
def newRows (d : Doubles ν) : Nat → List ImportedProxy → List ProxyRow
  | _, [] => []
  | seq, p :: rest => proxyToRow (seq + 1) (p.record d) :: newRows d (seq + 1) rest

def withProxies (d : Doubles ν) (t : Tables) (ps : List ImportedProxy) : Tables :=
  { t with proxies := t.proxies ++ newRows d t.proxySeq ps, proxySeq := t.proxySeq + ps.length }

def isOk : Cjson ν → Bool
  | .obj [(key, .str text)] => key = lit "result" && text = lit "ok"
  | _ => false

theorem isOk_iff {answer : Cjson ν} : isOk answer = true ↔ answer = Reply.ok.json := by
  constructor
  · intro h
    unfold isOk at h
    split at h
    · rw [Bool.and_eq_true, decide_eq_true_eq, decide_eq_true_eq] at h
      rw [h.1, h.2]
      rfl
    · cases h
  · rintro rfl
    simp only [isOk, Reply.json, resultOf, decide_true, Bool.and_self]

namespace ImportRun

/-- The proxies that were sent. -/
def sentProxies (run : ImportRun ν κ χ π) : List ImportedProxy := run.answers.map Prod.fst

def AllStored (run : ImportRun ν κ χ π) : Prop := ∀ a ∈ run.answers, a.2 = Reply.ok.json

instance (run : ImportRun ν κ χ π) : Decidable run.AllStored :=
  decidable_of_iff (∀ a ∈ run.answers, isOk a.2 = true) (forall₂_congr fun _ _ => isOk_iff)

end ImportRun

theorem withProxies_nil (d : Doubles ν) (t : Tables) : withProxies d t [] = t := by
  rw [withProxies, newRows, List.append_nil]
  rfl

theorem withProxies_cons (d : Doubles ν) (t : Tables) (p : ImportedProxy)
    (ps : List ImportedProxy) :
    withProxies d t (p :: ps) = withProxies d (withProxies d t [p]) ps := by
  simp only [withProxies, newRows, List.append_assoc, List.singleton_append, List.length_cons,
    List.length_nil, Nat.zero_add, Nat.add_assoc, Nat.add_comm 1]

theorem withProxies_append (d : Doubles ν) (t : Tables) (ps qs : List ImportedProxy) :
    withProxies d t (ps ++ qs) = withProxies d (withProxies d t ps) qs := by
  induction ps generalizing t with
  | nil => rw [List.nil_append, withProxies_nil]
  | cons p ps ih => rw [List.cons_append, withProxies_cons, ih, ← withProxies_cons]

theorem json_ne_ok (message : CStr) :
    (Reply.error message).json ≠ (Reply.ok.json : Cjson ν) := by
  intro h
  have hkey : lit "error" = lit "result" :=
    congrArg Prod.fst (List.cons.inj (Cjson.obj.inj h)).1
  exact absurd hkey (by decide)

/-- An INSERT that is answered with ok has written its row. -/
theorem proxyAdd_stores {h : Host} {params : Json}
    (hok : ((h.proxyAdd (some params)).1.json : Cjson ν) = Reply.ok.json) :
    (h.proxyAdd (some params)).2.session.tables = { h.session.tables with
      proxies := h.session.tables.proxies ++
        [proxyToRow (h.session.tables.proxySeq + 1) (proxyFromJson params)]
      proxySeq := h.session.tables.proxySeq + 1 } := by
  cases hadd : Session.pfConfigProxyAdd (proxyFromJson params) h.session with
  | mk r session =>
    simp only [Host.proxyAdd, Host.config, hadd] at hok ⊢
    cases r with
    | none => exact absurd hok (json_ne_ok _)
    | some x =>
      have hgives : Act.Gives (Session.statement (.insertProxy (proxyFromJson params))) h.session x
        session := hadd
      obtain ⟨-, hexec, -⟩ := Session.statement_gives_iff.mp hgives
      simp only [Statement.exec, Option.ite_none_right_eq_some, Option.some.injEq] at hexec
      exact hexec.2.symm

theorem importRequest_stores {daemon : PfCtx ν κ χ π} {p : ImportedProxy}
    (hok : (pfHandleRequest l.platform l.outside (lit (importRequest l.platform.doubles p).method)
      (some (importRequest l.platform.doubles p).params) daemon).1 = Reply.ok.json) :
    (pfHandleRequest l.platform l.outside (lit (importRequest l.platform.doubles p).method)
      (some (importRequest l.platform.doubles p).params) daemon).2.host.session.tables =
        withProxies l.platform.doubles daemon.host.session.tables [p] := by
  have hname : Method.ofName (lit (importRequest l.platform.doubles p).method) = some .proxyAdd :=
    Method.ofName_of_mem ("proxy.add", .proxyAdd) (by decide)
  rw [pfHandleRequest, hname] at hok ⊢
  exact proxyAdd_stores hok

theorem importOne_stores (existing : List (CStr × UInt64)) {run : ImportRun ν κ χ π}
    {p : ImportedProxy} (hok : (importOne l existing run p).AllStored) :
    (importOne l existing run p).daemon.host.session.tables = withProxies l.platform.doubles run.daemon.host.session.tables
      ([p].filter (·.key ∉ existing)) := by
  rw [importOne] at hok ⊢
  by_cases hknown : p.key ∈ existing
  · rw [if_pos hknown, List.filter_cons_of_neg (by simpa using hknown), List.filter_nil,
      withProxies_nil]
  · rw [if_neg hknown] at hok ⊢
    rw [List.filter_cons_of_pos (by simpa using hknown), List.filter_nil]
    exact importRequest_stores l (hok _ (List.mem_append_right _ List.mem_cons_self))

theorem importOne_keeps (existing : List (CStr × UInt64)) {run : ImportRun ν κ χ π}
    {p : ImportedProxy} (hok : (importOne l existing run p).AllStored) : run.AllStored := by
  rw [importOne] at hok
  by_cases hknown : p.key ∈ existing
  · rw [if_pos hknown] at hok
    exact hok
  · rw [if_neg hknown] at hok
    exact fun a ha => hok a (List.mem_append_left _ ha)

theorem foldl_keeps (existing : List (CStr × UInt64)) {run : ImportRun ν κ χ π}
    {imported : List ImportedProxy} (hok : (imported.foldl (importOne l existing) run).AllStored) :
    run.AllStored := by
  induction imported generalizing run with
  | nil => exact hok
  | cons p imported ih => exact importOne_keeps l existing (ih hok)

/-- A loop whose requests are all answered with ok stores what it sends. -/
theorem foldl_stores (existing : List (CStr × UInt64)) {run : ImportRun ν κ χ π}
    {imported : List ImportedProxy} (hok : (imported.foldl (importOne l existing) run).AllStored) :
    (imported.foldl (importOne l existing) run).daemon.host.session.tables =
      withProxies l.platform.doubles run.daemon.host.session.tables (imported.filter (·.key ∉ existing)) := by
  induction imported generalizing run with
  | nil => rw [List.foldl_nil, List.filter_nil, withProxies_nil]
  | cons p imported ih =>
    rw [List.foldl_cons] at hok ⊢
    rw [ih hok, importOne_stores l existing (foldl_keeps l existing hok), ← withProxies_append,
      ← List.filter_append, List.singleton_append]

/-! ## What is listed -/

/-- `proxy.list` on rows of the proxies table. -/
def listAnswer (rows : List ProxyRow) : Cjson ν :=
  match delivered l.outside.proxyQuery
      ((rows.insertionSort fun a b => a.name ≤ b.name).take pfMaxProxies) with
  | none => errorOf (lit "db error")
  | some rows => resultOf (.arr (rows.map fun st => proxyToJson l.platform.doubles (rowToProxy st)))

/-- The keys an import reads from these rows. -/
def knownKeys (id : Nat) (rows : List ProxyRow) : List (CStr × UInt64) :=
  existingKeys l (received l id (listAnswer l rows))

theorem pfHandleRequest_proxyList (daemon : PfCtx ν κ χ π) :
    pfHandleRequest l.platform l.outside (lit "proxy.list") (some (.obj [])) daemon =
      (listAnswer l daemon.host.session.tables.proxies, daemon.facing l.outside) := by
  rw [pfHandleRequest, Method.ofName_of_mem ("proxy.list", .proxyList) (by decide)]
  rfl

theorem sentProxies_providersImport (imported : List ImportedProxy) (id : Nat)
    (daemon : PfCtx ν κ χ π) :
    (providersImport l imported id daemon).sentProxies =
      imported.filter (·.key ∉ knownKeys l id daemon.host.session.tables.proxies) := by
  rw [providersImport, pfHandleRequest_proxyList]
  exact (foldl_answers l _ _ imported).trans (List.nil_append _)

/-- An import whose requests are all answered with ok stores the proxies that are not known. -/
theorem tables_providersImport {imported : List ImportedProxy} {id : Nat} {daemon : PfCtx ν κ χ π}
    (hok : (providersImport l imported id daemon).AllStored) :
    (providersImport l imported id daemon).daemon.host.session.tables =
      withProxies l.platform.doubles daemon.host.session.tables
        (providersImport l imported id daemon).sentProxies := by
  rw [sentProxies_providersImport]
  rw [providersImport, pfHandleRequest_proxyList] at hok ⊢
  exact foldl_stores l _ hok

end Proxiflare.Gui
