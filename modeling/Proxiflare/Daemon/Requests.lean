import Proxiflare.Daemon.Rules
import Proxiflare.Daemon.Json

/-!
# Requests that touch interception state

The branches of `pf_handle_request` for `rule.add`, `rule.edit`, `rule.delete` and
`proxy.edit`, and what start-up restores (`daemon/src/main.c`). A handler returns
the new daemon state, the cgroup and nft commands it issued in order, and its reply.
-/

namespace Proxiflare.Daemon

open Lib.CString

/-- The commands of `cgroup.c` and `nft.c`, named by the rule they are for. -/
inductive KernelOp where
  | cgroupCreateRule (id : Int)
  | cgroupRemoveRule (id : Int)
  | cgroupAssignRunningPids (id : Int) (appPath : CBuf pfPathMax)
  | nftAddCgroupMark (id : Int)
  | nftRemoveCgroupMark (id : Int)
  deriving DecidableEq

/-- `{"result":"ok"}` or `{"error":…}`. -/
inductive Reply where
  | ok
  | error (message : CStr)
  deriving DecidableEq

/-- `ctx->config` and `ctx->ruleset`. -/
structure State where
  db : Db
  ruleset : Ruleset
  deriving DecidableEq

structure Outcome where
  state : State
  ops : List KernelOp
  reply : Reply
  deriving DecidableEq

def refuse (s : State) (message : String) : Outcome := ⟨s, [], .error (lit message)⟩

def rulesReloadLocked (s : State) : State := { s with ruleset := pfConfigRuleList s.db pfMaxRules }

/-! ## Start-up -/

/-- The test of start-up and of `rule.edit`. -/
def intercepted (r : Rule) : Bool := r.appPath.nonempty && r.enabled ≠ 0 && r.action ≠ .direct

def setupCgroupsForExistingRules (rs : Ruleset) : List KernelOp :=
  (rs.filter intercepted).flatMap fun r => [.cgroupCreateRule r.id, .nftAddCgroupMark r.id]

/-- The ruleset is loaded and the tables created anew before rules are restored. -/
def startUp (db : Db) : State × List KernelOp :=
  let s := rulesReloadLocked ⟨db, []⟩
  (s, setupCgroupsForExistingRules s.ruleset)

/-! ## Rules -/

def ruleFromJson (params : Json) : Rule where
  id := overlay (params.getObjectItem (lit "id")) (fun v => toUInt32 v.valuedouble) 0
  name := overlay (params.getObjectItem (lit "name"))
    (fun v => .snprintf (v.valuestring.getD (lit "(null)"))) .empty
  priority := overlay (params.getObjectItem (lit "priority")) (fun v => toInt32 v.valuedouble) 0
  appPath := overlayText (params.getEither (lit "match_app") (lit "app_path")) .empty
  domain := overlayText (params.getEither (lit "match_domain") (lit "domain")) .empty
  ipCidr := overlayText (params.getEither (lit "match_ip") (lit "ip_cidr")) .empty
  dstPort := overlayPort (params.getEither (lit "match_port") (lit "dst_port")) 0
  action := overlay (params.getObjectItem (lit "action"))
    (fun v => pfActionFromStr v.valuestring) .direct
  proxyId := overlay (params.getObjectItem (lit "proxy_id")) refId 0
  chainId := overlay (params.getObjectItem (lit "chain_id")) refId 0
  enabled := overlay (params.getObjectItem (lit "enabled")) flag 1

/-- The fields of `rule.edit`, each kept unless `params` names it. -/
def ruleOverlay (params : Json) (r : Rule) : Rule :=
  { r with
    name := overlayText (params.getObjectItem (lit "name")) r.name
    priority := overlay (params.getObjectItem (lit "priority"))
      (fun v => toInt32 v.valuedouble) r.priority
    appPath := overlayText (params.getEither (lit "match_app") (lit "app_path")) r.appPath
    domain := overlayText (params.getEither (lit "match_domain") (lit "domain")) r.domain
    ipCidr := overlayText (params.getEither (lit "match_ip") (lit "ip_cidr")) r.ipCidr
    dstPort := overlayPort (params.getEither (lit "match_port") (lit "dst_port")) r.dstPort
    action := overlay ((params.getObjectItem (lit "action")).bind Json.valuestring)
      (fun s => pfActionFromStr (some s)) r.action
    proxyId := overlay (params.getObjectItem (lit "proxy_id")) refId r.proxyId
    chainId := overlay (params.getObjectItem (lit "chain_id")) refId r.chainId
    enabled := overlay (params.getObjectItem (lit "enabled")) flag r.enabled }

/-- Does not look at `enabled`. -/
def ruleAdd (s : State) : Option Json → Outcome
  | none => refuse s "missing params"
  | some params =>
    let r := ruleFromJson params
    match pfConfigRuleAdd s.db r with
    | none => refuse s "db error"
    | some (db, newId) =>
      let ops : List KernelOp :=
        if r.appPath.nonempty && r.action ≠ .direct then
          [.cgroupCreateRule newId, .nftAddCgroupMark newId,
            .cgroupAssignRunningPids newId r.appPath]
        else []
      ⟨rulesReloadLocked { s with db := db }, ops, .ok⟩

/-- The row a partial update starts from: `rid > 0` and present. -/
def loadRule (db : Db) (rid : Int) : Option Rule :=
  if 0 < rid then pfConfigRuleGet db rid else none

def ruleEdit (s : State) : Option Json → Outcome
  | none => refuse s "missing params"
  | some params =>
    match loadRule s.db params.idOf with
    | none => refuse s "rule not found"
    | some stored =>
      let r := ruleOverlay params stored
      match pfConfigRuleUpdate s.db r with
      | none => refuse s "db error"
      | some db =>
        let ops : List KernelOp :=
          if intercepted r then
            [.nftRemoveCgroupMark r.id, .cgroupRemoveRule r.id, .cgroupCreateRule r.id,
              .nftAddCgroupMark r.id, .cgroupAssignRunningPids r.id r.appPath]
          else [.nftRemoveCgroupMark r.id, .cgroupRemoveRule r.id]
        ⟨rulesReloadLocked { s with db := db }, ops, .ok⟩

def ruleDelete (s : State) (params : Option Json) : Outcome :=
  match params.bind (Json.getObjectItem · (lit "id")) with
  | none => refuse s "missing id"
  | some v =>
    let id := toInt32 v.valuedouble
    ⟨rulesReloadLocked { s with db := pfConfigRuleDelete s.db id },
      [.cgroupRemoveRule id, .nftRemoveCgroupMark id], .ok⟩

/-! ## Proxies -/

/-- The fields of `proxy.edit`, each kept unless `params` names it. -/
def proxyOverlay (params : Json) (p : Proxy) : Proxy :=
  { p with
    name := overlayText (params.getObjectItem (lit "name")) p.name
    type := overlay ((params.getObjectItem (lit "type")).bind Json.valuestring)
      (fun s => pfProxyTypeFromStr (some s)) p.type
    host := overlayText (params.getObjectItem (lit "host")) p.host
    port := overlay (params.getObjectItem (lit "port")) (fun v => portOfDouble v.valuedouble) p.port
    username := overlayText (params.getObjectItem (lit "username")) p.username
    password := overlayText (params.getObjectItem (lit "password")) p.password
    sshKeyPath := overlayText (params.getObjectItem (lit "ssh_key_path")) p.sshKeyPath
    enabled := overlay (params.getObjectItem (lit "enabled")) flag p.enabled }

/-- The rules switched together with a proxy. -/
def followsProxy (pid : Nat) (r : Rule) : Bool :=
  r.action = .proxy && r.proxyId = pid && r.enabled ≠ 0 && r.appPath.nonempty

def syncRule (enabled : Bool) (r : Rule) : List KernelOp :=
  if enabled then
    [.cgroupCreateRule r.id, .nftAddCgroupMark r.id, .cgroupAssignRunningPids r.id r.appPath]
  else [.nftRemoveCgroupMark r.id, .cgroupRemoveRule r.id]

def loadProxy (db : Db) (pid : Int) : Option Proxy :=
  if 0 < pid then pfConfigProxyGet db pid else none

/-- The ruleset is not reloaded. -/
def proxyEdit (s : State) : Option Json → Outcome
  | none => refuse s "missing params"
  | some params =>
    match loadProxy s.db params.idOf with
    | none => refuse s "proxy not found"
    | some stored =>
      let p := proxyOverlay params stored
      match pfConfigProxyUpdate s.db p with
      | none => refuse s "db error"
      | some db =>
        let ops : List KernelOp :=
          if stored.enabled ≠ p.enabled then
            ((pfConfigRuleList db pfMaxRules).filter (followsProxy p.id)).flatMap
              (syncRule (p.enabled ≠ 0))
          else []
        ⟨{ s with db := db }, ops, .ok⟩

/-! ## The daemon with its marks -/

/-- The rule ids of the marks in the output chain, when every command succeeds and every removal
is exact. -/
def applyOp (marks : List Int) : KernelOp → List Int
  | .nftAddCgroupMark id => marks ++ [id]
  | .nftRemoveCgroupMark id => marks.filter (· ≠ id)
  | _ => marks

structure Node where
  state : State
  marks : List Int
  deriving DecidableEq

inductive Change where
  | ruleAdd (params : Option Json)
  | ruleEdit (params : Option Json)
  | ruleDelete (params : Option Json)
  | proxyEdit (params : Option Json)
  | restart

def Node.start (db : Db) : Node := ⟨(startUp db).1, (startUp db).2.foldl applyOp []⟩

/-- A request answered with an error is no step. -/
def Node.answered (n : Node) (o : Outcome) : Option Node :=
  if o.reply = .ok then some ⟨o.state, o.ops.foldl applyOp n.marks⟩ else none

def Node.step (n : Node) : Change → Option Node
  | .ruleAdd params => n.answered (ruleAdd n.state params)
  | .ruleEdit params => n.answered (ruleEdit n.state params)
  | .ruleDelete params => n.answered (ruleDelete n.state params)
  | .proxyEdit params => n.answered (proxyEdit n.state params)
  | .restart => some (.start n.state.db)

/-! ## What a request answered with ok did -/

variable {s : State} {params : Option Json}

theorem reply_refuse (s : State) (message : String) : (refuse s message).reply ≠ .ok := nofun

theorem ruleAdd_ok (h : (ruleAdd s params).reply = .ok) :
    ∃ p db newId, params = some p ∧ pfConfigRuleAdd s.db (ruleFromJson p) = some (db, newId) ∧
      ruleAdd s params = ⟨rulesReloadLocked { s with db := db },
        if (ruleFromJson p).appPath.nonempty && (ruleFromJson p).action ≠ .direct then
          [.cgroupCreateRule newId, .nftAddCgroupMark newId,
            .cgroupAssignRunningPids newId (ruleFromJson p).appPath]
        else [], .ok⟩ := by
  cases params with
  | none => exact absurd h (reply_refuse s _)
  | some p =>
    cases hadd : pfConfigRuleAdd s.db (ruleFromJson p) with
    | none =>
      simp only [ruleAdd, hadd] at h
      exact absurd h (reply_refuse s _)
    | some added => exact ⟨p, added.1, added.2, rfl, hadd, by simp only [ruleAdd, hadd]⟩

theorem ruleEdit_ok (h : (ruleEdit s params).reply = .ok) :
    ∃ p stored db, params = some p ∧ loadRule s.db p.idOf = some stored ∧
      pfConfigRuleUpdate s.db (ruleOverlay p stored) = some db ∧
      ruleEdit s params = ⟨rulesReloadLocked { s with db := db },
        if intercepted (ruleOverlay p stored) then
          [.nftRemoveCgroupMark stored.id, .cgroupRemoveRule stored.id,
            .cgroupCreateRule stored.id, .nftAddCgroupMark stored.id,
            .cgroupAssignRunningPids stored.id (ruleOverlay p stored).appPath]
        else [.nftRemoveCgroupMark stored.id, .cgroupRemoveRule stored.id], .ok⟩ := by
  cases params with
  | none => exact absurd h (reply_refuse s _)
  | some p =>
    cases hload : loadRule s.db p.idOf with
    | none =>
      simp only [ruleEdit, hload] at h
      exact absurd h (reply_refuse s _)
    | some stored =>
      cases hupd : pfConfigRuleUpdate s.db (ruleOverlay p stored) with
      | none =>
        simp only [ruleEdit, hload, hupd] at h
        exact absurd h (reply_refuse s _)
      | some db =>
        refine ⟨p, stored, db, rfl, hload, hupd, ?_⟩
        simp only [ruleEdit, hload, hupd]
        rfl

theorem ruleDelete_ok (h : (ruleDelete s params).reply = .ok) :
    ∃ id : Int, ruleDelete s params =
      ⟨rulesReloadLocked { s with db := pfConfigRuleDelete s.db id },
        [.cgroupRemoveRule id, .nftRemoveCgroupMark id], .ok⟩ := by
  unfold ruleDelete at h ⊢
  cases hid : params.bind (Json.getObjectItem · (lit "id")) with
  | none =>
    rw [hid] at h
    exact absurd h (reply_refuse s _)
  | some v => exact ⟨toInt32 v.valuedouble, rfl⟩

theorem proxyEdit_ok (h : (proxyEdit s params).reply = .ok) :
    ∃ p stored db, params = some p ∧ loadProxy s.db p.idOf = some stored ∧
      pfConfigProxyUpdate s.db (proxyOverlay p stored) = some db ∧
      proxyEdit s params = ⟨{ s with db := db },
        if stored.enabled ≠ (proxyOverlay p stored).enabled then
          ((pfConfigRuleList db pfMaxRules).filter (followsProxy stored.id)).flatMap
            (syncRule ((proxyOverlay p stored).enabled ≠ 0))
        else [], .ok⟩ := by
  cases params with
  | none => exact absurd h (reply_refuse s _)
  | some p =>
    cases hload : loadProxy s.db p.idOf with
    | none =>
      simp only [proxyEdit, hload] at h
      exact absurd h (reply_refuse s _)
    | some stored =>
      cases hupd : pfConfigProxyUpdate s.db (proxyOverlay p stored) with
      | none =>
        simp only [proxyEdit, hload, hupd] at h
        exact absurd h (reply_refuse s _)
      | some db =>
        refine ⟨p, stored, db, rfl, hload, hupd, ?_⟩
        simp only [proxyEdit, hload, hupd]
        rfl

/-- The flag written by `proxy.edit` is 0 or 1 if the stored one is. -/
theorem proxyOverlay_enabled {p : Proxy} (json : Json) (h : p.enabled = 0 ∨ p.enabled = 1) :
    (proxyOverlay json p).enabled = 0 ∨ (proxyOverlay json p).enabled = 1 :=
  overlay_ind (P := fun e => e = 0 ∨ e = 1) h flag_bool

theorem answered_some {n n' : Node} {o : Outcome} (h : n.answered o = some n') :
    o.reply = .ok ∧ n' = ⟨o.state, o.ops.foldl applyOp n.marks⟩ := by
  simp only [Node.answered, Option.ite_none_right_eq_some, Option.some.injEq] at h
  exact ⟨h.1, h.2.symm⟩

/-- Every step keeps the constraints of the database. -/
theorem Node.step_sound {n n' : Node} {c : Change} (hs : n.state.db.Sound)
    (h : n.step c = some n') : n'.state.db.Sound := by
  cases c with
  | ruleAdd params =>
    obtain ⟨hok, rfl⟩ := answered_some h
    obtain ⟨p, db, newId, -, hadd, heq⟩ := ruleAdd_ok hok
    rw [heq]
    exact hs.ruleAdd hadd
  | ruleEdit params =>
    obtain ⟨hok, rfl⟩ := answered_some h
    obtain ⟨p, stored, db, -, -, hupd, heq⟩ := ruleEdit_ok hok
    rw [heq]
    exact hs.ruleUpdate hupd
  | ruleDelete params =>
    obtain ⟨hok, rfl⟩ := answered_some h
    obtain ⟨id, heq⟩ := ruleDelete_ok hok
    rw [heq]
    exact hs.ruleDelete id
  | proxyEdit params =>
    obtain ⟨hok, rfl⟩ := answered_some h
    obtain ⟨p, stored, db, -, hload, hupd, heq⟩ := proxyEdit_ok hok
    rw [heq]
    obtain ⟨st, hst, rfl⟩ := pfConfigProxyGet_some
      (Option.ite_none_right_eq_some.mp hload).2
    exact hs.proxyUpdate (proxyOverlay_enabled p (hs.proxyFlags st hst)) hupd
  | restart =>
    obtain rfl := Option.some.inj h
    exact hs

end Proxiflare.Daemon
