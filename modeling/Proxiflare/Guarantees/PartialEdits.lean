import Proxiflare.Daemon.Mutations
import Proxiflare.Guarantees.StoredRecords

/-!
# What an edit leaves alone

`rule.edit` and `proxy.edit` load the stored record and overlay the fields `params` names.
`chain.edit` builds the chain from `params` alone, so a field that is not named keeps its value
only if it is the one an absent key stands for.
-/

namespace Proxiflare.Guarantees.PartialEdits

open Lib.CString Lib
open Proxiflare.Daemon

/-- None of the spellings of a key occurs in `params`. -/
def Absent (params : Json) (keys : List String) : Prop :=
  ∀ key ∈ keys, params.getObjectItem (lit key) = none

/-! ## The fields of each record -/

inductive RuleField where
  | name | priority | appPath | domain | ipCidr | dstPort | action | proxyId | chainId | enabled

namespace RuleField

def keys : RuleField → List String
  | name => ["name"]
  | priority => ["priority"]
  | appPath => ["match_app", "app_path"]
  | domain => ["match_domain", "domain"]
  | ipCidr => ["match_ip", "ip_cidr"]
  | dstPort => ["match_port", "dst_port"]
  | action => ["action"]
  | proxyId => ["proxy_id"]
  | chainId => ["chain_id"]
  | enabled => ["enabled"]

def Same (r r' : Rule) : RuleField → Prop
  | name => r'.name = r.name
  | priority => r'.priority = r.priority
  | appPath => r'.appPath = r.appPath
  | domain => r'.domain = r.domain
  | ipCidr => r'.ipCidr = r.ipCidr
  | dstPort => r'.dstPort = r.dstPort
  | action => r'.action = r.action
  | proxyId => r'.proxyId = r.proxyId
  | chainId => r'.chainId = r.chainId
  | enabled => r'.enabled = r.enabled

end RuleField

/-- Health and latency have no key. -/
inductive ProxyField where
  | name | type | host | port | username | password | sshKeyPath | enabled | health | latencyMs

namespace ProxyField

def keys : ProxyField → List String
  | name => ["name"]
  | type => ["type"]
  | host => ["host"]
  | port => ["port"]
  | username => ["username"]
  | password => ["password"]
  | sshKeyPath => ["ssh_key_path"]
  | enabled => ["enabled"]
  | health => []
  | latencyMs => []

def Same (p p' : Proxy) : ProxyField → Prop
  | name => p'.name = p.name
  | type => p'.type = p.type
  | host => p'.host = p.host
  | port => p'.port = p.port
  | username => p'.username = p.username
  | password => p'.password = p.password
  | sshKeyPath => p'.sshKeyPath = p.sshKeyPath
  | enabled => p'.enabled = p.enabled
  | health => p'.health = p.health
  | latencyMs => p'.latencyMs = p.latencyMs

end ProxyField

inductive ChainField where
  | name | enabled | hops

namespace ChainField

def keys : ChainField → List String
  | name => ["name"]
  | enabled => ["enabled"]
  | hops => ["hop_proxy_ids", "hops"]

def Same (c c' : Chain) : ChainField → Prop
  | name => c'.name = c.name
  | enabled => c'.enabled = c.enabled
  | hops => c'.hops = c.hops

/-- What `chain_from_json` makes of an absent key. -/
def AtDefault (c : Chain) : ChainField → Prop
  | name => c.name = .empty
  | enabled => c.enabled = 1
  | hops => c.hops = []

end ChainField

/-! ## The overlays -/

variable {params : Json}

theorem getEither_absent {key key' : String} (h : Absent params [key, key']) :
    params.getEither (lit key) (lit key') = none := by
  unfold Json.getEither
  rw [h key (by simp), h key' (by simp)]
  rfl

theorem getObjectItem_absent {key : String} (h : Absent params [key]) :
    params.getObjectItem (lit key) = none := h key (by simp)

theorem ruleOverlay_same (r : Rule) (f : RuleField) (h : Absent params f.keys) :
    f.Same r (ruleOverlay params r) := by
  cases f with
  | name => exact congrArg (overlayText · r.name) (getObjectItem_absent h)
  | priority => exact congrArg (overlay · _ r.priority) (getObjectItem_absent h)
  | appPath => exact congrArg (overlayText · r.appPath) (getEither_absent h)
  | domain => exact congrArg (overlayText · r.domain) (getEither_absent h)
  | ipCidr => exact congrArg (overlayText · r.ipCidr) (getEither_absent h)
  | dstPort => exact congrArg (overlayPort · r.dstPort) (getEither_absent h)
  | action =>
    exact congrArg (fun v => overlay (v.bind Json.valuestring) _ r.action) (getObjectItem_absent h)
  | proxyId => exact congrArg (overlay · _ r.proxyId) (getObjectItem_absent h)
  | chainId => exact congrArg (overlay · _ r.chainId) (getObjectItem_absent h)
  | enabled => exact congrArg (overlay · _ r.enabled) (getObjectItem_absent h)

theorem proxyOverlay_same (p : Proxy) (f : ProxyField) (h : Absent params f.keys) :
    f.Same p (proxyOverlay params p) := by
  cases f with
  | name => exact congrArg (overlayText · p.name) (getObjectItem_absent h)
  | type =>
    exact congrArg (fun v => overlay (v.bind Json.valuestring) _ p.type) (getObjectItem_absent h)
  | host => exact congrArg (overlayText · p.host) (getObjectItem_absent h)
  | port => exact congrArg (overlay · _ p.port) (getObjectItem_absent h)
  | username => exact congrArg (overlayText · p.username) (getObjectItem_absent h)
  | password => exact congrArg (overlayText · p.password) (getObjectItem_absent h)
  | sshKeyPath => exact congrArg (overlayText · p.sshKeyPath) (getObjectItem_absent h)
  | enabled => exact congrArg (overlay · _ p.enabled) (getObjectItem_absent h)
  | health => rfl
  | latencyMs => rfl

/-- A chain built from `params` is at its default wherever they are silent. -/
theorem chainFromJson_default (f : ChainField) (h : Absent params f.keys) :
    f.AtDefault (Host.chainFromJson params) := by
  cases f with
  | name => exact congrArg (overlay · _ CBuf.empty) (getObjectItem_absent h)
  | enabled => exact congrArg (overlay · _ (1 : Int)) (getObjectItem_absent h)
  | hops => exact congrArg Host.hopsFromJson (getEither_absent h)

theorem ChainField.same_iff {c c' : Chain} {f : ChainField} (h : f.AtDefault c') :
    f.Same c c' ↔ f.AtDefault c := by
  cases f with
  | name => exact ⟨fun heq => heq.symm.trans h, fun heq => h.trans heq.symm⟩
  | enabled => exact ⟨fun heq => heq.symm.trans h, fun heq => h.trans heq.symm⟩
  | hops => exact ⟨fun heq => heq.symm.trans h, fun heq => h.trans heq.symm⟩

/-! ## What a successful edit has stored -/

variable {h : Host} {printed : Nat → CStr}

/-- A record that was loaded is the stored one, and the tables are as before. -/
theorem select_loads {α : Type} {query : Db → Option α} {s t : Session} {r : α}
    (hload : Session.select query s = (some r, t)) : query s.db = some r ∧ t.store = s.store := by
  obtain ⟨hr, rfl⟩ := Prod.mk.inj hload
  split at hr
  · cases hr
  · exact ⟨hr, rfl⟩

theorem loadRule_loads {rid : Int} {r : Rule} {h₁ : Host} (hload : h.loadRule rid = (some r, h₁)) :
    pfConfigRuleGet h.session.db rid = some r ∧ h₁.session.store = h.session.store := by
  unfold Host.loadRule at hload
  split at hload
  · obtain ⟨hr, rfl⟩ := Prod.mk.inj hload
    exact select_loads (Prod.ext hr rfl)
  · cases (Prod.mk.inj hload).1

theorem loadProxy_loads {pid : Int} {p : Proxy} {h₁ : Host}
    (hload : h.loadProxy pid = (some p, h₁)) :
    pfConfigProxyGet h.session.db pid = some p ∧ h₁.session.store = h.session.store := by
  unfold Host.loadProxy at hload
  split at hload
  · obtain ⟨hp, rfl⟩ := Prod.mk.inj hload
    exact select_loads (Prod.ext hp rfl)
  · cases (Prod.mk.inj hload).1

theorem config_gives {m : Act Session PUnit} {x : PUnit} {h₁ h₂ : Host}
    (hrun : h₁.config m = (some x, h₂)) : Act.Gives m h₁.session x h₂.session := by
  obtain ⟨hx, rfl⟩ := Prod.mk.inj hrun
  exact Act.gives_of_fst hx

theorem db_of_store {s t : Session} (hstore : t.store = s.store) : t.db = s.db := by
  unfold Session.db
  rw [hstore]

theorem ruleEdit_stores (hok : (h.ruleEdit printed (some params)).1 = .ok) :
    ∃ r, pfConfigRuleGet h.session.db params.idOf = some r ∧
      pfConfigRuleGet (h.ruleEdit printed (some params)).2.session.db params.idOf =
        some (ruleOverlay params r) := by
  unfold Host.ruleEdit at hok ⊢
  cases hload : h.loadRule params.idOf with
  | mk stored h₁ =>
    simp only [hload] at hok ⊢
    cases stored with
    | none => cases hok
    | some r =>
      simp only at hok ⊢
      cases hupdate : h₁.config (Session.pfConfigRuleUpdate (ruleOverlay params r)) with
      | mk done h₂ =>
        simp only [hupdate] at hok ⊢
        cases done with
        | none => cases hok
        | some _ =>
          obtain ⟨hget, hstore⟩ := loadRule_loads hload
          obtain ⟨-, -, -, hid⟩ := pfConfigRuleGet_some hget
          have hold : (pfConfigRuleGet h₁.session.db (ruleOverlay params r).id).isSome = true := by
            rw [db_of_store hstore, show ((ruleOverlay params r).id : Int) = _ from hid, hget]
            rfl
          have hstored := StoredRecords.rule_update hold (config_gives hupdate)
          rw [show ((ruleOverlay params r).id : Int) = _ from hid] at hstored
          exact ⟨r, hget, hstored⟩

theorem proxyEdit_stores (hok : (h.proxyEdit printed (some params)).1 = .ok) :
    ∃ p, pfConfigProxyGet h.session.db params.idOf = some p ∧
      pfConfigProxyGet (h.proxyEdit printed (some params)).2.session.db params.idOf =
        some (proxyOverlay params p) := by
  unfold Host.proxyEdit at hok ⊢
  cases hload : h.loadProxy params.idOf with
  | mk stored h₁ =>
    simp only [hload] at hok ⊢
    cases stored with
    | none => cases hok
    | some p =>
      simp only at hok ⊢
      cases hupdate : h₁.config (Session.pfConfigProxyUpdate (proxyOverlay params p)) with
      | mk done h₂ =>
        simp only [hupdate] at hok ⊢
        cases done with
        | none => cases hok
        | some _ =>
          obtain ⟨hget, hstore⟩ := loadProxy_loads hload
          obtain ⟨row, hrow, hp⟩ := Option.map_eq_some_iff.mp hget
          have hrowId : (row.id : Int) = params.idOf := by simpa using List.find?_some hrow
          have hid : ((proxyOverlay params p).id : Int) = params.idOf := by
            rw [← hp]
            exact hrowId
          have hold : (pfConfigProxyGet h₁.session.db (proxyOverlay params p).id).isSome = true := by
            rw [db_of_store hstore, hid, hget]
            rfl
          have hstored := StoredRecords.proxy_update hold (config_gives hupdate)
          rw [hid] at hstored
          exact ⟨p, hget, hstored⟩

theorem chainEdit_stores {c : Chain}
    (hget : pfConfigChainGet h.session.db (Host.chainFromJson params).id = some c)
    (hok : (h.chainEdit (some params)).1 = .ok) :
    pfConfigChainGet (h.chainEdit (some params)).2.session.db (Host.chainFromJson params).id =
      some (Host.chainFromJson params) := by
  unfold Host.chainEdit at hok ⊢
  cases hupdate : h.config (Session.pfConfigChainUpdate (Host.chainFromJson params)) with
  | mk done h₁ =>
    simp only [hupdate] at hok ⊢
    cases done with
    | none => cases hok
    | some _ =>
      exact StoredRecords.chain_update (Option.isSome_of_eq_some hget) (config_gives hupdate)

/-! ## What is kept -/

/-- The fields of a rule, a proxy and a chain that `params` does not name are as stored before. -/
def RuleKept (params : Json) (r : Rule) (r' : Option Rule) : Prop :=
  ∃ x ∈ r', ∀ f : RuleField, Absent params f.keys → f.Same r x

def ProxyKept (params : Json) (p : Proxy) (p' : Option Proxy) : Prop :=
  ∃ x ∈ p', ∀ f : ProxyField, Absent params f.keys → f.Same p x

def ChainKept (params : Json) (c : Chain) (c' : Option Chain) : Prop :=
  ∃ x ∈ c', ∀ f : ChainField, Absent params f.keys → f.Same c x

/-- For every stored record with the id in `params` and every edit answered with ok: rules and
proxies keep what is not named, a chain keeps it exactly where it was at the default. -/
theorem partial_edits_iff (printed : Nat → CStr) (h : Host) (params : Json) :
    (∀ r, pfConfigRuleGet h.session.db params.idOf = some r →
      (h.ruleEdit printed (some params)).1 = .ok →
        RuleKept params r (pfConfigRuleGet (h.ruleEdit printed (some params)).2.session.db
          params.idOf)) ∧
    (∀ p, pfConfigProxyGet h.session.db params.idOf = some p →
      (h.proxyEdit printed (some params)).1 = .ok →
        ProxyKept params p (pfConfigProxyGet (h.proxyEdit printed (some params)).2.session.db
          params.idOf)) ∧
    (∀ c, pfConfigChainGet h.session.db (Host.chainFromJson params).id = some c →
      (h.chainEdit (some params)).1 = .ok →
        (ChainKept params c (pfConfigChainGet (h.chainEdit (some params)).2.session.db
          (Host.chainFromJson params).id) ↔
            ∀ f : ChainField, Absent params f.keys → f.AtDefault c)) := by
  refine ⟨fun r hget hok => ?_, fun p hget hok => ?_, fun c hget hok => ?_⟩
  · obtain ⟨stored, hstored, hnew⟩ := ruleEdit_stores hok
    obtain rfl := Option.some.inj (hstored.symm.trans hget)
    exact ⟨_, hnew, fun f habsent => ruleOverlay_same stored f habsent⟩
  · obtain ⟨stored, hstored, hnew⟩ := proxyEdit_stores hok
    obtain rfl := Option.some.inj (hstored.symm.trans hget)
    exact ⟨_, hnew, fun f habsent => proxyOverlay_same stored f habsent⟩
  · rw [chainEdit_stores hget hok, ChainKept]
    simp only [Option.mem_some, exists_eq_left']
    exact forall₂_congr fun f habsent => ChainField.same_iff (chainFromJson_default f habsent)

/-! ## Switching a proxy and a chain off -/

/-- A daemon with one proxy and a chain that goes through it twice. -/
def stocked : Host := ⟨StoredRecords.withChain, [], ⟨[], [], 1⟩, none⟩

/-- `{"id":1,"enabled":false}`. -/
def switchOff : Json := .obj [(lit "id", .num 1), (lit "enabled", .bool false)]

theorem switched_off :
    ProxyKept switchOff StoredRecords.sampleProxy
        (pfConfigProxyGet (stocked.proxyEdit decimal (some switchOff)).2.session.db 1) ∧
      (ChainKept switchOff StoredRecords.sampleChain
        (pfConfigChainGet (stocked.chainEdit (some switchOff)).2.session.db 1) ↔
          ∀ f : ChainField, Absent switchOff f.keys → f.AtDefault StoredRecords.sampleChain) :=
  ⟨(partial_edits_iff decimal stocked switchOff).2.1 StoredRecords.sampleProxy (by decide)
      (by decide),
    (partial_edits_iff decimal stocked switchOff).2.2 StoredRecords.sampleChain (by decide)
      (by decide)⟩

/-- The chain has lost its name and its hops. -/
theorem chain_emptied :
    (stocked.chainEdit (some switchOff)).1 = .ok ∧
      ¬ ChainKept switchOff StoredRecords.sampleChain
        (pfConfigChainGet (stocked.chainEdit (some switchOff)).2.session.db 1) := by
  refine ⟨by decide, fun h => ?_⟩
  obtain ⟨c, hc, hkept⟩ := h
  have hhops : c.hops = [1, 1] := hkept .hops (by unfold Absent; decide)
  have hempty : (pfConfigChainGet (stocked.chainEdit (some switchOff)).2.session.db 1).map
      Chain.hops = some [] := by decide
  rw [hc, Option.map_some, hhops] at hempty
  exact absurd hempty (by decide)

end Proxiflare.Guarantees.PartialEdits
