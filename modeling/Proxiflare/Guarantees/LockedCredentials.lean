import Proxiflare.Daemon.Redaction

/-!
# What requests reveal of stored credentials

The proxies table holds user names and passwords as they were given, and `proxy.list`
answers with them, locked or not: the crypto context takes no part in it. Two daemons
that differ in credentials only answer every other request alike that opens no
connection, and `proxy.list` exactly where the proxies it lists agree.
-/

namespace Proxiflare.Guarantees.LockedCredentials

open Lib.CString Lib.View
open Proxiflare.Daemon

variable {ν κ χ π : Type}

def redact (s : PfCtx ν κ χ π) : PfCtx ν κ χ π := { s with host := s.host.redact }

variable (e : Platform ν κ) (w : Outside χ π)

/-- The test dials a proxy. -/
def OpensConnection (params : Option (Cjson ν)) (s : PfCtx ν κ χ π) : Method → Prop
  | .proxyTest => (s.testedProxy (params.map (Cjson.toJson e.doubles))).1 ≠ none
  | .chainTest => ∃ c, (s.testedChain w (params.map (Cjson.toJson e.doubles))).1 = some c ∧
      PfCtx.chainDials c (PfCtx.chainProxies w s.host.session.db) = true
  | _ => False

/-- The user names and passwords of the proxies a list of them is made of. -/
def listedCredentials (s : PfCtx ν κ χ π) : Option (List (Option CStr × Option CStr)) :=
  (delivered w.proxyQuery (listedProxies s.host.session.db)).map
    (·.map fun st => (st.username, st.password))

/-! ## Daemons that look the same -/

variable {e w} {s t : PfCtx ν κ χ π}

theorem split_redact (hst : redact s = redact t) :
    ∃ h, t = { s with host := h } ∧ s.host.redact = h.redact := by
  obtain ⟨host, _, _, _, _, _, _, _, _, _⟩ := s
  obtain ⟨host', _, _, _, _, _, _, _, _, _⟩ := t
  rw [redact, redact, PfCtx.mk.injEq] at hst
  obtain ⟨hhost, rfl, rfl, rfl, rfl, rfl, rfl, rfl, rfl, rfl⟩ := hst
  exact ⟨host', rfl, hhost⟩

theorem redact_eq {h h' : Host} (hh : h.redact = h'.redact) (s : PfCtx ν κ χ π) :
    redact { s with host := h } = redact { s with host := h' } := by
  unfold redact
  rw [hh]

theorem facing_redact (hst : redact s = redact t) : redact (s.facing w) = redact (t.facing w) := by
  obtain ⟨h, rfl, hh⟩ := split_redact hst
  obtain ⟨u, rfl, hu⟩ := Host.split_redact hh
  have hstore : s.host.session.store.redact = u.store.redact := congrArg Session.store hu
  unfold PfCtx.facing redact Host.redact Session.redact
  rw [hstore]

theorem onHost_alike {f : Host → Cjson ν × Host}
    (hf : ∀ ⦃h h'⦄, h.redact = h'.redact → Alike Host.redact (f h) (f h'))
    (hst : redact s = redact t) : Alike redact (s.onHost f) (t.onHost f) := by
  obtain ⟨h, rfl, hh⟩ := split_redact hst
  exact ⟨(hf hh).value, redact_eq (hf hh).state s⟩

theorem answering_alike {f : Host → Answer}
    (hf : ∀ ⦃h h'⦄, h.redact = h'.redact → Alike Host.redact (f h) (f h'))
    (hst : redact s = redact t) : Alike redact (s.answering f) (t.answering f) :=
  onHost_alike (fun _ _ hh => (hf hh).map Reply.json) hst

/-! ## Lists and counts -/

theorem listedProxies_redact (db : Db) :
    listedProxies db.redact = (listedProxies db).map ProxyRow.redact := by
  have hsort := List.map_insertionSort (fun a b : ProxyRow => a.name ≤ b.name)
    (fun a b => a.name ≤ b.name) ProxyRow.redact db.proxies fun _ _ _ _ => Iff.rfl
  unfold listedProxies Db.redact
  rw [List.map_take, hsort]

theorem delivered_map {α β : Type} (f : α → β) (fault : Option QueryFault) (rows : List α) :
    delivered fault (rows.map f) = (delivered fault rows).map (List.map f) := by
  unfold delivered
  by_cases hprepare : fault = some .prepare
  · rw [if_pos hprepare, if_pos hprepare]
    rfl
  · rw [if_neg hprepare, if_neg hprepare]
    unfold rowsDelivered
    split
    · simp only [Option.map_some, List.map_take]
    · rfl

/-- The rows a list of proxies is made of, without their credentials. -/
theorem delivered_of_redact (hst : redact s = redact t) (fault : Option QueryFault) :
    (delivered fault (listedProxies s.host.session.db)).map (List.map ProxyRow.redact) =
      (delivered fault (listedProxies t.host.session.db)).map (List.map ProxyRow.redact) := by
  obtain ⟨h, rfl, hh⟩ := split_redact hst
  obtain ⟨u, rfl, hu⟩ := Host.split_redact hh
  rw [← delivered_map, ← delivered_map, ← listedProxies_redact, ← listedProxies_redact,
    Session.db_of_redact hu]

theorem proxiesOnline_of_redact (hst : redact s = redact t) :
    PfCtx.proxiesOnline w s.host.session.db = PfCtx.proxiesOnline w t.host.session.db := by
  have hcount : ∀ rows : Option (List ProxyRow),
      (rows.getD []).countP (fun st => st.enabled ≠ 0 && st.health = 1) =
        ((rows.map (List.map ProxyRow.redact)).getD []).countP
          (fun st => st.enabled ≠ 0 && st.health = 1) := by
    intro rows
    cases rows with
    | none => rfl
    | some rows =>
      show rows.countP _ = (rows.map ProxyRow.redact).countP _
      rw [List.countP_map]
      rfl
  unfold PfCtx.proxiesOnline
  rw [hcount, delivered_of_redact hst, ← hcount]

theorem systemStatus_alike (hst : redact s = redact t) :
    Alike redact (s.systemStatus e w) (t.systemStatus e w) := by
  have honline := proxiesOnline_of_redact (w := w) hst
  obtain ⟨h, rfl, hh⟩ := split_redact hst
  obtain ⟨leak, k, k', hk, hk', hkk⟩ :=
    (Host.setting_alike 8 "dns_leak_enabled" "false" hh).split
  obtain ⟨server, j, j', hj, hj', hjj⟩ := (Host.setting_alike 64 "dns_server" "1.1.1.1" hkk).split
  obtain ⟨u, rfl, hu⟩ := Host.split_redact hh
  simp only [PfCtx.systemStatus, hk, hk', hj, hj', honline]
  exact .of _ (redact_eq hjj s)

/-! ## Tests that are not run -/

variable {json : Option Json}

theorem testedProxy_alike (json : Option Json) (hst : redact s = redact t) :
    (s.testedProxy json).1.map Proxy.redact = (t.testedProxy json).1.map Proxy.redact ∧
      (s.testedProxy json).2.redact = (t.testedProxy json).2.redact := by
  obtain ⟨h, rfl, hh⟩ := split_redact hst
  unfold PfCtx.testedProxy
  cases itemOf json "id" with
  | none => exact ⟨rfl, hh⟩
  | some v => exact Host.configProxyGet_alike _ hh

theorem proxyTest_alike (hst : redact s = redact t) (hnone : (s.testedProxy json).1 = none) :
    Alike redact (s.proxyTest e w json) (t.proxyTest e w json) := by
  obtain ⟨htested, hhost⟩ := testedProxy_alike json hst
  rw [hnone] at htested
  have hnone' := Option.map_eq_none_iff.mp htested.symm
  obtain ⟨h, rfl, hh⟩ := split_redact hst
  unfold PfCtx.proxyTest
  cases itemOf json "id" with
  | none => exact .of _ hst
  | some v =>
    cases hs : s.testedProxy json with
    | mk p g =>
      cases ht : PfCtx.testedProxy json { s with host := h } with
      | mk p' g' =>
        rw [hs] at hnone hhost
        rw [ht] at hnone' hhost
        obtain rfl : p = none := hnone
        obtain rfl : p' = none := hnone'
        exact .of _ (redact_eq hhost s)

theorem testedChain_alike (json : Option Json) (hst : redact s = redact t) :
    Alike Host.redact (s.testedChain w json) (t.testedChain w json) := by
  obtain ⟨h, rfl, hh⟩ := split_redact hst
  unfold PfCtx.testedChain
  cases itemOf json "id" with
  | none => exact .of _ hh
  | some v => exact Host.config_alike (Session.select_respects fun _ => rfl) hh

theorem findProxy_redact (proxies : List Proxy) (id : Nat) :
    findProxy (proxies.map Proxy.redact) id = (findProxy proxies id).map Proxy.redact := by
  unfold findProxy
  rw [List.find?_map]
  rfl

theorem mapM_findProxy_redact (proxies : List Proxy) (hops : List Nat) :
    hops.mapM (findProxy (proxies.map Proxy.redact)) =
      (hops.mapM (findProxy proxies)).map (List.map Proxy.redact) := by
  induction hops with
  | nil => rfl
  | cons hop hops ih =>
    rw [List.mapM_cons, List.mapM_cons, ih, findProxy_redact]
    cases findProxy proxies hop with
    | none => rfl
    | some p => cases hops.mapM (findProxy proxies) <;> rfl

/-- Whether a chain is dialled does not depend on credentials. -/
theorem chainDials_redact (c : Chain) (proxies : List Proxy) :
    PfCtx.chainDials c (proxies.map Proxy.redact) = PfCtx.chainDials c proxies := by
  unfold PfCtx.chainDials
  rw [mapM_findProxy_redact]
  cases c.hops.mapM (findProxy proxies) with
  | none => rfl
  | some found => cases found <;> rfl

theorem chainProxies_of_redact (hst : redact s = redact t) :
    (PfCtx.chainProxies w s.host.session.db).map Proxy.redact =
      (PfCtx.chainProxies w t.host.session.db).map Proxy.redact := by
  have hmap : ∀ rows : Option (List ProxyRow), ((rows.getD []).map rowToProxy).map Proxy.redact =
      ((rows.map (List.map ProxyRow.redact)).getD []).map rowToProxy := by
    intro rows
    cases rows with
    | none => rfl
    | some rows =>
      show (rows.map rowToProxy).map Proxy.redact = (rows.map ProxyRow.redact).map rowToProxy
      rw [List.map_map, List.map_map]
      exact List.map_congr_left fun r _ => (rowToProxy_redact r).symm
  unfold PfCtx.chainProxies
  rw [hmap, delivered_of_redact hst, ← hmap]

theorem chainTest_alike (hst : redact s = redact t)
    (hdials : ∀ c, (s.testedChain w json).1 = some c →
      PfCtx.chainDials c (PfCtx.chainProxies w s.host.session.db) = false) :
    Alike redact (s.chainTest e w json) (t.chainTest e w json) := by
  have hproxies := chainProxies_of_redact (w := w) hst
  obtain ⟨c, g, g', hs, ht, hgg⟩ := (testedChain_alike (w := w) json hst).split
  have hredact : redact { s with host := g } = redact { t with host := g' } := by
    obtain ⟨h, rfl, -⟩ := split_redact hst
    exact redact_eq hgg s
  unfold PfCtx.chainTest
  cases itemOf json "id" with
  | none => exact .of _ hst
  | some v =>
    rw [hs] at hdials
    simp only [hs, ht]
    cases c with
    | none => exact .of _ hredact
    | some c =>
      have hstill := hdials c rfl
      have hstill' : PfCtx.chainDials c (PfCtx.chainProxies w t.host.session.db) = false := by
        rw [← chainDials_redact, ← hproxies, chainDials_redact]
        exact hstill
      dsimp only
      rw [hstill, hstill']
      exact .of _ hredact

/-! ## All other requests -/

theorem loadSalt_respects (rand : Random pfSaltLen) :
    Respects Session.redact (loadSalt rand) := by
  intro u u' hu
  obtain ⟨found, v, v', hv, hv', hvv⟩ :=
    (Host.pfConfigGet_respects 64 (lit "crypto_salt") hu).split
  simp only [loadSalt, hv, hv']
  cases found with
  | some hex => exact .of _ hvv
  | none =>
    have hset := Session.statement_respects
      (.setConfig (lit "crypto_salt") (encodeSalt rand.left)) hvv
    exact .of _ hset.state

theorem unlock_alike (hst : redact s = redact t) :
    Alike redact (s.unlock e w json) (t.unlock e w json) := by
  obtain ⟨h, rfl, hh⟩ := split_redact hst
  obtain ⟨u, rfl, hu⟩ := Host.split_redact hh
  unfold PfCtx.unlock credentialsUnlock
  cases unlockPassword json with
  | none => exact .of _ (redact_eq hh s)
  | some password =>
    obtain ⟨salt, v, v', hv, hv', hvv⟩ := (loadSalt_respects w.salt hu).split
    simp only [hv, hv']
    cases pfCryptoUnlock e.crypto (some password) (some salt) w.kdfOk s.crypto with
    | mk r crypto =>
      have hredact := redact_eq (Host.redact_eq hvv s.host) { s with crypto := crypto }
      cases r with
      | error _ => exact .of _ hredact
      | ok _ => exact .of _ hredact

theorem lock_alike (hst : redact s = redact t) : Alike redact (s.lock e) (t.lock e) := by
  obtain ⟨h, rfl, hh⟩ := split_redact hst
  exact .of _ (redact_eq hh { s with crypto := pfCryptoLock e.crypto s.crypto })

theorem dnsLeakEnable_alike (hst : redact s = redact t) :
    Alike redact (s.dnsLeakEnable w json) (t.dnsLeakEnable w json) := by
  obtain ⟨h, rfl, hh⟩ := split_redact hst
  have hframe := DnsLeak.enableMode_frame w.dns s.dnsLeak (DnsLeak.enableModeOf json)
    (DnsLeak.enableServerOf json) h.session.db
  have hmode : DnsLeak.enableMode w.dns (DnsLeak.enableModeOf json) (DnsLeak.enableServerOf json)
      (PfCtx.dnsLeak { s with host := h }) = _ := hframe
  simp only [PfCtx.dnsLeakEnable, hmode]
  cases DnsLeak.enableMode w.dns (DnsLeak.enableModeOf json) (DnsLeak.enableServerOf json)
      s.dnsLeak with
  | mk done d =>
    have hstored := Host.store_redact "dns_mode" (DnsLeak.enableModeOf json)
      (Host.store_redact "dns_leak_enabled" (lit "true") hh)
    cases done with
    | none =>
      exact .of _ (redact_eq hh { s with outputNat := d.outputNat, resolverUp := d.resolverUp })
    | some _ =>
      refine .of _ (redact_eq ?_ { s with outputNat := d.outputNat, resolverUp := d.resolverUp })
      split
      · exact Host.store_redact _ _ hstored
      · exact hstored

theorem dnsLeakDisable_alike (hst : redact s = redact t) :
    Alike redact s.dnsLeakDisable t.dnsLeakDisable := by
  obtain ⟨h, rfl, hh⟩ := split_redact hst
  exact .of _ (redact_eq (Host.store_redact _ _ hh) { s with outputNat := [], resolverUp := false })

theorem inspectEnable_alike (hst : redact s = redact t) :
    Alike redact s.inspectEnable t.inspectEnable := by
  obtain ⟨h, rfl, hh⟩ := split_redact hst
  unfold PfCtx.inspectEnable
  dsimp only
  by_cases hca : (!s.mitm.caKey) = true
  · rw [if_pos hca, if_pos hca]
    exact .of _ hst
  · rw [if_neg hca, if_neg hca]
    exact .of _ (redact_eq (Host.store_redact _ _ hh)
      { s with mitm := { s.mitm with enabled := true } })

theorem inspectDisable_alike (hst : redact s = redact t) :
    Alike redact s.inspectDisable t.inspectDisable := by
  obtain ⟨h, rfl, hh⟩ := split_redact hst
  exact .of _ (redact_eq (Host.store_redact _ _ hh)
    { s with mitm := { s.mitm with enabled := false } })

theorem inspectGenerateCa_alike (hst : redact s = redact t) :
    Alike redact (s.inspectGenerateCa w) (t.inspectGenerateCa w) := by
  obtain ⟨h, rfl, hh⟩ := split_redact hst
  unfold PfCtx.inspectGenerateCa
  by_cases hca : (!w.generateCaOk) = true
  · rw [if_pos hca, if_pos hca]
    exact .of _ hst
  · rw [if_neg hca, if_neg hca]
    exact .of _ (redact_eq hh { s with mitm := w.loaded })

theorem dnsLeakStatus_alike ⦃h h' : Host⦄ (hh : h.redact = h'.redact) :
    Alike Host.redact (PfCtx.dnsLeakStatus h : Cjson ν × Host) (PfCtx.dnsLeakStatus h') := by
  obtain ⟨enabled, k, k', hk, hk', hkk⟩ :=
    (Host.setting_alike 8 "dns_leak_enabled" "false" hh).split
  obtain ⟨mode, j, j', hj, hj', hjj⟩ := (Host.setting_alike 32 "dns_mode" "force-server" hkk).split
  obtain ⟨server, i, i', hi, hi', hii⟩ := (Host.setting_alike 64 "dns_server" "1.1.1.1" hjj).split
  simp only [PfCtx.dnsLeakStatus, hk, hk', hj, hj', hi, hi']
  exact .of _ hii

theorem quicBlockStatus_alike ⦃h h' : Host⦄ (hh : h.redact = h'.redact) :
    Alike Host.redact (PfCtx.quicBlockStatus h : Cjson ν × Host) (PfCtx.quicBlockStatus h') := by
  obtain ⟨value, k, k', hk, hk', hkk⟩ :=
    (Host.setting_alike 8 "quic_block_enabled" "true" hh).split
  simp only [PfCtx.quicBlockStatus, hk, hk']
  exact .of _ hkk

theorem quicBlockEnable_alike ⦃h h' : Host⦄ (hh : h.redact = h'.redact) :
    Alike Host.redact (PfCtx.quicBlockEnable w h) (PfCtx.quicBlockEnable w h') := by
  unfold PfCtx.quicBlockEnable
  cases w.blockQuicOk with
  | false => exact .of _ hh
  | true => exact .of _ (Host.store_redact _ _ hh)

theorem ruleList_of_redact (hst : redact s = redact t) : s.ruleList e w = t.ruleList e w := by
  obtain ⟨h, rfl, hh⟩ := split_redact hst
  obtain ⟨u, rfl, hu⟩ := Host.split_redact hh
  unfold PfCtx.ruleList
  rw [queryRules_of_redact hu]

theorem chainList_of_redact (hst : redact s = redact t) : s.chainList e w = t.chainList e w := by
  obtain ⟨h, rfl, hh⟩ := split_redact hst
  obtain ⟨u, rfl, hu⟩ := Host.split_redact hh
  have hlist : pfConfigChainList w.chainQuery w.hopQuery s.host.session.db.redact =
      pfConfigChainList w.chainQuery w.hopQuery u.db.redact := by rw [Session.db_of_redact hu]
  have hlist : pfConfigChainList w.chainQuery w.hopQuery s.host.session.db =
      pfConfigChainList w.chainQuery w.hopQuery u.db := hlist
  unfold PfCtx.chainList
  rw [hlist]

/-- Every method but `proxy.list`, unless it opens a connection. -/
theorem handle_alike {m : Method} {params : Option (Cjson ν)} (hst : redact s = redact t)
    (hm : m ≠ .proxyList) (hopen : ¬ OpensConnection e w params s m) :
    Alike redact (s.handle e w params m) (t.handle e w params m) := by
  have hcaptures : s.captures = t.captures := by
    obtain ⟨h, rfl, -⟩ := split_redact hst
    rfl
  cases m with
  | proxyList => exact absurd rfl hm
  | proxyAdd => exact answering_alike (fun _ _ hh => Host.proxyAdd_alike _ hh) hst
  | proxyEdit => exact answering_alike (fun _ _ hh => Host.proxyEdit_alike _ _ hh) hst
  | proxyDelete => exact answering_alike (fun _ _ hh => Host.proxyDelete_alike _ hh) hst
  | proxyTest => exact proxyTest_alike hst (not_not.mp hopen)
  | ruleList => exact ⟨ruleList_of_redact hst, hst⟩
  | ruleAdd => exact answering_alike (fun _ _ hh => Host.ruleAdd_alike _ _ hh) hst
  | ruleEdit => exact answering_alike (fun _ _ hh => Host.ruleEdit_alike _ _ hh) hst
  | ruleDelete => exact answering_alike (fun _ _ hh => Host.ruleDelete_alike _ _ hh) hst
  | chainList => exact ⟨chainList_of_redact hst, hst⟩
  | chainAdd => exact answering_alike (fun _ _ hh => Host.chainAdd_alike _ hh) hst
  | chainEdit => exact answering_alike (fun _ _ hh => Host.chainEdit_alike _ hh) hst
  | chainDelete => exact answering_alike (fun _ _ hh => Host.chainDelete_alike _ hh) hst
  | chainTest =>
    refine chainTest_alike hst fun c hc => ?_
    by_contra hdials
    exact hopen ⟨c, hc, eq_true_of_ne_false hdials⟩
  | ruleReorder => exact answering_alike (fun _ _ hh => Host.ruleReorder_alike _ hh) hst
  | configGet => exact onHost_alike (fun _ _ hh => Host.configGet_alike _ hh) hst
  | configSet => exact answering_alike (fun _ _ hh => Host.configSet_alike _ hh) hst
  | credentialsUnlock => exact unlock_alike hst
  | credentialsLock => exact lock_alike hst
  | systemStatus => exact systemStatus_alike hst
  | systemVersion => exact .of _ hst
  | systemShutdown =>
    obtain ⟨h, rfl, hh⟩ := split_redact hst
    exact .of _ (redact_eq hh { s with running := false })
  | dnsLeakEnable => exact dnsLeakEnable_alike hst
  | dnsLeakDisable => exact dnsLeakDisable_alike hst
  | dnsLeakStatus => exact onHost_alike dnsLeakStatus_alike hst
  | logRecent => exact ⟨congrArg (logRecent e.doubles · params) hcaptures, hst⟩
  | inspectList => exact ⟨congrArg (inspectList e.doubles · params) hcaptures, hst⟩
  | inspectGet => exact ⟨congrArg (inspectGet e.doubles · params) hcaptures, hst⟩
  | inspectEnable => exact inspectEnable_alike hst
  | inspectDisable => exact inspectDisable_alike hst
  | quicBlockEnable => exact answering_alike quicBlockEnable_alike hst
  | quicBlockDisable =>
    exact answering_alike (fun _ _ hh => .of _ (Host.store_redact _ _ hh)) hst
  | quicBlockStatus => exact onHost_alike quicBlockStatus_alike hst
  | inspectStatus =>
    obtain ⟨h, rfl, -⟩ := split_redact hst
    exact ⟨rfl, hst⟩
  | inspectGenerateCa => exact inspectGenerateCa_alike hst

/-! ## Listing proxies -/

/-- Where two functions agree along two lists, so does what they determine together. -/
theorem map_eq_of_maps {α β γ δ : Type} {f : α → β} {g : α → γ} {k : α → δ} {as bs : List α}
    (hk : ∀ a ∈ as, ∀ b ∈ bs, f a = f b → g a = g b → k a = k b) (hf : as.map f = bs.map f)
    (hg : as.map g = bs.map g) : as.map k = bs.map k := by
  induction as generalizing bs with
  | nil =>
    obtain rfl := List.map_eq_nil_iff.mp hf.symm
    rfl
  | cons a as ih =>
    cases bs with
    | nil => cases hf
    | cons b bs =>
      rw [List.map_cons, List.map_cons, List.cons.injEq] at hf hg
      have hhead := hk a (List.mem_cons_self ..) b (List.mem_cons_self ..) hf.1 hg.1
      have htail := ih (fun x hx y hy => hk x (List.mem_cons_of_mem _ hx) y
        (List.mem_cons_of_mem _ hy)) hf.2 hg.2
      rw [List.map_cons, List.map_cons, hhead, htail]

theorem cbuf_ext {cap : Nat} {b b' : CBuf cap} (h : b.chars = b'.chars) : b = b' := by
  rw [CBuf.mk.injEq]
  exact h

/-- A column that was written from a buffer is known once the buffer is. -/
theorem column_eq {cap : Nat} [BufSize cap] {c c' : Option CStr}
    (hc : bindText (columnText c : CBuf cap) = c) (hc' : bindText (columnText c' : CBuf cap) = c')
    (h : (columnText c : CBuf cap).chars = (columnText c' : CBuf cap).chars) : c = c' := by
  rw [← hc, ← hc', cbuf_ext h]

theorem credentials_of_json {d : Doubles ν} {st st' : ProxyRow} (hst : st.Written)
    (hst' : st'.Written) (h : proxyToJson d (rowToProxy st) = proxyToJson d (rowToProxy st')) :
    (st.username, st.password) = (st'.username, st'.password) := by
  unfold ProxyRow.Written at hst hst'
  simp only [proxyToJson, Cjson.obj.injEq, List.cons.injEq, Prod.mk.injEq, true_and,
    Cjson.str.injEq] at h
  have husername : st.username = st'.username :=
    column_eq (congrArg ProxyRow.username hst) (congrArg ProxyRow.username hst') h.2.2.2.2.2.1
  have hpassword : st.password = st'.password :=
    column_eq (congrArg ProxyRow.password hst) (congrArg ProxyRow.password hst') h.2.2.2.2.2.2.1
  rw [husername, hpassword]

/-- A row is what is left of it and its credentials. -/
theorem row_ext {st st' : ProxyRow} (hrest : st.redact = st'.redact)
    (hcredentials : (st.username, st.password) = (st'.username, st'.password)) : st = st' := by
  obtain ⟨id, name, type, host, port, username, password, sshKey, enabled, health, latency⟩ := st
  obtain ⟨id', name', type', host', port', username', password', _, _, _, _⟩ := st'
  rw [ProxyRow.redact, ProxyRow.redact, ProxyRow.mk.injEq] at hrest
  obtain ⟨rfl, rfl, rfl, rfl, rfl, -, -, rfl, rfl, rfl, rfl⟩ := hrest
  obtain ⟨rfl, rfl⟩ := Prod.mk.inj hcredentials
  rfl

theorem written_of_delivered {st : Store} {fault : Option QueryFault} {rows : List ProxyRow}
    (h : delivered fault (listedProxies st.tables.db) = some rows) : ∀ r ∈ rows, r.Written := by
  intro r hr
  unfold delivered at h
  obtain rfl := Option.some.inj (Option.ite_none_left_eq_some.mp h).2
  have hmem : r ∈ listedProxies st.tables.db := by
    unfold rowsDelivered at hr
    split at hr
    · exact List.mem_of_mem_take hr
    · exact hr
  exact st.sound.proxyWritten r ((List.mem_insertionSort _).mp (List.mem_of_mem_take hmem))

theorem proxyList_eq_iff (hst : redact s = redact t) :
    s.proxyList e w = t.proxyList e w ↔ listedCredentials w s = listedCredentials w t := by
  have hrows := delivered_of_redact hst w.proxyQuery
  unfold PfCtx.proxyList listedCredentials
  cases hs : delivered w.proxyQuery (listedProxies s.host.session.db) with
  | none =>
    rw [hs] at hrows
    rw [Option.map_eq_none_iff.mp hrows.symm]
    exact iff_of_true rfl rfl
  | some rows =>
    rw [hs] at hrows
    obtain ⟨rows', ht, hredact⟩ := Option.map_eq_some_iff.mp hrows.symm
    have hwritten := written_of_delivered hs
    have hwritten' := written_of_delivered ht
    rw [ht]
    show Cjson.obj [(lit "result", .arr _)] = .obj [(lit "result", .arr _)] ↔
      some (rows.map _) = some (rows'.map _)
    simp only [Cjson.obj.injEq, List.cons.injEq, Prod.mk.injEq, true_and, and_true,
      Cjson.arr.injEq, Option.some.injEq]
    constructor
    · refine map_eq_of_maps (f := ProxyRow.redact) (fun a ha b hb _ hjson => ?_) hredact.symm
      exact credentials_of_json (hwritten a ha) (hwritten' b hb) hjson
    · refine map_eq_of_maps (f := ProxyRow.redact) (fun a _ b _ hrest hcredentials => ?_)
        hredact.symm
      rw [row_ext hrest hcredentials]

theorem ofName_proxyList {method : CStr} :
    Method.ofName method = some .proxyList ↔ method = lit "proxy.list" := by
  constructor
  · intro h
    obtain ⟨entry, hfind, hentry⟩ := Option.map_eq_some_iff.mp h
    have honly : ∀ entry ∈ methodNames, entry.2 = .proxyList → entry.1 = "proxy.list" := by decide
    have hname := List.find?_some hfind
    rw [honly entry (List.mem_of_find?_eq_some hfind) hentry] at hname
    exact of_decide_eq_true hname
  · rintro rfl
    rfl

/-- Whether the crypto context is locked or not, two daemons that differ in credentials only answer
a request that opens no connection alike, except that `proxy.list` gives the credentials away. -/
theorem answers_agree_iff (e : Platform ν κ) (w : Outside χ π) (hst : redact s = redact t)
    (method : CStr) (params : Option (Cjson ν))
    (hopen : ∀ m, Method.ofName method = some m → ¬ OpensConnection e w params (s.facing w) m) :
    (pfHandleRequest e w method params s).1 = (pfHandleRequest e w method params t).1 ↔
      (method = lit "proxy.list" → listedCredentials w s = listedCredentials w t) := by
  have hfacing := facing_redact (w := w) hst
  unfold pfHandleRequest
  rw [← ofName_proxyList]
  cases hm : Method.ofName method with
  | none => exact iff_of_true rfl fun h => absurd h.symm (Option.some_ne_none _)
  | some m =>
    by_cases hlist : m = .proxyList
    · subst hlist
      rw [forall_prop_of_true rfl]
      exact proxyList_eq_iff hfacing
    · refine iff_of_true (handle_alike hfacing hlist (hopen m hm)).value fun h => ?_
      exact absurd (Option.some.inj h) hlist

/-- A platform to compute on, and a world outside in which every call succeeds. -/
def testPlatform : Platform Int (Option (CStr × Salt)) :=
  ⟨⟨id, id, fun a b => a < b, fun a b => a = b, fun n => decimal n.toNat⟩, pairKeys, fun _ => []⟩

def mildOutside : Outside Unit Unit where
  fails := []
  ruleQuery := none
  proxyQuery := none
  chainQuery := none
  hopQuery _ := none
  callocOk := true
  salt := ⟨.zero pfSaltLen, true⟩
  kdfOk := true
  dns := ⟨false, false, false⟩
  blockQuicOk := true
  generateCaOk := true
  initOk := true
  loaded := ⟨false, false, false, false, .empty⟩
  socksTest _ := -1
  httpTest _ := -1
  sshTest _ := -1
  chainTest _ _ := -1

def loneProxy (password : String) : Proxy :=
  ⟨0, .snprintf (lit "p"), .http, .snprintf (lit "h"), 8080, .empty, .snprintf (lit password),
    .empty, 0, 0, 1⟩

def loneStore (password : String) : Store :=
  (Store.empty.exec (.insertProxy (loneProxy password))).getD .empty

/-- A daemon that was never unlocked, with one proxy. -/
def lockedDaemon (password : String) : PfCtx Int (Option (CStr × Salt)) Unit Unit where
  host := { Host.empty with session := ⟨loneStore password, []⟩ }
  crypto := pfCryptoInit pairKeys
  outputNat := []
  resolverUp := false
  captures := .start
  mitm := ⟨false, false, false, false, .empty⟩
  tproxy := pfTproxyInit
  tproxyUp := true
  dnsUp := true
  running := true

theorem loneStore_tables (password : String) : (loneStore password).tables =
    { Tables.empty with proxies := [proxyToRow 1 (loneProxy password)], proxySeq := 1 } := rfl

theorem lockedDaemon_redact (password password' : String) :
    redact (lockedDaemon password) = redact (lockedDaemon password') := by
  have hstore : (loneStore password).redact = (loneStore password').redact := by
    apply Store.ext_tables
    show (loneStore password).tables.redact = (loneStore password').tables.redact
    rw [loneStore_tables, loneStore_tables]
    simp only [Tables.redact, List.map_cons, List.map_nil, ← proxyToRow_redact]
    rfl
  have hsession :
      Session.redact ⟨loneStore password, []⟩ = Session.redact ⟨loneStore password', []⟩ :=
    congrArg (Session.mk · []) hstore
  exact redact_eq (Host.redact_eq hsession Host.empty) (lockedDaemon password)

/-- The status of the system is the same whatever the password is. -/
theorem answers_agree_iff_status :
    (pfHandleRequest testPlatform mildOutside (lit "system.status") none (lockedDaemon "a")).1 =
      (pfHandleRequest testPlatform mildOutside (lit "system.status") none (lockedDaemon "b")).1 := by
  refine (answers_agree_iff testPlatform mildOutside (lockedDaemon_redact "a" "b")
    (lit "system.status") none ?_).mpr fun h => absurd h (by decide)
  intro m hm hopen
  obtain rfl : .systemStatus = m := Option.some.inj hm
  exact hopen

theorem locked_list_reveals_password :
    ¬ ∀ (e : Platform Int (Option (CStr × Salt))) (w : Outside Unit Unit)
      (s t : PfCtx Int (Option (CStr × Salt)) Unit Unit), redact s = redact t →
      s.crypto.unlocked = false → t.crypto.unlocked = false →
      ∀ (method : CStr) (params : Option (Cjson Int)),
        (∀ m, Method.ofName method = some m → ¬ OpensConnection e w params (s.facing w) m) →
          (pfHandleRequest e w method params s).1 = (pfHandleRequest e w method params t).1 := by
  intro h
  have hredact := lockedDaemon_redact "a" "b"
  have hclosed : ∀ m, Method.ofName (lit "proxy.list") = some m →
      ¬ OpensConnection testPlatform mildOutside none ((lockedDaemon "a").facing mildOutside) m := by
    intro m hm hopen
    obtain rfl : .proxyList = m := Option.some.inj hm
    exact hopen
  have hsame := h testPlatform mildOutside _ _ hredact rfl rfl (lit "proxy.list") none hclosed
  have hfacing := facing_redact (w := mildOutside) hredact
  have hlisted := (proxyList_eq_iff (e := testPlatform) (w := mildOutside) hfacing).mp hsame
  exact absurd hlisted (by decide +kernel)

end Proxiflare.Guarantees.LockedCredentials
