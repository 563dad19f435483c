import Proxiflare.Daemon.DnsLeak
import Proxiflare.Lib.Runs

/-!
# What `dns_leak.status` says is in force

The status is read from the configuration, while enabling and restoring take down
the rules and the resolver in use before they know that the new ones can be put up.
The report stays true as long as every attempt either goes through or gives up before
it has taken anything down.
-/

namespace Proxiflare.Guarantees.DnsLeakStatus

open Lib Lib.Runs Lib.CString
open Proxiflare.Daemon Proxiflare.Daemon.DnsLeak

/-- Both rules of a mode, and the resolver when they redirect to it. -/
def Installed (s : DnsLeak) (mode : CStr) : Prop :=
  if mode = viaProxy then
    NatRule.redirect .udp pfDnsResolverPort ∈ s.outputNat ∧
      NatRule.redirect .tcp pfDnsResolverPort ∈ s.outputNat ∧ s.resolverUp = true
  else ∃ server, NatRule.dnat .udp server ∈ s.outputNat ∧ NatRule.dnat .tcp server ∈ s.outputNat

def Truthful (s : DnsLeak) : Prop :=
  (dnsLeakStatus s).enabled = true → Installed s (dnsLeakStatus s).mode

def AddsSucceed (f : DnsFaults) : Prop := f.udpAdd = false ∧ f.tcpAdd = false

/-- With protection on, an attempt goes through or is refused before it takes anything down. -/
def Harmless (s : DnsLeak) : DnsLeak.Event → Prop
  | .enable params f =>
    (dnsLeakStatus s).enabled = true →
      if enableModeOf params = viaProxy then
        s.resolverUp = false ∧ f.bind = true ∨ AddsSucceed f
      else if validServer (enableServerOf params) = true then AddsSucceed f
      else (dnsLeakStatus s).mode ≠ viaProxy
  | .disable => True
  | .restart f =>
    (dnsLeakStatus s).enabled = true →
      AddsSucceed f ∧ ((dnsLeakStatus s).mode = viaProxy → f.bind = false)

variable {s : DnsLeak} {f : DnsFaults}

/-! ## Rules that were not all added -/

def protoOf : NatRule → Proto
  | .dnat proto _ => proto
  | .redirect proto _ => proto

/-- At most one rule, and that for UDP, is not the pair of any mode. -/
theorem not_installed_of_udp {a : NatRule} (ha : protoOf a = .udp) (h : s.outputNat <+: [a])
    (mode : CStr) : ¬ Installed s mode := by
  have hudp : ∀ r ∈ s.outputNat, protoOf r = .udp := by
    intro r hr
    rw [List.mem_singleton.mp (h.subset hr)]
    exact ha
  unfold Installed
  split
  · intro hin
    exact absurd (hudp _ hin.2.1) (by simp [protoOf])
  · rintro ⟨server, -, htcp⟩
    exact absurd (hudp _ htcp) (by simp [protoOf])

/-- Protection that is on and has lost its TCP rule is reported all the same. -/
theorem truthful_lost_iff {t : DnsLeak} {a : NatRule} (ha : protoOf a = .udp) (hdb : t.db = s.db)
    (hrules : t.outputNat <+: [a]) :
    Truthful t ↔ (dnsLeakStatus s).enabled = false := by
  have hstatus : dnsLeakStatus t = dnsLeakStatus s := by
    unfold dnsLeakStatus
    rw [hdb]
  unfold Truthful
  rw [hstatus]
  constructor
  · intro h
    by_contra hon
    exact not_installed_of_udp ha hrules _ (h (by simpa using hon))
  · intro hoff hon
    rw [hoff] at hon
    cases hon

/-! ## Settings -/

theorem paramText_noNul (v : Option Json) {default : String} (h : 0 ∉ lit default) :
    0 ∉ paramText v default := by
  unfold paramText
  split
  · next c cs hv =>
    obtain ⟨json, -, hjson⟩ := Option.bind_eq_some_iff.mp hv
    cases json with
    | str t =>
      rw [← Option.some.inj hjson]
      exact cstr_noNul t
    | _ => cases hjson
  · exact h

theorem store_mode (db : Db) (mode dns : CStr) :
    configText 32 (storeSettings db mode dns) "dns_mode" "force-server" =
      (CBuf.snprintf mode : CBuf 32).chars := by
  have hget : pfConfigGet (storeSettings db mode dns) (lit "dns_mode") = some mode := by
    unfold storeSettings
    dsimp only
    split
    · rw [pfConfigGet_set_of_ne _ _ (by decide), pfConfigGet_set_self]
    · rw [pfConfigGet_set_self]
  rw [configText, hget]
  rfl

/-- The 31 bytes that are kept tell the mode from every other. -/
theorem stored_viaProxy_iff {mode : CStr} (hnul : 0 ∉ mode) :
    (CBuf.snprintf mode : CBuf 32).chars = viaProxy ↔ mode = viaProxy := by
  show (cstr mode).take 31 = viaProxy ↔ _
  rw [cstr_of_noNul hnul]
  constructor
  · intro h
    have hlen := congrArg List.length h
    have hvia : viaProxy.length = 9 := by decide
    rw [List.length_take, hvia] at hlen
    rwa [List.take_of_length_le (by omega)] at h
  · intro h
    rw [h]
    decide

/-- A server that was accepted once is accepted again at start-up. -/
def ServerValid (s : DnsLeak) : Prop :=
  validServer (configText 64 s.db "dns_server" "1.1.1.1") = true

theorem validServer_length {server : CStr} (h : validServer server = true) :
    server.length ≤ 57 := by
  unfold validServer at h
  simp only [Bool.and_eq_true, Bool.or_eq_true] at h
  rcases h.2 with h4 | h6
  · have hlen := inetPton4_length h4
    omega
  · exact isInet6_length h6

theorem serverValid_store {mode dns : CStr} (db : Db)
    (hold : validServer (configText 64 db "dns_server" "1.1.1.1") = true)
    (hnew : mode = lit "force-server" → validServer dns = true) (hnul : 0 ∉ dns) :
    validServer (configText 64 (storeSettings db mode dns) "dns_server" "1.1.1.1") = true := by
  unfold storeSettings configText
  dsimp only
  split
  · next hforce =>
    have hvalid := hnew hforce
    have hlen := validServer_length hvalid
    rw [pfConfigGet_set_self, Option.map_some, Option.getD_some,
      CBuf.snprintf_of_fits (by omega) hnul]
    exact hvalid
  · rw [pfConfigGet_set_of_ne _ _ (by decide), pfConfigGet_set_of_ne _ _ (by decide)]
    exact hold

/-! ## One step -/

theorem AddsSucceed.not_of_fault (h : f.udpAdd = true ∨ f.tcpAdd = true) : ¬ AddsSucceed f := by
  rintro ⟨hudp, htcp⟩
  rcases h with h | h
  · rw [h] at hudp
    cases hudp
  · rw [h] at htcp
    cases htcp

theorem enabled_imp_iff {P : Prop} (hP : ¬ P) :
    (dnsLeakStatus s).enabled = false ↔ ((dnsLeakStatus s).enabled = true → P) := by
  cases (dnsLeakStatus s).enabled <;> simp [hP]

/-- An attempt that has got as far as its rules. -/
theorem enable_filled_iff {u : DnsLeak} {a b : NatRule} {params : Option Json}
    (hrun : Filled f u a b (enableMode f (enableModeOf params) (enableServerOf params) s))
    (hdb : u.db = s.db) (ha : protoOf a = .udp)
    (hin : ∀ db, Installed { u with db := db, outputNat := [a, b] }
      (CBuf.snprintf (enableModeOf params) : CBuf 32).chars) :
    Truthful (dnsLeakEnable f params s).2 ↔
      ((dnsLeakStatus s).enabled = true → AddsSucceed f) := by
  unfold dnsLeakEnable
  cases hrun with
  | whole hudp htcp hr =>
    rw [hr]
    refine iff_of_true ?_ fun _ => ⟨hudp, htcp⟩
    intro _
    show Installed _ (configText 32 (storeSettings u.db _ _) "dns_mode" "force-server")
    rw [store_mode]
    exact hin _
  | part rules hfault hrules hr =>
    rw [hr]
    have hnot := AddsSucceed.not_of_fault hfault
    exact (truthful_lost_iff (t := { u with outputNat := rules }) ha hdb hrules).trans
      (enabled_imp_iff hnot)

theorem enable_iff (ht : Truthful s) (params : Option Json) (f : DnsFaults) :
    Truthful (dnsLeakEnable f params s).2 ↔ Harmless s (.enable params f) := by
  show _ ↔ (_ → _)
  by_cases hvia : enableModeOf params = viaProxy
  · rw [if_pos hvia]
    by_cases hstuck : s.resolverUp = false ∧ f.bind = true
    · -- nothing was touched, and the old report stands
      have hrun : dnsLeakEnable f params s = (.error (lit "failed to set DNS rules"), s) := by
        rw [dnsLeakEnable, hvia, enableMode_viaProxy, if_pos hstuck]
      rw [hrun]
      exact iff_of_true ht fun _ => .inl hstuck
    · simp only [hstuck, false_or]
      refine enable_filled_iff (u := { s with resolverUp := true }) ?_ rfl rfl ?_
        (a := .redirect .udp pfDnsResolverPort) (b := .redirect .tcp pfDnsResolverPort)
      · rw [hvia, enableMode_viaProxy, if_neg hstuck]
        exact pfNftDnsViaProxy_filled f _
      · intro db
        rw [hvia]
        simp [Installed, show (CBuf.snprintf viaProxy : CBuf 32).chars = viaProxy by decide]
  · rw [if_neg hvia]
    have hmode : (CBuf.snprintf (enableModeOf params) : CBuf 32).chars ≠ viaProxy :=
      mt (stored_viaProxy_iff (paramText_noNul _ (by decide))).mp hvia
    by_cases hvalid : validServer (enableServerOf params) = true
    · rw [if_pos hvalid]
      refine enable_filled_iff (u := { s with resolverUp := false }) ?_ rfl rfl ?_
        (a := .dnat .udp (enableServerOf params)) (b := .dnat .tcp (enableServerOf params))
      · rw [enableMode_of_ne f s hvia]
        exact pfNftDnsLeakProtect_filled f _ hvalid
      · intro db
        rw [Installed, if_neg hmode]
        exact ⟨enableServerOf params, by simp, by simp⟩
    · -- the rules stay, the resolver is gone
      rw [if_neg hvalid]
      have hrun : dnsLeakEnable f params s =
          (.error (lit "failed to set DNS rules"), { s with resolverUp := false }) := by
        rw [dnsLeakEnable, enableMode_of_ne f s hvia,
          pfNftDnsLeakProtect_of_invalid f _ (by simpa using hvalid)]
      rw [hrun]
      show ((dnsLeakStatus s).enabled = true → Installed _ (dnsLeakStatus s).mode) ↔ _
      refine imp_congr_right fun hon => ?_
      have hold := ht hon
      unfold Installed at hold ⊢
      by_cases hwas : (dnsLeakStatus s).mode = viaProxy
      · simp [hwas]
      · rw [if_neg hwas] at hold ⊢
        simpa [hwas] using hold

/-- What a restart finds: the settings, and neither rules nor resolver. -/
def rebooted (s : DnsLeak) : DnsLeak := { s with outputNat := [], resolverUp := false }

theorem restore_filled_iff {u : DnsLeak} {a b : NatRule} {server : CStr}
    (hrun : Filled f u a b (restoreMode f (dnsLeakStatus s).mode server (rebooted s)))
    (hdb : u.db = s.db) (ha : protoOf a = .udp)
    (hin : Installed { u with outputNat := [a, b] } (dnsLeakStatus s).mode)
    (hon : (dnsLeakStatus s).enabled = true) :
    Truthful (restoreMode f (dnsLeakStatus s).mode server (rebooted s)).2 ↔ AddsSucceed f := by
  cases hrun with
  | whole hudp htcp hr =>
    rw [hr]
    refine iff_of_true ?_ ⟨hudp, htcp⟩
    intro _
    have hstatus : dnsLeakStatus { u with outputNat := [a, b] } = dnsLeakStatus s := by
      unfold dnsLeakStatus
      rw [hdb]
    rw [hstatus]
    exact hin
  | part rules hfault hrules hr =>
    rw [hr, truthful_lost_iff (t := { u with outputNat := rules }) ha hdb hrules, hon]
    exact iff_of_false Bool.noConfusion (AddsSucceed.not_of_fault hfault)

theorem restart_iff (hserver : ServerValid s) (f : DnsFaults) :
    Truthful (restart f s) ↔ Harmless s (.restart f) := by
  show Truthful (restoreDnsLeak f (rebooted s)) ↔ (_ → _)
  cases hon : (dnsLeakStatus s).enabled with
  | false =>
    rw [restoreDnsLeak_of_off f (rebooted s) hon]
    refine iff_of_true (fun hup => ?_) Bool.noConfusion
    cases hon.symm.trans hup
  | true =>
    rw [restoreDnsLeak_of_on f (rebooted s) hon]
    show Truthful
      (restoreMode f (dnsLeakStatus s).mode (dnsLeakStatus s).dnsServer (rebooted s)).2 ↔ _
    by_cases hvia : (dnsLeakStatus s).mode = viaProxy
    · by_cases hbind : f.bind = true
      · rw [hvia, restoreMode_viaProxy, if_pos hbind, truthful_lost_iff
          (s := s) (t := { rebooted s with resolverUp := false }) (a := .dnat .udp []) rfl rfl
          List.nil_prefix]
        simp [hon, hbind]
      · have hrun : Filled f { rebooted s with resolverUp := true }
            (.redirect .udp pfDnsResolverPort) (.redirect .tcp pfDnsResolverPort)
            (restoreMode f (dnsLeakStatus s).mode (dnsLeakStatus s).dnsServer (rebooted s)) := by
          rw [hvia, restoreMode_viaProxy, if_neg hbind]
          exact pfNftDnsViaProxy_filled f _
        rw [restore_filled_iff hrun rfl rfl (by simp [Installed, hvia]) hon]
        simp [hbind]
    · have hrun : Filled f (rebooted s) (.dnat .udp (dnsLeakStatus s).dnsServer)
          (.dnat .tcp (dnsLeakStatus s).dnsServer)
          (restoreMode f (dnsLeakStatus s).mode (dnsLeakStatus s).dnsServer (rebooted s)) := by
        rw [restoreMode_of_ne f _ hvia]
        exact pfNftDnsLeakProtect_filled f _ hserver
      rw [restore_filled_iff hrun rfl rfl (by simp [Installed, hvia]) hon]
      simp [hvia]

theorem disable_truthful (s : DnsLeak) : Truthful (dnsLeakDisable s).2 := by
  intro hon
  have hoff : (dnsLeakStatus (dnsLeakDisable s).2).enabled = false := by
    show decide (configText 8 (pfConfigSet s.db _ _) "dns_leak_enabled" "false" = lit "true") = false
    rw [configText, pfConfigGet_set_self]
    decide
  rw [hoff] at hon
  cases hon

/-! ## Runs -/

theorem serverValid_enable (hserver : ServerValid s) (params : Option Json) (f : DnsFaults) :
    ServerValid (dnsLeakEnable f params s).2 := by
  have hnul : 0 ∉ enableServerOf params := paramText_noNul _ (by decide)
  have hdb := enableMode_db f s (enableModeOf params) (enableServerOf params)
  unfold dnsLeakEnable
  cases hrun : enableMode f (enableModeOf params) (enableServerOf params) s with
  | mk r t =>
    rw [hrun] at hdb
    cases r with
    | none =>
      show validServer (configText 64 t.db _ _) = true
      rw [hdb]
      exact hserver
    | some u =>
      show validServer (configText 64 (storeSettings t.db _ _) _ _) = true
      rw [hdb]
      refine serverValid_store s.db hserver (fun hforce => ?_) hnul
      by_contra hvalid
      rw [hforce, enableMode_of_ne f s (by decide),
        pfNftDnsLeakProtect_of_invalid f _ (by simpa using hvalid)] at hrun
      cases congrArg Prod.fst hrun

theorem serverValid_step {s' : DnsLeak} {e : DnsLeak.Event} (hserver : ServerValid s)
    (hs : step s e = some s') : ServerValid s' := by
  cases e with
  | enable params f =>
    obtain rfl := Option.some.inj hs
    exact serverValid_enable hserver params f
  | disable =>
    obtain rfl := Option.some.inj hs
    show validServer ((pfConfigGet (pfConfigSet s.db _ _) _).map _ |>.getD _) = true
    rw [pfConfigGet_set_of_ne _ _ (by decide)]
    exact hserver
  | restart f =>
    obtain rfl := Option.some.inj hs
    show validServer (configText 64 (restart f s).db _ _) = true
    rw [restart_db]
    exact hserver

theorem step_iff {s' : DnsLeak} {e : DnsLeak.Event} (ht : Truthful s) (hserver : ServerValid s)
    (hs : step s e = some s') : Truthful s' ↔ Harmless s e := by
  cases e with
  | enable params f =>
    obtain rfl := Option.some.inj hs
    exact enable_iff ht params f
  | disable =>
    obtain rfl := Option.some.inj hs
    exact iff_of_true (disable_truthful s) trivial
  | restart f =>
    obtain rfl := Option.some.inj hs
    exact restart_iff hserver f

theorem fresh_sound (h : Fresh s) : Truthful s ∧ ServerValid s := by
  constructor
  · intro hon
    have hoff : (dnsLeakStatus s).enabled = false := by
      show decide (configText 8 s.db "dns_leak_enabled" "false" = lit "true") = false
      rw [configText, h.enabled]
      decide
    rw [hoff] at hon
    cases hon
  · unfold ServerValid configText
    rw [h.server]
    decide +kernel

/-- In a run of harmless steps every status is true, and the first step that is not harmless
makes it false. -/
theorem status_truthful_while_harmless (hr : Reach step Harmless Fresh s) :
    Truthful s ∧ ∀ e s', step s e = some s' → (Truthful s' ↔ Harmless s e) := by
  have hinv : Truthful s ∧ ServerValid s := by
    refine hr.invariant (fun _ => fresh_sound) fun s e s' hi hg hs => ?_
    exact ⟨(step_iff hi.1 hi.2 hs).mpr hg, serverValid_step hi.2 hs⟩
  exact ⟨hinv.1, fun e s' hs => step_iff hinv.1 hinv.2 hs⟩

def noFault : DnsFaults := ⟨false, false, false⟩

/-- A daemon that was never asked for protection. -/
def offLeak : DnsLeak := ⟨.empty, [], false⟩

theorem offLeak_fresh : Fresh offLeak := ⟨rfl, rfl, rfl, rfl, rfl⟩

def viaProxyParams : Json := .obj [(lit "mode", .str viaProxy)]

/-- Via-proxy mode, switched on and restored by the next start. -/
def restoredLeak : DnsLeak := restart noFault (dnsLeakEnable noFault (some viaProxyParams) offLeak).2

theorem status_truthful_while_harmless_restored :
    (dnsLeakStatus restoredLeak).enabled = true ∧ Truthful restoredLeak := by
  refine ⟨by decide +kernel, (status_truthful_while_harmless ?_).1⟩
  have hon : Reach step Harmless Fresh (dnsLeakEnable noFault (some viaProxyParams) offLeak).2 := by
    refine .next (l := .enable (some viaProxyParams) noFault) (.start offLeak_fresh) ?_ rfl
    intro hon
    exact absurd hon (by decide)
  exact .next (l := .restart noFault) hon (fun _ => ⟨⟨rfl, rfl⟩, fun _ => rfl⟩) rfl

/-- Protection is on and is asked for again; `nft` refuses the TCP rule. -/
def halfReplaced : DnsLeak :=
  (dnsLeakEnable ⟨false, false, true⟩ none (dnsLeakEnable noFault none offLeak).2).2

theorem status_not_always_truthful :
    ¬ ∀ s, Reach step (fun _ _ => True) Fresh s → Truthful s := by
  intro h
  have hon : Reach step (fun _ _ => True) Fresh (dnsLeakEnable noFault none offLeak).2 :=
    .next (l := .enable none noFault) (.start offLeak_fresh) trivial rfl
  have hin := h halfReplaced
    (.next (l := .enable none ⟨false, false, true⟩) hon trivial rfl) (by decide +kernel)
  have hrules : halfReplaced.outputNat = [.dnat .udp (lit "1.1.1.1")] := by decide +kernel
  have hlost : halfReplaced.outputNat <+: [.dnat .udp (lit "1.1.1.1")] := by rw [hrules]
  exact not_installed_of_udp rfl hlost _ hin

end Proxiflare.Guarantees.DnsLeakStatus
