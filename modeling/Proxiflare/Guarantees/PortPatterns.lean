import Proxiflare.Guarantees.ReloadedRules

/-!
# Port patterns in stored rules

A `match_port` string is read with `atoi` into the one port a rule holds, while
`pf_match_port` reads a pattern. The two decide alike for a plain number; a range keeps only
its first port, and after a colon nothing is kept, so the rule matches every port.
-/

namespace Proxiflare.Guarantees.PortPatterns

open Lib.CString Lib
open Proxiflare.Daemon
open ReloadedRules (AfterAdd AfterEdit AddReloads EditReloads)

/-- `n`, `:n`, `lo-hi` and `:lo-hi`. -/
inductive PortPattern where
  | exact (colon : Bool) (n : Nat)
  | range (colon : Bool) (lo hi : Nat)

namespace PortPattern

def first : PortPattern → Nat
  | exact _ n => n
  | range _ lo _ => lo

def last : PortPattern → Nat
  | exact _ n => n
  | range _ _ hi => hi

def colon : PortPattern → Bool
  | exact colon _ => colon
  | range colon _ _ => colon

/-- The pattern after the colon. -/
def ports : PortPattern → CStr
  | exact _ n => decimal n
  | range _ lo hi => decimal lo ++ 45 :: decimal hi

def text (p : PortPattern) : CStr := if p.colon then 58 :: p.ports else p.ports

structure Valid (p : PortPattern) : Prop where
  first_pos : 1 ≤ p.first
  ordered : p.first ≤ p.last
  last_le : p.last ≤ 65535

/-- A plain pattern goes wrong between its first port and its last, one with a colon everywhere
outside. -/
def Agrees (p : PortPattern) (port : Int) : Prop :=
  if p.colon then p.first ≤ port ∧ port ≤ p.last else ¬ (p.first < port ∧ port ≤ p.last)

end PortPattern

/-- The C string under `match_port`. -/
def Submits (params : Json) (p : PortPattern) : Prop :=
  params.getObjectItem (lit "match_port") = some (.str p.text)

/-- The rule is enabled and has no criterion but its port. -/
structure OnlyPort (r : Rule) : Prop where
  enabled : r.enabled ≠ 0
  appPath : r.appPath.nonempty = false
  domain : r.domain.nonempty = false
  ipCidr : r.ipCidr.nonempty = false

/-- The rule is matched at the port exactly when the pattern is, whatever else is known of the
connection. -/
def MatchedAs (p : PortPattern) (port : Int) (r : Rule) : Prop :=
  ∀ appPath domain dstIp,
    (pfRulesMatch [r] appPath domain dstIp port = some r ↔ pfMatchPort p.text port = true)

variable {p : PortPattern} {params : Json} {r : Rule}

/-! ## The pattern language -/

theorem ports_head (p : PortPattern) : p.ports.head? ≠ some 58 := by
  intro h
  have hdigit : ∀ n, (58 : UInt8) ∉ decimal n := not_mem_decimal (by decide)
  cases p with
  | exact _ n => exact hdigit n (List.mem_of_head? h)
  | range _ lo hi =>
    obtain ⟨d, ds, hd⟩ := List.exists_cons_of_ne_nil (decimal_ne_nil lo)
    apply hdigit lo
    rw [PortPattern.ports, hd] at h
    rw [hd, ← Option.some.inj h]
    exact List.mem_cons_self ..

theorem pfMatchPort_text (hp : p.Valid) (port : Int) :
    pfMatchPort p.text port = true ↔ p.first ≤ port ∧ port ≤ p.last := by
  have hlast := hp.last_le
  have hordered := hp.ordered
  have hskip : (if p.text.head? = some 58 then p.text.tail else p.text) = p.ports := by
    unfold PortPattern.text
    split
    · exact if_pos rfl
    · exact if_neg (ports_head p)
  unfold pfMatchPort
  simp only [hskip]
  cases p with
  | exact _ n =>
    simp only [PortPattern.first, PortPattern.last] at hordered hlast ⊢
    rw [PortPattern.ports, strchr_of_not_mem (not_mem_decimal (by decide) n),
      atoi_decimal_self (by omega)]
    simp only [decide_eq_true_eq]
    omega
  | range _ lo hi =>
    simp only [PortPattern.first, PortPattern.last] at hordered hlast ⊢
    rw [PortPattern.ports, strchr_append_cons (not_mem_decimal (by decide) lo),
      atoi_decimal (by omega) (by decide)]
    simp only [List.tail_cons, atoi_decimal_self (show hi < 2 ^ 31 by omega), Bool.and_eq_true,
      decide_eq_true_eq]

/-! ## The stored port -/

/-- No digit comes before the colon. -/
theorem atoi_colon (s : CStr) : atoi (58 :: s) = 0 := rfl

theorem atoi_text (hp : p.Valid) : atoi p.text = if p.colon then 0 else (p.first : Int) := by
  have hlast := hp.last_le
  have hordered := hp.ordered
  unfold PortPattern.text
  split
  · exact atoi_colon p.ports
  · cases p with
    | exact _ n =>
      simp only [PortPattern.first, PortPattern.last] at hordered hlast ⊢
      exact atoi_decimal_self (by omega)
    | range _ lo hi =>
      simp only [PortPattern.first, PortPattern.last] at hordered hlast ⊢
      exact atoi_decimal (by omega) (by decide) _

theorem not_mem_ports {c : UInt8} (hc : isDigit c = false) (h45 : c ≠ 45) (p : PortPattern) :
    c ∉ p.ports := by
  cases p with
  | exact _ n => exact not_mem_decimal hc n
  | range _ lo hi =>
    intro hmem
    rcases List.mem_append.mp hmem with hmem | hmem
    · exact not_mem_decimal hc lo hmem
    · rcases List.mem_cons.mp hmem with heq | hmem
      · exact h45 heq
      · exact not_mem_decimal hc hi hmem

theorem cstr_text (p : PortPattern) : cstr p.text = p.text := by
  apply cstr_of_noNul
  have hports : (0 : UInt8) ∉ p.ports := not_mem_ports (by decide) (by decide) p
  unfold PortPattern.text
  split
  · exact fun hmem => (List.mem_cons.mp hmem).elim (by decide) hports
  · exact hports

theorem text_ne_nil (p : PortPattern) : p.text ≠ [] := by
  unfold PortPattern.text
  split
  · exact List.cons_ne_nil _ _
  · cases p with
    | exact _ n => exact decimal_ne_nil n
    | range _ lo hi => exact List.append_ne_nil_of_right_ne_nil _ (List.cons_ne_nil _ _)

theorem overlay_port (hp : p.Valid) (hsubmit : Submits params p) (old : UInt16) :
    (overlayPort (params.getEither (lit "match_port") (lit "dst_port")) old).toNat =
      if p.colon then 0 else p.first := by
  have hlast := hp.last_le
  have hordered := hp.ordered
  have hitem : params.getEither (lit "match_port") (lit "dst_port") = some (.str p.text) := by
    unfold Json.getEither
    rw [show params.getObjectItem (lit "match_port") = _ from hsubmit, Option.some_or]
  rw [hitem, overlayPort, cstr_text, if_neg (text_ne_nil p), atoi_text hp]
  split
  · rfl
  · have hmod : ((p.first : Int) % 65536).toNat = p.first := by omega
    rw [toUInt16, hmod, UInt16.toNat_ofNat_of_lt' (by show p.first < 65536; omega)]

/-! ## What the stored rule matches -/

theorem pfRulesMatch_port (h : OnlyPort r) (port : Int) (appPath domain dstIp : Option CStr) :
    pfRulesMatch [r] appPath domain dstIp port = some r ↔
      r.dstPort = 0 ∨ port = r.dstPort.toNat := by
  rw [pfRulesMatch_eq_find?, List.find?_cons]
  have hcrit : (decide (r.enabled ≠ 0) && appOk r appPath && criteriaHold r domain dstIp port) =
      portOk r port := by
    simp [appOk, criteriaHold, domainOk, ipOk, h.enabled, h.appPath, h.domain, h.ipCidr]
  have hport : portOk r port = true ↔ r.dstPort = 0 ∨ port = r.dstPort.toNat := by
    simp [portOk]
  rw [hcrit, ← hport]
  cases portOk r port with
  | true => exact iff_of_true rfl rfl
  | false => exact iff_of_false (by simp) Bool.false_ne_true

theorem matchedAs_iff (hp : p.Valid) (h : OnlyPort r)
    (hport : r.dstPort.toNat = if p.colon then 0 else p.first) (port : Int) :
    MatchedAs p port r ↔ p.Agrees port := by
  have hpos := hp.first_pos
  have hordered := hp.ordered
  have hzero : r.dstPort = 0 ↔ r.dstPort.toNat = 0 := by
    rw [← UInt16.toNat_inj]
    rfl
  unfold MatchedAs PortPattern.Agrees
  simp only [pfRulesMatch_port h, pfMatchPort_text hp, forall_const, hzero, hport]
  split
  · omega
  · omega

/-- For every pattern and port, and whatever the rule was before an edit: what the saved rule
matches is what the pattern matches exactly where the two agree, and it is in the ruleset unless the
reload fails. -/
theorem port_pattern_kept_iff (printed : Nat → CStr) (h : Host) (params : Json) (p : PortPattern)
    (hp : p.Valid) (hsubmit : Submits params p) (port : Int) :
    (AfterAdd printed h params (fun r => OnlyPort r → (MatchedAs p port r ↔ p.Agrees port)) ∧
      AfterEdit printed h params (fun r => OnlyPort r → (MatchedAs p port r ↔ p.Agrees port))) ∧
      AddReloads printed h params ∧ EditReloads printed h params :=
  ⟨⟨ReloadedRules.afterAdd_of fun _ honly =>
      matchedAs_iff hp honly (overlay_port hp hsubmit _) port,
    ReloadedRules.afterEdit_of fun stored honly =>
      matchedAs_iff hp honly (overlay_port hp hsubmit stored.dstPort) port⟩,
    ReloadedRules.addReloads printed h params, ReloadedRules.editReloads printed h params⟩

/-! ## Instances -/

def portRule (p : PortPattern) : Json := .obj [(lit "match_port", .str p.text)]

/-- Port 443 of a plain number. -/
theorem plain_number_kept :
    ∃ r ∈ (Host.empty.ruleAdd decimal (some (portRule (.exact false 443)))).2.ruleset, OnlyPort r ∧
      (MatchedAs (.exact false 443) 443 r ↔ (PortPattern.exact false 443).Agrees 443) := by
  obtain ⟨⟨hadd, -⟩, hreloads, -⟩ := port_pattern_kept_iff decimal .empty
    (portRule (.exact false 443)) (.exact false 443) ⟨by decide, by decide, by decide⟩ rfl 443
  obtain ⟨r, hr, hid⟩ := hreloads (by decide) rfl (by decide)
  have honly : ∀ r ∈ (Host.empty.ruleAdd decimal (some (portRule (.exact false 443)))).2.ruleset,
      OnlyPort r := List.forall_mem_singleton.mpr ⟨by decide, by decide, by decide, by decide⟩
  exact ⟨r, hr, honly r hr, hadd (by decide) r hr (Int.natCast_inj.mp hid) (honly r hr)⟩

/-- The rule for `:443` also matches port 80, and the one for `8000-9000` leaves out 8443. -/
theorem port_pattern_not_always_kept :
    ¬ AfterAdd decimal .empty (portRule (.exact true 443)) (fun r =>
        OnlyPort r → MatchedAs (.exact true 443) 80 r) ∧
      ¬ AfterAdd decimal .empty (portRule (.range false 8000 9000)) (fun r =>
        OnlyPort r → MatchedAs (.range false 8000 9000) 8443 r) := by
  refine ⟨fun h => ?_, fun h => ?_⟩
  · have hmatched := h (by decide) { ruleFromJson (portRule (.exact true 443)) with id := 1 }
      (by decide) (by decide) ⟨by decide, by decide, by decide, by decide⟩ none none none
    exact absurd (hmatched.mp (by decide)) (by decide)
  · have hmatched := h (by decide)
      { ruleFromJson (portRule (.range false 8000 9000)) with id := 1 }
      (by decide) (by decide) ⟨by decide, by decide, by decide, by decide⟩ none none none
    exact absurd (hmatched.mpr (by decide)) (by decide)

end Proxiflare.Guarantees.PortPatterns
