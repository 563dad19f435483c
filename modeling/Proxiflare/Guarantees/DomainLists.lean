import Proxiflare.Guarantees.ReloadedRules

/-!
# Domain lists through saving

A `match_domain` string passes through the 254-byte field of the rule, its column and back.
A list that fits the field is matched as it was submitted; the empty list sets no criterion.
-/

namespace Proxiflare.Guarantees.DomainLists

open Lib.CString Lib
open Proxiflare.Daemon
open ReloadedRules (AfterAdd AfterEdit AddReloads EditReloads)

/-- The C string under `match_domain`. -/
def Submits (params : Json) (list : CStr) : Prop :=
  (params.getObjectItem (lit "match_domain")).bind Json.valuestring = some list

/-- The rule has a domain criterion that accepts what the list accepts. -/
def Accepts (r : Rule) (list : CStr) : Prop :=
  r.domain.nonempty = true ∧ ∀ d, pfMatchDomain r.domain.chars d = pfMatchDomain list d

variable {h : Host} {printed : Nat → CStr} {params : Json} {list : CStr} {r : Rule}

/-! ## The stored list -/

theorem overlay_domain (hlist : Submits params list) (old : CBuf (pfDomainMax + 1)) :
    (overlayText (params.getEither (lit "match_domain") (lit "domain")) old).chars =
      list.take pfDomainMax := by
  unfold Submits at hlist
  obtain ⟨v, hv, hs⟩ := Option.bind_eq_some_iff.mp hlist
  unfold overlayText overlay Json.getEither
  rw [hv, Option.some_or, Option.bind_some, hs]
  show (cstr list).take pfDomainMax = _
  cases v with
  | str s =>
    obtain rfl := Option.some.inj hs
    rw [cstr_of_noNul (cstr_noNul s)]
  | _ => cases hs

/-- No criterion for the empty list, and the same meaning for any other. -/
def Means (r : Rule) (list : CStr) : Prop :=
  if list = [] then r.domain.nonempty = false else Accepts r list

theorem means_of_chars (hchars : r.domain.chars = list) : Means r list := by
  unfold Means Accepts CBuf.nonempty
  rw [hchars]
  split
  · next hnil => rw [hnil]; rfl
  · next hne => exact ⟨by simpa using hne, fun _ => rfl⟩

/-- For every list that fits the field, whether it is added or edited and whatever the rule was
before: the saved rule means it, and is in the ruleset unless the reload fails. -/
theorem domain_list_kept (printed : Nat → CStr) (h : Host) (params : Json) (list : CStr)
    (hlist : Submits params list) (hfits : list.length ≤ pfDomainMax) :
    (AfterAdd printed h params (Means · list) ∧ AfterEdit printed h params (Means · list)) ∧
      AddReloads printed h params ∧ EditReloads printed h params := by
  have hstored : ∀ old, (overlayText (params.getEither (lit "match_domain") (lit "domain")) old :
      CBuf (pfDomainMax + 1)).chars = list := fun old =>
    (overlay_domain hlist old).trans (List.take_of_length_le hfits)
  exact ⟨⟨ReloadedRules.afterAdd_of fun _ => means_of_chars (hstored _),
    ReloadedRules.afterEdit_of fun stored => means_of_chars (hstored stored.domain)⟩,
    ReloadedRules.addReloads printed h params, ReloadedRules.editReloads printed h params⟩

/-! ## Instances -/

def domainRule (list : CStr) : Json := .obj [(lit "match_domain", .str list)]

theorem two_domains_kept :
    ∃ r ∈ (Host.empty.ruleAdd decimal (some (domainRule (lit "sky.ch, *.ard.de")))).2.ruleset,
      Means r (lit "sky.ch, *.ard.de") := by
  obtain ⟨⟨hadd, -⟩, hreloads, -⟩ := domain_list_kept decimal .empty
    (domainRule (lit "sky.ch, *.ard.de")) (lit "sky.ch, *.ard.de") (by unfold Submits; decide) (by decide)
  obtain ⟨r, hr, hid⟩ := hreloads (by decide) rfl (by decide)
  exact ⟨r, hr, hadd (by decide) r hr (Int.natCast_inj.mp hid)⟩

/-- A host name of 258 bytes. -/
def longName : CStr := List.replicate 250 97 ++ lit ".example"

/-- The empty list accepts no domain but the empty one and the rule accepts all; the long name is
stored without its last five bytes. -/
theorem domain_list_not_always_kept :
    ¬ AfterAdd decimal .empty (domainRule []) (Accepts · []) ∧
      ¬ AfterAdd decimal .empty (domainRule longName) (Accepts · longName) := by
  refine ⟨fun h => ?_, fun h => ?_⟩
  · have haccepts := h (by decide) { ruleFromJson (domainRule []) with id := 1 } (by decide)
      (by decide)
    exact absurd haccepts.1 (by decide)
  · have haccepts := h (by decide +kernel) { ruleFromJson (domainRule longName) with id := 1 }
      (by decide +kernel) (by decide +kernel)
    exact absurd (haccepts.2 longName) (by decide +kernel)

end Proxiflare.Guarantees.DomainLists
