import Proxiflare.Daemon.Types
import Proxiflare.Daemon.Libc
import Proxiflare.Lib.FirstMatch

/-!
# Pattern matchers and first-match scans

`daemon/src/rules.c`. A `NULL` argument is `none`. The in-memory ruleset is the
list `rules[0 .. count)`, in the order the database query returned it.
-/

namespace Proxiflare.Daemon

open Lib.CString Lib.FirstMatch

abbrev Ruleset := List Rule

/-! ## Single patterns -/

def matchDomainSingle (pattern domain : CStr) : Bool :=
  let plen := pattern.length
  let dlen := domain.length
  if plen ≥ 2 ∧ pattern.head? = some 42 ∧ pattern.getLast? = some 42 then
    let nlen := plen - 2
    let needle := (pattern.drop 1).take nlen
    if nlen = 0 then true
    else if nlen ≥ pfDomainMax + 1 then false
    else if dlen < nlen then false
    else (List.range (dlen - nlen + 1)).any fun i => strncaseeq (domain.drop i) needle nlen
  else if plen > 2 ∧ pattern.head? = some 42 ∧ pattern[1]? = some 46 then
    let suffix := pattern.drop 1
    let slen := plen - 1
    strcaseeq domain (suffix.drop 1) ||
      (slen < dlen && strcaseeq (domain.drop (dlen - slen)) suffix)
  else if strchr pattern 42 = none ∧ strchr pattern 63 = none then strcaseeq pattern domain
  -- `FNM_CASEFOLD` needs `_GNU_SOURCE`, which `rules.c` is built without
  else fnmatch ((pattern.take pfDomainMax).map tolower) ((domain.take pfDomainMax).map tolower)

/-- Blanks before and after a token of a comma list. -/
def trimSpaces (tok : CStr) : CStr :=
  (((tok.dropWhile (· = 32)).reverse).dropWhile (· = 32)).reverse

/-- A comma list is copied into a `char[PF_DOMAIN_MAX * 4]` and tried token by token. -/
def pfMatchDomain (pattern domain : CStr) : Bool :=
  if (strchr pattern 44).isSome then
    (strtok (pattern.take (pfDomainMax * 4 - 1)) 44).any fun tok =>
      trimSpaces tok ≠ [] && matchDomainSingle (trimSpaces tok) domain
  else matchDomainSingle pattern domain

def pfMatchApp (pattern appPath : CStr) : Bool :=
  let patBase := afterLastSlash pattern
  let appBase := basename (appPath.take (pfPathMax - 1))
  pattern = appPath || patBase = appBase ||
    (strchr pattern 47 = none && pattern = appBase) || fnmatch pattern appPath

def pfMatchIp (pattern ip : CStr) : Bool :=
  match inetPton4 ip with
  | none => false
  | some host =>
    match strchr pattern 47 with
    | some slash =>
      let net := pattern.take (pattern.length - slash.length)
      let pfx := atoi slash.tail
      if net.length ≥ 48 ∨ pfx < 0 ∨ 32 < pfx then false
      else match inetPton4 net with
        | none => false
        | some net =>
          let mask : UInt32 := if pfx = 0 then 0 else 0xFFFFFFFF <<< UInt32.ofNat (32 - pfx.toNat)
          host &&& mask = net &&& mask
    | none =>
      match strchr pattern 45 with
      | some dash =>
        let lo := pattern.take (pattern.length - dash.length)
        if lo.length ≥ 48 then false
        else match inetPton4 lo, inetPton4 (dash.tail.take 47) with
          | some lo, some hi => lo ≤ host && host ≤ hi
          | _, _ => false
      | none => inetPton4 pattern = some host

def pfMatchPort (pattern : CStr) (port : Int) : Bool :=
  let p := if pattern.head? = some 58 then pattern.tail else pattern
  match strchr p 45 with
  | some dash => atoi p ≤ port && port ≤ atoi dash.tail
  | none => port = atoi p

/-! ## Scans over the ruleset -/

/-- First enabled rule whose non-empty criteria all hold. -/
def pfRulesMatch (rs : Ruleset) (appPath domain dstIp : Option CStr) (dstPort : Int) :
    Option Rule :=
  match rs with
  | [] => none
  | r :: rs =>
    if r.enabled = 0 then pfRulesMatch rs appPath domain dstIp dstPort
    else if r.appPath.nonempty && !appPath.any (pfMatchApp r.appPath.chars) then
      pfRulesMatch rs appPath domain dstIp dstPort
    else if r.domain.nonempty && !domain.any (pfMatchDomain r.domain.chars) then
      pfRulesMatch rs appPath domain dstIp dstPort
    else if r.ipCidr.nonempty && !dstIp.any (pfMatchIp r.ipCidr.chars) then
      pfRulesMatch rs appPath domain dstIp dstPort
    else if r.dstPort ≠ 0 ∧ dstPort ≠ r.dstPort.toNat then
      pfRulesMatch rs appPath domain dstIp dstPort
    else some r

/-- First enabled rule whose application pattern matches, whatever its other criteria. -/
def pfRulesMatchAppAny (rs : Ruleset) (appPath : CStr) : Option Rule :=
  match rs with
  | [] => none
  | r :: rs =>
    if r.enabled = 0 then pfRulesMatchAppAny rs appPath
    else if !r.appPath.nonempty then pfRulesMatchAppAny rs appPath
    else if pfMatchApp r.appPath.chars appPath then some r
    else pfRulesMatchAppAny rs appPath

/-! ## What the scans decide -/

def domainOk (r : Rule) (domain : Option CStr) : Bool :=
  !r.domain.nonempty || domain.any (pfMatchDomain r.domain.chars)

def ipOk (r : Rule) (dstIp : Option CStr) : Bool :=
  !r.ipCidr.nonempty || dstIp.any (pfMatchIp r.ipCidr.chars)

def portOk (r : Rule) (dstPort : Int) : Bool :=
  r.dstPort = 0 || dstPort = r.dstPort.toNat

/-- The non-empty domain, IP and port criteria all hold; the application is left out. -/
def criteriaHold (r : Rule) (domain dstIp : Option CStr) (dstPort : Int) : Bool :=
  domainOk r domain && ipOk r dstIp && portOk r dstPort

def appOk (r : Rule) (appPath : Option CStr) : Bool :=
  !r.appPath.nonempty || appPath.any (pfMatchApp r.appPath.chars)

theorem pfRulesMatch_eq_find? (rs : Ruleset) (appPath domain dstIp : Option CStr) (dstPort : Int) :
    pfRulesMatch rs appPath domain dstIp dstPort =
      rs.find? fun r => decide (r.enabled ≠ 0) && appOk r appPath &&
        criteriaHold r domain dstIp dstPort := by
  induction rs with
  | nil => rfl
  | cons r rs ih =>
    rw [pfRulesMatch, List.find?_cons, ih]
    have hskip (n a : Bool) : (!n || a) = !(n && !a) := by cases n <;> cases a <;> rfl
    have hport : portOk r dstPort = !decide (r.dstPort ≠ 0 ∧ dstPort ≠ r.dstPort.toNat) := by
      by_cases h0 : r.dstPort = 0 <;> simp [portOk, h0]
    simp only [appOk, criteriaHold, domainOk, ipOk, hskip, hport]
    clear ih hskip hport
    split_ifs with he ha hd hi hp <;> simp [*]

end Proxiflare.Daemon
