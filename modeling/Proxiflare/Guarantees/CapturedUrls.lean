import Proxiflare.Guarantees.SnippetBodies
import Proxiflare.Lib.HttpUrl

/-!
# The URL of a captured request

`toHar` puts a URL together without the port the request went to, so the URL leads there
only where that is the scheme's own port.
-/

namespace Proxiflare.Guarantees.CapturedUrls

open Lib.CString
open Lib.HttpUrl
open Proxiflare.Gui

def schemeOf (entry : InspectEntry) : Scheme := if entry.tls then .https else .http

/-- Where the captured request went and what it asked for. -/
def capturedUrl (entry : InspectEntry) (target : CStr) : Url where
  scheme := schemeOf entry
  host := entry.domain
  port := entry.dst_port
  path := pathOf target
  query := queryOf target

variable {entry : InspectEntry} {target : CStr}

theorem urlOf_eq (hurl : entry.url = some target) (hslash : target.head? = some 47) :
    urlOf entry = (schemeOf entry).text ++ lit "://" ++ (entry.domain ++ target) := by
  obtain ⟨t, rfl⟩ := List.head?_eq_some_iff.mp hslash
  have hpath : pathFull entry = 47 :: t := by
    rw [pathFull, hurl]
    rfl
  have hscheme : (if entry.tls then lit "https" else lit "http") = (schemeOf entry).text := by
    rw [schemeOf]
    cases entry.tls <;> rfl
  have hwhole : (47 :: t).takeWhile (· ≠ 63) ++ (47 :: t).dropWhile (· ≠ 63) = 47 :: t :=
    List.takeWhile_append_dropWhile
  rw [urlOf, searchOf, hpath, hscheme, List.append_assoc _ _ (List.dropWhile _ _), hwhole,
    List.append_assoc _ entry.domain]

/-- The URL of an entry leads where the request went exactly when the request went to the
scheme's own port, the domain is a host, and path and query hold what they may. -/
theorem url_leads_back_iff (js : Js) (entry : InspectEntry) (target : CStr) (har : HarRequest)
    (hurl : entry.url = some target) (hslash : target.head? = some 47)
    (hhar : toHar js entry = some har) :
    parse har.url = some (capturedUrl entry target) ↔
      entry.dst_port = (schemeOf entry).port ∧ IsHost entry.domain ∧ IsTarget target := by
  obtain ⟨query, -, rfl⟩ := Option.map_eq_some_iff.mp hhar
  have hharUrl : (harOf js entry query).url = urlOf entry := rfl
  rw [hharUrl, urlOf_eq hurl hslash, parse_text, capturedUrl, readRest_eq_iff hslash]

/-- A request to `https://example.com/login`. -/
def login : InspectEntry := SnippetBodies.post "text/plain" "hello"

theorem toHar_login :
    toHar SnippetBodies.asciiJs login = some (harOf SnippetBodies.asciiJs login []) := by
  have hquery : parseQuery (searchOf login) = some [] := by decide +kernel
  rw [toHar, hquery, Option.map_some]

theorem login_leads_back : parse (harOf SnippetBodies.asciiJs login []).url =
    some (capturedUrl login (lit "/login")) :=
  (url_leads_back_iff SnippetBodies.asciiJs login (lit "/login")
    (harOf SnippetBodies.asciiJs login []) rfl (by decide +kernel) toHar_login).mpr
    ⟨rfl, .inl (by decide +kernel), by decide +kernel⟩

/-- The same request to a service on another port. -/
def loginElsewhere : InspectEntry := { login with dst_port := 8443 }

/-- Its URL leads to port 443. -/
theorem elsewhere_is_lost :
    loginElsewhere.url = some (lit "/login") ∧
      (toHar SnippetBodies.asciiJs loginElsewhere).map (fun har => parse har.url) =
        some (some ⟨.https, lit "example.com", 443, lit "/login", none⟩) ∧
      some (⟨.https, lit "example.com", 443, lit "/login", none⟩ : Url) ≠
        some (capturedUrl loginElsewhere (lit "/login")) := by
  decide +kernel

end Proxiflare.Guarantees.CapturedUrls
