import Proxiflare.Gui.Har
import Proxiflare.Lib.StringLiteral

/-!
# The snippet generators

`python-requests.ts`, `python-httpx.ts`, `php-curl.ts`, `php-guzzle.ts`, `curl.ts` and
`go-nethttp.ts` of `gui/src/lib/snippet-gen`. A Python or PHP snippet is kept in parts, its
literals as they are written; `generate` puts the parts together as the program text.
-/

namespace Proxiflare.Gui

open Lib.CString
open Lib.StringLiteral

variable (js : Js)

/-! ## Literals -/

/-- `s.replace(/c/g, r)`. -/
def replaceAll (c : UInt8) (r s : CStr) : CStr := s.flatMap fun b => if b = c then r else [b]

def pyStr (s : CStr) : CStr :=
  34 :: (replaceAll 9 (lit "\\t") (replaceAll 13 (lit "\\r") (replaceAll 10 (lit "\\n")
    (replaceAll 34 (lit "\\\"") (replaceAll 92 (lit "\\\\") s)))) ++ [34])

def phpStr (s : CStr) : CStr :=
  39 :: (replaceAll 39 (lit "\\'") (replaceAll 92 (lit "\\\\") s) ++ [39])

/-- The string literals of Python that `pyStr` writes. Python takes no source with a NUL. -/
def python : Quoting where
  quote := 34
  escapes := [(92, 92), (34, 34), (10, 110), (13, 114), (9, 116)]
  raw := fun c => c != 0 && c != 10 && c != 13
  quote_ne := by decide
  letters := by decide
  special := by decide

def php : Quoting where
  quote := 39
  escapes := [(92, 92), (39, 39)]
  raw := fun _ => true
  quote_ne := by decide
  letters := by decide
  special := by decide

def pyRows (pairs : List (CStr × CStr)) : List (CStr × CStr) :=
  pairs.map fun p => (pyStr p.1, pyStr p.2)

def phpRows (pairs : List (CStr × CStr)) : List (CStr × CStr) :=
  pairs.map fun p => (phpStr p.1, phpStr p.2)

/-! ## `btoa` -/

/-- `none` for a character beyond Latin-1. -/
def latin1 : CStr → Option CStr
  | [] => some []
  | b :: s =>
    if b < 128 then (latin1 s).map (b :: ·)
    else match s with
      | [] => none
      | c :: t =>
        if b = 194 then (latin1 t).map (c :: ·)
        else if b = 195 then (latin1 t).map ((c + 64) :: ·)
        else none

def base64Letter (n : Nat) : UInt8 :=
  (lit "ABCDEFGHIJKLMNOPQRSTUVWXYZabcdefghijklmnopqrstuvwxyz0123456789+/").getD n 61

def base64 : CStr → CStr
  | [] => []
  | [a] => [base64Letter (a.toNat / 4), base64Letter (a.toNat % 4 * 16), 61, 61]
  | [a, b] =>
    [base64Letter (a.toNat / 4), base64Letter (a.toNat % 4 * 16 + b.toNat / 16),
      base64Letter (b.toNat % 16 * 4), 61]
  | a :: b :: c :: s =>
    base64Letter (a.toNat / 4) :: base64Letter (a.toNat % 4 * 16 + b.toNat / 16)
      :: base64Letter (b.toNat % 16 * 4 + c.toNat / 64) :: base64Letter (c.toNat % 64) :: base64 s

def btoa (s : CStr) : Option CStr := (latin1 s).map base64

/-! ## Python -/

def includes (s needle : CStr) : Bool := (strstr s needle).isSome

def isJsonMime (mime : CStr) : Bool := includes mime (lit "application/json")

def isFormMime (mime : CStr) : Bool := includes mime (lit "application/x-www-form-urlencoded")

/-- The statements that make the request's body: `data = base64.b64decode(literal)`,
`payload = json.loads(literal)`, a dictionary of literals, `data = literal`. -/
inductive PyBody where
  | absent
  | base64 (literal : CStr)
  | json (literal : CStr)
  | form (rows : List (CStr × CStr))
  | text (literal : CStr)

/-- The branches on the body, the same in both Python generators. -/
def pyBody (har : HarRequest) : Option PyBody :=
  match har.postData with
  | none => some .absent
  | some postData =>
    let mime := js.toLowerCase postData.mimeType
    if postData.isBinary then (btoa postData.text).map fun b64 => .base64 (pyStr b64)
    else if isJsonMime mime then
      match js.jsonReprint postData.text with
      | some _ => some (.json (pyStr postData.text))
      | none => some (.text (pyStr postData.text))
    else if isFormMime mime then some (.form (pyRows har.queryString))
    else some (.text (pyStr postData.text))

structure PySnippet where
  method : CStr
  url : CStr
  headers : List (CStr × CStr)
  body : PyBody

/-- `none` when the generator throws. -/
def pySnippet (entry : InspectEntry) : Option PySnippet := do
  let har ← toHar js entry
  let body ← pyBody js har
  return ⟨js.toLowerCase har.method, pyStr har.url, pyRows har.headers, body⟩

def joinLines (lines : List CStr) : CStr := [10].intercalate lines

def pyDict (rows : List (CStr × CStr)) : CStr :=
  if rows = [] then lit "\x7b\x7d"
  else lit "\x7b\n" ++ joinLines (rows.map fun r => lit "    " ++ r.1 ++ lit ": " ++ r.2 ++ lit ",")
    ++ lit "\n\x7d"

/-- The UTF-8 of an em dash. -/
def dash : CStr := [226, 128, 148]

namespace PythonRequests

def bodyCode : PyBody → List CStr × List CStr
  | .absent => ([], [])
  | .base64 l =>
    ([lit "import base64", lit "# Binary body " ++ dash ++ lit " decoded from base64 before sending",
      lit "data = base64.b64decode(" ++ l ++ lit ")", []], [lit "data=data,"])
  | .json l =>
    ([lit "import json", lit "payload = json.loads(" ++ l ++ lit ")", []], [lit "json=payload,"])
  | .form rows => ([lit "data = " ++ pyDict rows, []], [lit "data=data,"])
  | .text l => ([lit "data = " ++ l, []], [lit "data=data,"])

def text (p : PySnippet) : CStr :=
  joinLines (
    [lit "# Python: requests " ++ dash ++ lit " generated by ProxiFlare", lit "import requests", [],
      lit "url = " ++ p.url, [], lit "headers = " ++ pyDict p.headers, []]
    ++ (bodyCode p.body).1
    ++ [lit "response = requests." ++ p.method ++ lit "(", lit "    url,", lit "    headers=headers,"]
    ++ (bodyCode p.body).2.map (lit "    " ++ ·)
    ++ [lit "    verify=False,  # set verify=True or path to CA bundle in production", lit ")", [],
      lit "print(response.status_code, response.text[:500])"])

def generate (entry : InspectEntry) : Option CStr := (pySnippet js entry).map text

end PythonRequests

namespace PythonHttpx

def bodyCode : PyBody → List CStr × List CStr
  | .absent => ([], [])
  | .base64 l =>
    ([lit "import base64", lit "# Binary body " ++ dash ++ lit " decoded from base64 before sending",
      lit "data = base64.b64decode(" ++ l ++ lit ")", []], [lit "content=data,"])
  | .json l =>
    ([lit "import json", lit "payload = json.loads(" ++ l ++ lit ")", []], [lit "json=payload,"])
  | .form rows => ([lit "form = " ++ pyDict rows, []], [lit "data=form,"])
  | .text l => ([lit "data = " ++ l, []], [lit "content=data.encode(),"])

def text (p : PySnippet) : CStr :=
  joinLines (
    [lit "# Python: httpx (async) " ++ dash ++ lit " generated by ProxiFlare", lit "import asyncio",
      lit "import httpx", [], lit "url = " ++ p.url, [], lit "headers = " ++ pyDict p.headers, []]
    ++ (bodyCode p.body).1
    ++ [lit "async def main():", lit "    async with httpx.AsyncClient(verify=False) as client:",
      lit "        # verify=False disables TLS verification " ++ dash
        ++ lit " use verify=True in production",
      lit "        response = await client." ++ p.method ++ lit "(", lit "            url,",
      lit "            headers=headers,"]
    ++ (bodyCode p.body).2.map (lit "            " ++ ·)
    ++ [lit "        )", lit "        print(response.status_code, response.text[:500])", [],
      lit "asyncio.run(main())"])

def generate (entry : InspectEntry) : Option CStr := (pySnippet js entry).map text

end PythonHttpx

/-! ## PHP -/

/-- `verbatim` is the text between the lines of `<<<'EOD'` and `EOD;`. -/
inductive PhpBody where
  | absent
  | base64 (literal : CStr)
  | json (literal : CStr)
  | form (rows : List (CStr × CStr))
  | text (literal : CStr)
  | verbatim (text : CStr)

/-- `method` is the `CURLOPT_CUSTOMREQUEST` of a request other than a `GET`, `headers` the
literals of whole header lines. -/
structure CurlSnippet where
  method : Option CStr
  url : CStr
  headers : List CStr
  body : PhpBody

structure GuzzleSnippet where
  method : CStr
  url : CStr
  headers : List (CStr × CStr)
  body : PhpBody

namespace PhpCurl

def body (har : HarRequest) : Option PhpBody :=
  match har.postData with
  | none => some .absent
  | some postData =>
    let mime := js.toLowerCase postData.mimeType
    if postData.isBinary then (btoa postData.text).map fun b64 => .base64 (phpStr b64)
    else if isFormMime mime then some (.text (phpStr postData.text))
    else some (.verbatim postData.text)

def snippet (entry : InspectEntry) : Option CurlSnippet := do
  let har ← toHar js entry
  let body ← body js har
  return {
    method := if har.method = lit "GET" then none else some (phpStr har.method)
    url := phpStr har.url
    headers := har.headers.map fun h => phpStr (h.1 ++ lit ": " ++ h.2)
    body }

def label : CStr := lit "EOD"

/-- The program after its body. -/
def closing : CStr :=
  joinLines
    [lit "// curl_setopt($ch, CURLOPT_SSL_VERIFYPEER, false); // disable TLS verify",
      lit "// curl_setopt($ch, CURLOPT_SSL_VERIFYHOST, false);", [],
      lit "$response = curl_exec($ch);", lit "$httpCode = curl_getinfo($ch, CURLINFO_HTTP_CODE);",
      lit "curl_close($ch);", [], lit "echo $httpCode . PHP_EOL . substr($response, 0, 500);"]

/-- The program after the label that closes its body. -/
def afterLabel : CStr :=
  lit ";\ncurl_setopt($ch, CURLOPT_POSTFIELDS, $body);\n" ++ closing

def bodyCode : PhpBody → CStr
  | .base64 l =>
    lit "// Binary body " ++ dash ++ lit " decoded from base64 before sending\n$body = base64_decode("
      ++ l ++ lit ");\ncurl_setopt($ch, CURLOPT_POSTFIELDS, $body);\n" ++ closing
  | .text l => lit "curl_setopt($ch, CURLOPT_POSTFIELDS, " ++ l ++ lit ");\n" ++ closing
  | .verbatim t => lit "$body = <<<'EOD'\n" ++ t ++ 10 :: (label ++ afterLabel)
  | _ => closing

def text (p : CurlSnippet) : CStr :=
  joinLines (
    [lit "<?php", lit "// PHP: cURL " ++ dash ++ lit " generated by ProxiFlare", [],
      lit "$url = " ++ p.url ++ lit ";", [], lit "$headers = ["]
    ++ p.headers.map (lit "    " ++ · ++ lit ",")
    ++ [lit "];", [], lit "$ch = curl_init();", lit "curl_setopt($ch, CURLOPT_URL, $url);",
      lit "curl_setopt($ch, CURLOPT_RETURNTRANSFER, true);",
      lit "curl_setopt($ch, CURLOPT_HTTPHEADER, $headers);"]
    ++ p.method.toList.map (lit "curl_setopt($ch, CURLOPT_CUSTOMREQUEST, " ++ · ++ lit ");")
    ++ [bodyCode p.body])

def generate (entry : InspectEntry) : Option CStr := (snippet js entry).map text

end PhpCurl

namespace PhpGuzzle

def body (har : HarRequest) : Option PhpBody :=
  match har.postData with
  | none => some .absent
  | some postData =>
    let mime := js.toLowerCase postData.mimeType
    if postData.isBinary then (btoa postData.text).map fun b64 => .base64 (phpStr b64)
    else if isJsonMime mime then
      match js.jsonReprint postData.text with
      | some parsed => some (.json (phpStr parsed))
      | none => some (.text (phpStr postData.text))
    else if isFormMime mime then some (.form (phpRows har.queryString))
    else some (.text (phpStr postData.text))

def snippet (entry : InspectEntry) : Option GuzzleSnippet := do
  let har ← toHar js entry
  let body ← body js har
  return ⟨phpStr har.method, phpStr har.url, phpRows har.headers, body⟩

def arrayRows (rows : List (CStr × CStr)) : List CStr :=
  rows.map fun r => lit "    " ++ r.1 ++ lit " => " ++ r.2 ++ lit ","

def bodyCode : PhpBody → List CStr × List CStr
  | .base64 l =>
    ([lit "// Binary body " ++ dash ++ lit " decoded from base64 before sending",
      lit "$body = base64_decode(" ++ l ++ lit ");", []], [lit "    'body' => $body,"])
  | .json l => ([lit "$payload = json_decode(" ++ l ++ lit ", true);", []],
      [lit "    'json' => $payload,"])
  | .form rows => (lit "$form = [" :: arrayRows rows ++ [lit "];", []],
      [lit "    'form_params' => $form,"])
  | .text l => ([[]], [lit "    'body' => " ++ l ++ lit ","])
  | _ => ([], [])

def text (p : GuzzleSnippet) : CStr :=
  joinLines (
    [lit "<?php", lit "// PHP: Guzzle " ++ dash ++ lit " generated by ProxiFlare",
      lit "// Requires: composer require guzzlehttp/guzzle", lit "use GuzzleHttp\\Client;", [],
      lit "$url = " ++ p.url ++ lit ";", [], lit "$headers = ["]
    ++ arrayRows p.headers
    ++ [lit "];", [], lit "$client = new Client([",
      lit "    // 'verify' => false, // disable TLS certificate verification", lit "]);", []]
    ++ (bodyCode p.body).1
    ++ [lit "$response = $client->request(" ++ p.method ++ lit ", $url, [",
      lit "    'headers' => $headers,"]
    ++ (bodyCode p.body).2
    ++ [lit "]);", [], lit "echo $response->getStatusCode() . PHP_EOL;",
      lit "echo substr($response->getBody()->getContents(), 0, 500);"])

def generate (entry : InspectEntry) : Option CStr := (snippet js entry).map text

end PhpGuzzle

/-! ## curl -/

namespace Curl

def shEscape (s : CStr) : CStr := 39 :: (replaceAll 39 (lit "'\\''") s ++ [39])

def headerFlags (har : HarRequest) : CStr :=
  joinLines (har.headers.map fun h =>
    lit "  --header " ++ shEscape (h.1 ++ lit ": " ++ h.2) ++ lit " \\")

/-- The comment and the flag of a body. -/
def bodyFlag : Option HarPostData → Option (List CStr × CStr)
  | none => some ([], [])
  | some postData =>
    if postData.isBinary then (btoa postData.text).map fun b64 =>
      ([lit "# Binary body " ++ dash ++ lit " decode before sending"],
        lit "  --data-raw $(echo " ++ shEscape b64 ++ lit " | base64 -d) \\")
    else some ([], lit "  --data-raw " ++ shEscape postData.text ++ lit " \\")

/-- Without the line break that `trimEnd` takes off. -/
def methodFlag (har : HarRequest) : CStr :=
  if har.method = lit "GET" then [] else lit "  --request " ++ shEscape har.method ++ lit " \\"

/-- `...(flag ? [flag] : [])`. -/
def flagLine (flag : CStr) : List CStr := if flag = [] then [] else [flag]

def text (har : HarRequest) (body : List CStr × CStr) : CStr :=
  joinLines (
    [lit "# cURL " ++ dash ++ lit " generated by ProxiFlare",
      lit "# Remove --insecure if the server has a valid certificate", []]
    ++ body.1
    ++ [lit "curl --insecure \\"]
    ++ flagLine (methodFlag har)
    ++ flagLine (headerFlags har)
    ++ flagLine body.2
    ++ [lit "  " ++ shEscape har.url])

def generate (entry : InspectEntry) : Option CStr := do
  let har ← toHar js entry
  let body ← bodyFlag har.postData
  return text har body

end Curl

/-! ## Go -/

def goStr (s : CStr) : CStr :=
  34 :: (replaceAll 13 (lit "\\r") (replaceAll 10 (lit "\\n")
    (replaceAll 34 (lit "\\\"") (replaceAll 92 (lit "\\\\") s))) ++ [34])

def goRaw (s : CStr) : CStr :=
  if 96 ∉ s then 96 :: (s ++ [96])
  else (lit " + \"" ++ 96 :: lit "\" + ").intercalate ((s.splitOn 96).map fun part => 96 :: (part ++ [96]))

namespace GoNethttp

/-- The statements that make the body's reader and the expression for it. -/
def bodyCode : Option HarPostData → Option (List CStr × CStr)
  | none => some ([], lit "nil")
  | some postData =>
    if postData.isBinary then (btoa postData.text).map fun b64 =>
      ([lit "\t// Binary body " ++ dash ++ lit " decoded from base64",
        lit "\tbody64 := " ++ goStr b64,
        lit "\tbodyBytes, _ := base64.StdEncoding.DecodeString(body64)",
        lit "\tbodyReader := strings.NewReader(string(bodyBytes))", []], lit "bodyReader")
    else some ([lit "\tbody := " ++ goRaw postData.text,
      lit "\tbodyReader := strings.NewReader(body)", []], lit "bodyReader")

def isBinary (har : HarRequest) : Bool := har.postData.any (·.isBinary)

def text (har : HarRequest) (body : List CStr × CStr) : CStr :=
  joinLines (
    [lit "// Go: net/http " ++ dash ++ lit " generated by ProxiFlare", lit "package main", [],
      lit "import (", lit "\t\"fmt\"", lit "\t\"io\"", lit "\t\"net/http\"", lit "\t\"strings\""]
    ++ (if isBinary har then [lit "\t\"encoding/base64\""] else [])
    ++ [lit ")", [], lit "func main() \x7b",
      lit "\t// To skip TLS verification, configure an http.Client with a custom Transport:",
      lit "\t// tr := &http.Transport\x7bTLSClientConfig: &tls.Config\x7bInsecureSkipVerify: true\x7d\x7d",
      lit "\t// client := &http.Client\x7bTransport: tr\x7d", []]
    ++ body.1
    ++ [lit "\treq, err := http.NewRequest(" ++ goStr har.method ++ lit ", " ++ goStr har.url
        ++ lit ", " ++ body.2 ++ lit ")",
      lit "\tif err != nil \x7b panic(err) \x7d", []]
    ++ har.headers.map (fun h =>
      lit "\treq.Header.Set(" ++ goStr h.1 ++ lit ", " ++ goStr h.2 ++ lit ")")
    ++ [[], lit "\tclient := &http.Client\x7b\x7d", lit "\tresp, err := client.Do(req)",
      lit "\tif err != nil \x7b panic(err) \x7d", lit "\tdefer resp.Body.Close()",
      lit "\tbody2, _ := io.ReadAll(resp.Body)",
      lit "\tfmt.Println(resp.StatusCode, string(body2[:min(len(body2), 500)]))", lit "\x7d", [],
      lit "func min(a, b int) int \x7b if a < b \x7b return a \x7d; return b \x7d"])

def generate (entry : InspectEntry) : Option CStr := do
  let har ← toHar js entry
  let body ← bodyCode har.postData
  return text har body

end GoNethttp

end Proxiflare.Gui
