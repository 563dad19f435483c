import Proxiflare.Gui.Snippets

/-!
# All snippet targets

`node-fetch.ts`, `node-axios.ts`, `rust-reqwest.ts` and `java-okhttp.ts`, and `generateSnippet` of
`index.ts` over the ten generators.
-/

namespace Proxiflare.Gui

open Lib.CString

variable (js : Js)

/-- A comment that names the target. -/
def generatedBy (target : String) : CStr := lit target ++ dash ++ lit " generated by ProxiFlare"

/-- `entry.method` and the like as `const headers` of the Node targets. -/
def nodeHeaders (jsStr : CStr → CStr) (headers : List HarHeader) : List CStr :=
  if headers = [] then [lit "const headers = \x7b\x7d;"]
  else [lit "const headers = \x7b"] ++
    headers.map (fun h => lit "  " ++ jsStr h.1 ++ lit ": " ++ jsStr h.2 ++ lit ",") ++ [lit "\x7d;"]

/-! ## Node: fetch -/

namespace NodeFetch

def jsStr (s : CStr) : CStr :=
  34 :: (replaceAll 96 (lit "\\\x60") (replaceAll 13 (lit "\\r") (replaceAll 10 (lit "\\n")
    (replaceAll 34 (lit "\\\"") (replaceAll 92 (lit "\\\\") s)))) ++ [34])

/-- The declaration of the body and the line that passes it on. -/
def bodyCode : Option HarPostData → Option (List CStr × List CStr)
  | none => some ([], [])
  | some postData =>
    if postData.isBinary then (btoa postData.text).map fun b64 =>
      ([lit "// Binary body " ++ dash ++ lit " decoded from base64",
        lit "const body = Buffer.from(" ++ jsStr b64 ++ lit ", 'base64');", []], [lit "  body,"])
    else some ([lit "const body = " ++ jsStr postData.text ++ lit ";", []], [lit "  body,"])

def text (har : HarRequest) (body : List CStr × List CStr) : CStr :=
  joinLines (
    [generatedBy "// Node.js native fetch ",
      lit "// Requires Node 18+. For self-signed certs, set NODE_TLS_REJECT_UNAUTHORIZED=0", [],
      lit "const url = " ++ jsStr har.url ++ lit ";", []]
    ++ nodeHeaders jsStr har.headers
    ++ [[]]
    ++ body.1
    ++ [lit "const response = await fetch(url, \x7b",
      lit "  method: " ++ jsStr har.method ++ lit ",", lit "  headers,"]
    ++ body.2
    ++ [lit "\x7d);", [], lit "const text = await response.text();",
      lit "console.log(response.status, text.slice(0, 500));"])

def generate (entry : InspectEntry) : Option CStr := do
  let har ← toHar js entry
  let body ← bodyCode har.postData
  return text har body

end NodeFetch

/-! ## Node: axios -/

namespace NodeAxios

def jsStr (s : CStr) : CStr :=
  34 :: (replaceAll 13 (lit "\\r") (replaceAll 10 (lit "\\n")
    (replaceAll 34 (lit "\\\"") (replaceAll 92 (lit "\\\\") s))) ++ [34])

/-- A body that `JSON.parse` takes stands in the program as it is. -/
def bodyCode : Option HarPostData → Option (List CStr × List CStr)
  | none => some ([], [])
  | some postData =>
    if postData.isBinary then (btoa postData.text).map fun b64 =>
      ([lit "// Binary body " ++ dash ++ lit " decoded from base64",
        lit "const data = Buffer.from(" ++ jsStr b64 ++ lit ", 'base64');", []],
        [lit "  data: data,"])
    else if isJsonMime (js.toLowerCase postData.mimeType) && (js.jsonReprint postData.text).isSome then
      some ([lit "const data = " ++ postData.text ++ lit "; // already valid JSON", []],
        [lit "  data: data,"])
    else some ([lit "const data = " ++ jsStr postData.text ++ lit ";", []], [lit "  data: data,"])

def text (har : HarRequest) (body : List CStr × List CStr) : CStr :=
  joinLines (
    [generatedBy "// Node.js: axios ", lit "// Requires: npm install axios",
      lit "const axios = require('axios');", lit "// const https = require('https');",
      lit ("// const agent = new https.Agent(\x7b rejectUnauthorized: false \x7d); " ++
        "// disable TLS verify"), [],
      lit "const url = " ++ jsStr har.url ++ lit ";", []]
    ++ nodeHeaders jsStr har.headers
    ++ [[]]
    ++ body.1
    ++ [lit "const response = await axios(\x7b",
      lit "  method: " ++ jsStr (js.toLowerCase har.method) ++ lit ",", lit "  url,", lit "  headers,"]
    ++ body.2
    ++ [lit "  // httpsAgent: agent, // uncomment to disable TLS verify", lit "\x7d);", [],
      lit "console.log(response.status, JSON.stringify(response.data).slice(0, 500));"])

def generate (entry : InspectEntry) : Option CStr := do
  let har ← toHar js entry
  let body ← bodyCode js har.postData
  return text js har body

end NodeAxios

/-! ## Rust -/

def rustStr (s : CStr) : CStr :=
  34 :: (replaceAll 10 (lit "\\n") (replaceAll 34 (lit "\\\"") (replaceAll 92 (lit "\\\\") s)) ++ [34])

theorem length_le_of_includes {s needle : CStr} (h : includes s needle = true) :
    needle.length ≤ s.length := ((strstr_isSome_iff s needle).mp h).length_le

/-- `'"' + '#'.repeat(hashes)`. -/
def rustCloser (hashes : Nat) : CStr := 34 :: List.replicate hashes 35

/-- `while (s.includes('"' + '#'.repeat(hashes))) hashes++`: a text holds no closer that is longer
than itself. -/
def rustHashes (s : CStr) (hashes : Nat) : Nat :=
  if h : includes s (rustCloser hashes) = true then rustHashes s (hashes + 1) else hashes
termination_by s.length - hashes
decreasing_by
  have hlen := length_le_of_includes h
  rw [rustCloser, List.length_cons, List.length_replicate] at hlen
  omega

def rustRaw (s : CStr) : CStr :=
  let h := List.replicate (rustHashes s 0) 35
  lit "r" ++ h ++ lit "\"" ++ s ++ lit "\"" ++ h

namespace RustReqwest

/-- A JSON body goes the way of the others. -/
def bodyCode : Option HarPostData → Option (List CStr)
  | none => some []
  | some postData =>
    if postData.isBinary then (btoa postData.text).map fun b64 =>
      [lit "        // Binary body " ++ dash ++ lit " decoded from base64",
        lit "        .body(base64::decode(" ++ rustStr b64 ++ lit ").unwrap())"]
    else some [lit "        .body(" ++ rustRaw postData.text ++ lit ")"]

def text (har : HarRequest) (body : List CStr) : CStr :=
  joinLines (
    [generatedBy "// Rust: reqwest (blocking) ",
      lit "// Cargo.toml: reqwest = \x7b version = \"0.12\", features = [\"blocking\"] \x7d"]
    ++ (if har.postData.any (·.isBinary) then [lit "// Cargo.toml: base64 = \"0.22\""] else [])
    ++ (if har.postData.any fun p => isJsonMime (js.toLowerCase p.mimeType) then
      [lit "// Cargo.toml: serde_json = \"1\""] else [])
    ++ [[], lit "fn main() -> Result<(), Box<dyn std::error::Error>> \x7b",
      lit "    let url = " ++ rustStr har.url ++ lit ";", [],
      lit "    let client = reqwest::blocking::Client::builder()",
      lit "        // .danger_accept_invalid_certs(true) // disable TLS verify",
      lit "        .build()?;", [], lit "    let mut req = client",
      lit "        ." ++ js.toLowerCase har.method ++ lit "(url)"]
    ++ har.headers.map (fun h =>
      lit "        .header(" ++ rustStr h.1 ++ lit ", " ++ rustStr h.2 ++ lit ")")
    ++ body
    ++ [lit "        ;", [], lit "    let _ = &mut req; // suppress unused warning",
      lit "    let resp = req.send()?;", lit "    println!(\"\x7b\x7d\", resp.status());",
      lit "    let body = resp.text()?;",
      lit "    println!(\"\x7b\x7d\", &body[..body.len().min(500)]);", lit "    Ok(())", lit "\x7d"])

def generate (entry : InspectEntry) : Option CStr := do
  let har ← toHar js entry
  let body ← bodyCode har.postData
  return text js har body

end RustReqwest

/-! ## Java -/

def jStr (s : CStr) : CStr :=
  34 :: (replaceAll 10 (lit "\\n") (replaceAll 13 (lit "\\r")
    (replaceAll 34 (lit "\\\"") (replaceAll 92 (lit "\\\\") s))) ++ [34])

/-- One literal a line, the line breaks between them. -/
def jMultilineStr (s : CStr) : CStr :=
  match s.splitOn 10 with
  | [] => jStr s
  | first :: rest => joinLines (jStr first :: rest.map fun l => lit "    + \"\\n\" + " ++ jStr l)

namespace JavaOkhttp

/-- The type of a body decides nothing. -/
def bodyCode : Option HarPostData → Option (List CStr)
  | none => some []
  | some postData =>
    let mediaType := lit "        MediaType mediaType = MediaType.parse(" ++ jStr postData.mimeType
      ++ lit ");"
    if postData.isBinary then (btoa postData.text).map fun b64 =>
      [mediaType, lit "        // Binary body " ++ dash ++ lit " decoded from base64",
        lit "        byte[] bodyBytes = Base64.getDecoder().decode(" ++ jStr b64 ++ lit ");",
        lit "        RequestBody body = RequestBody.create(bodyBytes, mediaType);", []]
    else some [mediaType, lit "        String bodyStr = " ++ jMultilineStr postData.text ++ lit ";",
      lit "        RequestBody body = RequestBody.create(bodyStr, mediaType);", []]

def text (har : HarRequest) (body : List CStr) : CStr :=
  joinLines (
    [generatedBy "// Java: OkHttp3 ", lit "// Requires: com.squareup.okhttp3:okhttp:4.12.0", [],
      lit "import okhttp3.*;", lit "import java.io.IOException;"]
    ++ (if har.postData.any (·.isBinary) then [lit "import java.util.Base64;"] else [])
    ++ [[], lit "public class Main \x7b",
      lit "    public static void main(String[] args) throws IOException \x7b",
      lit "        String url = " ++ jStr har.url ++ lit ";", [],
      lit "        // To skip TLS: configure OkHttpClient with custom SSLSocketFactory",
      lit "        OkHttpClient client = new OkHttpClient();", []]
    ++ body
    ++ [lit "        Request request = new Request.Builder()", lit "            .url(url)",
      lit "            .method(" ++ jStr har.method ++ lit ", "
        ++ lit (if har.postData.isSome then "body" else "null") ++ lit ")"]
    ++ har.headers.map (fun h =>
      lit "            .addHeader(" ++ jStr h.1 ++ lit ", " ++ jStr h.2 ++ lit ")")
    ++ [lit "            .build();", [],
      lit "        try (Response response = client.newCall(request).execute()) \x7b",
      lit "            System.out.println(response.code());",
      lit ("            String respBody = response.body() != null ? " ++
        "response.body().string() : \"\";"),
      lit ("            System.out.println(respBody.substring(0, " ++
        "Math.min(respBody.length(), 500)));"),
      lit "        \x7d", lit "    \x7d", lit "\x7d"])

def generate (entry : InspectEntry) : Option CStr := do
  let har ← toHar js entry
  let body ← bodyCode har.postData
  return text har body

end JavaOkhttp

/-! ## `generateSnippet` -/

inductive TargetId where
  | curl
  | pythonRequests
  | pythonHttpx
  | nodeFetch
  | nodeAxios
  | phpCurl
  | phpGuzzle
  | goNethttp
  | rustReqwest
  | javaOkhttp
  deriving DecidableEq

/-- `none` when the generator throws. `TARGETS` has every target. -/
def generateSnippet (target : TargetId) (entry : InspectEntry) : Option CStr :=
  match target with
  | .curl => Curl.generate js entry
  | .pythonRequests => PythonRequests.generate js entry
  | .pythonHttpx => PythonHttpx.generate js entry
  | .nodeFetch => NodeFetch.generate js entry
  | .nodeAxios => NodeAxios.generate js entry
  | .phpCurl => PhpCurl.generate js entry
  | .phpGuzzle => PhpGuzzle.generate js entry
  | .goNethttp => GoNethttp.generate js entry
  | .rustReqwest => RustReqwest.generate js entry
  | .javaOkhttp => JavaOkhttp.generate js entry

end Proxiflare.Gui
