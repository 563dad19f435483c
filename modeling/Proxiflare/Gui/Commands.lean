import Proxiflare.Daemon.Handler
import Proxiflare.Gui.DaemonClient

/-!
# The commands of the GUI

`gui/src-tauri/src/commands.rs`: what each command sends with `send_request`. A `String`
is its UTF-8 bytes. The commands `list_system_apps` and `providers_list` read local files
and tables only; what a provider answers to `providers_import` is data.
-/

namespace Proxiflare.Gui

open Lib.CString
open Proxiflare.Daemon

variable {ν : Type}

inductive ProxyKind where
  | socks5 | socks4 | http | ssh
  deriving DecidableEq

/-- `as_str`. -/
def ProxyKind.asStr : ProxyKind → CStr
  | .socks5 => lit "socks5"
  | .socks4 => lit "socks4"
  | .http => lit "http"
  | .ssh => lit "ssh"

/-- The fields of `ImportedProxy` that are sent on. -/
structure ImportedProxy where
  name : CStr
  kind : ProxyKind
  host : CStr
  port : UInt16
  username : CStr
  password : CStr
  deriving DecidableEq

/-- A command with its arguments. `fetched` is what the provider delivers, `none` where there is no
such provider or it fails. -/
inductive Command where
  | proxyList
  | proxyAdd (name proxyType host : CStr) (port : UInt16) (username password : CStr)
      (checkInterval : UInt32)
  | proxyEdit (id : UInt32) (name proxyType host : CStr) (port : UInt16)
      (username password : CStr) (checkInterval : UInt32) (enabled : Bool)
  | proxyDelete (id : UInt32)
  | proxyTest (id : UInt32)
  | ruleList
  | ruleAdd (name : CStr) (priority : UInt32)
      (matchApp matchDomain matchIp matchPort action : CStr) (proxyId chainId : Int32)
  | ruleEdit (id : UInt32) (name : CStr) (enabled : Bool) (priority : UInt32)
      (matchApp matchDomain matchIp matchPort action : CStr) (proxyId chainId : Int32)
  | ruleDelete (id : UInt32)
  | ruleReorder (ids : List UInt32)
  | chainList
  | chainAdd (name : CStr) (hopProxyIds : List UInt32)
  | chainEdit (id : UInt32) (name : CStr) (hopProxyIds : List UInt32)
  | chainDelete (id : UInt32)
  | chainTest (id : UInt32)
  | configGet (key : CStr)
  | configSet (key value : CStr)
  | credentialsUnlock (password : CStr)
  | credentialsLock
  | systemStatus
  | systemVersion
  | dnsLeakEnable (dnsServer : CStr) (mode : Option CStr)
  | dnsLeakDisable
  | dnsLeakStatus
  | quicBlockEnable
  | quicBlockDisable
  | quicBlockStatus
  | inspectList (sinceSeq : UInt64) (limit : Option UInt32)
  | inspectGet (seq : UInt64)
  | inspectEnable
  | inspectDisable
  | inspectStatus
  | inspectGenerateCa
  | logRecent (sinceSeq : UInt64)
  | listSystemApps
  | providersList
  | providersImport (fetched : Option (List ImportedProxy))

/-- The arguments of one `send_request`. -/
structure Sent (ν : Type) where
  method : String
  params : Cjson ν

/-- `send_request(method, json!({ … }))`. -/
def sent (method : String) (members : List (String × Cjson ν)) : Sent ν :=
  ⟨method, .obj (members.map fun m => (lit m.1, m.2))⟩

variable (d : Doubles ν)

def u32 (n : UInt32) : Cjson ν := .num (d.ofInt n.toNat)

def u64 (n : UInt64) : Cjson ν := .num (d.ofInt n.toNat)

def i32 (n : Int32) : Cjson ν := .num (d.ofInt n.toInt)

def u16 (n : UInt16) : Cjson ν := .num (d.ofInt n.toNat)

/-- One `proxy.add` of an import. -/
def importRequest (p : ImportedProxy) : Sent ν :=
  sent "proxy.add" [("name", .str p.name), ("type", .str p.kind.asStr), ("host", .str p.host),
    ("port", u16 d p.port), ("username", .str p.username), ("password", .str p.password),
    ("check_interval", .num (d.ofInt 60))]

/-- What a command sends, in order. `existing` is the set of hosts and ports an import reads from
the answer to its first request. -/
def Command.requests (existing : List (CStr × UInt64)) : Command → List (Sent ν)
  | .proxyList => [sent "proxy.list" []]
  | .proxyAdd name proxyType host port username password checkInterval =>
    [sent "proxy.add" [("name", .str name), ("type", .str proxyType), ("host", .str host),
      ("port", u16 d port), ("username", .str username), ("password", .str password),
      ("check_interval", u32 d checkInterval)]]
  | .proxyEdit id name proxyType host port username password checkInterval enabled =>
    [sent "proxy.edit" [("id", u32 d id), ("name", .str name), ("type", .str proxyType),
      ("host", .str host), ("port", u16 d port), ("username", .str username),
      ("password", .str password), ("check_interval", u32 d checkInterval),
      ("enabled", .bool enabled)]]
  | .proxyDelete id => [sent "proxy.delete" [("id", u32 d id)]]
  | .proxyTest id => [sent "proxy.test" [("id", u32 d id)]]
  | .ruleList => [sent "rule.list" []]
  | .ruleAdd name priority matchApp matchDomain matchIp matchPort action proxyId chainId =>
    [sent "rule.add" [("name", .str name), ("priority", u32 d priority),
      ("match_app", .str matchApp), ("match_domain", .str matchDomain), ("match_ip", .str matchIp),
      ("match_port", .str matchPort), ("action", .str action), ("proxy_id", i32 d proxyId),
      ("chain_id", i32 d chainId)]]
  | .ruleEdit id name enabled priority matchApp matchDomain matchIp matchPort action proxyId
      chainId =>
    [sent "rule.edit" [("id", u32 d id), ("name", .str name), ("enabled", .bool enabled),
      ("priority", u32 d priority), ("match_app", .str matchApp), ("match_domain", .str matchDomain),
      ("match_ip", .str matchIp), ("match_port", .str matchPort), ("action", .str action),
      ("proxy_id", i32 d proxyId), ("chain_id", i32 d chainId)]]
  | .ruleDelete id => [sent "rule.delete" [("id", u32 d id)]]
  | .ruleReorder ids => [sent "rule.reorder" [("ids", .arr (ids.map (u32 d)))]]
  | .chainList => [sent "chain.list" []]
  | .chainAdd name hopProxyIds =>
    [sent "chain.add" [("name", .str name), ("hop_proxy_ids", .arr (hopProxyIds.map (u32 d)))]]
  | .chainEdit id name hopProxyIds =>
    [sent "chain.edit" [("id", u32 d id), ("name", .str name),
      ("hop_proxy_ids", .arr (hopProxyIds.map (u32 d)))]]
  | .chainDelete id => [sent "chain.delete" [("id", u32 d id)]]
  | .chainTest id => [sent "chain.test" [("id", u32 d id)]]
  | .configGet key => [sent "config.get" [("key", .str key)]]
  | .configSet key value => [sent "config.set" [("key", .str key), ("value", .str value)]]
  | .credentialsUnlock password => [sent "credentials.unlock" [("master_password", .str password)]]
  | .credentialsLock => [sent "credentials.lock" []]
  | .systemStatus => [sent "system.status" []]
  | .systemVersion => [sent "system.version" []]
  | .dnsLeakEnable dnsServer mode =>
    [sent "dns_leak.enable" [("dns_server", .str dnsServer),
      ("mode", .str (mode.getD (lit "force-server")))]]
  | .dnsLeakDisable => [sent "dns_leak.disable" []]
  | .dnsLeakStatus => [sent "dns_leak.status" []]
  | .quicBlockEnable => [sent "quic_block.enable" []]
  | .quicBlockDisable => [sent "quic_block.disable" []]
  | .quicBlockStatus => [sent "quic_block.status" []]
  | .inspectList sinceSeq limit =>
    [sent "inspect.list" [("since_seq", u64 d sinceSeq), ("limit", u32 d (limit.getD 500))]]
  | .inspectGet seq => [sent "inspect.get" [("seq", u64 d seq)]]
  | .inspectEnable => [sent "inspect.enable" []]
  | .inspectDisable => [sent "inspect.disable" []]
  | .inspectStatus => [sent "inspect.status" []]
  | .inspectGenerateCa => [sent "inspect.generate_ca" []]
  | .logRecent sinceSeq => [sent "log.recent" [("since_seq", u64 d sinceSeq)]]
  | .listSystemApps => []
  | .providersList => []
  | .providersImport none => []
  | .providersImport (some imported) =>
    sent "proxy.list" [] ::
      (imported.filter fun p => (p.host, p.port.toUInt64) ∉ existing).map (importRequest d)

/-- A command with a password for the master key. -/
def Command.masterPassword : Command → Option CStr
  | .credentialsUnlock password => some password
  | _ => none

end Proxiflare.Gui
