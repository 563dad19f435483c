import Proxiflare.Lib.CString
import Proxiflare.Lib.Runs
import Proxiflare.Lib.FirstMatch
import Proxiflare.Lib.Act
import Proxiflare.Lib.Ledger
import Proxiflare.Lib.Pieces
import Proxiflare.Lib.Enumerates
import Proxiflare.Lib.DropOldest
import Proxiflare.Lib.WriteRing
import Proxiflare.Lib.KeyedSlots
import Proxiflare.Lib.Lines
import Proxiflare.Lib.Occupancy
import Proxiflare.Lib.HttpRequest
import Proxiflare.Lib.Utf8
import Proxiflare.Lib.JsonText
import Proxiflare.Lib.ClientHello
import Proxiflare.Lib.Pattern
import Proxiflare.Lib.HttpText
import Proxiflare.Lib.Keyed
import Proxiflare.Lib.Tally
import Proxiflare.Lib.ProxyServer
import Proxiflare.Lib.Aead
import Proxiflare.Lib.Base64
import Proxiflare.Lib.ProbeTable
import Proxiflare.Lib.View
import Proxiflare.Lib.Glob
import Proxiflare.Lib.Ipv4
import Proxiflare.Lib.GapFeed
import Proxiflare.Lib.UrlForm
import Proxiflare.Lib.StringLiteral
import Proxiflare.Lib.ShellWords
import Proxiflare.Lib.PhpTokens
import Proxiflare.Lib.GoStrings
import Proxiflare.Lib.RustStrings
import Proxiflare.Lib.HttpUrl
import Proxiflare.Lib.JsonValue
import Proxiflare.Lib.LastWins
import Proxiflare.Lib.JsonDoc
import Proxiflare.Lib.Handles
import Proxiflare.Lib.Netlink
import Proxiflare.Lib.CBody
import Proxiflare.Lib.Files
import Proxiflare.Daemon.Types
import Proxiflare.Daemon.Libc
import Proxiflare.Daemon.Rules
import Proxiflare.Daemon.Config
import Proxiflare.Daemon.Net
import Proxiflare.Daemon.Connectors
import Proxiflare.Daemon.Handshakes
import Proxiflare.Daemon.Dialogues
import Proxiflare.Daemon.ChainWire
import Proxiflare.Daemon.Tproxy
import Proxiflare.Daemon.Routing
import Proxiflare.Daemon.ConnThreads
import Proxiflare.Daemon.RelayEvents
import Proxiflare.Daemon.Nft
import Proxiflare.Daemon.Json
import Proxiflare.Daemon.Requests
import Proxiflare.Daemon.Reload
import Proxiflare.Daemon.Tables
import Proxiflare.Daemon.Sessions
import Proxiflare.Daemon.Cgroups
import Proxiflare.Daemon.Mutations
import Proxiflare.Daemon.CaptureQueue
import Proxiflare.Daemon.CaptureWorker
import Proxiflare.Daemon.Cjson
import Proxiflare.Daemon.Ipc
import Proxiflare.Daemon.PrintedJson
import Proxiflare.Daemon.Sni
import Proxiflare.Daemon.Http
import Proxiflare.Daemon.Captures
import Proxiflare.Daemon.CaptureEntry
import Proxiflare.Daemon.DnsResolver
import Proxiflare.Daemon.Dns
import Proxiflare.Daemon.DnsWrites
import Proxiflare.Daemon.DnsPackets
import Proxiflare.Daemon.DnsLeak
import Proxiflare.Daemon.Crypto
import Proxiflare.Daemon.CryptoMemory
import Proxiflare.Daemon.Credentials
import Proxiflare.Daemon.CertCache
import Proxiflare.Daemon.Mitm
import Proxiflare.Daemon.CaptureRing
import Proxiflare.Daemon.Handler
import Proxiflare.Daemon.Redaction
import Proxiflare.Daemon.Fnmatch
import Proxiflare.Daemon.Addresses
import Proxiflare.Daemon.LogRing
import Proxiflare.Daemon.Stats
import Proxiflare.Daemon.Logger
import Proxiflare.Daemon.SniMemory
import Proxiflare.Daemon.DnsMemory
import Proxiflare.Daemon.DohExchange
import Proxiflare.Daemon.HttpMemory
import Proxiflare.Daemon.ConnectMemory
import Proxiflare.Daemon.ConnectorExits
import Proxiflare.Daemon.CjsonParse
import Proxiflare.Daemon.SshPool
import Proxiflare.Daemon.Monitor
import Proxiflare.Gui.DaemonClient
import Proxiflare.Gui.ReadJson
import Proxiflare.Gui.InspectPage
import Proxiflare.Gui.Commands
import Proxiflare.Gui.ProvidersImport
import Proxiflare.Gui.UseLog
import Proxiflare.Gui.Har
import Proxiflare.Gui.Snippets
import Proxiflare.Gui.SnippetTargets
import Proxiflare.Guarantees.FailClosed
import Proxiflare.Guarantees.RuleDecision
import Proxiflare.Guarantees.ByteStream
import Proxiflare.Guarantees.HalfClose
import Proxiflare.Guarantees.Plaintext
import Proxiflare.Guarantees.SlotOwnership
import Proxiflare.Guarantees.CaptureFifo
import Proxiflare.Guarantees.ExecCoverage
import Proxiflare.Guarantees.EditCoverage
import Proxiflare.Guarantees.ReloadAtomicity
import Proxiflare.Guarantees.LineFraming
import Proxiflare.Guarantees.ClientSlots
import Proxiflare.Guarantees.OutboundFraming
import Proxiflare.Guarantees.ReplyPairing
import Proxiflare.Guarantees.ReadableReplies
import Proxiflare.Guarantees.BodyLengths
import Proxiflare.Guarantees.ErrorEnvelope
import Proxiflare.Guarantees.MarkRemoval
import Proxiflare.Guarantees.MarkMirror
import Proxiflare.Guarantees.DisabledProxy
import Proxiflare.Guarantees.SocksReplies
import Proxiflare.Guarantees.TunnelHandover
import Proxiflare.Guarantees.ConnectIntegrity
import Proxiflare.Guarantees.ResolverCache
import Proxiflare.Guarantees.ResolverKeys
import Proxiflare.Guarantees.CaptureWakeups
import Proxiflare.Guarantees.CacheNames
import Proxiflare.Guarantees.BindingPersistence
import Proxiflare.Guarantees.AnswersKnown
import Proxiflare.Guarantees.SniRoundTrip
import Proxiflare.Guarantees.HttpRoundTrip
import Proxiflare.Guarantees.StoredRecords
import Proxiflare.Guarantees.ChainAtomicity
import Proxiflare.Guarantees.PartialEdits
import Proxiflare.Guarantees.SubmittedHops
import Proxiflare.Guarantees.RuleAtomicity
import Proxiflare.Guarantees.RuleOrder
import Proxiflare.Guarantees.ReloadedRules
import Proxiflare.Guarantees.DomainLists
import Proxiflare.Guarantees.PlaintextEscapes
import Proxiflare.Guarantees.PortPatterns
import Proxiflare.Guarantees.OneHopChain
import Proxiflare.Guarantees.ProxyNetwork
import Proxiflare.Guarantees.ChainTunnel
import Proxiflare.Guarantees.DnsLeakStatus
import Proxiflare.Guarantees.MitmFallback
import Proxiflare.Guarantees.CertCacheIntegrity
import Proxiflare.Guarantees.CertCacheRecency
import Proxiflare.Guarantees.CryptoLock
import Proxiflare.Guarantees.EncryptionRoundTrip
import Proxiflare.Guarantees.UnlockAuthentication
import Proxiflare.Guarantees.LockedCredentials
import Proxiflare.Guarantees.CommandParameters
import Proxiflare.Guarantees.InspectPolling
import Proxiflare.Guarantees.CaptureSegmentation
import Proxiflare.Guarantees.IrrelevantRules
import Proxiflare.Guarantees.HopLookup
import Proxiflare.Guarantees.CommaLists
import Proxiflare.Guarantees.PathPatterns
import Proxiflare.Guarantees.IpPatterns
import Proxiflare.Guarantees.CidrRanges
import Proxiflare.Guarantees.WildcardBranches
import Proxiflare.Guarantees.FullHostNames
import Proxiflare.Guarantees.LogGaps
import Proxiflare.Guarantees.SnippetBodies
import Proxiflare.Guarantees.SniBounds
import Proxiflare.Guarantees.FirstRecord
import Proxiflare.Guarantees.DnsBounds
import Proxiflare.Guarantees.MalformedNames
import Proxiflare.Guarantees.DohChunks
import Proxiflare.Guarantees.HttpBounds
import Proxiflare.Guarantees.ConnectGuards
import Proxiflare.Guarantees.OpenSockets
import Proxiflare.Guarantees.CurlCommand
import Proxiflare.Guarantees.NowdocBodies
import Proxiflare.Guarantees.GoBodies
import Proxiflare.Guarantees.CapturedUrls
import Proxiflare.Guarantees.CapturedHeaders
import Proxiflare.Guarantees.StatsTotals
import Proxiflare.Guarantees.LogRotation
import Proxiflare.Guarantees.SnippetTotality
import Proxiflare.Guarantees.RustBodies
import Proxiflare.Guarantees.CredentialsText
import Proxiflare.Guarantees.ImportBatches
import Proxiflare.Guarantees.RingWindows
import Proxiflare.Guarantees.JsonTexts
import Proxiflare.Guarantees.ParsedLines
import Proxiflare.Guarantees.SshSessions
import Proxiflare.Guarantees.ProcessEvents
