import KeyBank.Foundation.Interleaving
import KeyBank.Foundation.TTLMap
import KeyBank.Foundation.FixedWindow
import KeyBank.Server.Go
import KeyBank.Server.Redis
import KeyBank.Server.Store
import KeyBank.Server.RateLimit
import KeyBank.Server.Backend
import KeyBank.Foundation.ServeMux
import KeyBank.Server.Http
import KeyBank.Server.RemoteIP
import KeyBank.Server.Middleware
import KeyBank.Server.Identity
import KeyBank.Server.Handlers
import KeyBank.Server.Config
import KeyBank.Server.App
import KeyBank.Server.VaultRun
import KeyBank.Server.OneTime
import KeyBank.Server.Quota
import KeyBank.Server.LimiterRun
import KeyBank.Server.Lifetime
import KeyBank.Server.Custody
import KeyBank.Server.Creation
import KeyBank.Server.Refinement
import KeyBank.Server.Routes
import KeyBank.Server.Outages
import KeyBank.Server.Hardening
import KeyBank.Foundation.Json
import KeyBank.Server.RequestBody
import KeyBank.Server.Marshal
import KeyBank.Foundation.Utf16
import KeyBank.Foundation.Utf8
import KeyBank.Foundation.Base64
import KeyBank.Foundation.Occurrence
import KeyBank.Foundation.UrlText
import KeyBank.Foundation.Machine
import KeyBank.Foundation.Calls
import KeyBank.Browser.JS
import KeyBank.Browser.Number
import KeyBank.Browser.Crypto
import KeyBank.Browser.Pem
import KeyBank.Browser.Link
import KeyBank.Browser.RoundTrip
import KeyBank.Browser.Wire
import KeyBank.Browser.Ui
import KeyBank.Browser.Expiry
import KeyBank.Browser.Api
import KeyBank.Browser.Create
import KeyBank.Browser.CreateRun
import KeyBank.Browser.ExpiryRun
import KeyBank.Browser.Share
import KeyBank.Browser.ShareRun
import KeyBank.Browser.SizePrompt
import KeyBank.Browser.LinkLength
import KeyBank.Browser.Reveal
import KeyBank.Browser.Spent
import KeyBank.Browser.AddressBar
import KeyBank.Browser.ZeroKnowledge
import KeyBank.Browser.Traffic
import KeyBank.Browser.Agreement
import KeyBank.Browser.KeyRequest
import KeyBank.Browser.KeyReply
import KeyBank.Browser.CopyFeedback
import KeyBank.System.Pages
import KeyBank.System.World
import KeyBank.System.Answers
import KeyBank.System.Journal
import KeyBank.System.Delivery
import KeyBank.System.Opening
import KeyBank.Foundation.Mutex
import KeyBank.Server.MemMutex
import KeyBank.Foundation.Framing
import KeyBank.Server.RedisProto
import KeyBank.Server.RedisConn
import KeyBank.Server.RedisWire
import KeyBank.Server.InternalStore
import KeyBank.Foundation.Mutex
import KeyBank.Server.MemMutex
import KeyBank.Foundation.Html
