import KeyBank.Browser.CreateRun
import KeyBank.Browser.KeyReply
import KeyBank.Browser.KeyRequest

/-!
# Browsers and a server

The whole system: the server with its store, any number of create pages and share pages in browsers,
and other clients that request whatever they like. A `World` goes from event to event, in any order:
something happens on a page, a request comes in, a thread of the server makes its next call, a
response or a body arrives, or a connection fails. A thread goes on serving a request whose client
has given up.

What a page sends is turned into a request by the network (`Connection.request`), served by the
handler of the application, and what that writes is read by the page; nothing else passes between
the pages and the server. A link passes from a create page to a share page outside the system: a
share page is opened at any address.
-/

namespace KeyBank

open Interleaving

/-! ### The parts -/

/-- What the application is started with, and the browsers' platform. -/
structure Deployment where
  backend : Backend
  assets : Assets
  handlers : Handlers
  trustXFF : Bool
  platform : Platform

/-- The handler of the application. -/
def Deployment.app (d : Deployment) : Handler :=
  appHandler d.assets decodeCreateKeyRequest d.handlers d.trustXFF

/-- What a request has from elsewhere than the page: the address and the headers it comes with, and
what `generateKey` yields while it is served. -/
structure Connection where
  remoteAddr : GoString
  header : Header
  keyPair : Option KeyPair

/-- A request as it comes in. -/
def Connection.request (conn : Connection) (wire : Wire) : Request where
  method := String.ofList (Utf16.decode wire.method)
  path := textEncode wire.target
  requestURI := textEncode wire.target
  remoteAddr := conn.remoteAddr
  header := conn.header
  body := ⟨wire.body.elim [] textEncode, none⟩
  matched := []
  keyPair := conn.keyPair

instance : Inhabited Request := ⟨bareRequest "GET" "/" none⟩

/-- The bytes of a piece of body. (After an error text an `Encoder` also writes a line break; no
page reads these bodies.) -/
def Content.text : Content → Bytes
  | .bytes b => b
  | .json members => marshalObject members

def Response.bytes (resp : Response) : Bytes := resp.body.flatMap Content.text

/-- Who waits for the response to a request: a call of a page, or somebody else. -/
inductive Client where
  | creator (page call : ℕ)
  | reader (page call : ℕ)
  | other
  deriving DecidableEq

/-- Whether the client reads the body of a response with this status. -/
def Client.reads (status : ℕ) : Client → Bool
  | creator _ _ => (createKeyReply status).toBool
  | reader _ _ =>
    match fetchKeyReply status with
    | .text => true
    | _ => false
  | other => true

/-- How far the client is with a response. -/
inductive ExchangePhase where
  | waiting
  | reading (resp : Response)
  | over
  deriving DecidableEq

/-- A request, what is left of serving it, and who waits for it. -/
structure Exchange where
  client : Client
  request : Request
  prog : Prog Api Exit
  phase : ExchangePhase

/-- A link that a create page has made, and the note that was submitted for it. -/
structure Link where
  note : JSString
  id : JSString
  url : JSString
  deriving DecidableEq

/-- A create page, with the links it has made. -/
structure Creator where
  root : CreateRoot
  page : CreatePage
  made : List Link

/-- A share page. -/
structure Reader where
  root : ShareRoot
  page : SharePage

/-- All of it; `trace` is what has taken effect on the store so far. -/
structure World (d : Deployment) where
  shared : d.backend.State
  trace : List ApiEvent
  exchanges : List Exchange
  creators : List Creator
  readers : List Reader

/-! ### Events -/

/-- What a page learns of its request. -/
inductive Reply where
  | response (status : ℕ)
  | noResponse
  | body (bytes : Bytes)
  | bodyError (e : JSError)

/-- The event of the create page. A body without the properties of a key is not among them. -/
def Reply.createEvent {C : SubtleCrypto} (call : ℕ) : Reply → Option (CreateEvent C)
  | response status => some (.response call status)
  | noResponse => some (.noResponse call)
  | body bytes =>
    match readKeyReply bytes with
    | .ok key => key.map fun key => .json call (.ok key)
    | .error e => some (.json call (.error e))
  | bodyError e => some (.json call (.error e))

/-- The event of the share page. -/
def Reply.shareEvent (call : ℕ) : Reply → ShareEvent
  | response status => .response call status
  | noResponse => .noResponse call
  | body bytes => .body call (textDecode bytes)
  | bodyError e => .bodyError call e

/-- The event is none of the network. -/
def CreateEvent.isLocal {C : SubtleCrypto} : CreateEvent C → Bool
  | .response .. | .noResponse .. | .json .. => false
  | _ => true

def ShareEvent.isLocal : ShareEvent → Bool
  | .response .. | .noResponse .. | .body .. | .bodyError .. => false
  | _ => true

inductive WorldEvent (C : SubtleCrypto) where
  | openCreator (root : CreateRoot) (ledger : Ledger)
  | openReader (root : ShareRoot) (location : URL) (ledger : Ledger)
  /-- Something happens on a page; if it sends a request, this is the connection. -/
  | creator (i : ℕ) (e : CreateEvent C) (conn : Connection)
  | reader (i : ℕ) (e : ShareEvent) (conn : Connection)
  /-- Another client sends a request. -/
  | request (r : Request)
  /-- A thread of the server makes its next call. -/
  | serve (n : ℕ) (env : Env)
  /-- The status and the headers of a response arrive. -/
  | respond (n : ℕ)
  /-- Its body arrives. -/
  | readBody (n : ℕ)
  /-- The connection fails before there is a response. -/
  | lose (n : ℕ)
  /-- It fails, or the page cannot read the body, after that. -/
  | cut (n : ℕ) (e : JSError)

/-! ### Steps -/

/-- The link an event makes. -/
def CreatePage.makes (env : Platform) (root : CreateRoot) (p : CreatePage) :
    CreateEvent env.crypto → Option Link
  | .encrypted call rand _ =>
    match p.submissions[call]? with
    | some (.encrypting plaintext _ key) =>
      match encryptMessage env.crypto rand key.pubPem plaintext >>=
        buildShareURL root.origin key.id with
      | .ok url => some ⟨plaintext, key.id, url⟩
      | .error _ => none
    | _ => none
  | _ => none

/-- The call of the submit handler in which the page sends a request: the one that begins with the
event, or that has waited for the prompt. -/
def CreatePage.sender {C : SubtleCrypto} (p : CreatePage) : CreateEvent C → ℕ
  | .closeDialog _ => p.dialog.listeners.headD 0
  | _ => p.submissions.length

/-- The request a page has sent in a step. No step sends two. -/
def sent (before after : List FetchRequest) : Option FetchRequest :=
  (after.drop before.length).head?

namespace World

variable {d : Deployment} (W : World d)

/-- A request comes in. -/
def post (client : Client) (r : Request) : World d :=
  { W with exchanges := W.exchanges ++ [⟨client, r, d.app .new r, .waiting⟩] }

/-- The request of a page comes in, if it has sent one. -/
def postSent (client : Client) (conn : Connection) (request : Option FetchRequest) : World d :=
  match request with
  | some request => W.post client (conn.request request.wire)
  | none => W

def setCreator (i : ℕ) (c : Creator) : World d := { W with creators := W.creators.set i c }

def setReader (i : ℕ) (r : Reader) : World d := { W with readers := W.readers.set i r }

/-- The client of an exchange is one step further. -/
def setPhase (n : ℕ) (phase : ExchangePhase) : World d :=
  { W with exchanges := W.exchanges.modify n fun ex => { ex with phase := phase } }

/-- The client of an exchange learns of its request. -/
def receive (client : Client) (reply : Reply) : Option (World d) :=
  match client with
  | .other => some W
  | .creator i call =>
    match W.creators[i]?, reply.createEvent call with
    | some c, some e => (c.page.step d.platform c.root e).map fun p =>
      W.setCreator i { c with page := p }
    | _, _ => none
  | .reader i call =>
    match W.readers[i]? with
    | some r => (r.page.step d.platform r.root (reply.shareEvent call)).map fun p =>
      W.setReader i { r with page := p }
    | none => none

/-- A thread calls `c`. -/
def called (n : ℕ) (env : Env) (ex : Exchange) (c : Cmd) (next : c.Reply → Prog Api Exit) :
    World d :=
  let out := d.backend.object.exec env c W.shared
  { W with
    shared := out.2
    trace := W.trace ++ [⟨n, env, c, out.1⟩]
    exchanges := W.exchanges.set n { ex with prog := next out.1 } }

/-- A thread makes its next call. -/
def serve (n : ℕ) (env : Env) : Option (World d) :=
  match W.exchanges[n]? with
  | some ex =>
    match ex.prog with
    | .call c next => some (W.called n env ex c next)
    | .done _ => none
  | none => none

/-- The reply a client gets, and how far it then is. A body it does not read makes no difference to
it. -/
def reply (ex : Exchange) : WorldEvent d.platform.crypto → Option (Reply × ExchangePhase)
  | .respond _ =>
    match ex.phase, ex.prog with
    | .waiting, .done e => (respond ex.request.method e).map fun resp =>
      (.response resp.status, if ex.client.reads resp.status then .reading resp else .over)
    | _, _ => none
  | .readBody _ =>
    match ex.phase with
    | .reading resp => some (.body resp.bytes, .over)
    | _ => none
  | .lose _ => if ex.phase = .waiting then some (.noResponse, .over) else none
  | .cut _ e =>
    match ex.phase with
    | .reading _ => some (.bodyError e, .over)
    | _ => none
  | _ => none

/-- A reply arrives. -/
def replied (n : ℕ) (e : WorldEvent d.platform.crypto) : Option (World d) :=
  match W.exchanges[n]? with
  | some ex =>
    match reply ex e with
    | some (r, phase) => (W.setPhase n phase).receive ex.client r
    | none => none
  | none => none

def step : WorldEvent d.platform.crypto → Option (World d)
  | .openCreator root ledger =>
    some { W with creators := W.creators ++ [⟨root, initCreatePage root ledger, []⟩] }
  | .openReader root location ledger =>
    some { W with readers := W.readers ++ [⟨root, initSharePage d.platform root location ledger⟩] }
  | .creator i e conn =>
    match W.creators[i]? with
    | some c =>
      if e.isLocal then
        (c.page.step d.platform c.root e).map fun p =>
          let made := c.made ++ (c.page.makes d.platform c.root e).toList
          (W.setCreator i ⟨c.root, p, made⟩).postSent (.creator i (c.page.sender e)) conn
            (sent c.page.requests p.requests)
      else none
    | none => none
  | .reader i e conn =>
    match W.readers[i]? with
    | some r =>
      if e.isLocal then
        (r.page.step d.platform r.root e).map fun p =>
          (W.setReader i ⟨r.root, p⟩).postSent (.reader i r.page.handlers.length) conn
            (sent r.page.requests p.requests)
      else none
    | none => none
  | .request r => some (W.post .other r)
  | .serve n env => W.serve n env
  | .respond n => W.replied n (.respond n)
  | .readBody n => W.replied n (.readBody n)
  | .lose n => W.replied n (.lose n)
  | .cut n e => W.replied n (.cut n e)

end World

/-- A server that has just started, and nobody there. -/
def initWorld (d : Deployment) : World d where
  shared := d.backend.init
  trace := []
  exchanges := []
  creators := []
  readers := []

def worldMachine (d : Deployment) : Machine (World d) (WorldEvent d.platform.crypto) where
  step W e := W.step e

/-! ### What an event can do -/

namespace World

variable {d : Deployment}

/-- What a client can learn of its request at some stage. -/
inductive Replies (ex : Exchange) : Reply → ExchangePhase → Prop where
  | response {e : Exit} {resp : Response} (hphase : ex.phase = .waiting) (hprog : ex.prog = .done e)
      (hresp : respond ex.request.method e = some resp) :
    Replies ex (.response resp.status)
      (if ex.client.reads resp.status then .reading resp else .over)
  | noResponse (hphase : ex.phase = .waiting) : Replies ex .noResponse .over
  | body {resp : Response} (hphase : ex.phase = .reading resp) :
    Replies ex (.body resp.bytes) .over
  | bodyError {resp : Response} {e : JSError} (hphase : ex.phase = .reading resp) :
    Replies ex (.bodyError e) .over

/-- What the reply does to the client. -/
inductive Receives (W : World d) : Client → Reply → World d → Prop where
  | other {reply : Reply} : Receives W .other reply W
  | creator {i call : ℕ} {reply : Reply} {c : Creator} {e : CreateEvent d.platform.crypto}
      {p : CreatePage} (hc : W.creators[i]? = some c) (he : reply.createEvent call = some e)
      (hstep : c.page.step d.platform c.root e = some p) :
    Receives W (.creator i call) reply (W.setCreator i { c with page := p })
  | reader {i call : ℕ} {reply : Reply} {r : Reader} {p : SharePage}
      (hr : W.readers[i]? = some r)
      (hstep : r.page.step d.platform r.root (reply.shareEvent call) = some p) :
    Receives W (.reader i call) reply (W.setReader i { r with page := p })

/-- Everything an event can do. -/
inductive Steps (W : World d) : WorldEvent d.platform.crypto → World d → Prop where
  | creatorOpened {root : CreateRoot} {ledger : Ledger} :
    Steps W (.openCreator root ledger)
      { W with creators := W.creators ++ [⟨root, initCreatePage root ledger, []⟩] }
  | readerOpened {root : ShareRoot} {location : URL} {ledger : Ledger} :
    Steps W (.openReader root location ledger)
      { W with readers := W.readers ++ [⟨root, initSharePage d.platform root location ledger⟩] }
  | creator {i : ℕ} {e : CreateEvent d.platform.crypto} {conn : Connection} {c : Creator}
      {p : CreatePage} (hc : W.creators[i]? = some c) (hlocal : e.isLocal = true)
      (hstep : c.page.step d.platform c.root e = some p) :
    Steps W (.creator i e conn)
      ((W.setCreator i ⟨c.root, p, c.made ++ (c.page.makes d.platform c.root e).toList⟩).postSent
        (.creator i (c.page.sender e)) conn (sent c.page.requests p.requests))
  | reader {i : ℕ} {e : ShareEvent} {conn : Connection} {r : Reader} {p : SharePage}
      (hr : W.readers[i]? = some r) (hlocal : e.isLocal = true)
      (hstep : r.page.step d.platform r.root e = some p) :
    Steps W (.reader i e conn) ((W.setReader i ⟨r.root, p⟩).postSent
      (.reader i r.page.handlers.length) conn (sent r.page.requests p.requests))
  | requested {r : Request} : Steps W (.request r) (W.post .other r)
  | served {n : ℕ} {env : Env} {ex : Exchange} {c : Cmd} {next : c.Reply → Prog Api Exit}
      (hn : W.exchanges[n]? = some ex) (hprog : ex.prog = .call c next) :
    Steps W (.serve n env) (W.called n env ex c next)
  | replied {e : WorldEvent d.platform.crypto} {n : ℕ} {ex : Exchange} {reply : Reply}
      {phase : ExchangePhase} {W' : World d} (hn : W.exchanges[n]? = some ex)
      (hreply : Replies ex reply phase)
      (hreceives : (W.setPhase n phase).Receives ex.client reply W') : Steps W e W'

theorem makes_eq_some {env : Platform} {root : CreateRoot} {p : CreatePage}
    {e : CreateEvent env.crypto} {link : Link} (h : p.makes env root e = some link) :
    ∃ call rand qr ttl key, e = .encrypted call rand qr ∧
      p.submissions[call]? = some (.encrypting link.note ttl key) ∧ link.id = key.id ∧
      encryptMessage env.crypto rand key.pubPem link.note >>= buildShareURL root.origin key.id =
        .ok link.url := by
  cases e with
  | encrypted call rand qr =>
    rw [CreatePage.makes] at h
    split at h
    · next note ttl key hcall =>
      split at h
      · next url hurl =>
        cases h
        exact ⟨call, rand, qr, ttl, key, rfl, hcall, rfl, hurl⟩
      · cases h
    · cases h
  | _ => cases h

variable {W W' : World d}

private theorem replies_of_reply {ex : Exchange} {e : WorldEvent d.platform.crypto} {r : Reply}
    {phase : ExchangePhase} (h : reply ex e = some (r, phase)) : Replies ex r phase := by
  unfold reply at h
  split at h
  · split at h
    · next hphase hprog =>
      obtain ⟨resp, hresp, heq⟩ := Option.map_eq_some_iff.mp h
      obtain ⟨rfl, rfl⟩ := Prod.mk.inj heq
      exact .response hphase hprog hresp
    · cases h
  · split at h
    · next hphase =>
      cases h
      exact .body hphase
    · cases h
  · split at h
    · next hphase =>
      cases h
      exact .noResponse hphase
    · cases h
  · split at h
    · next hphase =>
      cases h
      exact .bodyError hphase
    · cases h
  · cases h

private theorem receives_of_receive {client : Client} {r : Reply}
    (h : W.receive client r = some W') : W.Receives client r W' := by
  unfold receive at h
  split at h
  · cases h
    exact .other
  · split at h
    · next hc he =>
      obtain ⟨p, hstep, rfl⟩ := Option.map_eq_some_iff.mp h
      exact .creator hc he hstep
    · cases h
  · split at h
    · next hr =>
      obtain ⟨p, hstep, rfl⟩ := Option.map_eq_some_iff.mp h
      exact .reader hr hstep
    · cases h

private theorem steps_replied {n : ℕ} {e e' : WorldEvent d.platform.crypto}
    (h : W.replied n e = some W') : W.Steps e' W' := by
  unfold replied at h
  split at h
  · next ex hn =>
    split at h
    · next hreply => exact .replied hn (replies_of_reply hreply) (receives_of_receive h)
    · cases h
  · cases h

/-- **Inversion.** A step does one of these things. -/
theorem steps_of_step {e : WorldEvent d.platform.crypto} (h : W.step e = some W') :
    W.Steps e W' := by
  cases e with
  | openCreator root ledger =>
    cases h
    exact .creatorOpened
  | openReader root location ledger =>
    cases h
    exact .readerOpened
  | creator i e conn =>
    rw [step] at h
    split at h
    · next c hc =>
      split at h
      · next hlocal =>
        obtain ⟨p, hstep, rfl⟩ := Option.map_eq_some_iff.mp h
        exact .creator hc hlocal hstep
      · cases h
    · cases h
  | reader i e conn =>
    rw [step] at h
    split at h
    · next r hr =>
      split at h
      · next hlocal =>
        obtain ⟨p, hstep, rfl⟩ := Option.map_eq_some_iff.mp h
        exact .reader hr hlocal hstep
      · cases h
    · cases h
  | request r =>
    cases h
    exact .requested
  | serve n env =>
    rw [step, serve] at h
    split at h
    · next ex hn =>
      split at h
      · next hprog =>
        cases h
        exact .served hn hprog
      · cases h
    · cases h
  | respond n => exact steps_replied h
  | readBody n => exact steps_replied h
  | lose n => exact steps_replied h
  | cut n e => exact steps_replied h

end World

end KeyBank
