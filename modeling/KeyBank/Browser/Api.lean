import KeyBank.Browser.Ui

/-!
# Requests to KeyBank

`static/api.js`. A call of `fetch` is a `FetchRequest`; the page's ledger shows what was handed to
it. An asynchronous function is cut where it waits: `createKey` and `fetchKey` are given by the
request they send and by what they do with the status of the reply.
-/

namespace KeyBank

/-- What is handed to `fetch`. -/
structure FetchRequest where
  method : JSString
  path : JSString
  headers : List (JSString × JSString)
  body : Option JSString
  deriving DecidableEq

/-! ### The ledger -/

structure LedgerEntry where
  method : JSString
  path : JSString
  sent : JSString
  /-- Whether the text sent is a request body. -/
  literal : Bool
  received : JSString
  deriving DecidableEq

abbrev Ledger : Type := List LedgerEntry

namespace Ledger

/-- `ledger.record`: the callback it returns is `settle` at the entry added. -/
def record (ledger : Ledger) (method path : JSString) (body note : Option JSString) : Ledger :=
  ledger ++ [{
    method := method
    path := path
    sent := body.getD (note.getD (js "Nothing but the address"))
    literal := body.isSome
    received := js "Waiting…" }]

/-- The reply is filled in. -/
def settle (ledger : Ledger) (entry : ℕ) (reply : JSString) : Ledger :=
  ledger.modify entry fun e => { e with received := reply }

/-- The first half of `send`: the request is recorded and sent. -/
def send (ledger : Ledger) (request : FetchRequest) : Ledger :=
  ledger.record request.method request.path request.body none

end Ledger

/-- What `send` shows for a reply. -/
def describeReply (describe : ℕ → String) (status : ℕ) : JSString :=
  js (toString status) ++ js " · " ++ js (describe status)

/-- What `send` throws when there is no reply. -/
def unreachable : JSError :=
  .error (js "Could not reach KeyBank. Check your connection and try again.")

def failureMessages : ℕ → Option JSString
  | 400 => some (js "KeyBank rejected that expiry. Pick another and try again.")
  | 413 => some (js "The request was too large.")
  | 429 => some (js "Too many requests. Wait a moment and try again.")
  | _ => none

/-- `response.ok`. -/
def isOkStatus (status : ℕ) : Bool := 200 ≤ status && status ≤ 299

/-! ### `createKey` -/

/-- `JSON.stringify({ ttl })` for a whole number. -/
def ttlBody (ttl : ℕ) : JSString := js "\x7b\"ttl\":" ++ js (toString ttl) ++ js "\x7d"

/-- The request of `createKey`. -/
def createKeyRequest (ttl : ℕ) : FetchRequest where
  method := js "POST"
  path := js "/api/keys"
  headers := [(js "Content-Type", js "application/json")]
  body := some (ttlBody ttl)

def describeCreate (status : ℕ) : String :=
  if status = 201 then "a key ID and a public key" else "an error, no key"

/-- What `createKey` does with a reply: read the body as JSON, or throw. -/
def createKeyReply (status : ℕ) : Except JSError Unit :=
  if isOkStatus status then .ok ()
  else .error (.error ((failureMessages status).getD
    (js "KeyBank could not create a key. Try again shortly.")))

/-! ### `fetchKey` -/

/-- The request of `fetchKey`. -/
def fetchKeyRequest (id : JSString) : Except JSError FetchRequest := do
  return {
    method := js "GET"
    path := js "/api/keys/" ++ (← encodeURIComponent id)
    headers := []
    body := none }

def describeFetch (status : ℕ) : String :=
  if status = 200 then "the private key, now deleted from KeyBank"
  else if status = 404 then "nothing: already opened or expired"
  else "an error"

/-- What `fetchKey` does with a reply: resolve to `null`, read the body, or throw. -/
inductive FetchKeyReply where
  | null
  | text
  | throw (e : JSError)

def fetchKeyReply (status : ℕ) : FetchKeyReply :=
  if status = 404 then .null
  else if isOkStatus status then .text
  else .throw (.error ((failureMessages status).getD (js "Fetching the private key failed.")))

end KeyBank
