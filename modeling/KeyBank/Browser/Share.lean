import KeyBank.Browser.Api
import KeyBank.Foundation.Machine

/-!
# The share page

`initSharePage` of `static/share.js`, as a machine driven by events: the user's clicks and
navigations, the `hashchange` events these give rise to, and what becomes of the promises the click
handler waits for. A call of the handler is cut at its `await`s, and every event runs one piece to
its end, as the event loop of a browser does. Several calls may be under way; that there is never
more than one is proved, not assumed.

`SharePage.Steps` lists everything an event can do (`steps_of_step`).
-/

namespace KeyBank

/-- `card.dataset.state`; `opened` is `"open"`. -/
inductive CardState where
  | ready | working | opened | spent | invalid
  deriving DecidableEq

/-- What a call of the click handler is waiting for. -/
inductive ClickHandler where
  /-- The reply to its key request, which is this entry of the ledger. -/
  | fetching (entry : ℕ)
  /-- The body of a reply with this status. -/
  | reading (status : ℕ)
  /-- `decryptMessage` on these arguments. -/
  | decrypting (privPem : JSString) (f : Fragment)
  | returned
  deriving DecidableEq

/-- What the template puts on the page. -/
structure ShareRoot where
  shareID : JSString
  readyMessage : JSString

/-- What the page shows, and does not read back. -/
structure ShareView where
  status : Status
  anatomy : Anatomy
  ledger : Ledger

/-- The page, its variable `fragment`, and the calls of its click handler. -/
structure SharePage where
  location : URL
  /-- `hashchange` events that have been dispatched and not yet handled. -/
  hashChanges : ℕ
  card : CardState
  /-- `button.disabled`. -/
  disabled : Bool
  fragment : Option Fragment
  handlers : List ClickHandler
  /-- The calls of `fetch` so far. -/
  requests : List FetchRequest
  /-- The calls of `reveal` so far. -/
  revealed : List JSString
  view : ShareView

inductive ShareEvent where
  | click
  /-- The fragment of the address changes: by a link, by the history or in the address bar. -/
  | navigate (fragment : Option JSString)
  | hashchange
  | response (call status : ℕ)
  | noResponse (call : ℕ)
  | body (call : ℕ) (text : JSString)
  | bodyError (call : ℕ) (e : JSError)
  | decrypted (call : ℕ)

namespace SharePage

variable (env : Platform) (root : ShareRoot) (p : SharePage)

/-- `setState`. -/
def setState (state : CardState) : SharePage := { p with card := state, disabled := state ≠ .ready }

/-- `setStatus`. -/
def setStatus (message : JSString) (state : StatusState) : SharePage :=
  { p with view := { p.view with status := ⟨message, state⟩ } }

/-- `inspectLink`. -/
def inspectLink : SharePage :=
  let p := { p with view := { p.view with anatomy := renderAnatomy env p.location } }
  match parseFragment p.location.hash with
  | .ok f => ({ p with fragment := some f }.setState .ready).setStatus root.readyMessage .idle
  | .error e => ({ p with fragment := none }.setState .invalid).setStatus e.message .error

/-- A call of the click handler goes on waiting, or returns. -/
def resume (call : ℕ) (h : ClickHandler) : SharePage :=
  { p with handlers := p.handlers.set call h }

/-- The request failed: the first `catch` of the click handler. -/
def fail (call : ℕ) (e : JSError) : SharePage :=
  ((p.setState .ready).setStatus e.message .error).resume call .returned

/-- The note is lost. -/
def spend (call : ℕ) (message : String) : SharePage :=
  ((p.setState .spent).setStatus (js message) .error).resume call .returned

def noteGone : String :=
  "This note has already been opened or expired. If you did not open it yourself, someone else may have: ask the sender for a new link."

def unableToDecrypt : String :=
  "Unable to decrypt this link. The encrypted fragment may be corrupted or tampered with."

/-- The click handler up to its first `await`. -/
def onClick : SharePage :=
  if p.fragment = none ∨ root.shareID = [] then p
  else
    let p := (p.setState .working).setStatus (js "Fetching the one-time private key…") .working
    match fetchKeyRequest root.shareID with
    | .ok request =>
      { p with
        handlers := p.handlers ++ [.fetching p.view.ledger.length]
        requests := p.requests ++ [request]
        view := { p.view with ledger := p.view.ledger.send request } }
    -- Nothing has been sent: `fetchKey` rejects at once.
    | .error e =>
      { (p.setState .ready).setStatus e.message .error with
        handlers := p.handlers ++ [.returned] }

/-- The listener for `hashchange`. -/
def onHashchange : SharePage :=
  if p.card = .ready ∨ p.card = .invalid then p.inspectLink env root else p

/-- The reply is shown in the ledger. -/
def settle (entry : ℕ) (reply : JSString) : SharePage :=
  { p with view := { p.view with ledger := p.view.ledger.settle entry reply } }

def onResponse (call entry status : ℕ) : SharePage :=
  let p := p.settle entry (describeReply describeFetch status)
  match fetchKeyReply status with
  | .null => p.spend call noteGone
  | .text => p.resume call (.reading status)
  | .throw e => p.fail call e

def onNoResponse (call entry : ℕ) : SharePage :=
  (p.settle entry (js "No response")).fail call unreachable

/-- The private key has arrived. `fragment` is read now, not when the button was clicked. -/
def onBody (call : ℕ) (text : JSString) : SharePage :=
  match p.fragment with
  | some f => p.resume call (.decrypting text f)
  | none => p.spend call unableToDecrypt

def onDecrypted (call : ℕ) (privPem : JSString) (f : Fragment) : SharePage :=
  match decryptMessage env.crypto privPem f.wrapped f.iv f.ct with
  | .ok plaintext =>
    ({ p.setState .opened with revealed := p.revealed ++ [plaintext] }.setStatus
      (js "Plaintext decrypted locally. The private key has already been destroyed server-side.")
      .success).resume call .returned
  | .error _ => p.spend call unableToDecrypt

/-- The fragment of the address is replaced; a change is announced by a `hashchange` event. -/
def navigate (fragment : Option JSString) : SharePage :=
  if fragment = p.location.fragment then p
  else { p with
    location := { p.location with fragment := fragment }
    hashChanges := p.hashChanges + 1 }

/-- One event. A disabled button dispatches no click. -/
def step : ShareEvent → Option SharePage
  | .click => if p.disabled then none else some (p.onClick root)
  | .navigate fragment => some (p.navigate fragment)
  | .hashchange =>
    if p.hashChanges = 0 then none
    else some ({ p with hashChanges := p.hashChanges - 1 }.onHashchange env root)
  | .response call status =>
    match p.handlers[call]? with
    | some (.fetching entry) => some (p.onResponse call entry status)
    | _ => none
  | .noResponse call =>
    match p.handlers[call]? with
    | some (.fetching entry) => some (p.onNoResponse call entry)
    | _ => none
  | .body call text =>
    match p.handlers[call]? with
    | some (.reading _) => some (p.onBody call text)
    | _ => none
  | .bodyError call e =>
    match p.handlers[call]? with
    | some (.reading _) => some (p.fail call e)
    | _ => none
  | .decrypted call =>
    match p.handlers[call]? with
    | some (.decrypting privPem f) => some (p.onDecrypted env call privPem f)
    | _ => none

end SharePage

/-- `initSharePage`, at the end of the page's script. -/
def initSharePage (env : Platform) (root : ShareRoot) (location : URL) (ledger : Ledger) :
    SharePage :=
  SharePage.inspectLink env root {
    location := location
    hashChanges := 0
    card := .ready
    disabled := false
    fragment := none
    handlers := []
    requests := []
    revealed := []
    view := ⟨⟨root.readyMessage, .idle⟩, ⟨[], [], []⟩, ledger⟩ }

/-- The share page as a machine. -/
def shareMachine (env : Platform) (root : ShareRoot) : Machine SharePage ShareEvent where
  step p e := p.step env root e

/-! ### What an event can do -/

namespace SharePage

/-- A call of the click handler has failed. -/
def failed (p : SharePage) (call : ℕ) (view : ShareView) : SharePage :=
  { p with
    card := .ready
    disabled := false
    handlers := p.handlers.set call .returned
    view := view }

/-- The note is lost. -/
def spent (p : SharePage) (call : ℕ) (view : ShareView) : SharePage :=
  { p with
    card := .spent
    disabled := true
    handlers := p.handlers.set call .returned
    view := view }

/-- Everything an event can do, up to what is shown. -/
inductive Steps (env : Platform) (root : ShareRoot) (p : SharePage) :
    ShareEvent → SharePage → Prop where
  | ignored (hd : p.disabled = false) (h : p.fragment = none ∨ root.shareID = []) :
    Steps env root p .click p
  | sent {f : Fragment} {request : FetchRequest} {entry : ℕ} {view : ShareView}
      (hd : p.disabled = false) (hf : p.fragment = some f)
      (hrequest : fetchKeyRequest root.shareID = .ok request) (hid : root.shareID ≠ []) :
    Steps env root p .click { p with
      card := .working
      disabled := true
      handlers := p.handlers ++ [.fetching entry]
      requests := p.requests ++ [request]
      view := view }
  | unsent {f : Fragment} {e : JSError} {view : ShareView} (hd : p.disabled = false)
      (hf : p.fragment = some f) (hrequest : fetchKeyRequest root.shareID = .error e)
      (hid : root.shareID ≠ []) :
    Steps env root p .click { p with
      card := .ready
      disabled := false
      handlers := p.handlers ++ [.returned]
      view := view }
  | stayed : Steps env root p (.navigate p.location.fragment) p
  | navigated {fragment : Option JSString} (h : fragment ≠ p.location.fragment) :
    Steps env root p (.navigate fragment) { p with
      location := { p.location with fragment := fragment }
      hashChanges := p.hashChanges + 1 }
  | accepted {n : ℕ} {f : Fragment} {view : ShareView} (hn : p.hashChanges = n + 1)
      (hcard : p.card = .ready ∨ p.card = .invalid)
      (hparse : parseFragment p.location.hash = .ok f) :
    Steps env root p .hashchange { p with
      hashChanges := n
      card := .ready
      disabled := false
      fragment := some f
      view := view }
  | rejected {n : ℕ} {e : JSError} {view : ShareView} (hn : p.hashChanges = n + 1)
      (hcard : p.card = .ready ∨ p.card = .invalid)
      (hparse : parseFragment p.location.hash = .error e) :
    Steps env root p .hashchange { p with
      hashChanges := n
      card := .invalid
      disabled := true
      fragment := none
      view := view }
  | overlooked {n : ℕ} (hn : p.hashChanges = n + 1) (hcard : ¬(p.card = .ready ∨ p.card = .invalid)) :
    Steps env root p .hashchange { p with hashChanges := n }
  | answered {call entry status : ℕ} {view : ShareView}
      (hcall : p.handlers[call]? = some (.fetching entry)) (hreply : fetchKeyReply status = .text) :
    Steps env root p (.response call status) { p with
      handlers := p.handlers.set call (.reading status)
      view := view }
  | gone {call entry status : ℕ} {view : ShareView}
      (hcall : p.handlers[call]? = some (.fetching entry)) (hreply : fetchKeyReply status = .null) :
    Steps env root p (.response call status) (p.spent call view)
  | refused {call entry status : ℕ} {e : JSError} {view : ShareView}
      (hcall : p.handlers[call]? = some (.fetching entry))
      (hreply : fetchKeyReply status = .throw e) :
    Steps env root p (.response call status) (p.failed call view)
  | lost {call entry : ℕ} {view : ShareView} (hcall : p.handlers[call]? = some (.fetching entry)) :
    Steps env root p (.noResponse call) (p.failed call view)
  | unread {call status : ℕ} {e : JSError} {view : ShareView}
      (hcall : p.handlers[call]? = some (.reading status)) :
    Steps env root p (.bodyError call e) (p.failed call view)
  | decrypting {call status : ℕ} {text : JSString} {f : Fragment}
      (hcall : p.handlers[call]? = some (.reading status)) (hf : p.fragment = some f) :
    Steps env root p (.body call text) { p with
      handlers := p.handlers.set call (.decrypting text f) }
  | undecryptable {call status : ℕ} {text : JSString} {view : ShareView}
      (hcall : p.handlers[call]? = some (.reading status)) (hf : p.fragment = none) :
    Steps env root p (.body call text) (p.spent call view)
  | decrypted {call : ℕ} {privPem plaintext : JSString} {f : Fragment} {view : ShareView}
      (hcall : p.handlers[call]? = some (.decrypting privPem f))
      (hresult : decryptMessage env.crypto privPem f.wrapped f.iv f.ct = .ok plaintext) :
    Steps env root p (.decrypted call) { p with
      card := .opened
      disabled := true
      handlers := p.handlers.set call .returned
      revealed := p.revealed ++ [plaintext]
      view := view }
  | garbled {call : ℕ} {privPem : JSString} {f : Fragment} {e : JSError} {view : ShareView}
      (hcall : p.handlers[call]? = some (.decrypting privPem f))
      (hresult : decryptMessage env.crypto privPem f.wrapped f.iv f.ct = .error e) :
    Steps env root p (.decrypted call) (p.spent call view)

variable {env : Platform} {root : ShareRoot} {p p' : SharePage} {e : ShareEvent}

private theorem steps_click (h : p.step env root .click = some p') :
    Steps env root p .click p' := by
  rw [step] at h
  split at h
  · exact absurd h nofun
  next hd =>
  rw [Bool.not_eq_true] at hd
  obtain rfl := Option.some.inj h
  rw [onClick]
  split
  · next hidle => exact .ignored hd hidle
  next hbusy =>
  rw [not_or] at hbusy
  obtain ⟨f, hf⟩ := Option.ne_none_iff_exists'.mp hbusy.1
  split
  · next request hrequest => exact .sent hd hf hrequest hbusy.2
  · next e hrequest => exact .unsent hd hf hrequest hbusy.2

private theorem steps_hashchange (h : p.step env root .hashchange = some p') :
    Steps env root p .hashchange p' := by
  rw [step] at h
  split at h
  · exact absurd h nofun
  next hn =>
  obtain ⟨n, hn⟩ := Nat.exists_eq_succ_of_ne_zero hn
  obtain rfl := Option.some.inj h
  rw [onHashchange]
  split
  · next hcard =>
    simp only [inspectLink, hn, Nat.succ_eq_add_one, Nat.add_sub_cancel]
    split
    · next f hparse => exact .accepted hn hcard hparse
    · next e hparse => exact .rejected hn hcard hparse
  · next hcard =>
    rw [hn]
    exact .overlooked hn hcard

private theorem steps_navigate {fragment : Option JSString}
    (h : p.step env root (.navigate fragment) = some p') :
    Steps env root p (.navigate fragment) p' := by
  obtain rfl := Option.some.inj h
  rw [navigate]
  split
  · next hfragment =>
    rw [hfragment]
    exact .stayed
  · next hfragment => exact .navigated hfragment

/-- **Inversion.** A step does one of these things. -/
theorem steps_of_step (h : p.step env root e = some p') : Steps env root p e p' := by
  cases e with
  | click => exact steps_click h
  | navigate fragment => exact steps_navigate h
  | hashchange => exact steps_hashchange h
  | response call status =>
    rw [step] at h
    split at h
    · next entry hcall =>
      obtain rfl := Option.some.inj h
      rw [onResponse]
      split
      · next hreply => exact .gone hcall hreply
      · next hreply => exact .answered hcall hreply
      · next e hreply => exact .refused hcall hreply
    · exact absurd h nofun
  | noResponse call =>
    rw [step] at h
    split at h
    · next entry hcall =>
      obtain rfl := Option.some.inj h
      exact .lost hcall
    · exact absurd h nofun
  | body call text =>
    rw [step] at h
    split at h
    · next status hcall =>
      obtain rfl := Option.some.inj h
      rw [onBody]
      split
      · next f hf => exact .decrypting hcall hf
      · next hf => exact .undecryptable hcall hf
    · exact absurd h nofun
  | bodyError call e =>
    rw [step] at h
    split at h
    · next status hcall =>
      obtain rfl := Option.some.inj h
      exact .unread hcall
    · exact absurd h nofun
  | decrypted call =>
    rw [step] at h
    split at h
    · next privPem f hcall =>
      obtain rfl := Option.some.inj h
      rw [onDecrypted]
      split
      · next plaintext hresult => exact .decrypted hcall hresult
      · next e hresult => exact .garbled hcall hresult
    · exact absurd h nofun

end SharePage

end KeyBank
