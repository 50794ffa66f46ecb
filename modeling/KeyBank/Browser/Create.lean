import KeyBank.Browser.Api
import KeyBank.Browser.Expiry
import KeyBank.Foundation.Machine

/-!
# The create page

`initCreatePage` of `static/create.js`, as a machine driven by events, like the share page. A call
of the submit handler may first wait for the size prompt; then it asks for a key, reads the reply
and encrypts. A modal dialog keeps the user from the rest of the page, and its `close` event, which
is dispatched by the closing itself, runs before anything else the user can do.

A form whose default button is disabled is not submitted, not even with the Enter key.
-/

namespace KeyBank

def softPlaintextLimitBytes : ℕ := 100 * 1024

/-- What the template and the browser provide. -/
structure CreateRoot where
  origin : Origin
  maxTtlSeconds : ℤ
  /-- Whether the browser has modal dialogs. -/
  showsModal : Bool

/-- `maxTTL`. -/
def CreateRoot.maxTTL (root : CreateRoot) : ℕ :=
  if 60 ≤ root.maxTtlSeconds then min root.maxTtlSeconds.toNat maxTTLSeconds else maxTTLSeconds

/-- What `createKey` resolves to. -/
structure KeyReply where
  id : JSString
  pubPem : JSString

/-- What a call of the submit handler is waiting for. -/
inductive Submission where
  /-- The size prompt. -/
  | prompting (plaintext : JSString) (ttl : ℕ)
  /-- The reply to its request, which is this entry of the ledger. -/
  | fetching (plaintext : JSString) (ttl entry : ℕ)
  /-- The body of the reply. -/
  | reading (plaintext : JSString) (ttl : ℕ)
  /-- `encryptMessage`. -/
  | encrypting (plaintext : JSString) (ttl : ℕ) (key : KeyReply)
  | finished

/-- The size prompt. -/
structure SizeDialog where
  isOpen : Bool
  returnValue : JSString
  /-- The calls of the submit handler that listen for `close`, each once. -/
  listeners : List ℕ

/-- What the page shows, and does not read back. -/
structure CreateView where
  status : Status
  ledger : Ledger
  dialogText : JSString
  shareURL : JSString
  openShareLink : JSString
  resultExpiry : JSString
  qrCode : Option JSString

structure CreatePage where
  message : JSString
  form : ExpiryForm
  /-- `submitButton.disabled`. -/
  submitDisabled : Bool
  resultHidden : Bool
  dialog : SizeDialog
  submissions : List Submission
  /-- The calls of `fetch` so far. -/
  requests : List FetchRequest
  view : CreateView

/-- How the user closes the size prompt. -/
inductive DialogAnswer where
  | cancel | confirm | escape
  deriving DecidableEq

/-- The dialog's `returnValue` after closing; only its buttons set it. -/
def DialogAnswer.returnValue (before : JSString) : DialogAnswer → JSString
  | cancel => js "cancel"
  | confirm => js "confirm"
  | escape => before

inductive CreateEvent (C : SubtleCrypto) where
  | input (message : JSString)
  | choose (preset : ℕ)
  | typeCustom (value : JSString)
  | newNote
  /-- The form is submitted; `answer` is what `window.confirm` would return. -/
  | submit (answer : Bool)
  | closeDialog (answer : DialogAnswer)
  | response (call status : ℕ)
  | noResponse (call : ℕ)
  | json (call : ℕ) (reply : Except JSError KeyReply)
  /-- The promise of `encryptMessage` is settled; `qr` is what `renderQRCode` returns. -/
  | encrypted (call : ℕ) (rand : Randomness C) (qr : Bool)

namespace CreatePage

variable (env : Platform) (root : CreateRoot) (p : CreatePage)

/-- `setStatus`. -/
def setStatus (message : JSString) (state : StatusState) : CreatePage :=
  { p with view := { p.view with status := ⟨message, state⟩ } }

/-- A call of the submit handler goes on waiting. -/
def resume (call : ℕ) (s : Submission) : CreatePage :=
  { p with submissions := p.submissions.set call s }

/-- The end of the submit handler, its `finally` included. -/
def finish (call : ℕ) : CreatePage := { p.resume call .finished with submitDisabled := false }

/-- The `catch` of the submit handler. -/
def fail (call : ℕ) (e : JSError) : CreatePage := (p.setStatus e.message .error).finish call

/-- The submit handler from its `try` on, up to the next `await`. -/
def request (call : ℕ) (plaintext : JSString) (ttl : ℕ) : CreatePage :=
  let p := { p with resultHidden := true, submitDisabled := true }.setStatus
    (js "Requesting a one-time keypair and encrypting locally…") .working
  { p.resume call (.fetching plaintext ttl p.view.ledger.length) with
    requests := p.requests ++ [createKeyRequest ttl]
    view := { p.view with ledger := p.view.ledger.send (createKeyRequest ttl) } }

/-- The size prompt has been answered. -/
def answered (confirmed : Bool) (call : ℕ) : CreatePage :=
  match p.submissions[call]? with
  | some (.prompting plaintext ttl) =>
    if confirmed then p.request call plaintext ttl
    else (p.setStatus (js "Link generation cancelled.") .idle).resume call .finished
  | _ => p

/-- `confirmLargeMessage` where there are modal dialogs. -/
def showModal (call bytes : ℕ) : CreatePage :=
  { p with
    dialog := { p.dialog with isOpen := true, listeners := p.dialog.listeners ++ [call] }
    view := { p.view with
      dialogText := js "This note is " ++ plural env bytes "byte" ++ js " once encoded as UTF-8." } }

/-- The listener for `submit`, up to its first `await`. -/
def onSubmit (answer : Bool) : CreatePage :=
  if trim p.message = [] then
    p.setStatus (js "Enter a message before generating a link.") .error
  else
    match p.form.selectedTTL env root.maxTTL with
    | .error e => p.setStatus e.message .error
    | .ok ttl =>
      -- A short note passes the prompt as if it had been confirmed.
      let call := p.submissions.length
      let p := { p with submissions := p.submissions ++ [Submission.prompting p.message ttl] }
      let bytes := (textEncode p.message).length
      if bytes ≤ softPlaintextLimitBytes then p.answered true call
      else if root.showsModal then p.showModal env call bytes
      else p.answered answer call

/-- The dialog closes, and those who listen for it go on. -/
def onCloseDialog (answer : DialogAnswer) : CreatePage :=
  let returnValue := answer.returnValue p.dialog.returnValue
  let listeners := p.dialog.listeners
  let p := { p with dialog := ⟨false, returnValue, []⟩ }
  listeners.foldl (fun p call => p.answered (returnValue = js "confirm") call) p

/-- The listener of the button for a new note. -/
def onNewNote : CreatePage :=
  { p with
    message := []
    form := (p.form.reset.configureExpiryOptions root.maxTTL).syncCustomInput
    resultHidden := true
    view := { p.view with
      status := ⟨js "Ready for a new note.", .idle⟩
      shareURL := []
      qrCode := none } }

/-- The reply is shown in the ledger. -/
def settle (entry : ℕ) (reply : JSString) : CreatePage :=
  { p with view := { p.view with ledger := p.view.ledger.settle entry reply } }

def onResponse (call : ℕ) (plaintext : JSString) (ttl entry status : ℕ) : CreatePage :=
  let p := p.settle entry (describeReply describeCreate status)
  match createKeyReply status with
  | .ok _ => p.resume call (.reading plaintext ttl)
  | .error e => p.fail call e

def onJson (call : ℕ) (plaintext : JSString) (ttl : ℕ) (reply : Except JSError KeyReply) :
    CreatePage :=
  match reply with
  | .ok key => p.resume call (.encrypting plaintext ttl key)
  | .error e => p.fail call e

def onEncrypted (call : ℕ) (plaintext : JSString) (ttl : ℕ) (key : KeyReply)
    (rand : Randomness env.crypto) (qr : Bool) : CreatePage :=
  match encryptMessage env.crypto rand key.pubPem plaintext >>= buildShareURL root.origin key.id with
  | .error e => p.fail call e
  | .ok url =>
    { p with
      resultHidden := false
      view := { p.view with
        shareURL := url
        openShareLink := url
        resultExpiry := js "It opens once, and expires in " ++ formatDuration env ttl ++
          js " if nobody opens it."
        qrCode := if qr then some url else none
        status := ⟨if qr then
            js "Link generated. Your message never left this browser; it is encrypted inside the link."
          else
            js "Link generated. This link is too long for a QR code, so copy the share URL instead.",
          .success⟩ } }.finish call

/-- One event. -/
def step : CreateEvent env.crypto → Option CreatePage
  | .input message => if p.dialog.isOpen then none else some { p with message := message }
  | .choose preset =>
    if p.dialog.isOpen ∨ p.form.presets[preset]?.all (fun preset => preset.disabled) then none
    else some { p with form := (p.form.check preset).syncCustomInput }
  | .typeCustom value =>
    if p.dialog.isOpen ∨ p.form.customDisabled then none
    else some { p with form := { p.form with customValue := value } }
  | .newNote => if p.dialog.isOpen ∨ p.resultHidden then none else some (p.onNewNote root)
  | .submit answer =>
    if p.dialog.isOpen ∨ p.submitDisabled then none else some (p.onSubmit env root answer)
  | .closeDialog answer => if p.dialog.isOpen then some (p.onCloseDialog answer) else none
  | .response call status =>
    match p.submissions[call]? with
    | some (.fetching plaintext ttl entry) => some (p.onResponse call plaintext ttl entry status)
    | _ => none
  | .noResponse call =>
    match p.submissions[call]? with
    | some (.fetching _ _ entry) => some ((p.settle entry (js "No response")).fail call unreachable)
    | _ => none
  | .json call reply =>
    match p.submissions[call]? with
    | some (.reading plaintext ttl) => some (p.onJson call plaintext ttl reply)
    | _ => none
  | .encrypted call rand qr =>
    match p.submissions[call]? with
    | some (.encrypting plaintext ttl key) =>
      some (p.onEncrypted env root call plaintext ttl key rand qr)
    | _ => none

end CreatePage

/-- `initCreatePage`, at the end of the page's script. -/
def initCreatePage (root : CreateRoot) (ledger : Ledger) : CreatePage where
  message := []
  form := (ExpiryForm.initial.configureExpiryOptions root.maxTTL).syncCustomInput
  submitDisabled := false
  resultHidden := true
  dialog := ⟨false, [], []⟩
  submissions := []
  requests := []
  view := ⟨⟨js "Only the expiry you pick is sent to KeyBank.", .idle⟩, ledger, [], [], [], [], none⟩

/-- The create page as a machine. -/
def createMachine (env : Platform) (root : CreateRoot) :
    Machine CreatePage (CreateEvent env.crypto) where
  step p e := p.step env root e

end KeyBank
