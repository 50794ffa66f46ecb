import KeyBank.Browser.AddressBar
import KeyBank.Browser.CreateRun

/-!
# What the server learns

Each page is abstracted to a smaller machine that knows nothing of messages, fragments, keys and
prompts: only the expiry form or the readiness of the card, how far each call of the handler is, and
the requests. The smaller machine follows the page (`createSeen`, `shareSeen`), so two runs whose
visible events agree send the same requests.

A call that waits for the size prompt counts as one that has sent its request: if every prompt is
confirmed, it will.
-/

namespace KeyBank

open Calls

/-- What can be told about a call of a handler from outside. -/
inductive Phase where
  | asking | reading | over
  deriving DecidableEq

private theorem map_set_of_eq {α β : Type} {f : α → β} {l : List α} {i : ℕ} {a b : α}
    (hi : l[i]? = some a) (hab : f b = f a) : (l.set i b).map f = l.map f := by
  rw [List.map_set, hab]
  have hi' : (l.map f)[i]? = some (f a) := by rw [List.getElem?_map, hi, Option.map_some]
  obtain ⟨hlt, hget⟩ := List.getElem?_eq_some_iff.mp hi'
  rw [← hget, List.set_getElem_self]

/-! ### The create page -/

/-- What can be told about the create page. -/
structure SeenCreate where
  form : ExpiryForm
  phases : List Phase
  requests : List FetchRequest

inductive SeenCreateEvent where
  | choose (preset : ℕ)
  | typeCustom (value : JSString)
  | newNote
  | submit
  | response (call status : ℕ)
  | noResponse (call : ℕ)
  | json (call : ℕ)
  deriving DecidableEq

def SeenCreate.step (env : Platform) (root : CreateRoot) (s : SeenCreate) :
    SeenCreateEvent → Option SeenCreate
  | .choose preset =>
    if s.form.presets[preset]?.all (fun preset => preset.disabled) then none
    else some { s with form := (s.form.check preset).syncCustomInput }
  | .typeCustom value =>
    if s.form.customDisabled then none
    else some { s with form := { s.form with customValue := value } }
  | .newNote =>
    some { s with form := (s.form.reset.configureExpiryOptions root.maxTTL).syncCustomInput }
  | .submit =>
    if s.phases.all (· = .over) then
      match s.form.selectedTTL env root.maxTTL with
      | .error _ => some s
      | .ok ttl => some { s with
          phases := s.phases ++ [.asking]
          requests := s.requests ++ [createKeyRequest ttl] }
    else none
  | .response call status =>
    if s.phases[call]? = some .asking then
      match createKeyReply status with
      | .ok _ => some { s with phases := s.phases.set call .reading }
      | .error _ => some { s with phases := s.phases.set call .over }
    else none
  | .noResponse call =>
    if s.phases[call]? = some .asking then some { s with phases := s.phases.set call .over }
    else none
  | .json call =>
    if s.phases[call]? = some .reading then some { s with phases := s.phases.set call .over }
    else none

/-- The create page as it can be told from outside. -/
def seenCreateMachine (env : Platform) (root : CreateRoot) : Machine SeenCreate SeenCreateEvent where
  step s e := s.step env root e

namespace CreatePage

variable {env : Platform} {root : CreateRoot} {p p' : CreatePage} {e : CreateEvent env.crypto}

def phase : Submission → Phase
  | .prompting .. => .asking
  | .fetching .. => .asking
  | .reading .. => .reading
  | .encrypting .. => .over
  | .finished => .over

/-- The request that a confirmed prompt will send. -/
def promised : Submission → Option FetchRequest
  | .prompting _ ttl => some (createKeyRequest ttl)
  | _ => none

def seen (p : CreatePage) : SeenCreate where
  form := p.form
  phases := p.submissions.map phase
  requests := p.requests ++ p.submissions.filterMap promised

/-- The events that can be told; of the reply, that there is one. -/
def visible {C : SubtleCrypto} : CreateEvent C → Option SeenCreateEvent
  | .choose preset => some (.choose preset)
  | .typeCustom value => some (.typeCustom value)
  | .newNote => some .newNote
  | .submit _ => some .submit
  | .response call status => some (.response call status)
  | .noResponse call => some (.noResponse call)
  | .json call _ => some (.json call)
  | _ => none

/-- No blank note is submitted, and every prompt is confirmed. -/
def Confirms {C : SubtleCrypto} (root : CreateRoot) (p : CreatePage) : CreateEvent C → Prop
  | .submit answer =>
    trim p.message ≠ [] ∧ (p.isLarge = true → root.showsModal = false → answer = true)
  | .closeDialog answer => answer = .confirm
  | _ => True

private theorem promised_of_done (hdone : AllDone .finished p.submissions) :
    p.submissions.filterMap promised = [] := by
  rw [List.filterMap_eq_nil_iff]
  intro s hs
  rw [hdone s hs]
  rfl

private theorem promised_of_last {submissions : List Submission} {s : Submission}
    (hlast : LastCall .finished submissions s) :
    submissions.filterMap promised = (promised s).toList := by
  obtain ⟨returned, rfl, hreturned⟩ := hlast
  have hnone : returned.filterMap promised = [] := by
    rw [List.filterMap_eq_nil_iff]
    intro s hs
    rw [hreturned s hs]
    rfl
  rw [List.filterMap_append, hnone, List.nil_append]
  rcases hs : promised s with _ | r <;> simp [hs]

/-- Nothing is promised while no prompt is open. -/
theorem Mode.promised_eq_nil (mode : p.Mode) (hopen : p.dialog.isOpen = false) :
    p.submissions.filterMap promised = [] := by
  rcases mode with ⟨-, -, -, hdone⟩ | ⟨-, hopen', -⟩ | ⟨-, -, -, hlast, hactive⟩
  · exact promised_of_done hdone
  · exact absurd (hopen.symm.trans hopen') nofun
  · rw [promised_of_last hlast]
    rename_i s
    rcases s with _ | _ | _ | _ | _ <;> trivial

/-- What a call that has sent its request goes on to is told by its phase alone. -/
private theorem Mode.seen_waiting (mode : p.Mode) {call : ℕ} {s s' : Submission}
    (hcall : p.submissions[call]? = some s) (hs : IsActive s) (hs' : promised s' = none)
    (view : CreateView) : (p.waiting call s' view).seen =
      { p.seen with phases := p.seen.phases.set call (phase s') } := by
  obtain ⟨-, hopen, -, hlast⟩ := mode.of_active hcall hs
  have hpromised := promised_of_last (hlast.set hcall hs.ne_finished s')
  rw [hs'] at hpromised
  simp only [seen, CreatePage.waiting, hpromised, mode.promised_eq_nil hopen, List.map_set]
  rfl

private theorem Mode.seen_ended (mode : p.Mode) {call : ℕ} {s : Submission}
    (hcall : p.submissions[call]? = some s) (hs : IsActive s) (resultHidden : Bool)
    (view : CreateView) : (p.ended call resultHidden view).seen =
      { p.seen with phases := p.seen.phases.set call .over } := by
  have hfinished : promised .finished = none := rfl
  exact mode.seen_waiting hcall hs hfinished view

private theorem phases_eq {call : ℕ} {s : Submission} (hcall : p.submissions[call]? = some s) :
    p.seen.phases[call]? = some (phase s) := by
  simp only [seen, List.getElem?_map, hcall, Option.map_some]

/-- No call is under way, as far as can be told. -/
private theorem all_over_of_done (hdone : AllDone .finished p.submissions) :
    p.seen.phases.all (· = .over) = true := by
  rw [List.all_eq_true]
  intro phase hmem
  obtain ⟨s, hs, rfl⟩ := List.mem_map.mp hmem
  rw [hdone s hs]
  rfl

/-- A note that is submitted asks for a key, whether its request is sent or still promised. -/
private theorem seen_submitted (hdone : AllDone .finished p.submissions) {ttl : ℕ}
    (httl : p.form.selectedTTL env root.maxTTL = .ok ttl) {s : Submission}
    (hphase : phase s = .asking) (hform : p'.form = p.form)
    (hcalls : p'.submissions = p.submissions ++ [s])
    (hrequests : p'.requests ++ (promised s).toList = p.requests ++ [createKeyRequest ttl]) :
    p.seen.step env root .submit = some p'.seen := by
  have httl' : p.seen.form.selectedTTL env root.maxTTL = .ok ttl := httl
  simp only [SeenCreate.step, all_over_of_done hdone, if_true, httl']
  rw [seen, seen, hform, hcalls, promised_of_done hdone, promised_of_last (hdone.concat s),
    hrequests, List.append_nil, List.map_append, List.map_singleton, hphase]

/-- **Step lemma.** The smaller machine takes the visible events of the create page. -/
theorem Mode.follows (mode : p.Mode) (hconfirms : Confirms root p e)
    (h : p.step env root e = some p') :
    (seenCreateMachine env root).run p.seen (visible e).toList = some p'.seen := by
  cases steps_of_step h with
  | typed => rfl
  | @chosen i hi =>
    have hi' : ¬p.seen.form.presets[i]?.all (fun preset => preset.disabled) = true := by
      rw [Bool.not_eq_true]
      exact hi
    simp only [visible, Option.toList_some, Machine.run_singleton, seenCreateMachine,
      SeenCreate.step, if_neg hi']
    rfl
  | customTyped hcustom =>
    have hcustom' : ¬p.seen.form.customDisabled = true := by
      rw [Bool.not_eq_true]
      exact hcustom
    simp only [visible, Option.toList_some, Machine.run_singleton, seenCreateMachine,
      SeenCreate.step, if_neg hcustom']
    rfl
  | renewed => rfl
  | unsent hopen hd hnothing =>
    -- The message is not blank, so it was the form that had no lifetime to give.
    obtain ⟨e, httl⟩ := hnothing.resolve_left hconfirms.1
    have httl' : p.seen.form.selectedTTL env root.maxTTL = .error e := httl
    obtain ⟨-, hdone⟩ := mode.of_enabled hopen hd
    simp only [visible, Option.toList_some, Machine.run_singleton, seenCreateMachine,
      SeenCreate.step, all_over_of_done hdone, if_true, httl']
    rfl
  | sent hopen hd httl =>
    obtain ⟨-, hdone⟩ := mode.of_enabled hopen hd
    exact (Machine.run_singleton _ _).trans
      (seen_submitted hdone httl rfl rfl rfl (List.append_nil _))
  | declined hmodal _ _ hlarge => exact absurd (hconfirms.2 hlarge hmodal) nofun
  | prompted _ hopen hd _ httl =>
    -- The request is promised, and so already counted.
    obtain ⟨-, hdone⟩ := mode.of_enabled hopen hd
    exact (Machine.run_singleton _ _).trans (seen_submitted hdone httl rfl rfl rfl rfl)
  | @closed answer hopen =>
    -- The promised request is sent.
    obtain rfl : answer = .confirm := hconfirms
    obtain ⟨call, plaintext, ttl, entry, view, hcall, hlast, heq⟩ := mode.closed hopen .confirm
    have hpromised := promised_of_last hlast
    have hsent := promised_of_last (hlast.set hcall nofun (.fetching plaintext ttl entry))
    have hconfirm : DialogAnswer.confirm.returnValue p.dialog.returnValue = js "confirm" := rfl
    rw [heq, if_pos hconfirm]
    simp only [visible, Option.toList_none, Machine.run_nil, seen, hpromised, hsent,
      map_set_of_eq hcall (f := phase) (b := .fetching plaintext ttl entry) rfl]
    simp [promised]
  | @replied call ttl entry status plaintext view hcall hreply =>
    have hreading : promised (.reading plaintext ttl) = none := rfl
    rw [mode.seen_waiting hcall trivial hreading]
    simp [visible, seenCreateMachine, SeenCreate.step, phases_eq hcall, phase, hreply]
  | refused hcall hreply =>
    rw [mode.seen_ended hcall trivial]
    simp [visible, seenCreateMachine, SeenCreate.step, phases_eq hcall, phase, hreply]
  | lost hcall =>
    rw [mode.seen_ended hcall trivial]
    simp [visible, seenCreateMachine, SeenCreate.step, phases_eq hcall, phase]
  | @keyed call ttl plaintext key hcall =>
    have hencrypting : promised (.encrypting plaintext ttl key) = none := rfl
    rw [mode.seen_waiting hcall trivial hencrypting]
    simp [visible, seenCreateMachine, SeenCreate.step, phases_eq hcall, phase]
  | unreadable hcall =>
    rw [mode.seen_ended hcall trivial]
    simp [visible, seenCreateMachine, SeenCreate.step, phases_eq hcall, phase]
  | @encrypted call ttl plaintext key rand qr resultHidden view hcall =>
    -- A call that encrypts is over already, as far as can be told.
    obtain ⟨hlt, hget⟩ := List.getElem?_eq_some_iff.mp (phases_eq hcall)
    have hover : p.seen.phases.set call .over = p.seen.phases := by
      calc p.seen.phases.set call .over = p.seen.phases.set call p.seen.phases[call] := by
            rw [hget]
            rfl
        _ = p.seen.phases := List.set_getElem_self hlt
    rw [mode.seen_ended hcall trivial, hover]
    rfl

/-- The create page and what can be told about it. -/
def createSeen (env : Platform) (root : CreateRoot) :
    Machine.Abstraction (createMachine env root) (seenCreateMachine env root) (Confirms root) where
  abs := seen
  visible := visible
  Inv := Mode
  preserves _ _ _ mode _ h := mode.step h
  follows _ _ _ mode hconfirms h := mode.follows hconfirms h

/-- Runs of the create page that differ in what cannot be told, as far as the requests go. -/
theorem requests_eq_of_visible_eq {ledger : Ledger} {es fs : List (CreateEvent env.crypto)}
    {q : CreatePage} (hes : (createMachine env root).Always (Confirms root)
      (initCreatePage root ledger) es)
    (hfs : (createMachine env root).Always (Confirms root) (initCreatePage root ledger) fs)
    (hp : (createMachine env root).run (initCreatePage root ledger) es = some p)
    (hq : (createMachine env root).run (initCreatePage root ledger) fs = some q)
    (hvisible : es.filterMap visible = fs.filterMap visible)
    (hpopen : p.dialog.isOpen = false) (hqopen : q.dialog.isOpen = false) :
    p.requests = q.requests := by
  have hmode := mode_init root ledger
  have hseen := (createSeen env root).abs_eq_of_visible_eq rfl hmode hmode hes hfs hp hq hvisible
  have hrequests := congrArg SeenCreate.requests hseen
  have hpmode := hmode.run hp
  have hqmode := hmode.run hq
  simpa [createSeen, seen, hpmode.promised_eq_nil hpopen, hqmode.promised_eq_nil hqopen]
    using hrequests

end CreatePage

/-! ### The share page -/

/-- What can be told about the share page. -/
structure SeenShare where
  /-- Whether a click sends a request. -/
  ready : Bool
  phases : List Phase
  requests : List FetchRequest

inductive SeenShareEvent where
  | click
  | response (call status : ℕ)
  | noResponse (call : ℕ)
  | body (call : ℕ)
  | bodyError (call : ℕ)
  deriving DecidableEq

def SeenShare.step (root : ShareRoot) (s : SeenShare) : SeenShareEvent → Option SeenShare
  | .click =>
    if s.ready = false then none
    else if root.shareID = [] then some s
    else match fetchKeyRequest root.shareID with
      | .ok request => some ⟨false, s.phases ++ [.asking], s.requests ++ [request]⟩
      | .error _ => some { s with phases := s.phases ++ [.over] }
  | .response call status =>
    if s.phases[call]? = some .asking then
      match fetchKeyReply status with
      | .null => some { s with phases := s.phases.set call .over }
      | .text => some { s with phases := s.phases.set call .reading }
      | .throw _ => some { s with ready := true, phases := s.phases.set call .over }
    else none
  | .noResponse call =>
    if s.phases[call]? = some .asking then
      some { s with ready := true, phases := s.phases.set call .over }
    else none
  | .body call =>
    if s.phases[call]? = some .reading then some { s with phases := s.phases.set call .over }
    else none
  | .bodyError call =>
    if s.phases[call]? = some .reading then
      some { s with ready := true, phases := s.phases.set call .over }
    else none

/-- The share page as it can be told from outside. -/
def seenShareMachine (root : ShareRoot) : Machine SeenShare SeenShareEvent where
  step s e := s.step root e

namespace SharePage

variable {env : Platform} {root : ShareRoot} {p p' : SharePage} {e : ShareEvent}

def phase : ClickHandler → Phase
  | .fetching _ => .asking
  | .reading _ => .reading
  | .decrypting .. => .over
  | .returned => .over

def seen (p : SharePage) : SeenShare where
  ready := p.card = .ready
  phases := p.handlers.map phase
  requests := p.requests

/-- The events that can be told: not where the address leads, nor what is decrypted. -/
def visible : ShareEvent → Option SeenShareEvent
  | .click => some .click
  | .response call status => some (.response call status)
  | .noResponse call => some (.noResponse call)
  | .body call _ => some (.body call)
  | .bodyError call _ => some (.bodyError call)
  | _ => none

/-- `parseFragment` accepts the hash of this fragment. -/
def Accepts (fragment : Option JSString) : Prop :=
  ∃ f, parseFragment (URL.hash ⟨⟨[], nofun⟩, [], [], fragment⟩) = .ok f

/-- The address only changes to fragments that are accepted. -/
def AcceptsLinks (_ : SharePage) : ShareEvent → Prop
  | .navigate fragment => Accepts fragment
  | _ => True

/-- The invariant of a page all of whose fragments are accepted. -/
structure Valid (p : SharePage) : Prop where
  inv : p.Inv
  accepts : Accepts p.location.fragment
  valid : p.card ≠ .invalid

theorem Valid.step (valid : p.Valid) (haccepts : AcceptsLinks p e)
    (h : p.step env root e = some p') : p'.Valid := by
  refine ⟨valid.inv.step h, ?_, ?_⟩
  · cases steps_of_step h with
    | navigated => exact haccepts
    | _ => exact valid.accepts
  · cases steps_of_step h with
    | ignored | stayed | navigated | overlooked | answered | decrypting => exact valid.valid
    | @rejected n e view hn hcard hparse =>
      obtain ⟨f, hf⟩ := valid.accepts
      exact absurd (hparse.symm.trans hf) nofun
    | _ => exact nofun

private theorem phases_eq {call : ℕ} {h : ClickHandler} (hcall : p.handlers[call]? = some h) :
    p.seen.phases[call]? = some (phase h) := by
  simp only [seen, List.getElem?_map, hcall, Option.map_some]

/-- **Step lemma.** The smaller machine takes the visible events of the share page. -/
theorem Valid.follows (valid : p.Valid) (h : p.step env root e = some p') :
    (seenShareMachine root).run p.seen (visible e).toList = some p'.seen := by
  have inv := valid.inv
  have hready (hd : p.disabled = false) : p.card = .ready := by
    simpa [inv.disabled] using hd
  have hloaded (hd : p.disabled = false) : p.fragment ≠ none := inv.loaded (.inl (hready hd))
  have hworking {call : ℕ} {h : ClickHandler} (hcall : p.handlers[call]? = some h)
      (hne : h ≠ .returned) : p.card = .working := (inv.of_waiting hcall hne).1
  cases steps_of_step h with
  | ignored hd hnothing =>
    have hid := hnothing.resolve_left (hloaded hd)
    simp [visible, seenShareMachine, SeenShare.step, seen, hready hd, hid]
  | sent hd hf hrequest hid =>
    simp [visible, seenShareMachine, SeenShare.step, seen, hready hd, hid, hrequest, phase]
  | unsent hd hf hrequest hid =>
    simp [visible, seenShareMachine, SeenShare.step, seen, hready hd, hid, hrequest, phase]
  | stayed | navigated | overlooked => rfl
  | accepted _ hcard =>
    -- The card was ready before, so nothing of the new fragment can be told.
    have hcard := hcard.resolve_right valid.valid
    simp [visible, seen, hcard]
  | rejected _ _ hparse =>
    obtain ⟨f, hf⟩ := valid.accepts
    cases hparse.symm.trans hf
  | answered hcall hreply =>
    have hphase := phases_eq hcall
    simp only [visible, Option.toList_some, Machine.run_singleton, seenShareMachine,
      SeenShare.step, hphase, phase, if_true, hreply]
    simp [seen, phase]
  | gone hcall hreply =>
    have hphase := phases_eq hcall
    simp only [visible, Option.toList_some, Machine.run_singleton, seenShareMachine,
      SeenShare.step, hphase, phase, if_true, hreply]
    simp [seen, SharePage.spent, phase, hworking hcall (by simp)]
  | refused hcall hreply =>
    have hphase := phases_eq hcall
    simp only [visible, Option.toList_some, Machine.run_singleton, seenShareMachine,
      SeenShare.step, hphase, phase, if_true, hreply]
    simp [seen, SharePage.failed, phase]
  | lost hcall =>
    have hphase := phases_eq hcall
    simp only [visible, Option.toList_some, Machine.run_singleton, seenShareMachine,
      SeenShare.step, hphase, phase, if_true]
    simp [seen, SharePage.failed, phase]
  | unread hcall =>
    have hphase := phases_eq hcall
    simp only [visible, Option.toList_some, Machine.run_singleton, seenShareMachine,
      SeenShare.step, hphase, phase, if_true]
    simp [seen, SharePage.failed, phase]
  | decrypting hcall =>
    have hphase := phases_eq hcall
    simp only [visible, Option.toList_some, Machine.run_singleton, seenShareMachine,
      SeenShare.step, hphase, phase, if_true]
    simp [seen, phase]
  | undecryptable hcall hf => exact absurd hf (inv.loaded (.inr (hworking hcall (by simp))))
  | decrypted hcall =>
    -- A call that decrypts is over already, as far as can be told.
    have hphases := map_set_of_eq hcall (f := phase) (b := .returned) rfl
    simp [visible, seen, hphases, hworking hcall (by simp)]
  | garbled hcall =>
    have hphases := map_set_of_eq hcall (f := phase) (b := .returned) rfl
    simp [visible, seen, SharePage.spent, hphases, hworking hcall (by simp)]

/-- The share page and what can be told about it. -/
def shareSeen (env : Platform) (root : ShareRoot) :
    Machine.Abstraction (shareMachine env root) (seenShareMachine root) AcceptsLinks where
  abs := seen
  visible := visible
  Inv := Valid
  preserves _ _ _ valid haccepts h := valid.step haccepts h
  follows _ _ _ valid _ h := valid.follows h

theorem valid_init {location : URL} {ledger : Ledger} (haccepts : Accepts location.fragment) :
    (initSharePage env root location ledger).Valid ∧
      (initSharePage env root location ledger).seen = ⟨true, [], []⟩ := by
  obtain ⟨f, hf⟩ := haccepts
  have hparse : parseFragment location.hash = .ok f := hf
  have hinit := inv_init env root location ledger
  simp only [initSharePage, inspectLink, hparse] at hinit ⊢
  refine ⟨⟨hinit, ⟨f, hf⟩, fun hcard => ?_⟩, rfl⟩
  cases hcard

/-- Runs of the share page that differ in what cannot be told, as far as the requests go. -/
theorem requests_eq_of_visible_eq {location location' : URL} {ledger : Ledger}
    {es fs : List ShareEvent} {q : SharePage} (haccepts : Accepts location.fragment)
    (haccepts' : Accepts location'.fragment)
    (hes : ∀ fragment, .navigate fragment ∈ es → Accepts fragment)
    (hfs : ∀ fragment, .navigate fragment ∈ fs → Accepts fragment)
    (hp : (shareMachine env root).run (initSharePage env root location ledger) es = some p)
    (hq : (shareMachine env root).run (initSharePage env root location' ledger) fs = some q)
    (hvisible : es.filterMap visible = fs.filterMap visible) : p.requests = q.requests := by
  have hguard {gs : List ShareEvent} (hgs : ∀ fragment, .navigate fragment ∈ gs → Accepts fragment)
      (s : SharePage) : (shareMachine env root).Always AcceptsLinks s gs := by
    refine Machine.always_of_forall_mem (fun e he _ => ?_) s
    rcases e with _ | fragment | _ | _ | _ | _ | _ | _ <;> try trivial
    exact hgs fragment he
  obtain ⟨hvalid, hseen⟩ := @valid_init env root location ledger haccepts
  obtain ⟨hvalid', hseen'⟩ := @valid_init env root location' ledger haccepts'
  have hend := (shareSeen env root).abs_eq_of_visible_eq (hseen.trans hseen'.symm) hvalid hvalid'
    (hguard hes _) (hguard hfs _) hp hq hvisible
  exact congrArg SeenShare.requests hend

end SharePage

/-! ### Zero knowledge -/

open SharePage (clearPlatform sampleRoot sampleFragment samplePage)

def sampleCreateRoot : CreateRoot := ⟨localOrigin, 86400, true⟩

/-- A short note, up to the reply of the server. -/
def noteRun (message : String) : List (CreateEvent clearPlatform.crypto) :=
  [.input (js message), .choose 0, .submit true, .response 0 201]

/-- Another link to the same page. -/
def otherFragment : JSString := js "v=1&w=BBBB&i=BBBB&c=BBBB"

private theorem message_of_choose {p p' : CreatePage} {i : ℕ}
    (h : (createMachine clearPlatform sampleCreateRoot).step p (.choose i) = some p') :
    p'.message = p.message := by
  have h : CreatePage.step clearPlatform sampleCreateRoot p (.choose i) = some p' := h
  cases CreatePage.steps_of_step h with
  | chosen => rfl

private theorem confirms_noteRun {message : String} (hblank : trim (js message) ≠ []) :
    (createMachine clearPlatform sampleCreateRoot).Always (CreatePage.Confirms sampleCreateRoot)
      (initCreatePage sampleCreateRoot []) (noteRun message) := by
  refine ⟨trivial, fun p₁ h₁ => ⟨trivial, fun p₂ h₂ => ⟨⟨?_, fun _ _ => rfl⟩, fun _ _ =>
    ⟨trivial, fun _ _ => trivial⟩⟩⟩⟩
  obtain rfl := Option.some.inj h₁
  rw [message_of_choose h₂]
  exact hblank

end KeyBank
