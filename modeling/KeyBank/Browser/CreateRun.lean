import KeyBank.Browser.Create
import KeyBank.Foundation.Calls

/-!
# Runs of the create page

What an event can do to the create page (`CreatePage.steps_of_step`), and the three situations a run
keeps it in (`CreatePage.Mode`): nothing is under way; one call of the submit handler waits for the
size prompt, which is open; or one call has sent its request, and the button is disabled until it
ends.
-/

namespace KeyBank

open Calls

namespace CreatePage

/-- A call of the submit handler has ended. -/
def ended (p : CreatePage) (call : ℕ) (resultHidden : Bool) (view : CreateView) : CreatePage :=
  { p with
    submitDisabled := false
    resultHidden := resultHidden
    submissions := p.submissions.set call .finished
    view := view }

/-- A call that has sent its request goes on waiting. -/
def waiting (p : CreatePage) (call : ℕ) (s : Submission) (view : CreateView) : CreatePage :=
  { p with submissions := p.submissions.set call s, view := view }

/-- The note is too long to be sent without asking. -/
def isLarge (p : CreatePage) : Bool := softPlaintextLimitBytes < (textEncode p.message).length

/-- Everything an event can do, up to what is shown; the closing of the prompt is left to `Mode`. -/
inductive Steps (env : Platform) (root : CreateRoot) (p : CreatePage) :
    CreateEvent env.crypto → CreatePage → Prop where
  | typed {message : JSString} : Steps env root p (.input message) { p with message := message }
  | chosen {i : ℕ} (hi : p.form.presets[i]?.all (fun preset => preset.disabled) = false) :
    Steps env root p (.choose i) { p with form := (p.form.check i).syncCustomInput }
  | customTyped {value : JSString} (hcustom : p.form.customDisabled = false) :
    Steps env root p (.typeCustom value) { p with form := { p.form with customValue := value } }
  | renewed {view : CreateView} : Steps env root p .newNote { p with
      message := []
      form := (p.form.reset.configureExpiryOptions root.maxTTL).syncCustomInput
      resultHidden := true
      view := view }
  | unsent {answer : Bool} {view : CreateView} (hopen : p.dialog.isOpen = false)
      (hd : p.submitDisabled = false)
      (hnothing : trim p.message = [] ∨ ∃ e, p.form.selectedTTL env root.maxTTL = .error e) :
    Steps env root p (.submit answer) { p with view := view }
  | sent {answer : Bool} {ttl entry : ℕ} {view : CreateView}
      (hopen : p.dialog.isOpen = false) (hd : p.submitDisabled = false)
      (httl : p.form.selectedTTL env root.maxTTL = .ok ttl) :
    Steps env root p (.submit answer) { p with
      submitDisabled := true
      resultHidden := true
      submissions := p.submissions ++ [.fetching p.message ttl entry]
      requests := p.requests ++ [createKeyRequest ttl]
      view := view }
  | declined {ttl : ℕ} {view : CreateView} (hmodal : root.showsModal = false)
      (hopen : p.dialog.isOpen = false) (hd : p.submitDisabled = false) (hlarge : p.isLarge = true)
      (httl : p.form.selectedTTL env root.maxTTL = .ok ttl) :
    Steps env root p (.submit false) { p with
      submissions := p.submissions ++ [.finished]
      view := view }
  | prompted {answer : Bool} {ttl : ℕ} {view : CreateView} (hmodal : root.showsModal = true)
      (hopen : p.dialog.isOpen = false) (hd : p.submitDisabled = false) (hlarge : p.isLarge = true)
      (httl : p.form.selectedTTL env root.maxTTL = .ok ttl) :
    Steps env root p (.submit answer) { p with
      dialog := ⟨true, p.dialog.returnValue, p.dialog.listeners ++ [p.submissions.length]⟩
      submissions := p.submissions ++ [.prompting p.message ttl]
      view := view }
  | closed {answer : DialogAnswer} (hopen : p.dialog.isOpen = true) :
    Steps env root p (.closeDialog answer) (p.onCloseDialog answer)
  | replied {call ttl entry status : ℕ} {plaintext : JSString} {view : CreateView}
      (hcall : p.submissions[call]? = some (.fetching plaintext ttl entry))
      (hreply : createKeyReply status = .ok ()) :
    Steps env root p (.response call status) (p.waiting call (.reading plaintext ttl) view)
  | refused {call ttl entry status : ℕ} {plaintext : JSString} {e : JSError} {view : CreateView}
      (hcall : p.submissions[call]? = some (.fetching plaintext ttl entry))
      (hreply : createKeyReply status = .error e) :
    Steps env root p (.response call status) (p.ended call p.resultHidden view)
  | lost {call ttl entry : ℕ} {plaintext : JSString} {view : CreateView}
      (hcall : p.submissions[call]? = some (.fetching plaintext ttl entry)) :
    Steps env root p (.noResponse call) (p.ended call p.resultHidden view)
  | keyed {call ttl : ℕ} {plaintext : JSString} {key : KeyReply}
      (hcall : p.submissions[call]? = some (.reading plaintext ttl)) :
    Steps env root p (.json call (.ok key)) (p.waiting call (.encrypting plaintext ttl key) p.view)
  | unreadable {call ttl : ℕ} {plaintext : JSString} {e : JSError} {view : CreateView}
      (hcall : p.submissions[call]? = some (.reading plaintext ttl)) :
    Steps env root p (.json call (.error e)) (p.ended call p.resultHidden view)
  | encrypted {call ttl : ℕ} {plaintext : JSString} {key : KeyReply} {rand : Randomness env.crypto}
      {qr resultHidden : Bool} {view : CreateView}
      (hcall : p.submissions[call]? = some (.encrypting plaintext ttl key)) :
    Steps env root p (.encrypted call rand qr) (p.ended call resultHidden view)

variable {env : Platform} {root : CreateRoot} {p p' : CreatePage} {e : CreateEvent env.crypto}

private theorem steps_submit {answer : Bool} (h : p.step env root (.submit answer) = some p') :
    Steps env root p (.submit answer) p' := by
  rw [step] at h
  split at h
  · exact absurd h nofun
  next hbusy =>
  rw [not_or, Bool.not_eq_true, Bool.not_eq_true] at hbusy
  obtain ⟨hopen, hd⟩ := hbusy
  obtain rfl := Option.some.inj h
  rw [onSubmit]
  split
  · next hblank => exact .unsent hopen hd (.inl hblank)
  split
  · next e httl => exact .unsent hopen hd (.inr ⟨e, httl⟩)
  next ttl httl =>
  -- A small message and a confirmed native prompt both end in the request.
  have hrequest : Steps env root p (.submit answer)
      (({ p with submissions := p.submissions ++ [.prompting p.message ttl] } : CreatePage).answered
        true p.submissions.length) := by
    simp only [answered, List.getElem?_concat_length, if_true, request, resume, setStatus,
      List.set_append_right _ _ (Nat.le_refl _), Nat.sub_self, List.set_cons_zero]
    exact .sent hopen hd httl
  dsimp only
  split
  · exact hrequest
  next hlong =>
  have hlarge : p.isLarge = true := by simpa [isLarge] using hlong
  split
  · next hmodal => exact .prompted hmodal hopen hd hlarge httl
  · next hmodal =>
    rw [Bool.not_eq_true] at hmodal
    rcases answer with _ | _
    · simp only [answered, List.getElem?_concat_length, Bool.false_eq_true, if_false, resume,
        setStatus, List.set_append_right _ _ (Nat.le_refl _), Nat.sub_self, List.set_cons_zero]
      exact .declined hmodal hopen hd hlarge httl
    · exact hrequest

private theorem onResponse_steps {call ttl entry status : ℕ} {plaintext : JSString}
    (hcall : p.submissions[call]? = some (.fetching plaintext ttl entry)) :
    Steps env root p (.response call status) (p.onResponse call plaintext ttl entry status) := by
  rw [onResponse]
  split
  · next hreply => exact .replied hcall hreply
  · next e hreply => exact .refused hcall hreply

private theorem onEncrypted_steps {call ttl : ℕ} {plaintext : JSString} {key : KeyReply}
    {rand : Randomness env.crypto} {qr : Bool}
    (hcall : p.submissions[call]? = some (.encrypting plaintext ttl key)) :
    Steps env root p (.encrypted call rand qr)
      (p.onEncrypted env root call plaintext ttl key rand qr) := by
  rw [onEncrypted]
  split
  · exact .encrypted hcall
  · exact .encrypted hcall

/-- **Inversion.** A step does one of these things. -/
theorem steps_of_step (h : p.step env root e = some p') : Steps env root p e p' := by
  cases e with
  | input message =>
    rw [step] at h
    split at h
    · exact absurd h nofun
    · obtain rfl := Option.some.inj h
      exact .typed
  | choose i =>
    rw [step] at h
    split at h
    · exact absurd h nofun
    next hi =>
    rw [not_or, Bool.not_eq_true, Bool.not_eq_true] at hi
    obtain rfl := Option.some.inj h
    exact .chosen hi.2
  | typeCustom value =>
    rw [step] at h
    split at h
    · exact absurd h nofun
    next hcustom =>
    rw [not_or, Bool.not_eq_true, Bool.not_eq_true] at hcustom
    obtain rfl := Option.some.inj h
    exact .customTyped hcustom.2
  | newNote =>
    rw [step] at h
    split at h
    · exact absurd h nofun
    · obtain rfl := Option.some.inj h
      exact .renewed
  | submit answer => exact steps_submit h
  | closeDialog answer =>
    rw [step] at h
    split at h
    · next hopen =>
      obtain rfl := Option.some.inj h
      exact .closed hopen
    · exact absurd h nofun
  | response call status =>
    rw [step] at h
    split at h
    · next hcall =>
      obtain rfl := Option.some.inj h
      exact onResponse_steps hcall
    · exact absurd h nofun
  | noResponse call =>
    rw [step] at h
    split at h
    · next hcall =>
      obtain rfl := Option.some.inj h
      exact .lost hcall
    · exact absurd h nofun
  | json call reply =>
    rw [step] at h
    split at h
    · next hcall =>
      obtain rfl := Option.some.inj h
      rcases reply with e | key
      · exact .unreadable hcall
      · exact .keyed hcall
    · exact absurd h nofun
  | encrypted call rand qr =>
    rw [step] at h
    split at h
    · next hcall =>
      obtain rfl := Option.some.inj h
      exact onEncrypted_steps hcall
    · exact absurd h nofun

/-! ### The three situations -/

/-- The call has sent its request and has not ended. -/
def IsActive : Submission → Prop
  | .fetching .. => True
  | .reading .. => True
  | .encrypting .. => True
  | _ => False

theorem IsActive.ne_finished {s : Submission} (h : IsActive s) : s ≠ .finished := by
  rintro rfl
  exact h

/-- The situations of the page. -/
inductive Mode (p : CreatePage) : Prop where
  | idle (hd : p.submitDisabled = false) (hopen : p.dialog.isOpen = false)
      (hlisteners : p.dialog.listeners = []) (hdone : AllDone .finished p.submissions)
  | prompting {plaintext : JSString} {ttl call : ℕ} (hd : p.submitDisabled = false)
      (hopen : p.dialog.isOpen = true) (hlisteners : p.dialog.listeners = [call])
      (hlast : LastCall .finished p.submissions (.prompting plaintext ttl))
      (hcall : p.submissions[call]? = some (.prompting plaintext ttl))
  | active {s : Submission} (hd : p.submitDisabled = true) (hopen : p.dialog.isOpen = false)
      (hlisteners : p.dialog.listeners = []) (hlast : LastCall .finished p.submissions s)
      (hactive : IsActive s)

/-- The page can be submitted only when nothing is under way. -/
theorem Mode.of_enabled (mode : p.Mode) (hopen : p.dialog.isOpen = false)
    (hd : p.submitDisabled = false) :
    p.dialog.listeners = [] ∧ AllDone .finished p.submissions := by
  rcases mode with ⟨-, -, hlisteners, hdone⟩ | ⟨-, hopen', -⟩ | ⟨hd', -⟩
  · exact ⟨hlisteners, hdone⟩
  · exact absurd (hopen.symm.trans hopen') nofun
  · exact absurd (hd.symm.trans hd') nofun

/-- A call that has sent its request is the only one under way. -/
theorem Mode.of_active (mode : p.Mode) {call : ℕ} {s : Submission}
    (hcall : p.submissions[call]? = some s) (hs : IsActive s) :
    p.submitDisabled = true ∧ p.dialog.isOpen = false ∧ p.dialog.listeners = [] ∧
      LastCall .finished p.submissions s := by
  rcases mode with ⟨-, -, -, hdone⟩ | ⟨-, -, -, hlast, -⟩ | ⟨hd, hopen, hlisteners, hlast, -⟩
  · exact absurd (hdone.eq_done hcall) hs.ne_finished
  · obtain ⟨-, rfl⟩ := hlast.eq hcall hs.ne_finished
    exact hs.elim
  · obtain ⟨-, rfl⟩ := hlast.eq hcall hs.ne_finished
    exact ⟨hd, hopen, hlisteners, hlast⟩

private theorem Mode.ended (mode : p.Mode) {call : ℕ} {s : Submission}
    (hcall : p.submissions[call]? = some s) (hs : IsActive s) (resultHidden : Bool)
    (view : CreateView) : (p.ended call resultHidden view).Mode := by
  obtain ⟨-, hopen, hlisteners, hlast⟩ := mode.of_active hcall hs
  exact .idle rfl hopen hlisteners (hlast.set hcall hs.ne_finished _).allDone

private theorem Mode.waiting (mode : p.Mode) {call : ℕ} {s s' : Submission}
    (hcall : p.submissions[call]? = some s) (hs : IsActive s) (hs' : IsActive s')
    (view : CreateView) : (p.waiting call s' view).Mode := by
  obtain ⟨hd, hopen, hlisteners, hlast⟩ := mode.of_active hcall hs
  exact .active hd hopen hlisteners (hlast.set hcall hs.ne_finished _) hs'

/-- Closing the prompt: the one call that waits for it goes on with the answer. -/
theorem Mode.closed (mode : p.Mode) (hopen : p.dialog.isOpen = true) (answer : DialogAnswer) :
    ∃ call plaintext ttl entry view,
      p.submissions[call]? = some (.prompting plaintext ttl) ∧
      LastCall .finished p.submissions (.prompting plaintext ttl) ∧
      p.onCloseDialog answer =
        if answer.returnValue p.dialog.returnValue = js "confirm" then { p with
          submitDisabled := true
          resultHidden := true
          dialog := ⟨false, answer.returnValue p.dialog.returnValue, []⟩
          submissions := p.submissions.set call (.fetching plaintext ttl entry)
          requests := p.requests ++ [createKeyRequest ttl]
          view := view }
        else { p with
          dialog := ⟨false, answer.returnValue p.dialog.returnValue, []⟩
          submissions := p.submissions.set call .finished
          view := view } := by
  rcases mode with ⟨-, hopen', -⟩ | ⟨-, -, hlisteners, hlast, hcall⟩ | ⟨-, hopen', -⟩
  · exact absurd (hopen'.symm.trans hopen) nofun
  · rename_i plaintext ttl call
    simp only [onCloseDialog, hlisteners, List.foldl_cons, List.foldl_nil, answered, hcall]
    by_cases hconfirm : answer.returnValue p.dialog.returnValue = js "confirm"
    · simp only [hconfirm, decide_true, if_true]
      exact ⟨call, plaintext, ttl, _, _, hcall, hlast, rfl⟩
    · simp only [hconfirm, decide_false, Bool.false_eq_true, if_false]
      exact ⟨call, plaintext, ttl, 0, _, hcall, hlast, rfl⟩
  · exact absurd (hopen'.symm.trans hopen) nofun

/-- **Step lemma.** Every event keeps the page in one of the three situations. -/
theorem Mode.step (mode : p.Mode) (h : p.step env root e = some p') : p'.Mode := by
  cases steps_of_step h with
  | typed | chosen | customTyped | renewed | unsent =>
    -- Neither the calls nor what is disabled or open have changed.
    rcases mode with ⟨hd, hopen, hlisteners, hdone⟩ | ⟨hd, hopen, hlisteners, hlast, hcall⟩ |
      ⟨hd, hopen, hlisteners, hlast, hactive⟩
    · exact .idle hd hopen hlisteners hdone
    · exact .prompting hd hopen hlisteners hlast hcall
    · exact .active hd hopen hlisteners hlast hactive
  | sent hopen hd =>
    obtain ⟨hlisteners, hdone⟩ := mode.of_enabled hopen hd
    exact .active rfl hopen hlisteners (hdone.concat _) trivial
  | declined _ hopen hd =>
    obtain ⟨hlisteners, hdone⟩ := mode.of_enabled hopen hd
    exact .idle hd hopen hlisteners hdone.concat_done
  | prompted _ hopen hd =>
    obtain ⟨hlisteners, hdone⟩ := mode.of_enabled hopen hd
    exact .prompting hd rfl (by rw [hlisteners]; rfl) (hdone.concat _) List.getElem?_concat_length
  | @closed answer hopen =>
    obtain ⟨call, plaintext, ttl, entry, view, hcall, hlast, heq⟩ := mode.closed hopen answer
    have hne : Submission.prompting plaintext ttl ≠ .finished := nofun
    have hd : p.submitDisabled = false := by
      rcases mode with ⟨hd, -⟩ | ⟨hd, -⟩ | ⟨-, hopen', -⟩
      · exact hd
      · exact hd
      · exact absurd (hopen'.symm.trans hopen) nofun
    rw [heq]
    split
    · exact .active rfl rfl rfl (hlast.set hcall hne _) trivial
    · exact .idle hd rfl rfl (hlast.set hcall hne _).allDone
  | replied hcall =>
    refine mode.waiting hcall trivial ?_ _
    trivial
  | keyed hcall =>
    refine mode.waiting hcall trivial ?_ _
    trivial
  | refused hcall | lost hcall | unreadable hcall | encrypted hcall =>
    exact mode.ended hcall trivial _ _

/-- **Run lemma.** So does a run. -/
theorem Mode.run (mode : p.Mode) {es : List (CreateEvent env.crypto)}
    (hrun : (createMachine env root).run p es = some p') : p'.Mode :=
  Machine.run_invariant (fun _ _ _ mode hstep => mode.step hstep) hrun mode

theorem mode_init (root : CreateRoot) (ledger : Ledger) : (initCreatePage root ledger).Mode :=
  .idle rfl rfl rfl allDone_nil

end CreatePage

end KeyBank
