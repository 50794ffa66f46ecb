import KeyBank.Browser.CreateRun
import KeyBank.Browser.ShareRun

/-!
# The answer to the size prompt

`confirmLargeMessage` of `static/create.js` reads the answer from `returnValue` when the dialog is
closed. The value outlives the prompt: only the dialog's buttons write it, and Escape leaves what an
earlier prompt has put there. So the page holds the value of the button pressed last
(`CreatePage.returnValue_of_run`), a call goes on exactly when the closing of its own prompt finds
`confirm` (`CreatePage.goesOn_iff`), and the answers of a run belong to their prompts exactly if
Escape is never pressed while the last button was "Encrypt anyway" (`answers_belong_iff`).
-/

namespace KeyBank

namespace CreatePage

/-- The call waits for the size prompt. -/
def Waits (p : CreatePage) (call : ℕ) : Prop :=
  ∃ plaintext ttl, p.submissions[call]? = some (.prompting plaintext ttl)

/-- The call is under way or over, and not waiting for the size prompt. -/
def Passed (p : CreatePage) (call : ℕ) : Prop :=
  ∃ s, p.submissions[call]? = some s ∧ ∀ plaintext ttl, s ≠ .prompting plaintext ttl

/-- In this step the call sends its request for a key. -/
def Requests (p p' : CreatePage) (call : ℕ) : Prop :=
  ∃ plaintext ttl entry, p'.submissions[call]? = some (.fetching plaintext ttl entry) ∧
    p'.requests = p.requests ++ [createKeyRequest ttl]

end CreatePage

section

variable (env : Platform) (root : CreateRoot) (ledger : Ledger)

/-- The create page after some events. -/
def createPageAfter (es : List (CreateEvent env.crypto)) : Option CreatePage :=
  (createMachine env root).run (initCreatePage root ledger) es

/-- In the run the size prompt is opened for this call. -/
def Prompted (es : List (CreateEvent env.crypto)) (call : ℕ) : Prop :=
  ∃ pre post p, es = pre ++ post ∧ createPageAfter env root ledger pre = some p ∧ p.Waits call

/-- In the run the prompt of this call is closed in this way. -/
def ClosedWith (es : List (CreateEvent env.crypto)) (call : ℕ) (answer : DialogAnswer) : Prop :=
  ∃ pre post p, es = pre ++ .closeDialog answer :: post ∧
    createPageAfter env root ledger pre = some p ∧ p.Waits call

/-- In the run this call sends a request for a key. -/
def GoesOn (es : List (CreateEvent env.crypto)) (call : ℕ) : Prop :=
  ∃ pre e post p p', es = pre ++ e :: post ∧ createPageAfter env root ledger pre = some p ∧
    p.step env root e = some p' ∧ p.Requests p' call

/-- Every call that is prompted goes on if and only if its own prompt is confirmed. -/
def AnswersBelong (es : List (CreateEvent env.crypto)) : Prop :=
  ∀ call, Prompted env root ledger es call →
    (GoesOn env root ledger es call ↔ ClosedWith env root ledger es call .confirm)

end

section

variable {C : SubtleCrypto}

/-- The button of the size prompt that is pressed. -/
def pressed : CreateEvent C → Option DialogAnswer
  | .closeDialog .cancel => some .cancel
  | .closeDialog .confirm => some .confirm
  | _ => none

/-- The button pressed last. -/
def lastPressed (es : List (CreateEvent C)) : Option DialogAnswer := (es.filterMap pressed).getLast?

/-- Escape never closes a prompt while the button pressed last is "Encrypt anyway". -/
def SparesEscape (es : List (CreateEvent C)) : Prop :=
  ∀ pre post, es = pre ++ .closeDialog .escape :: post → lastPressed pre ≠ some .confirm

end

namespace CreatePage

variable {env : Platform} {root : CreateRoot} {ledger : Ledger} {p p' : CreatePage}
  {e : CreateEvent env.crypto} {es : List (CreateEvent env.crypto)} {call : ℕ}

/-! ### The calls -/

theorem Passed.not_waits (h : p.Passed call) : ¬ p.Waits call := by
  rintro ⟨plaintext, ttl, hcall⟩
  obtain ⟨s, hs, hne⟩ := h
  exact hne plaintext ttl (Option.some.inj (hs.symm.trans hcall))

theorem Waits.lt_length (h : p.Waits call) : call < p.submissions.length := by
  obtain ⟨plaintext, ttl, hcall⟩ := h
  exact (List.getElem?_eq_some_iff.mp hcall).1

/-- A call that has passed its prompt stays so, whichever call is moved on. -/
private theorem Passed.of_set (h : p.Passed call) {i : ℕ} {s : Submission}
    (hs : ∀ plaintext ttl, s ≠ .prompting plaintext ttl)
    (heq : p'.submissions = p.submissions.set i s) : p'.Passed call := by
  obtain ⟨s', hs', hne⟩ := h
  by_cases hi : i = call
  · subst hi
    refine ⟨s, ?_, hs⟩
    rw [heq, List.getElem?_set_self (List.getElem?_eq_some_iff.mp hs').1]
  · refine ⟨s', ?_, hne⟩
    rw [heq, List.getElem?_set_ne hi]
    exact hs'

/-- What a step does to the list of the calls: nothing, a new call, or one call moved on. -/
private theorem submissions_of_step (mode : p.Mode) (h : p.step env root e = some p') :
    p'.submissions = p.submissions ∨ (∃ s, p'.submissions = p.submissions ++ [s]) ∨
      ∃ i s, (∀ plaintext ttl, s ≠ .prompting plaintext ttl) ∧
        p'.submissions = p.submissions.set i s := by
  cases steps_of_step h with
  | typed | chosen | customTyped | renewed | unsent => exact .inl rfl
  | sent | declined | prompted => exact .inr (.inl ⟨_, rfl⟩)
  | @closed answer hopen =>
    obtain ⟨i, plaintext, ttl, entry, view, -, -, heq⟩ := mode.closed hopen answer
    rw [heq]
    split
    · refine .inr (.inr ⟨i, _, ?_, rfl⟩)
      nofun
    · refine .inr (.inr ⟨i, _, ?_, rfl⟩)
      nofun
  | replied | refused | lost | keyed | unreadable | encrypted =>
    refine .inr (.inr ⟨_, _, ?_, rfl⟩)
    nofun

theorem Passed.step (hpassed : p.Passed call) (mode : p.Mode) (h : p.step env root e = some p') :
    p'.Passed call := by
  obtain heq | ⟨s, heq⟩ | ⟨i, s, hs, heq⟩ := submissions_of_step mode h
  · rw [Passed, heq]
    exact hpassed
  · obtain ⟨s', hs', hne⟩ := hpassed
    refine ⟨s', ?_, hne⟩
    rw [heq, List.getElem?_append_left (List.getElem?_eq_some_iff.mp hs').1]
    exact hs'
  · exact hpassed.of_set hs heq

theorem Passed.run (hpassed : p.Passed call) (mode : p.Mode)
    (hrun : (createMachine env root).run p es = some p') : p'.Passed call := by
  have hstep : ∀ (q : CreatePage) e q', q.Mode ∧ q.Passed call →
      (createMachine env root).step q e = some q' → q'.Mode ∧ q'.Passed call :=
    fun q e q' h hstep => ⟨h.1.step hstep, h.2.step h.1 hstep⟩
  exact (Machine.run_invariant hstep hrun ⟨mode, hpassed⟩).2

/-- Calls are only ever added. -/
theorem length_submissions_run (mode : p.Mode)
    (hrun : (createMachine env root).run p es = some p') :
    p.submissions.length ≤ p'.submissions.length := by
  have hstep : ∀ (q : CreatePage) e q',
      q.Mode ∧ p.submissions.length ≤ q.submissions.length →
      (createMachine env root).step q e = some q' →
      q'.Mode ∧ p.submissions.length ≤ q'.submissions.length := by
    intro q e q' h hstep
    refine ⟨h.1.step hstep, h.2.trans ?_⟩
    obtain heq | ⟨s, heq⟩ | ⟨i, s, -, heq⟩ := submissions_of_step h.1 hstep
    · rw [heq]
    · rw [heq, List.length_append]
      exact Nat.le_add_right _ _
    · rw [heq, List.length_set]
  exact (Machine.run_invariant hstep hrun ⟨mode, Nat.le_refl _⟩).2

/-! ### The value the dialog keeps -/

/-- Only the buttons of the prompt write the value. -/
private theorem returnValue_of_step (mode : p.Mode) (h : p.step env root e = some p') :
    p'.dialog.returnValue =
      ((pressed e).map (DialogAnswer.returnValue [])).getD p.dialog.returnValue := by
  cases steps_of_step h with
  | @closed answer hopen =>
    obtain ⟨i, plaintext, ttl, entry, view, -, -, heq⟩ := mode.closed hopen answer
    have hvalue : (p.onCloseDialog answer).dialog.returnValue =
        answer.returnValue p.dialog.returnValue := by
      rw [heq]
      split <;> rfl
    rw [hvalue]
    rcases answer <;> rfl
  | _ => rfl

theorem mode_after (h : createPageAfter env root ledger es = some p) : p.Mode :=
  (mode_init root ledger).run h

/-- **Run lemma.** The dialog holds the value of the button pressed last. -/
theorem returnValue_of_run (h : createPageAfter env root ledger es = some p) :
    p.dialog.returnValue = ((lastPressed es).map (DialogAnswer.returnValue [])).getD [] := by
  induction es using List.reverseRecOn generalizing p with
  | nil =>
    obtain rfl := Option.some.inj h
    rfl
  | append_singleton es e ih =>
    obtain ⟨q, hq, hstep⟩ := Machine.run_append_eq_some_iff.mp h
    rw [Machine.run_singleton] at hstep
    rw [returnValue_of_step (mode_after hq) hstep, ih hq, lastPressed, lastPressed,
      List.filterMap_append]
    rcases hpressed : pressed e with _ | answer
    · simp [hpressed]
    · simp [hpressed]

/-- A prompt that is closed is taken for confirmed if "Encrypt anyway" is pressed, or if Escape is
and that button was the last to be pressed. -/
theorem returnValue_eq_confirm_iff (h : createPageAfter env root ledger es = some p)
    (answer : DialogAnswer) :
    answer.returnValue p.dialog.returnValue = js "confirm" ↔
      answer = .confirm ∨ answer = .escape ∧ lastPressed es = some .confirm := by
  have hcancel : js "cancel" ≠ js "confirm" := by decide
  have hempty : [] ≠ js "confirm" := by decide
  cases answer with
  | cancel => simpa [DialogAnswer.returnValue] using hcancel
  | confirm => simp [DialogAnswer.returnValue]
  | escape =>
    rw [DialogAnswer.returnValue, returnValue_of_run h]
    rcases lastPressed es with _ | _ | _ | _
    · simpa using hempty
    · simpa [DialogAnswer.returnValue] using hcancel
    · simp [DialogAnswer.returnValue]
    · simpa [DialogAnswer.returnValue] using hempty

/-! ### Going on -/

/-- Closing the prompt of a call: it goes on if `confirm` is found. -/
private theorem requests_of_closed (mode : p.Mode) (hcall : p.Waits call) {answer : DialogAnswer}
    (h : p.step env root (.closeDialog answer) = some p')
    (hconfirm : answer.returnValue p.dialog.returnValue = js "confirm") : p.Requests p' call := by
  obtain ⟨plaintext, ttl, hcall⟩ := hcall
  cases steps_of_step h with
  | closed hopen =>
    obtain ⟨i, plaintext', ttl', entry, view, hi, hlast, heq⟩ := mode.closed hopen answer
    -- Only one call waits.
    obtain ⟨hlength, -⟩ := hlast.eq hi nofun
    obtain ⟨hlength', -⟩ := hlast.eq hcall nofun
    obtain rfl : i = call := by omega
    rw [heq, if_pos hconfirm]
    refine ⟨plaintext', ttl', entry, ?_, rfl⟩
    exact List.getElem?_set_self (List.getElem?_eq_some_iff.mp hi).1

/-- A step in which a call sends its request: either the call is new, or it has waited for its
prompt, which is closed and found confirmed. -/
private theorem new_or_closed_of_requests (mode : p.Mode) (h : p.step env root e = some p')
    (hrequests : p.Requests p' call) :
    call = p.submissions.length ∨ ∃ answer, e = .closeDialog answer ∧ p.Waits call ∧
      answer.returnValue p.dialog.returnValue = js "confirm" := by
  obtain ⟨plaintext, ttl, entry, hcall, hsent⟩ := hrequests
  cases steps_of_step h with
  | sent hopen hd =>
    obtain ⟨-, hdone⟩ := mode.of_enabled hopen hd
    obtain ⟨hlength, -⟩ := (hdone.concat _).eq hcall nofun
    rw [List.length_append, List.length_singleton] at hlength
    exact .inl (Nat.succ.inj hlength)
  | @closed answer hopen =>
    obtain ⟨i, plaintext', ttl', entry', view, hi, hlast, heq⟩ := mode.closed hopen answer
    rw [heq] at hcall hsent
    split at hcall
    · next hconfirm =>
      -- The call that is fetching is the one that has waited.
      obtain ⟨hlength, -⟩ := hlast.eq hi nofun
      obtain ⟨hlength', -⟩ := (hlast.set hi nofun _).eq hcall nofun
      rw [List.length_set] at hlength'
      obtain rfl : i = call := by omega
      exact .inr ⟨answer, rfl, ⟨plaintext', ttl', hi⟩, hconfirm⟩
    · next hconfirm =>
      rw [if_neg hconfirm] at hsent
      exact absurd hsent (by simp)
  | _ =>
    have hsent : p.requests = p.requests ++ [_] := hsent
    exact absurd hsent (by simp)

/-- One event of a run, and the rest of it. -/
private theorem step_of_run {pre post : List (CreateEvent env.crypto)} {q : CreatePage}
    (hpre : createPageAfter env root ledger pre = some p)
    (hrun : createPageAfter env root ledger (pre ++ e :: post) = some q) :
    ∃ p', p.step env root e = some p' ∧ (createMachine env root).run p' post = some q := by
  obtain ⟨p₁, hp₁, hrest⟩ := Machine.run_append_eq_some_iff.mp hrun
  obtain rfl := Option.some.inj (hpre.symm.trans hp₁)
  exact Machine.run_cons_eq_some_iff.mp hrest

/-- A prompt is closed once: the call does not wait again. -/
private theorem not_waits_after {pre post : List (CreateEvent env.crypto)} {answer : DialogAnswer}
    (hrun : createPageAfter env root ledger pre = some p) (hcall : p.Waits call)
    (hrun' : createPageAfter env root ledger (pre ++ .closeDialog answer :: post) = some p') :
    ¬ p'.Waits call := by
  obtain ⟨q, hstep, hrest⟩ := step_of_run hrun hrun'
  have hmode := mode_after hrun
  have hpassed : q.Passed call := by
    cases steps_of_step hstep with
    | closed hopen =>
      obtain ⟨plaintext, ttl, hcall⟩ := hcall
      obtain ⟨i, plaintext', ttl', entry, view, hi, hlast, heq⟩ := hmode.closed hopen answer
      obtain ⟨hlength, -⟩ := hlast.eq hi nofun
      obtain ⟨hlength', -⟩ := hlast.eq hcall nofun
      obtain rfl : i = call := by omega
      have hlt := (List.getElem?_eq_some_iff.mp hi).1
      rw [heq]
      split
      · exact ⟨_, List.getElem?_set_self hlt, fun _ _ => nofun⟩
      · exact ⟨_, List.getElem?_set_self hlt, fun _ _ => nofun⟩
  exact (hpassed.run (hmode.step hstep) hrest).not_waits

/-- So there is one answer to the prompt of a call. -/
private theorem answer_unique {pre pre' post post' : List (CreateEvent env.crypto)}
    {answer answer' : DialogAnswer} (heq : pre ++ .closeDialog answer :: post =
      pre' ++ .closeDialog answer' :: post')
    (hrun : createPageAfter env root ledger pre = some p)
    (hrun' : createPageAfter env root ledger pre' = some p') (hcall : p.Waits call)
    (hcall' : p'.Waits call) : answer = answer' := by
  obtain ⟨as, rfl, htail⟩ | ⟨as, rfl, htail⟩ := List.append_eq_append_iff.mp heq
  · rcases as with _ | ⟨a, as⟩
    · injection htail with hhead
      injection hhead
    · obtain ⟨rfl, -⟩ := List.cons_eq_cons.mp htail
      exact absurd hcall' (not_waits_after hrun hcall hrun')
  · rcases as with _ | ⟨a, as⟩
    · injection htail with hhead
      injection hhead with h
      exact h.symm
    · obtain ⟨rfl, -⟩ := List.cons_eq_cons.mp htail
      exact absurd hcall (not_waits_after hrun' hcall' hrun)

/-- A call that has just been made, and sends its request at once, is not prompted in the run. -/
private theorem not_prompted_of_new {pre post : List (CreateEvent env.crypto)}
    (hpre : createPageAfter env root ledger pre = some p) (h : p.step env root e = some p')
    (hrequests : p.Requests p' call) (hnew : call = p.submissions.length) :
    ¬ Prompted env root ledger (pre ++ e :: post) call := by
  rintro ⟨pre', post', q, heq, hq, hcall⟩
  have hmode := mode_after hpre
  have hbefore {q : CreatePage} {es : List (CreateEvent env.crypto)}
      (hrun : (createMachine env root).run q es = some p) (mode : q.Mode) : ¬ q.Waits call := by
    intro hcall
    have hlength := length_submissions_run mode hrun
    have hlt := hcall.lt_length
    omega
  obtain ⟨as, rfl, htail⟩ | ⟨as, rfl, htail⟩ := List.append_eq_append_iff.mp heq
  · rcases as with _ | ⟨a, as⟩
    · rw [List.append_nil] at hq
      obtain rfl := Option.some.inj (hpre.symm.trans hq)
      exact hbefore (Machine.run_nil p) hmode hcall
    · obtain ⟨rfl, -⟩ := List.cons_eq_cons.mp htail
      obtain ⟨p₁, hp₁, hrest⟩ := step_of_run hpre hq
      obtain rfl := Option.some.inj (h.symm.trans hp₁)
      obtain ⟨plaintext, ttl, entry, hfetching, -⟩ := hrequests
      have hpassed : p'.Passed call := ⟨_, hfetching, fun _ _ => nofun⟩
      exact (hpassed.run (hmode.step h) hrest).not_waits hcall
  · obtain ⟨q₁, hq₁, hrest⟩ := Machine.run_append_eq_some_iff.mp hpre
    obtain rfl := Option.some.inj (hq.symm.trans hq₁)
    exact hbefore hrest (mode_after hq) hcall

/-- **Going on.** A call that is prompted goes on exactly if its prompt is closed and the value
found then is `confirm`. -/
theorem goesOn_iff (hrun : createPageAfter env root ledger es = some p')
    (hprompted : Prompted env root ledger es call) :
    GoesOn env root ledger es call ↔
      ∃ pre answer post p, es = pre ++ .closeDialog answer :: post ∧
        createPageAfter env root ledger pre = some p ∧ p.Waits call ∧
        answer.returnValue p.dialog.returnValue = js "confirm" := by
  constructor
  · rintro ⟨pre, e, post, q, q', rfl, hq, hstep, hrequests⟩
    obtain hnew | ⟨answer, rfl, hcall, hconfirm⟩ :=
      new_or_closed_of_requests (mode_after hq) hstep hrequests
    · exact absurd hprompted (not_prompted_of_new hq hstep hrequests hnew)
    · exact ⟨pre, answer, post, q, rfl, hq, hcall, hconfirm⟩
  · rintro ⟨pre, answer, post, q, rfl, hq, hcall, hconfirm⟩
    obtain ⟨q', hstep, -⟩ := step_of_run hq hrun
    exact ⟨pre, _, post, q, q', rfl, hq, hstep,
      requests_of_closed (mode_after hq) hcall hstep hconfirm⟩

end CreatePage

open CreatePage

variable {env : Platform} {root : CreateRoot} {ledger : Ledger} {p : CreatePage}
  {es : List (CreateEvent env.crypto)}

/-- A call whose prompt is closed with Escape, after "Encrypt anyway" was the button pressed last,
goes on, though its prompt is closed in no other way. -/
private theorem sparesEscape_of_answersBelong
    (hrun : createPageAfter env root ledger es = some p)
    (hbelong : AnswersBelong env root ledger es) : SparesEscape es := by
  rintro pre post rfl hlast
  obtain ⟨q, hq, -⟩ := Machine.run_append_eq_some_iff.mp hrun
  obtain ⟨q', hstep, -⟩ := step_of_run hq hrun
  obtain ⟨call, hwaits⟩ : ∃ call, q.Waits call := by
    cases steps_of_step hstep with
    | closed hopen =>
      obtain ⟨call, plaintext, ttl, -, -, hcall, -⟩ := (mode_after hq).closed hopen .escape
      exact ⟨call, plaintext, ttl, hcall⟩
  have hprompted : Prompted env root ledger (pre ++ .closeDialog .escape :: post) call :=
    ⟨pre, _, q, rfl, hq, hwaits⟩
  have hgoes := (goesOn_iff hrun hprompted).mpr ⟨pre, .escape, post, q, rfl, hq, hwaits,
    (returnValue_eq_confirm_iff hq .escape).mpr (.inr ⟨rfl, hlast⟩)⟩
  obtain ⟨pre', post', q', heq, hq', hwaits'⟩ := (hbelong call hprompted).mp hgoes
  exact absurd (answer_unique heq hq hq' hwaits hwaits') nofun

/-- **The answers belong to their prompts** in exactly the runs in which Escape never closes a
prompt while the button pressed last is "Encrypt anyway". -/
theorem answers_belong_iff (hrun : createPageAfter env root ledger es = some p) :
    AnswersBelong env root ledger es ↔ SparesEscape es := by
  refine ⟨sparesEscape_of_answersBelong hrun, fun hspares call hprompted => ?_⟩
  rw [goesOn_iff hrun hprompted]
  constructor
  · rintro ⟨pre, answer, post, q, heq, hq, hcall, hconfirm⟩
    obtain rfl | ⟨rfl, hlast⟩ := (returnValue_eq_confirm_iff hq answer).mp hconfirm
    · exact ⟨pre, post, q, heq, hq, hcall⟩
    · exact absurd hlast (hspares pre post heq)
  · rintro ⟨pre, post, q, heq, hq, hcall⟩
    exact ⟨pre, .confirm, post, q, heq, hq, hcall,
      (returnValue_eq_confirm_iff hq .confirm).mpr (.inl rfl)⟩

/-! ### Two prompts -/

def promptRoot : CreateRoot := ⟨localOrigin, 86400, true⟩

/-- A note of `n` letters. -/
def lettersNote (n : ℕ) : JSString := Utf16.encode (List.replicate n 'a')

private theorem trim_lettersNote (n : ℕ) : trim (lettersNote (n + 1)) ≠ [] := by
  have hcons : lettersNote (n + 1) = 97 :: lettersNote n := by
    rw [lettersNote, List.replicate_succ, Utf16.encode_cons]
    rfl
  rw [hcons, trim, List.dropWhile_cons_of_neg (by decide), ne_eq, List.rdropWhile_eq_nil_iff]
  exact fun h => absurd (h 97 List.mem_cons_self) (by decide)

private theorem length_textEncode_lettersNote (n : ℕ) :
    (textEncode (lettersNote n)).length = n := by
  have hletter : (String.utf8EncodeChar 'a').length = 1 := by decide
  rw [textEncode, lettersNote, Utf16.decode_encode, Utf8.encode, List.length_flatMap,
    List.map_replicate, List.sum_replicate, hletter]
  simp

/-- The page with a note typed in and nothing under way. -/
private def restingPage (note returnValue : JSString) (submissions : List Submission)
    (requests : List FetchRequest) (view : CreateView) : CreatePage :=
  { initCreatePage promptRoot [] with
    message := note
    dialog := ⟨false, returnValue, []⟩
    submissions := submissions
    requests := requests
    view := view }

private theorem selectedTTL_restingPage :
    (initCreatePage promptRoot []).form.selectedTTL SharePage.clearPlatform promptRoot.maxTTL =
      .ok 86400 := by
  decide +kernel

/-- Submitting a long note opens the prompt. -/
private theorem submit_restingPage {note : JSString} (hblank : trim note ≠ [])
    (hlarge : softPlaintextLimitBytes < (textEncode note).length) (returnValue : JSString)
    (submissions : List Submission) (requests : List FetchRequest) (view : CreateView) :
    ∃ view', (createMachine SharePage.clearPlatform promptRoot).step
      (restingPage note returnValue submissions requests view) (.submit true) =
        some { restingPage note returnValue (submissions ++ [.prompting note 86400]) requests
          view' with dialog := ⟨true, returnValue, [submissions.length]⟩ } := by
  have hform := selectedTTL_restingPage
  have hlong := Nat.not_le.mpr hlarge
  simp only [createMachine, restingPage, step, initCreatePage, onSubmit, hblank, hlong, if_false,
    Bool.false_eq_true, or_self] at hform ⊢
  simp only [hform]
  exact ⟨_, rfl⟩

/-- A long note is submitted, its prompt is confirmed, and the request fails; when it is submitted
again the user presses Escape. -/
def escapeLast (note : JSString) : List (CreateEvent SharePage.clearPlatform.crypto) :=
  [.input note, .submit true, .closeDialog .confirm, .noResponse 0, .submit true,
    .closeDialog .escape]

/-- Escape is pressed first, and then "Encrypt anyway". -/
def escapeFirst (note : JSString) : List (CreateEvent SharePage.clearPlatform.crypto) :=
  [.input note, .submit true, .closeDialog .escape, .submit true, .closeDialog .confirm]

/-- The page after the first prompt of both runs. -/
private theorem run_submit {note : JSString} (hblank : trim note ≠ [])
    (hlarge : softPlaintextLimitBytes < (textEncode note).length) :
    ∃ view, (createMachine SharePage.clearPlatform promptRoot).run (initCreatePage promptRoot [])
      [.input note, .submit true] =
        some { restingPage note [] [.prompting note 86400] [] view with
          dialog := ⟨true, [], [0]⟩ } := by
  obtain ⟨view, hview⟩ :=
    submit_restingPage hblank hlarge [] [] [] (initCreatePage promptRoot []).view
  exact ⟨view, Machine.run_cons_eq_some_iff.mpr ⟨_, rfl, (Machine.run_singleton _ _).trans hview⟩⟩

private theorem run_escapeLast {note : JSString} (hblank : trim note ≠ [])
    (hlarge : softPlaintextLimitBytes < (textEncode note).length) :
    ∃ p, createPageAfter SharePage.clearPlatform promptRoot [] (escapeLast note) = some p ∧
      p.requests.length = 2 := by
  obtain ⟨view, hsubmit⟩ := run_submit hblank hlarge
  have hfails : ∃ view', (createMachine SharePage.clearPlatform promptRoot).run
      { restingPage note [] [.prompting note 86400] [] view with dialog := ⟨true, [], [0]⟩ }
      [.closeDialog .confirm, .noResponse 0] =
        some (restingPage note (js "confirm") [.finished] [createKeyRequest 86400] view') :=
    ⟨_, rfl⟩
  obtain ⟨view', hfails⟩ := hfails
  obtain ⟨view'', hagain⟩ := submit_restingPage hblank hlarge (js "confirm") [.finished]
    [createKeyRequest 86400] view'
  have hescape : ∃ p, (createMachine SharePage.clearPlatform promptRoot).run
      { restingPage note (js "confirm") [.finished, .prompting note 86400]
        [createKeyRequest 86400] view'' with dialog := ⟨true, js "confirm", [1]⟩ }
      [.closeDialog .escape] = some p ∧ p.requests.length = 2 := ⟨_, rfl, rfl⟩
  obtain ⟨p, hescape, hrequests⟩ := hescape
  refine ⟨p, ?_, hrequests⟩
  have hrest := Machine.run_cons_eq_some_iff.mpr ⟨_, hagain, hescape⟩
  exact Machine.run_append_eq_some_iff.mpr ⟨_, hsubmit,
    Machine.run_append_eq_some_iff.mpr ⟨_, hfails, hrest⟩⟩

private theorem run_escapeFirst {note : JSString} (hblank : trim note ≠ [])
    (hlarge : softPlaintextLimitBytes < (textEncode note).length) :
    ∃ p, createPageAfter SharePage.clearPlatform promptRoot [] (escapeFirst note) = some p := by
  obtain ⟨view, hsubmit⟩ := run_submit hblank hlarge
  have hescape : ∃ view', (createMachine SharePage.clearPlatform promptRoot).run
      { restingPage note [] [.prompting note 86400] [] view with dialog := ⟨true, [], [0]⟩ }
      [.closeDialog .escape] = some (restingPage note [] [.finished] [] view') := ⟨_, rfl⟩
  obtain ⟨view', hescape⟩ := hescape
  obtain ⟨view'', hagain⟩ := submit_restingPage hblank hlarge [] [.finished] [] view'
  have hconfirm : ∃ p, (createMachine SharePage.clearPlatform promptRoot).run
      { restingPage note [] [.finished, .prompting note 86400] [] view'' with
        dialog := ⟨true, [], [1]⟩ } [.closeDialog .confirm] = some p := ⟨_, rfl⟩
  obtain ⟨p, hconfirm⟩ := hconfirm
  have hrest := Machine.run_cons_eq_some_iff.mpr ⟨_, hagain, hconfirm⟩
  exact ⟨p, Machine.run_append_eq_some_iff.mpr ⟨_, hsubmit,
    Machine.run_append_eq_some_iff.mpr ⟨_, hescape, hrest⟩⟩⟩

private theorem sparesEscape_escapeFirst (note : JSString) : SparesEscape (escapeFirst note) := by
  intro pre post heq
  have hget : (escapeFirst note)[pre.length]? = some (.closeDialog .escape) := by
    rw [heq, List.getElem?_append_right (Nat.le_refl _), Nat.sub_self]
    rfl
  have htake : pre = (escapeFirst note).take pre.length := by rw [heq, List.take_left]
  -- Escape is the third event, and no button has been pressed before it.
  rcases h : pre.length with _ | _ | _ | _ | _ | n
  all_goals rw [h] at hget htake
  · exact absurd hget nofun
  · exact absurd hget nofun
  · rw [htake]
    exact nofun
  · exact absurd hget nofun
  · exact absurd hget nofun
  · exact absurd hget nofun

/-- Escape before any button does no harm. -/
theorem answers_belong_escapeFirst :
    ∃ p, createPageAfter SharePage.clearPlatform promptRoot []
        (escapeFirst (lettersNote (softPlaintextLimitBytes + 1))) = some p ∧
      AnswersBelong SharePage.clearPlatform promptRoot []
        (escapeFirst (lettersNote (softPlaintextLimitBytes + 1))) := by
  obtain ⟨p, hp⟩ := run_escapeFirst (trim_lettersNote softPlaintextLimitBytes)
    (by rw [length_textEncode_lettersNote]; exact Nat.lt_succ_self _)
  exact ⟨p, hp, (answers_belong_iff hp).mpr (sparesEscape_escapeFirst _)⟩

/-- The second note is encrypted although its prompt is closed with Escape. -/
theorem answers_belong_escapeLast :
    ∃ p, createPageAfter SharePage.clearPlatform promptRoot []
        (escapeLast (lettersNote (softPlaintextLimitBytes + 1))) = some p ∧
      p.requests.length = 2 ∧
      ¬ AnswersBelong SharePage.clearPlatform promptRoot []
        (escapeLast (lettersNote (softPlaintextLimitBytes + 1))) := by
  obtain ⟨p, hp, hrequests⟩ := run_escapeLast (trim_lettersNote softPlaintextLimitBytes)
    (by rw [length_textEncode_lettersNote]; exact Nat.lt_succ_self _)
  refine ⟨p, hp, hrequests, fun hbelong => ?_⟩
  exact sparesEscape_of_answersBelong hp hbelong [_, _, _, _, _] [] rfl rfl

end KeyBank
