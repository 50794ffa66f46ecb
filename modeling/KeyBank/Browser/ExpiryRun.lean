import KeyBank.Browser.CreateRun

/-!
# Runs of the expiry form

What a user can do to the expiry form, and what the create page makes of it.

* `ExpiryForm.HasButtons` is the invariant: the buttons are the template's, and the one for a
  custom lifetime is never disabled. A new note puts the form back to what it was when the page
  was loaded (`reset_configure`), and a loaded form has a choice to offer (`isReady_loaded`).
* `createExpiry`: a run of the create page is a run of the form, as far as the form goes.
* `CreatePage.Faithful` is kept by the page: it asks for lifetimes the form has given, and the call
  under way is the one whose request was sent last.
-/

namespace KeyBank

/-! ### What a user can do to the form -/

inductive ExpiryAction where
  | choose (preset : ℕ)
  | typeCustom (value : JSString)
  | newNote

namespace ExpiryForm

/-- One action: a disabled button cannot be chosen, a disabled field cannot be typed in. -/
def act (maxTTL : ℕ) (form : ExpiryForm) : ExpiryAction → Option ExpiryForm
  | .choose preset =>
    if form.presets[preset]?.all fun preset => preset.disabled then none
    else some (form.check preset).syncCustomInput
  | .typeCustom value => if form.customDisabled then none else some { form with customValue := value }
  | .newNote => some (form.reset.configureExpiryOptions maxTTL).syncCustomInput

/-- The form of a page that has just been loaded. -/
def loaded (maxTTL : ℕ) : ExpiryForm := (initial.configureExpiryOptions maxTTL).syncCustomInput

/-- The buttons of the template, in whatever state they are; the last one is not disabled. -/
def HasButtons (form : ExpiryForm) : Prop :=
  ∃ c₁ d₁ c₂ d₂ c₃ d₃ c₄, form.presets =
    [⟨some 3600, c₁, d₁⟩, ⟨some 86400, c₂, d₂⟩, ⟨some 604800, c₃, d₃⟩, ⟨none, c₄, false⟩]

/-- An enabled button is checked, and `selectedTTL` does not throw. -/
structure IsReady (env : Platform) (maxTTL : ℕ) (form : ExpiryForm) : Prop where
  checked : ∃ preset ∈ form.presets, preset.checked = true ∧ preset.disabled = false
  selected : ∃ ttl, form.selectedTTL env maxTTL = .ok ttl

variable {env : Platform} {maxTTL : ℕ} {form : ExpiryForm}

theorem hasButtons_initial : initial.HasButtons := ⟨_, _, _, _, _, _, _, rfl⟩

theorem HasButtons.check (h : form.HasButtons) (i : ℕ) : (form.check i).HasButtons := by
  obtain ⟨c₁, d₁, c₂, d₂, c₃, d₃, c₄, h⟩ := h
  exact ⟨_, _, _, _, _, _, _, by simp only [ExpiryForm.check, h]; rfl⟩

theorem HasButtons.configure (h : form.HasButtons) (maxTTL : ℕ) :
    (form.configureExpiryOptions maxTTL).HasButtons := by
  have hallow : HasButtons { form with
      presets := form.presets.map (allow maxTTL)
      customMax := js (toString (max 1 (maxTTL / 60)))
      customValue :=
        if (toNumber form.customValue).exceeds (max 1 (maxTTL / 60)) then
          js (toString (max 1 (maxTTL / 60)))
        else form.customValue } := by
    obtain ⟨c₁, d₁, c₂, d₂, c₃, d₃, c₄, h⟩ := h
    exact ⟨_, _, _, _, _, _, _, by simp only [h]; rfl⟩
  unfold configureExpiryOptions
  dsimp only
  split
  · exact hallow
  · split
    · exact hallow.check _
    · exact hallow

/-- Configuring a form reads its buttons, as far as they are not disabled for being too long, and
its custom value. -/
theorem configure_congr {form' : ExpiryForm}
    (hpresets : form.presets.map (allow maxTTL) = form'.presets.map (allow maxTTL))
    (hvalue : form.customValue = form'.customValue) :
    (form.configureExpiryOptions maxTTL).syncCustomInput =
      (form'.configureExpiryOptions maxTTL).syncCustomInput := by
  simp only [configureExpiryOptions, hpresets, hvalue]
  split
  · rfl
  · split <;> rfl

/-- A new note puts the form back to how it was loaded. -/
theorem HasButtons.reset_configure (h : form.HasButtons) (maxTTL : ℕ) :
    (form.reset.configureExpiryOptions maxTTL).syncCustomInput = loaded maxTTL := by
  obtain ⟨c₁, d₁, c₂, d₂, c₃, d₃, c₄, h⟩ := h
  refine configure_congr ?_ rfl
  rw [ExpiryForm.reset, h]
  rfl

theorem HasButtons.act (h : form.HasButtons) {a : ExpiryAction} {form' : ExpiryForm}
    (hact : form.act maxTTL a = some form') : form'.HasButtons := by
  cases a with
  | choose i =>
    rw [ExpiryForm.act] at hact
    split at hact
    · cases hact
    · cases hact
      exact h.check i
  | typeCustom value =>
    rw [ExpiryForm.act] at hact
    split at hact
    · cases hact
    · cases hact
      exact h
  | newNote =>
    cases hact
    rw [h.reset_configure]
    exact hasButtons_initial.configure maxTTL

/-- Whatever is selected is in bounds. -/
theorem HasButtons.selectedTTL_bounds (h : form.HasButtons) (hmax : 60 ≤ maxTTL) {ttl : ℕ}
    (hselected : form.selectedTTL env maxTTL = .ok ttl) : 60 ≤ ttl ∧ ttl ≤ maxTTL := by
  unfold selectedTTL at hselected
  split at hselected
  · cases hselected
    rw [defaultTTLSeconds]
    omega
  · next seconds _ _ hfind =>
    have hmem := List.mem_of_find?_eq_some hfind
    obtain ⟨c₁, d₁, c₂, d₂, c₃, d₃, c₄, h⟩ := h
    have hseconds : seconds = 3600 ∨ seconds = 86400 ∨ seconds = 604800 := by
      simp only [h, List.mem_cons, ExpiryPreset.mk.injEq, Option.some.injEq, reduceCtorEq,
        false_and, or_false, List.not_mem_nil] at hmem
      exact hmem.imp And.left (Or.imp And.left And.left)
    split at hselected
    · cases hselected
    · cases hselected
      omega
  · split at hselected
    · cases hselected
    · next minutes _ =>
      split at hselected
      · cases hselected
      · split at hselected
        · cases hselected
        · cases hselected
          omega

/-- The number a numeral of the custom field stands for, up to an hour. -/
theorem toNumber_minutes {n : ℕ} (h : n < 61) : toNumber (js (toString n)) = .finite n := by
  have hall : ∀ n : ℕ, n < 61 → toNumber (js (toString n)) = .finite n := by decide +kernel
  exact hall n h

theorem loaded_long (hmax : 86400 ≤ maxTTL) :
    (loaded maxTTL).presets = [⟨some 3600, false, false⟩, ⟨some 86400, true, false⟩,
      ⟨some 604800, false, decide (maxTTL < 604800)⟩, ⟨none, false, false⟩] := by
  simp [loaded, syncCustomInput, configureExpiryOptions, initial, allow, Nat.not_lt.mpr hmax,
    show ¬maxTTL < 3600 by omega]

theorem loaded_medium (hmin : 3600 ≤ maxTTL) (hmax : maxTTL < 86400) :
    (loaded maxTTL).presets = [⟨some 3600, true, false⟩, ⟨some 86400, false, true⟩,
      ⟨some 604800, false, true⟩, ⟨none, false, false⟩] := by
  have hrange : List.range 4 = [0, 1, 2, 3] := rfl
  simp [loaded, syncCustomInput, configureExpiryOptions, initial, allow, hmax,
    show ¬maxTTL < 3600 by omega, show maxTTL < 604800 by omega, hrange, check]

theorem loaded_short (hmax : maxTTL < 3600) :
    (loaded maxTTL).presets = [⟨some 3600, false, true⟩, ⟨some 86400, false, true⟩,
      ⟨some 604800, false, true⟩, ⟨none, true, false⟩] := by
  have hrange : List.range 4 = [0, 1, 2, 3] := rfl
  simp [loaded, syncCustomInput, configureExpiryOptions, initial, allow, hmax,
    show maxTTL < 86400 by omega, show maxTTL < 604800 by omega, hrange, check]

theorem customValue_loaded_short (hmax : maxTTL < 3600) :
    (loaded maxTTL).customValue = js (toString (max 1 (maxTTL / 60))) := by
  have hsixty : toNumber (js "60") = .finite 60 := toNumber_minutes (n := 60) (by omega)
  have hexceeds : (toNumber (js "60")).exceeds (max 1 (maxTTL / 60)) = true := by
    rw [hsixty, JSNumber.exceeds, decide_eq_true_iff]
    exact_mod_cast (show max 1 (maxTTL / 60) < 60 by omega)
  have hrange : List.range 4 = [0, 1, 2, 3] := rfl
  simp [loaded, syncCustomInput, configureExpiryOptions, initial, allow, hmax,
    show maxTTL < 86400 by omega, show maxTTL < 604800 by omega, hrange, check, hexceeds]

/-- **A loaded form is ready**, whatever the maximum is. -/
theorem isReady_loaded (hmax : 60 ≤ maxTTL) : (loaded maxTTL).IsReady env maxTTL := by
  by_cases hday : 86400 ≤ maxTTL
  · have hpresets := loaded_long hday
    refine ⟨⟨⟨some 86400, true, false⟩, by simp [hpresets], rfl, rfl⟩, 86400, ?_⟩
    simp [selectedTTL, hpresets, Nat.not_lt.mpr hday]
  by_cases hhour : 3600 ≤ maxTTL
  · have hpresets := loaded_medium hhour (Nat.not_le.mp hday)
    refine ⟨⟨⟨some 3600, true, false⟩, by simp [hpresets], rfl, rfl⟩, 3600, ?_⟩
    simp [selectedTTL, hpresets, Nat.not_lt.mpr hhour]
  · -- every preset is too long, and the custom field holds the whole minutes of the maximum
    have hshort := Nat.not_le.mp hhour
    have hpresets := loaded_short hshort
    refine ⟨⟨⟨none, true, false⟩, by simp [hpresets], rfl, rfl⟩, maxTTL / 60 * 60, ?_⟩
    have hminutes : (toNumber (loaded maxTTL).customValue).toInteger =
        some ((maxTTL / 60 : ℕ) : ℤ) := by
      rw [customValue_loaded_short hshort, toNumber_minutes (by omega),
        show max 1 (maxTTL / 60) = maxTTL / 60 by omega]
      rfl
    have hlow : ¬((maxTTL / 60 : ℕ) : ℤ) < 1 := by omega
    have hhigh : ¬(maxTTL : ℤ) < ((maxTTL / 60 : ℕ) : ℤ) * 60 := by omega
    have htoNat : (((maxTTL / 60 : ℕ) : ℤ) * 60).toNat = maxTTL / 60 * 60 := by omega
    rw [selectedTTL, hpresets]
    simp only [List.find?_cons, hminutes, hlow, hhigh, htoNat, if_false]

end ExpiryForm

/-! ### Runs of the form -/

/-- The form as a machine. -/
def expiryMachine (maxTTL : ℕ) : Machine ExpiryForm ExpiryAction where
  step form a := form.act maxTTL a

/-- The number of seconds the form gives after some run. -/
def Chosen (env : Platform) (maxTTL ttl : ℕ) : Prop :=
  ∃ as form, (expiryMachine maxTTL).run (.loaded maxTTL) as = some form ∧
    form.selectedTTL env maxTTL = .ok ttl

section Form

variable {env : Platform} {maxTTL : ℕ} {form : ExpiryForm} {as : List ExpiryAction}

theorem hasButtons_of_run (hrun : (expiryMachine maxTTL).run (.loaded maxTTL) as = some form) :
    form.HasButtons := by
  have hstep : ∀ form a form', ExpiryForm.HasButtons form →
      (expiryMachine maxTTL).step form a = some form' → form'.HasButtons :=
    fun _ _ _ h hact => h.act hact
  exact Machine.run_invariant hstep hrun (ExpiryForm.hasButtons_initial.configure maxTTL)

theorem Chosen.bounds (hmax : 60 ≤ maxTTL) {ttl : ℕ} (h : Chosen env maxTTL ttl) :
    60 ≤ ttl ∧ ttl ≤ maxTTL := by
  obtain ⟨as, form, hrun, hselected⟩ := h
  exact (hasButtons_of_run hrun).selectedTTL_bounds hmax hselected

/-- A run that is empty or ends with a new note leaves the form as it was loaded. -/
theorem eq_loaded_of_run (hrun : (expiryMachine maxTTL).run (.loaded maxTTL) as = some form)
    (hlast : ∀ a ∈ as.getLast?, a = .newNote) : form = .loaded maxTTL := by
  rcases List.eq_nil_or_concat as with rfl | ⟨as, a, rfl⟩
  · exact (Option.some.inj hrun).symm
  · rw [List.concat_eq_append] at hrun hlast
    obtain rfl : a = .newNote := hlast a (by simp)
    obtain ⟨form', hrun', hstep⟩ := Machine.run_append_eq_some_iff.mp hrun
    rw [Machine.run_singleton] at hstep
    rw [← (hasButtons_of_run hrun').reset_configure maxTTL]
    exact (Option.some.inj hstep).symm

end Form

/-! ### Runs of the page -/

/-- What an event of the page does to the form. -/
def expiryAction {C : SubtleCrypto} : CreateEvent C → Option ExpiryAction
  | .choose preset => some (.choose preset)
  | .typeCustom value => some (.typeCustom value)
  | .newNote => some .newNote
  | _ => none

/-- A call that waits for the prompt has been given its lifetime by the form; one that has sent
its request has sent the last one, for the lifetime it will show, and no result is shown. -/
def Submission.Agrees (env : Platform) (maxTTL : ℕ) (requests : List FetchRequest)
    (resultHidden : Bool) : Submission → Prop
  | .prompting _ ttl => Chosen env maxTTL ttl
  | .fetching _ ttl _ => requests.getLast? = some (createKeyRequest ttl) ∧ resultHidden = true
  | .reading _ ttl => requests.getLast? = some (createKeyRequest ttl) ∧ resultHidden = true
  | .encrypting _ ttl _ => requests.getLast? = some (createKeyRequest ttl) ∧ resultHidden = true
  | .finished => True

namespace CreatePage

/-- The page asks for the lifetimes its form has given. -/
structure Faithful (env : Platform) (root : CreateRoot) (p : CreatePage) : Prop where
  form : ∃ as, (expiryMachine root.maxTTL).run (.loaded root.maxTTL) as = some p.form
  submissions : ∀ s ∈ p.submissions, s.Agrees env root.maxTTL p.requests p.resultHidden
  requests : ∀ q ∈ p.requests, ∃ ttl, Chosen env root.maxTTL ttl ∧ q = createKeyRequest ttl

variable {env : Platform} {root : CreateRoot} {p p' : CreatePage} {e : CreateEvent env.crypto}

theorem form_of_step (mode : p.Mode) (h : p.step env root e = some p') :
    (expiryMachine root.maxTTL).run p.form (expiryAction e).toList = some p'.form := by
  cases steps_of_step h with
  | @chosen i hi =>
    have hact : p.form.act root.maxTTL (.choose i) = some (p.form.check i).syncCustomInput :=
      if_neg (Bool.eq_false_iff.mp hi)
    rw [expiryAction, Option.toList_some, Machine.run_singleton]
    exact hact
  | @customTyped value hcustom =>
    have hact : p.form.act root.maxTTL (.typeCustom value) =
        some { p.form with customValue := value } := if_neg (Bool.eq_false_iff.mp hcustom)
    rw [expiryAction, Option.toList_some, Machine.run_singleton]
    exact hact
  | @closed answer hopen =>
    obtain ⟨call, plaintext, ttl, entry, view, -, -, heq⟩ := mode.closed hopen answer
    rw [heq]
    split <;> rfl
  | _ => rfl

theorem Faithful.chosen (h : p.Faithful env root) {ttl : ℕ}
    (httl : p.form.selectedTTL env root.maxTTL = .ok ttl) : Chosen env root.maxTTL ttl :=
  h.form.imp fun _ hrun => ⟨p.form, hrun, httl⟩

/-- A call that goes on keeps what has been sent. -/
theorem Faithful.mem_set (h : p.Faithful env root) {call : ℕ} {s : Submission}
    (hs : s.Agrees env root.maxTTL p.requests p.resultHidden) :
    ∀ s' ∈ p.submissions.set call s, s'.Agrees env root.maxTTL p.requests p.resultHidden := by
  intro s' hs'
  rcases List.mem_or_eq_of_mem_set hs' with hmem | rfl
  · exact h.submissions s' hmem
  · exact hs

theorem Faithful.of_getElem? (h : p.Faithful env root) {call : ℕ} {s : Submission}
    (hcall : p.submissions[call]? = some s) :
    s.Agrees env root.maxTTL p.requests p.resultHidden :=
  h.submissions s (List.mem_of_getElem? hcall)

/-- One more request, for a lifetime the form has given. -/
theorem Faithful.mem_concat (h : p.Faithful env root) {ttl : ℕ} (httl : Chosen env root.maxTTL ttl) :
    ∀ q ∈ p.requests ++ [createKeyRequest ttl],
      ∃ ttl, Chosen env root.maxTTL ttl ∧ q = createKeyRequest ttl := by
  intro q hq
  rcases List.mem_append.mp hq with hq | hq
  · exact h.requests q hq
  · exact ⟨ttl, httl, List.mem_singleton.mp hq⟩

/-- The call that sends a request is the only one that has. -/
theorem agrees_of_lastCall {calls : List Submission} {plaintext : JSString} {ttl entry : ℕ}
    {requests : List FetchRequest}
    (hlast : Calls.LastCall .finished calls (.fetching plaintext ttl entry)) :
    ∀ s ∈ calls, s.Agrees env root.maxTTL (requests ++ [createKeyRequest ttl]) true := by
  intro s hs
  rcases hlast.eq_or_eq hs with rfl | rfl
  · trivial
  · exact ⟨List.getLast?_concat, rfl⟩

/-- **Step lemma.** -/
theorem Faithful.step (h : p.Faithful env root) (mode : p.Mode)
    (hstep : p.step env root e = some p') : p'.Faithful env root := by
  have hform : ∃ as, (expiryMachine root.maxTTL).run (.loaded root.maxTTL) as = some p'.form := by
    obtain ⟨as, hrun⟩ := h.form
    exact ⟨_, Machine.run_append_eq_some_iff.mpr ⟨_, hrun, form_of_step mode hstep⟩⟩
  suffices hrest : (∀ s ∈ p'.submissions, s.Agrees env root.maxTTL p'.requests p'.resultHidden) ∧
      ∀ q ∈ p'.requests, ∃ ttl, Chosen env root.maxTTL ttl ∧ q = createKeyRequest ttl from
    ⟨hform, hrest.1, hrest.2⟩
  cases steps_of_step hstep with
  | typed | chosen | customTyped | unsent => exact ⟨h.submissions, h.requests⟩
  | renewed =>
    -- A new note hides the result; the calls under way go on.
    refine ⟨fun s hs => ?_, h.requests⟩
    have hagrees := h.submissions s hs
    cases s with
    | fetching | reading | encrypting => exact ⟨hagrees.1, rfl⟩
    | prompting => exact hagrees
    | finished => trivial
  | sent hopen hd httl =>
    obtain ⟨-, hdone⟩ := mode.of_enabled hopen hd
    exact ⟨agrees_of_lastCall (hdone.concat _), h.mem_concat (h.chosen httl)⟩
  | declined =>
    refine ⟨fun s hs => ?_, h.requests⟩
    rcases List.mem_append.mp hs with hs | hs
    · exact h.submissions s hs
    · rw [List.mem_singleton.mp hs]
      trivial
  | prompted _ _ _ _ httl =>
    refine ⟨fun s hs => ?_, h.requests⟩
    rcases List.mem_append.mp hs with hs | hs
    · exact h.submissions s hs
    · rw [List.mem_singleton.mp hs]
      exact h.chosen httl
  | @closed answer hopen =>
    obtain ⟨call, plaintext, ttl, entry, view, hcall, hlast, heq⟩ := mode.closed hopen answer
    rw [heq]
    split
    · exact ⟨agrees_of_lastCall (hlast.set hcall nofun _), h.mem_concat (h.of_getElem? hcall)⟩
    · exact ⟨h.mem_set trivial, h.requests⟩
  | replied hcall =>
    have hsent := h.of_getElem? hcall
    exact ⟨h.mem_set hsent, h.requests⟩
  | keyed hcall =>
    have hsent := h.of_getElem? hcall
    exact ⟨h.mem_set hsent, h.requests⟩
  | refused | lost | unreadable => exact ⟨h.mem_set trivial, h.requests⟩
  | encrypted hcall =>
    -- The result may be shown now, and no call is left that could show another.
    obtain ⟨-, -, -, hlast⟩ := mode.of_active hcall trivial
    have hdone := (hlast.set hcall nofun .finished).allDone
    refine ⟨fun s hs => ?_, h.requests⟩
    rw [hdone s hs]
    trivial

/-- **Run lemma.** -/
theorem faithful_of_run {ledger : Ledger} {es : List (CreateEvent env.crypto)}
    (hrun : (createMachine env root).run (initCreatePage root ledger) es = some p) :
    p.Mode ∧ p.Faithful env root := by
  have hstep : ∀ (p : CreatePage) e p', p.Mode ∧ p.Faithful env root →
      (createMachine env root).step p e = some p' → p'.Mode ∧ p'.Faithful env root :=
    fun _ _ _ h hstep => ⟨h.1.step hstep, h.2.step h.1 hstep⟩
  exact Machine.run_invariant hstep hrun ⟨mode_init root ledger, ⟨[], rfl⟩, nofun, nofun⟩

/-- **What is shown is what was asked for.** -/
theorem shown_of_step (h : p.Faithful env root) {call : ℕ} {rand : Randomness env.crypto} {qr : Bool}
    (hstep : p.step env root (.encrypted call rand qr) = some p') (hshown : p'.resultHidden = false) :
    ∃ ttl, p'.requests.getLast? = some (createKeyRequest ttl) ∧
      p'.view.resultExpiry = js "It opens once, and expires in " ++ formatDuration env ttl ++
        js " if nobody opens it." := by
  rw [step] at hstep
  split at hstep
  · next plaintext ttl key hcall =>
    obtain ⟨hlast, hhidden⟩ := h.of_getElem? hcall
    obtain rfl := Option.some.inj hstep
    rw [onEncrypted] at hshown ⊢
    split
    · next e he =>
      rw [he] at hshown
      cases hhidden.symm.trans hshown
    · exact ⟨ttl, hlast, rfl⟩
  · cases hstep

end CreatePage

/-- The form of a page. -/
def createExpiry (env : Platform) (root : CreateRoot) :
    Machine.Abstraction (createMachine env root) (expiryMachine root.maxTTL) fun _ _ => True where
  abs p := p.form
  visible := expiryAction
  Inv := CreatePage.Mode
  preserves _ _ _ mode _ hstep := mode.step hstep
  follows _ _ _ mode _ hstep := CreatePage.form_of_step mode hstep

end KeyBank
