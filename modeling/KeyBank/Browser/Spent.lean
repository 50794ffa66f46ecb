import KeyBank.Browser.ShareRun

/-!
# Once the key is spent

A reply with status 200 carries the key, which the server has deleted; 404 says that there is none.
After either the share page must neither offer nor make another key request. `fetchKey` waits twice,
for the headers and for the body, and one `catch` covers both: it takes a body that cannot be read
for a request that has failed, and makes the card ready again. That is the only way back
(`stays_spent`).
-/

namespace KeyBank

namespace SharePage

variable {env : Platform} {root : ShareRoot} {p p' : SharePage} {e : ShareEvent}

/-- A call that has been answered with the key. -/
def HoldsKey : ClickHandler → Prop
  | .reading status => status = 200
  | .decrypting _ _ => True
  | _ => False

/-- The key has been answered for: the page is over, or a call goes on with the key. -/
def Spending (p : SharePage) : Prop :=
  p.Over ∨ ∃ (call : ℕ) (h : ClickHandler), p.handlers[call]? = some h ∧ HoldsKey h

/-- Reading the body of a reply with status 200 does not fail in this step. -/
def ReadsKey (p : SharePage) (e : ShareEvent) : Prop :=
  ∀ call err, e = .bodyError call err → p.handlers[call]? ≠ some (.reading 200)

private theorem HoldsKey.ne_returned {h : ClickHandler} (hkey : HoldsKey h) : h ≠ .returned := by
  rintro rfl
  exact hkey

theorem Spending.card_ne_ready (inv : p.Inv) (h : p.Spending) : p.card ≠ .ready := by
  obtain (hcard | hcard) | ⟨call, h, hcall, hkey⟩ := h
  · simp [hcard]
  · simp [hcard]
  · simp [(inv.of_waiting hcall hkey.ne_returned).1]

/-- What answers for the key. -/
theorem spending_of_response {call status : ℕ} (hstatus : status = 200 ∨ status = 404)
    (h : p.step env root (.response call status) = some p') : p'.Spending := by
  cases steps_of_step h with
  | answered hcall hreply =>
    have hlt : call < p.handlers.length := (List.getElem?_eq_some_iff.mp hcall).1
    rcases hstatus with rfl | rfl
    · exact Or.inr ⟨call, .reading 200, List.getElem?_set_self hlt, rfl⟩
    · exact absurd hreply nofun
  | gone => exact Or.inl (.inr rfl)
  | refused _ hreply => rcases hstatus with rfl | rfl <;> exact absurd hreply nofun

/-- **Step lemma.** A page that has been answered stays so, and sends nothing. -/
theorem Spending.step (inv : p.Inv) (hspending : p.Spending) (hreads : ReadsKey p e)
    (h : p.step env root e = some p') : p'.Spending ∧ p'.requests = p.requests := by
  obtain hover | ⟨call, h₀, hcall₀, hkey⟩ := hspending
  · obtain ⟨hcard, hrequests, -⟩ := inv.step_of_over hover h
    exact ⟨Or.inl (hover.imp hcard.trans hcard.trans), hrequests⟩
  have hcard := (inv.of_waiting hcall₀ hkey.ne_returned).1
  have hdisabled : p.disabled ≠ false := by simp [inv.disabled, hcard]
  -- Any call that is under way is this one, so it holds the key.
  have hholds {i : ℕ} {h₁ : ClickHandler} (hi : p.handlers[i]? = some h₁) (hne₁ : h₁ ≠ .returned) :
      HoldsKey h₁ := by
    obtain ⟨-, rfl⟩ := inv.waiting_unique hi hcall₀ hne₁ hkey.ne_returned
    exact hkey
  cases steps_of_step h with
  | ignored hd | sent hd | unsent hd => exact absurd hd hdisabled
  | stayed | navigated | overlooked => exact ⟨Or.inr ⟨call, h₀, hcall₀, hkey⟩, rfl⟩
  | accepted _ hready | rejected _ hready => simp [hcard] at hready
  | answered hi | gone hi | refused hi | lost hi => exact (hholds hi nofun).elim
  | @unread i status err view hi =>
    obtain rfl : status = 200 := hholds hi nofun
    exact absurd hi (hreads i err rfl)
  | @decrypting i status text f hi =>
    have hlt : i < p.handlers.length := (List.getElem?_eq_some_iff.mp hi).1
    exact ⟨Or.inr ⟨i, .decrypting text f, List.getElem?_set_self hlt, trivial⟩, rfl⟩
  | undecryptable | garbled => exact ⟨Or.inl (.inr rfl), rfl⟩
  | decrypted => exact ⟨Or.inl (.inl rfl), rfl⟩

/-- **Once spent, the page knows it.** After a reply with status 200 or 404, and as long as no body
of a reply with status 200 fails to be read, the card is not ready again and nothing is sent. -/
theorem stays_spent {location : URL} {ledger : Ledger} {es es' : List ShareEvent} {p₁ p₂ : SharePage}
    {call status : ℕ}
    (hrun : (shareMachine env root).run (initSharePage env root location ledger) es = some p)
    (hstatus : status = 200 ∨ status = 404)
    (hanswer : p.step env root (.response call status) = some p₁)
    (hreads : (shareMachine env root).Always ReadsKey p₁ es')
    (hrun' : (shareMachine env root).run p₁ es' = some p₂) :
    p₂.card ≠ .ready ∧ p₂.requests = p₁.requests := by
  have inv := inv_of_run hrun
  have hstep : ∀ q e q', q.Inv ∧ q.Spending ∧ q.requests = p₁.requests → ReadsKey q e →
      (shareMachine env root).step q e = some q' →
      q'.Inv ∧ q'.Spending ∧ q'.requests = p₁.requests := by
    rintro q e q' ⟨hinv, hspending, hrequests⟩ hreads hstep
    obtain ⟨hspending', hrequests'⟩ := hspending.step hinv hreads hstep
    exact ⟨hinv.step hstep, hspending', hrequests'.trans hrequests⟩
  obtain ⟨hinv, hspending, hrequests⟩ := Machine.run_induction hstep hreads hrun'
    ⟨inv.step hanswer, spending_of_response hstatus hanswer, rfl⟩
  exact ⟨hspending.card_ne_ready hinv, hrequests⟩

theorem stays_spent_openedRun :
    ∃ p p₁ p₂, (shareMachine clearPlatform sampleRoot).run (samplePage sampleFragment) [.click] =
        some p ∧
      p.step clearPlatform sampleRoot (.response 0 200) = some p₁ ∧
      (shareMachine clearPlatform sampleRoot).run p₁ [.body 0 clearPrivatePem, .decrypted 0] =
        some p₂ ∧
      p₂.card ≠ .ready ∧ p₂.requests = p₁.requests := by
  have hrun : ((shareMachine clearPlatform sampleRoot).run (samplePage sampleFragment)
      ([.click] ++ .response 0 200 :: [.body 0 clearPrivatePem, .decrypted 0])).isSome = true := by
    decide +kernel
  obtain ⟨p₂, hrun⟩ := Option.isSome_iff_exists.mp hrun
  obtain ⟨p, hclick, hrun⟩ := Machine.run_append_eq_some_iff.mp hrun
  obtain ⟨p₁, hanswer, hrun⟩ := Machine.run_cons_eq_some_iff.mp hrun
  have hreads : (shareMachine clearPlatform sampleRoot).Always ReadsKey p₁
      [.body 0 clearPrivatePem, .decrypted 0] :=
    ⟨nofun, fun _ _ => ⟨nofun, fun _ _ => trivial⟩⟩
  exact ⟨p, p₁, p₂, hclick, hanswer, hrun, stays_spent hclick (.inl rfl) hanswer hreads hrun⟩

/-- A reply with status 200 whose body is lost: the card is ready again, and a second click asks for
the key once more. -/
theorem spent_breach :
    ((shareMachine clearPlatform sampleRoot).run (samplePage sampleFragment)
      [.click, .response 0 200, .bodyError 0 (.platform "TypeError")]).map
        (fun p => (p.card, p.requests.length)) = some (.ready, 1) ∧
    ((shareMachine clearPlatform sampleRoot).run (samplePage sampleFragment)
      [.click, .response 0 200, .bodyError 0 (.platform "TypeError"), .click]).map
        (fun p => (p.card, p.requests.length)) = some (.working, 2) := by
  decide +kernel

end SharePage

end KeyBank
