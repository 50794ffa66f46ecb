import KeyBank.Browser.RoundTrip
import KeyBank.Browser.Share
import KeyBank.Foundation.Calls

/-!
# Runs of the share page

What holds of the share page whatever the user, the server and the network do, and in whatever
order.

The guard against a second key request is in three places: the handler returns without a fragment,
the button is disabled unless the card is ready, and the listener for `hashchange` leaves a working,
open or spent card alone. `SharePage.Inv` connects them: a call of the click handler is under way
exactly while the card is working, and it is the last one.
-/

namespace KeyBank

open Calls

namespace SharePage

variable {env : Platform} {root : ShareRoot} {p p' : SharePage} {e : ShareEvent}

/-! ### The invariant -/

/-- What connects the card, the button and the calls of the click handler. -/
structure Inv (p : SharePage) : Prop where
  disabled : p.disabled = decide (p.card ≠ .ready)
  accepted : ∀ f, p.fragment = some f → ∃ hash, parseFragment hash = .ok f
  loaded : p.card = .ready ∨ p.card = .working → p.fragment ≠ none
  idle : p.card ≠ .working → AllDone .returned p.handlers
  busy : p.card = .working → ∃ h, LastCall .returned p.handlers h ∧ h ≠ .returned
  hidden : p.card ≠ .opened → p.revealed = []
  shown : p.revealed.length ≤ 1

/-- A call that is under way is the only one, and the card is working. -/
theorem Inv.of_waiting (inv : p.Inv) {call : ℕ} {h : ClickHandler}
    (hcall : p.handlers[call]? = some h) (hne : h ≠ .returned) :
    p.card = .working ∧ LastCall .returned p.handlers h := by
  have hcard : p.card = .working := by
    by_contra hcard
    exact hne ((inv.idle hcard).eq_done hcall)
  obtain ⟨h', hlast, -⟩ := inv.busy hcard
  obtain ⟨-, rfl⟩ := hlast.eq hcall hne
  exact ⟨hcard, hlast⟩

/-- Two calls that are under way are one. -/
theorem Inv.waiting_unique (inv : p.Inv) {i j : ℕ} {h h' : ClickHandler}
    (hi : p.handlers[i]? = some h) (hj : p.handlers[j]? = some h') (hne : h ≠ .returned)
    (hne' : h' ≠ .returned) : i = j ∧ h = h' := by
  obtain ⟨-, hlast⟩ := inv.of_waiting hj hne'
  obtain ⟨hi, rfl⟩ := hlast.eq hi hne
  obtain ⟨hj, -⟩ := hlast.eq hj hne'
  exact ⟨by omega, rfl⟩

/-- When the call under way returns, every call has. -/
private theorem Inv.allDone_set (inv : p.Inv) {call : ℕ} {h : ClickHandler}
    (hcall : p.handlers[call]? = some h) (hne : h ≠ .returned) :
    AllDone .returned (p.handlers.set call .returned) :=
  ((inv.of_waiting hcall hne).2.set hcall hne _).allDone

/-- After a failure the card is ready again, with the fragment it has. -/
private theorem Inv.failed (inv : p.Inv) {call : ℕ} {h : ClickHandler}
    (hcall : p.handlers[call]? = some h) (hne : h ≠ .returned) (view : ShareView) :
    (p.failed call view).Inv := by
  have hcard := (inv.of_waiting hcall hne).1
  have hrevealed : p.revealed = [] := inv.hidden (by simp [hcard])
  have hloaded : p.fragment ≠ none := inv.loaded (.inr hcard)
  exact ⟨rfl, inv.accepted, fun _ => hloaded, fun _ => inv.allDone_set hcall hne, nofun,
    fun _ => hrevealed, inv.shown⟩

private theorem Inv.spent (inv : p.Inv) {call : ℕ} {h : ClickHandler}
    (hcall : p.handlers[call]? = some h) (hne : h ≠ .returned) (view : ShareView) :
    (p.spent call view).Inv := by
  have hcard := (inv.of_waiting hcall hne).1
  have hrevealed : p.revealed = [] := inv.hidden (by simp [hcard])
  exact ⟨rfl, inv.accepted, nofun, fun _ => inv.allDone_set hcall hne, nofun,
    fun _ => hrevealed, inv.shown⟩

/-- A call that goes on waiting leaves everything else as it is. -/
private theorem Inv.waits (inv : p.Inv) {call : ℕ} {h h' : ClickHandler}
    (hcall : p.handlers[call]? = some h) (hne : h ≠ .returned) (hne' : h' ≠ .returned)
    (view : ShareView) : Inv { p with handlers := p.handlers.set call h', view := view } := by
  obtain ⟨hcard, hlast⟩ := inv.of_waiting hcall hne
  exact ⟨inv.disabled, inv.accepted, inv.loaded, fun hidle => absurd hcard hidle,
    fun _ => ⟨h', hlast.set hcall hne h', hne'⟩, inv.hidden, inv.shown⟩

/-- **Step lemma.** Every event keeps the invariant. -/
theorem Inv.step (inv : p.Inv) (h : p.step env root e = some p') : p'.Inv := by
  have hready (hd : p.disabled = false) : p.card = .ready := by
    simpa [inv.disabled] using hd
  cases steps_of_step h with
  | ignored => exact inv
  | @sent f request entry view hd hf =>
    have hcard := hready hd
    have hreturned := inv.idle (by simp [hcard])
    have hrevealed : p.revealed = [] := inv.hidden (by simp [hcard])
    exact ⟨rfl, inv.accepted, fun _ => by simp [hf], fun hidle => absurd rfl hidle,
      fun _ => ⟨.fetching entry, hreturned.concat _, nofun⟩, fun _ => hrevealed, inv.shown⟩
  | unsent hd hf =>
    have hcard := hready hd
    have hreturned := inv.idle (by simp [hcard])
    have hrevealed : p.revealed = [] := inv.hidden (by simp [hcard])
    exact ⟨rfl, inv.accepted, fun _ => by simp [hf], fun _ => hreturned.concat_done, nofun,
      fun _ => hrevealed, inv.shown⟩
  | stayed => exact inv
  | navigated => exact ⟨inv.disabled, inv.accepted, inv.loaded, inv.idle, inv.busy, inv.hidden,
      inv.shown⟩
  | accepted _ hcard hparse =>
    -- The card was ready or invalid, so no call is under way.
    have hidle : p.card ≠ .working ∧ p.card ≠ .opened := by
      rcases hcard with hcard | hcard <;> simp [hcard]
    have hreturned := inv.idle hidle.1
    have hrevealed := inv.hidden hidle.2
    refine ⟨rfl, fun f hf => ?_, nofun, fun _ => hreturned, nofun, fun _ => hrevealed, inv.shown⟩
    obtain rfl := Option.some.inj hf
    exact ⟨_, hparse⟩
  | rejected _ hcard =>
    have hidle : p.card ≠ .working ∧ p.card ≠ .opened := by
      rcases hcard with hcard | hcard <;> simp [hcard]
    have hreturned := inv.idle hidle.1
    have hrevealed := inv.hidden hidle.2
    exact ⟨rfl, nofun, nofun, fun _ => hreturned, nofun, fun _ => hrevealed, inv.shown⟩
  | overlooked => exact ⟨inv.disabled, inv.accepted, inv.loaded, inv.idle, inv.busy, inv.hidden,
      inv.shown⟩
  | answered hcall =>
    refine inv.waits hcall nofun ?_ _
    nofun
  | gone hcall => exact inv.spent hcall nofun _
  | refused hcall => exact inv.failed hcall nofun _
  | lost hcall => exact inv.failed hcall nofun _
  | unread hcall => exact inv.failed hcall nofun _
  | decrypting hcall =>
    refine inv.waits hcall nofun ?_ _
    nofun
  | undecryptable hcall => exact inv.spent hcall nofun _
  | @decrypted call privPem plaintext f view hcall =>
    have hcard := (inv.of_waiting hcall nofun).1
    have hrevealed : p.revealed = [] := inv.hidden (by simp [hcard])
    exact ⟨rfl, inv.accepted, nofun, fun _ => inv.allDone_set hcall nofun, nofun,
      fun hclosed => absurd rfl hclosed, by simp [hrevealed]⟩
  | garbled hcall => exact inv.spent hcall nofun _

/-- The invariant holds when the page has loaded, whatever its address. -/
theorem inv_init (env : Platform) (root : ShareRoot) (location : URL) (ledger : Ledger) :
    (initSharePage env root location ledger).Inv := by
  rw [initSharePage, inspectLink]
  split
  · next f hparse =>
    refine ⟨rfl, fun f' hf => ?_, fun _ => Option.some_ne_none f, fun _ => allDone_nil,
      fun hcard => ?_, fun _ => rfl, Nat.zero_le 1⟩
    · obtain rfl := Option.some.inj hf
      exact ⟨_, hparse⟩
    · cases hcard
  · refine ⟨rfl, fun f hf => ?_, fun hcard => ?_, fun _ => allDone_nil, fun hcard => ?_,
      fun _ => rfl, Nat.zero_le 1⟩
    · cases hf
    · rcases hcard with hcard | hcard <;> cases hcard
    · cases hcard

/-- **Run lemma.** The invariant holds in every state that is reached. -/
theorem Inv.run (inv : p.Inv) {es : List ShareEvent}
    (hrun : (shareMachine env root).run p es = some p') : p'.Inv :=
  Machine.run_invariant (fun _ _ _ inv hstep => inv.step hstep) hrun inv

theorem inv_of_run {location : URL} {ledger : Ledger} {es : List ShareEvent}
    (hrun : (shareMachine env root).run (initSharePage env root location ledger) es = some p) :
    p.Inv :=
  (inv_init env root location ledger).run hrun

/-! ### What a step can change -/

/-- The card is open or spent: the page has done what it can do. -/
def Over (p : SharePage) : Prop := p.card = .opened ∨ p.card = .spent

/-- Nothing happens any more on a page that is over, except that its address may change. -/
theorem Inv.step_of_over (inv : p.Inv) (hover : p.Over) (h : p.step env root e = some p') :
    p'.card = p.card ∧ p'.requests = p.requests ∧ p'.revealed = p.revealed := by
  have hready : p.card ≠ .ready := by rcases hover with hcard | hcard <;> simp [hcard]
  have hinvalid : p.card ≠ .invalid := by rcases hover with hcard | hcard <;> simp [hcard]
  have hworking : p.card ≠ .working := by rcases hover with hcard | hcard <;> simp [hcard]
  have hdisabled : p.disabled ≠ false := by simp [inv.disabled, hready]
  cases steps_of_step h with
  | ignored | stayed | navigated | overlooked => exact ⟨rfl, rfl, rfl⟩
  | sent hd | unsent hd => exact absurd hd hdisabled
  | accepted _ hcard | rejected _ hcard => exact absurd hcard (not_or.mpr ⟨hready, hinvalid⟩)
  | answered hcall | gone hcall | refused hcall | lost hcall | unread hcall | decrypting hcall
  | undecryptable hcall | decrypted hcall | garbled hcall =>
    exact absurd (inv.of_waiting hcall nofun).1 hworking

/-- A key request is only sent by a click on a card that is ready. -/
theorem Inv.step_requests (inv : p.Inv) (h : p.step env root e = some p') :
    p'.requests = p.requests ∨ e = .click ∧ p.card = .ready ∧ p'.card = .working ∧
      ∃ f request, p.fragment = some f ∧ fetchKeyRequest root.shareID = .ok request ∧
        p'.requests = p.requests ++ [request] := by
  cases steps_of_step h with
  | @sent f request entry view hd hf hrequest =>
    have hcard : p.card = .ready := by simpa [inv.disabled] using hd
    exact .inr ⟨rfl, hcard, rfl, f, request, hf, hrequest, rfl⟩
  | _ => exact .inl rfl

/-- A text is only revealed when a call of `decryptMessage` has returned it. -/
theorem Inv.step_revealed (inv : p.Inv) (h : p.step env root e = some p') :
    p'.revealed = p.revealed ∨ ∃ call privPem f plaintext, e = .decrypted call ∧
      p.handlers[call]? = some (.decrypting privPem f) ∧
      decryptMessage env.crypto privPem f.wrapped f.iv f.ct = .ok plaintext ∧
      p.revealed = [] ∧ p'.revealed = [plaintext] := by
  cases steps_of_step h with
  | @decrypted call privPem plaintext f view hcall hresult =>
    have hrevealed : p.revealed = [] := inv.hidden (by simp [(inv.of_waiting hcall nofun).1])
    refine .inr ⟨call, privPem, f, plaintext, rfl, hcall, hresult, hrevealed, ?_⟩
    rw [hrevealed, List.nil_append]
  | _ => exact .inl rfl

/-! ### The fragment of the click -/

/-- While the call is under way, the fragment is the one of its click. -/
structure Holds (call : ℕ) (f₀ : Fragment) (p : SharePage) : Prop where
  inv : p.Inv
  called : call < p.handlers.length
  held : ∀ h, p.handlers[call]? = some h → h ≠ .returned →
    p.fragment = some f₀ ∧ ∀ privPem f, h = .decrypting privPem f → f = f₀

private theorem Holds.held_set {call : ℕ} {f₀ : Fragment} (holds : Holds call f₀ p) {i : ℕ}
    {h₀ h₁ : ClickHandler} (hi : p.handlers[i]? = some h₀) (hne : h₀ ≠ .returned)
    (hnew : ∀ privPem f, h₁ = .decrypting privPem f → p.fragment = some f) :
    ∀ h, (p.handlers.set i h₁)[call]? = some h → h ≠ .returned →
      p.fragment = some f₀ ∧ ∀ privPem f, h = .decrypting privPem f → f = f₀ := by
  intro h hcall hwaiting
  by_cases hic : i = call
  · obtain rfl := hic
    obtain ⟨hf, -⟩ := holds.held h₀ hi hne
    rw [List.getElem?_set_self holds.called, Option.some.injEq] at hcall
    refine ⟨hf, fun privPem f hd => ?_⟩
    have hf' := hnew privPem f (hcall.trans hd)
    rw [hf, Option.some.injEq] at hf'
    exact hf'.symm
  · rw [List.getElem?_set_ne hic] at hcall
    exact holds.held h hcall hwaiting

/-- Calls are only added, at the end. -/
theorem length_handlers_le (h : p.step env root e = some p') :
    p.handlers.length ≤ p'.handlers.length := by
  cases steps_of_step h <;> simp [SharePage.failed, SharePage.spent]

theorem Holds.step {call : ℕ} {f₀ : Fragment} (holds : Holds call f₀ p)
    (h : p.step env root e = some p') : Holds call f₀ p' := by
  refine ⟨holds.inv.step h, holds.called.trans_le (length_handlers_le h), ?_⟩
  cases steps_of_step h with
  | ignored | stayed | navigated | overlooked => exact holds.held
  | sent | unsent =>
    intro h' hcall
    rw [List.getElem?_append_left holds.called] at hcall
    exact holds.held h' hcall
  | accepted _ hcard | rejected _ hcard =>
    -- The listener looks at the link only when no call is under way.
    have hidle : p.card ≠ .working := by rcases hcard with hcard | hcard <;> simp [hcard]
    exact fun h' hcall hwaiting =>
      absurd ((holds.inv.idle hidle).eq_done hcall) hwaiting
  | answered hi | gone hi | refused hi | lost hi | unread hi | undecryptable hi | decrypted hi
  | garbled hi => exact holds.held_set hi nofun nofun
  | decrypting hi hf =>
    refine holds.held_set hi nofun fun privPem f hd => ?_
    obtain ⟨-, rfl⟩ := ClickHandler.decrypting.inj hd
    exact hf

/-! ### Safety -/

/-- What is safe about a state of the share page. -/
structure Safe (env : Platform) (root : ShareRoot) (p : SharePage) : Prop where
  /-- At most one call of the click handler is under way, so at most one request is. -/
  one_call : ∀ {i j : ℕ} {h h' : ClickHandler}, p.handlers[i]? = some h →
    p.handlers[j]? = some h' → h ≠ .returned → h' ≠ .returned → i = j
  /-- A key request is sent on a card that is ready and with a fragment that was accepted. -/
  request : ∀ {e : ShareEvent} {p' : SharePage}, p.step env root e = some p' →
    p'.requests ≠ p.requests → p.card = .ready ∧
      ∃ f hash, p.fragment = some f ∧ parseFragment hash = .ok f
  /-- What a call decrypts is the fragment of its click. -/
  decrypts : ∀ {es : List ShareEvent} {p₁ p₂ : SharePage} {privPem : JSString} {f : Fragment},
    p.step env root .click = some p₁ → p₁.requests ≠ p.requests →
    (shareMachine env root).run p₁ es = some p₂ →
    p₂.handlers[p.handlers.length]? = some (.decrypting privPem f) → p.fragment = some f
  /-- An open and a spent card stay as they are. -/
  stays_over : ∀ {es : List ShareEvent} {p' : SharePage}, p.Over →
    (shareMachine env root).run p es = some p' → p'.card = p.card
  /-- At most one text is revealed, and only what `decryptMessage` has returned. -/
  reveals_once : p.revealed.length ≤ 1
  reveals : ∀ {e : ShareEvent} {p' : SharePage}, p.step env root e = some p' →
    p'.revealed ≠ p.revealed → ∃ call privPem f plaintext, e = .decrypted call ∧
      p.handlers[call]? = some (.decrypting privPem f) ∧
      decryptMessage env.crypto privPem f.wrapped f.iv f.ct = .ok plaintext ∧
      p'.revealed = [plaintext]

private theorem Inv.decrypts (inv : p.Inv) {es : List ShareEvent} {p₁ p₂ : SharePage}
    {privPem : JSString} {f : Fragment} (hclick : p.step env root .click = some p₁)
    (hsent : p₁.requests ≠ p.requests) (hrun : (shareMachine env root).run p₁ es = some p₂)
    (hcall : p₂.handlers[p.handlers.length]? = some (.decrypting privPem f)) :
    p.fragment = some f := by
  cases steps_of_step hclick with
  | ignored | unsent => exact absurd rfl hsent
  | @sent f₀ request entry view hd hf hrequest =>
    have hstart : Holds p.handlers.length f₀ _ := ⟨inv.step hclick, by simp, fun h hh _ => by
      rw [List.getElem?_concat_length, Option.some.injEq] at hh
      exact ⟨hf, fun privPem f hd => absurd (hh.trans hd) nofun⟩⟩
    have hstep : ∀ q e q', Holds p.handlers.length f₀ q →
        (shareMachine env root).step q e = some q' → Holds p.handlers.length f₀ q' :=
      fun _ _ _ holds hstep => Holds.step holds hstep
    have hholds := Machine.run_invariant hstep hrun hstart
    obtain rfl := (hholds.held _ hcall nofun).2 _ _ rfl
    exact hf

private theorem Inv.stays_over (inv : p.Inv) (hover : p.Over) {es : List ShareEvent}
    (hrun : (shareMachine env root).run p es = some p') : p'.card = p.card := by
  have hstep : ∀ q e q', q.Inv ∧ q.card = p.card → (shareMachine env root).step q e = some q' →
      q'.Inv ∧ q'.card = p.card := by
    rintro q e q' ⟨hinv, hcard⟩ hstep
    have hover' : q.Over := hover.imp hcard.trans hcard.trans
    exact ⟨hinv.step hstep, (hinv.step_of_over hover' hstep).1.trans hcard⟩
  exact (Machine.run_invariant hstep hrun ⟨inv, rfl⟩).2

/-- **Safety over any order of events.** Every state the share page can reach is safe. -/
theorem safe_of_run {location : URL} {ledger : Ledger} {es : List ShareEvent}
    (hrun : (shareMachine env root).run (initSharePage env root location ledger) es = some p) :
    Safe env root p := by
  have inv := inv_of_run hrun
  refine ⟨fun hi hj hne hne' => (inv.waiting_unique hi hj hne hne').1, fun hstep hsent => ?_,
    inv.decrypts, fun hover => inv.stays_over hover, inv.shown, fun hstep hshown => ?_⟩
  · obtain ⟨-, hcard, -, f, request, hf, -⟩ := (inv.step_requests hstep).resolve_left hsent
    obtain ⟨hash, hparse⟩ := inv.accepted f hf
    exact ⟨hcard, f, hash, hf, hparse⟩
  · obtain ⟨call, privPem, f, plaintext, he, hcall, hresult, -, hrevealed⟩ :=
      (inv.step_revealed hstep).resolve_left hshown
    exact ⟨call, privPem, f, plaintext, he, hcall, hresult, hrevealed⟩

/-! ### A page that opens a note -/

/-- A browser whose cryptography is `clearCrypto`. -/
def clearPlatform : Platform where
  crypto := clearCrypto
  toLocaleString n := js (toString n)

def sampleRoot : ShareRoot := ⟨js "0123456789abcdef0123456789abcdef", js "Nothing has been fetched yet."⟩

/-- The fragment of a link to the note `a` under `clearCrypto`. -/
def sampleFragment : JSString :=
  js "v=1&w=AAAAAAAAAAAAAAAAAAAAAAAAAAAAAAAAAAAAAAAAAAA&i=AAAA&c=YQAAAAAAAAAAAAAAAAAAAAA"

def sampleParsed : Fragment :=
  ⟨js "AAAAAAAAAAAAAAAAAAAAAAAAAAAAAAAAAAAAAAAAAAA", js "AAAA", js "YQAAAAAAAAAAAAAAAAAAAAA"⟩

def sampleLocation (fragment : Option JSString) : URL where
  origin := localOrigin
  pathname := js "/share/" ++ sampleRoot.shareID
  search := []
  fragment := fragment

/-- The page of a link with this fragment. -/
def samplePage (fragment : JSString) : SharePage :=
  initSharePage clearPlatform sampleRoot (sampleLocation (some fragment)) []

/-- The note is opened although the address changes meanwhile. -/
def openedRun : List ShareEvent :=
  [.click, .response 0 200, .navigate none, .body 0 clearPrivatePem, .hashchange, .decrypted 0]

theorem safe_openedRun :
    ∃ p, (shareMachine clearPlatform sampleRoot).run (samplePage sampleFragment) openedRun = some p ∧
      p.revealed = [js "a"] ∧ Safe clearPlatform sampleRoot p := by
  have hopened : ((shareMachine clearPlatform sampleRoot).run (samplePage sampleFragment)
      openedRun).map (fun p => p.revealed) = some [js "a"] := by decide +kernel
  obtain ⟨p, hrun, hrevealed⟩ := Option.map_eq_some_iff.mp hopened
  exact ⟨p, hrun, hrevealed, safe_of_run hrun⟩

end SharePage

end KeyBank
