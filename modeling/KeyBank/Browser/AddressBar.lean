import KeyBank.Browser.ShareRun

/-!
# The fragment in the address bar

The page looks at its address when it loads and when a `hashchange` event finds the card ready or
invalid. An event that finds the card working is overlooked, and a key request that fails makes the
card ready again without another look. So the fragment at hand is the one in the address bar, at
every moment with no `hashchange` event left to handle, in the runs in which this is so whenever a
key request fails (`linked_of_run`).
-/

namespace KeyBank

/-- The events with which a key request fails. -/
def ShareEvent.failsRequest : ShareEvent → Bool
  | .response _ status => status ≠ 404 && !isOkStatus status
  | .noResponse _ => true
  | .bodyError _ _ => true
  | _ => false

namespace SharePage

variable {env : Platform} {root : ShareRoot} {p p' : SharePage} {e : ShareEvent}

/-- The fragment at hand is the one in the address bar. -/
def Linked (p : SharePage) : Prop := ∃ f, p.fragment = some f ∧ parseFragment p.location.hash = .ok f

/-- A key request that fails in this step finds the page linked, or about to look again. -/
def FailsLinked (p : SharePage) (e : ShareEvent) : Prop :=
  e.failsRequest = true → p.hashChanges ≠ 0 ∨ p.Linked

private theorem failsRequest_of_throw {call status : ℕ} {err : JSError}
    (h : fetchKeyReply status = .throw err) :
    (ShareEvent.response call status).failsRequest = true := by
  rw [fetchKeyReply] at h
  split at h
  · exact absurd h nofun
  next h404 =>
  split at h
  · exact absurd h nofun
  next hok =>
  simp [ShareEvent.failsRequest, h404, hok]

/-- **Step lemma.** A card that is ready, with every `hashchange` event handled, is linked. -/
theorem linked_step (inv : p.Inv) (hlinked : p.card = .ready → p.hashChanges = 0 → p.Linked)
    (hfails : FailsLinked p e) (h : p.step env root e = some p') :
    p'.card = .ready → p'.hashChanges = 0 → p'.Linked := by
  intro hcard hn
  cases steps_of_step h with
  | ignored | stayed | answered | decrypting => exact hlinked hcard hn
  | unsent hd =>
    have hready : p.card = .ready := by simpa [inv.disabled] using hd
    exact hlinked hready hn
  | navigated => exact absurd hn (Nat.succ_ne_zero _)
  | accepted _ _ hparse => exact ⟨_, rfl, hparse⟩
  | overlooked _ hidle => exact absurd (.inl hcard) hidle
  | refused _ hreply => exact (hfails (failsRequest_of_throw hreply)).resolve_left (absurd hn)
  | lost | unread => exact (hfails rfl).resolve_left (absurd hn)
  | sent | rejected | gone | undecryptable | decrypted | garbled => exact absurd hcard nofun

/-- **Run lemma.** A card that is ready, with every `hashchange` event handled, is linked. -/
theorem linked_of_run {location : URL} {ledger : Ledger} {es : List ShareEvent}
    (hfails : (shareMachine env root).Always FailsLinked
      (initSharePage env root location ledger) es)
    (hrun : (shareMachine env root).run (initSharePage env root location ledger) es = some p)
    (hcard : p.card = .ready) (hn : p.hashChanges = 0) : p.Linked := by
  have hinit : (initSharePage env root location ledger).card = .ready →
      (initSharePage env root location ledger).hashChanges = 0 →
      (initSharePage env root location ledger).Linked := by
    rw [initSharePage, inspectLink]
    split
    · next f hparse => exact fun _ _ => ⟨f, rfl, hparse⟩
    · intro hcard
      cases hcard
  have hstep : ∀ q e q', q.Inv ∧ (q.card = .ready → q.hashChanges = 0 → q.Linked) →
      FailsLinked q e → (shareMachine env root).step q e = some q' →
      q'.Inv ∧ (q'.card = .ready → q'.hashChanges = 0 → q'.Linked) := by
    rintro q e q' ⟨inv, hlinked⟩ hfails hstep
    exact ⟨inv.step hstep, linked_step inv hlinked hfails hstep⟩
  exact (Machine.run_induction hstep hfails hrun ⟨inv_init .., hinit⟩).2 hcard hn

/-- What the page and its address bar have to do with each other. -/
structure Consistent (p : SharePage) : Prop where
  /-- A card that is ready has the fragment of the address. -/
  linked : p.card = .ready → p.hashChanges = 0 →
    ∃ f, p.fragment = some f ∧ parseFragment p.location.hash = .ok f
  /-- An address that is rejected does not leave the card ready. -/
  invalid : (∀ f, parseFragment p.location.hash ≠ .ok f) → (∀ h ∈ p.handlers, h = .returned) →
    p.hashChanges = 0 → p.card ≠ .ready

/-- **The fragment in the address bar.** In a run whose key requests fail only on a page that is
linked, or about to look again, every state is consistent with its address. -/
theorem consistent_of_run {location : URL} {ledger : Ledger} {es : List ShareEvent}
    (hfails : (shareMachine env root).Always FailsLinked
      (initSharePage env root location ledger) es)
    (hrun : (shareMachine env root).run (initSharePage env root location ledger) es = some p) :
    p.Consistent := by
  refine ⟨linked_of_run hfails hrun, fun hrejected _ hn hcard => ?_⟩
  obtain ⟨f, -, hparse⟩ := linked_of_run hfails hrun hcard hn
  exact hrejected f hparse

/-- The address changes and changes back while the key is being fetched. -/
def detour : List ShareEvent :=
  [.click, .navigate none, .hashchange, .navigate (some sampleFragment), .hashchange]

theorem consistent_detour :
    ∃ p, (shareMachine clearPlatform sampleRoot).run (samplePage sampleFragment)
        (detour ++ [.noResponse 0]) = some p ∧ p.card = .ready ∧ p.Consistent := by
  have hready : ((shareMachine clearPlatform sampleRoot).run (samplePage sampleFragment)
      (detour ++ [.noResponse 0])).map (fun p => p.card) = some .ready := by decide +kernel
  have hback : ((shareMachine clearPlatform sampleRoot).run (samplePage sampleFragment)
      detour).map (fun p => (p.fragment, (parseFragment p.location.hash).toOption)) =
        some (some sampleParsed, some sampleParsed) := by decide +kernel
  obtain ⟨p, hrun, hcard⟩ := Option.map_eq_some_iff.mp hready
  refine ⟨p, hrun, hcard, consistent_of_run (Machine.always_append_iff.mpr ⟨?_, ?_⟩) hrun⟩
  · have hquiet : ∀ e ∈ detour, e.failsRequest = false := by decide
    refine Machine.always_of_forall_mem (fun e he q hfails => ?_) _
    rw [hquiet e he] at hfails
    exact absurd hfails nofun
  · intro q hq
    refine ⟨fun _ => .inr ?_, fun _ _ => trivial⟩
    obtain ⟨q', hq', hlinked⟩ := Option.map_eq_some_iff.mp hback
    obtain rfl := Option.some.inj (hq.symm.trans hq')
    obtain ⟨hf, hlink⟩ := Prod.mk.inj hlinked
    refine ⟨sampleParsed, hf, ?_⟩
    rcases hparse : parseFragment q.location.hash with err | f
    · rw [hparse] at hlink
      exact absurd hlink nofun
    · rw [hparse] at hlink
      exact congrArg Except.ok (Option.some.inj hlink)

/-- The address changes while the key is being fetched, the request fails, and the page offers to
fetch the key for the fragment it had. -/
theorem consistent_breach :
    ((shareMachine clearPlatform sampleRoot).run (samplePage sampleFragment)
      [.click, .navigate (some (js "v=1")), .hashchange, .noResponse 0]).map
        (fun p => (p.card, p.hashChanges, p.fragment.isSome, p.handlers,
          (parseFragment p.location.hash).toOption)) =
      some (.ready, 0, true, [.returned], none) := by
  decide +kernel

end SharePage

end KeyBank
