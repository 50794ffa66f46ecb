import KeyBank.Browser.ShareRun
import Mathlib.Data.Rat.Floor

/-!
# The note on the screen

`reveal` of `static/share.js` shows a note and hides it again. A timer looks at the clock about four
times a second, or later when the browser is busy; the button "Keep visible" stops it. The clock is
`Date.now()`, in milliseconds.

A note that has been revealed is in one of three stages (`Reveal.Stage`): the countdown runs, and
shows at least the seconds that are left, rounded up; the note is kept; or it is hidden. The timer
runs in the first stage only, and rounding up reaches zero exactly when the deadline has passed
(`remaining_eq_zero_iff`), so the first tick from the deadline on is the one that hides the note.
-/

namespace KeyBank

/-- What the countdown shows. -/
inductive Countdown where
  | seconds (n : ℕ)
  | infinite
  deriving DecidableEq

namespace Countdown

/-- `countdown.textContent`. -/
def textContent : Countdown → JSString
  | seconds n => js (toString n)
  | infinite => js "∞"

/-- Its `aria-label`. -/
def ariaLabel (env : Platform) : Countdown → JSString
  | seconds n => plural env n "second" ++ js " remaining"
  | infinite => js "No time limit"

/-- `countdownUnit.textContent`. -/
def unit : Countdown → JSString
  | seconds n => if n = 1 then js " second" else js " seconds"
  | infinite => js " seconds"

end Countdown

/-- The button "Keep visible"; its listener is called once. -/
structure KeepVisibleButton where
  disabled : Bool
  text : JSString

/-- What a call of `reveal` leaves behind: the interval timer, its deadline and the section with the
result. -/
structure Reveal where
  /-- `Date.now()` at the last event. -/
  now : ℤ
  hideAt : ℤ
  /-- Whether the timer has not been cleared. -/
  timer : Bool
  output : JSString
  resultHidden : Bool
  countdown : Countdown
  /-- Whether the bar's `data-state` is `running`. -/
  barRunning : Bool
  keepVisible : KeepVisibleButton
  status : Status

inductive RevealEvent where
  /-- The timer calls its function, at this time. -/
  | tick (time : ℤ)
  /-- The button "Keep visible" is clicked. -/
  | keepVisible (time : ℤ)
  deriving DecidableEq

/-- `Math.max(0, Math.ceil((hideAt - now) / 1000))`. -/
def remaining (hideAt now : ℤ) : ℕ := ⌈((hideAt - now : ℤ) : ℚ) / 1000⌉₊

namespace Reveal

variable (env : Platform) (autoHideSeconds : ℕ) (r : Reveal)

/-- `hide`. -/
def hide : Reveal :=
  { r with
    timer := false
    output := []
    resultHidden := true
    status := ⟨js "Plaintext hidden again after " ++ plural env autoHideSeconds "second" ++
      js ". It cannot be shown again: the key no longer exists.", .success⟩ }

/-- The function the timer calls. -/
def onTick (time : ℤ) : Reveal :=
  let seconds := remaining r.hideAt time
  let r := { r with now := time, countdown := .seconds seconds }
  if seconds = 0 then r.hide env autoHideSeconds else r

/-- The listener of the button. -/
def onKeepVisible (time : ℤ) : Reveal :=
  { r with
    now := time
    timer := false
    countdown := .infinite
    barRunning := false
    keepVisible := ⟨true, js "Visible until you leave this page"⟩
    status := ⟨js "Plaintext will stay visible until you leave or reload this page.", .success⟩ }

/-- One event. The clock does not go back; a cleared timer calls nothing, and a button that is
disabled or not shown is not clicked. -/
def step : RevealEvent → Option Reveal
  | .tick time =>
    if r.timer ∧ r.now ≤ time then some (r.onTick env autoHideSeconds time) else none
  | .keepVisible time =>
    if !r.resultHidden ∧ !r.keepVisible.disabled ∧ r.now ≤ time then some (r.onKeepVisible time)
    else none

end Reveal

/-- `reveal`, with the status line as its caller leaves it. -/
def reveal (plaintext : JSString) (autoHideSeconds : ℕ) (status : Status) (now : ℤ) : Reveal where
  now := now
  hideAt := now + autoHideSeconds * 1000
  timer := true
  output := plaintext
  resultHidden := false
  countdown := .seconds autoHideSeconds
  barRunning := true
  keepVisible := ⟨false, js "Keep visible"⟩
  status := status

/-- A note on the screen as a machine. -/
def revealMachine (env : Platform) (autoHideSeconds : ℕ) : Machine Reveal RevealEvent where
  step r e := r.step env autoHideSeconds e

/-! ### Rounding -/

/-- The countdown shows no more than `n` exactly when no more than `n` seconds are left. -/
theorem remaining_le_iff {hideAt now : ℤ} {n : ℕ} :
    remaining hideAt now ≤ n ↔ hideAt - now ≤ n * 1000 := by
  rw [remaining, Nat.ceil_le, div_le_iff₀ (by norm_num)]
  exact_mod_cast Iff.rfl

/-- It is at zero exactly when the deadline has passed. -/
theorem remaining_eq_zero_iff {hideAt now : ℤ} : remaining hideAt now = 0 ↔ hideAt ≤ now := by
  have hle := @remaining_le_iff hideAt now 0
  rw [Nat.le_zero] at hle
  rw [hle]
  omega

namespace Reveal

/-! ### The stages -/

/-- The note is on the screen. -/
def Shows (r : Reveal) (plaintext : JSString) : Prop :=
  r.output = plaintext ∧ r.resultHidden = false

/-- The note has been removed. -/
def Removed (r : Reveal) : Prop := r.output = [] ∧ r.resultHidden = true

/-- The stages of a note, after these events. -/
inductive Stage (plaintext : JSString) (autoHideSeconds : ℕ) (es : List RevealEvent) (r : Reveal) :
    Prop where
  | counting {n : ℕ} (htimer : r.timer = true) (hshows : r.Shows plaintext)
      (hbutton : r.keepVisible.disabled = false) (hcountdown : r.countdown = .seconds n)
      (hpos : 0 < n) (hmax : n ≤ autoHideSeconds) (hleft : r.hideAt - r.now ≤ n * 1000)
      (hearly : ∀ t, .tick t ∈ es → t < r.hideAt) (hkeep : ∀ t, .keepVisible t ∉ es)
  | kept (htimer : r.timer = false) (hshows : r.Shows plaintext)
      (hbutton : r.keepVisible.disabled = true) (hcountdown : r.countdown = .infinite)
      (hearly : ∀ t, .tick t ∈ es → t < r.hideAt) (hkeep : ∃ t, .keepVisible t ∈ es)
  | hidden (htimer : r.timer = false) (hremoved : r.Removed) (hcountdown : r.countdown = .seconds 0)
      {pre : List RevealEvent} {t : ℤ} (hlast : es = pre ++ [.tick t]) (hdue : r.hideAt ≤ t)
      (hearly : ∀ u, .tick u ∈ pre → u < r.hideAt) (hkeep : ∀ u, .keepVisible u ∉ pre)

/-- Everything an event can do. -/
inductive Steps (env : Platform) (autoHideSeconds : ℕ) (r : Reveal) :
    RevealEvent → Reveal → Prop where
  | counted {t : ℤ} (htimer : r.timer = true) (hnow : r.now ≤ t) (hearly : t < r.hideAt) :
    Steps env autoHideSeconds r (.tick t)
      { r with now := t, countdown := .seconds (remaining r.hideAt t) }
  | hid {t : ℤ} (htimer : r.timer = true) (hnow : r.now ≤ t) (hdue : r.hideAt ≤ t) :
    Steps env autoHideSeconds r (.tick t)
      ({ r with now := t, countdown := .seconds 0 }.hide env autoHideSeconds)
  | kept {t : ℤ} (hshown : r.resultHidden = false) (hbutton : r.keepVisible.disabled = false)
      (hnow : r.now ≤ t) : Steps env autoHideSeconds r (.keepVisible t) (r.onKeepVisible t)

variable {env : Platform} {autoHideSeconds : ℕ} {plaintext : JSString} {r r' : Reveal}
  {e : RevealEvent} {es : List RevealEvent}

/-- **Inversion.** A step does one of these things. -/
theorem steps_of_step (h : r.step env autoHideSeconds e = some r') :
    Steps env autoHideSeconds r e r' := by
  cases e with
  | tick t =>
    rw [step] at h
    split at h
    · next hpossible =>
      obtain rfl := Option.some.inj h
      rw [onTick]
      by_cases hdue : r.hideAt ≤ t
      · simp only [remaining_eq_zero_iff.mpr hdue, if_true]
        exact .hid hpossible.1 hpossible.2 hdue
      · simp only [remaining_eq_zero_iff, if_neg hdue]
        exact .counted hpossible.1 hpossible.2 (by omega)
    · exact absurd h nofun
  | keepVisible t =>
    rw [step] at h
    split at h
    · next hpossible =>
      obtain rfl := Option.some.inj h
      simp only [Bool.not_eq_true'] at hpossible
      exact .kept hpossible.1 hpossible.2.1 hpossible.2.2
    · exact absurd h nofun

/-- The timer runs while the countdown does. -/
theorem Stage.of_timer (stage : r.Stage plaintext autoHideSeconds es) (htimer : r.timer = true) :
    r.Shows plaintext ∧ (∃ n, r.countdown = .seconds n ∧ 0 < n ∧ n ≤ autoHideSeconds ∧
      r.hideAt - r.now ≤ n * 1000) ∧ r.keepVisible.disabled = false ∧
      (∀ t, .tick t ∈ es → t < r.hideAt) ∧ ∀ t, .keepVisible t ∉ es := by
  rcases stage with ⟨-, hshows, hbutton, hcountdown, hpos, hmax, hleft, hearly, hkeep⟩ |
    ⟨hcleared, -⟩ | ⟨hcleared, -⟩
  · exact ⟨hshows, ⟨_, hcountdown, hpos, hmax, hleft⟩, hbutton, hearly, hkeep⟩
  · exact absurd (htimer.symm.trans hcleared) nofun
  · exact absurd (htimer.symm.trans hcleared) nofun

/-- The button can be clicked while the countdown runs. -/
theorem Stage.timer_of_button (stage : r.Stage plaintext autoHideSeconds es)
    (hshown : r.resultHidden = false) (hbutton : r.keepVisible.disabled = false) :
    r.timer = true := by
  rcases stage with ⟨htimer, -⟩ | ⟨-, -, hdisabled, -⟩ | ⟨-, hremoved, -⟩
  · exact htimer
  · exact absurd (hbutton.symm.trans hdisabled) nofun
  · exact absurd (hshown.symm.trans hremoved.2) nofun

/-- **Step lemma.** -/
theorem Stage.step (stage : r.Stage plaintext autoHideSeconds es)
    (h : r.step env autoHideSeconds e = some r') :
    r'.Stage plaintext autoHideSeconds (es ++ [e]) := by
  cases steps_of_step h with
  | @counted t htimer hnow hdue =>
    obtain ⟨hshows, ⟨n, -, -, hmax, hleft⟩, hbutton, hearly, hkeep⟩ := stage.of_timer htimer
    have hpos : remaining r.hideAt t ≠ 0 := by
      rw [Ne, remaining_eq_zero_iff]
      omega
    have hle : remaining r.hideAt t ≤ n := remaining_le_iff.mpr (by omega)
    refine .counting htimer hshows hbutton rfl (Nat.pos_of_ne_zero hpos) (hle.trans hmax)
      (remaining_le_iff.mp (Nat.le_refl _)) (fun u hu => ?_) (fun u hu => ?_)
    · obtain hu | hu := List.mem_append.mp hu
      · exact hearly u hu
      · obtain ⟨rfl⟩ := List.mem_singleton.mp hu
        exact hdue
    · obtain hu | hu := List.mem_append.mp hu
      · exact hkeep u hu
      · exact absurd (List.mem_singleton.mp hu) nofun
  | @hid t htimer hnow hdue =>
    obtain ⟨-, -, -, hearly, hkeep⟩ := stage.of_timer htimer
    exact .hidden rfl ⟨rfl, rfl⟩ rfl rfl hdue hearly hkeep
  | @kept t hshown hbutton hnow =>
    obtain ⟨hshows, -, -, hearly, -⟩ := stage.of_timer (stage.timer_of_button hshown hbutton)
    refine .kept rfl hshows rfl rfl (fun u hu => ?_) ⟨t, by simp⟩
    obtain hu | hu := List.mem_append.mp hu
    · exact hearly u hu
    · exact absurd (List.mem_singleton.mp hu) nofun

/-- The countdown does not go up. -/
theorem Stage.countdown_step (stage : r.Stage plaintext autoHideSeconds es)
    (h : r.step env autoHideSeconds e = some r') {n' : ℕ} (hn' : r'.countdown = .seconds n') :
    ∃ n, r.countdown = .seconds n ∧ n' ≤ n := by
  cases steps_of_step h with
  | @counted t htimer hnow hdue =>
    obtain ⟨-, ⟨n, hcountdown, -, -, hleft⟩, -⟩ := stage.of_timer htimer
    obtain ⟨rfl⟩ := hn'
    exact ⟨n, hcountdown, remaining_le_iff.mpr (by omega)⟩
  | @hid t htimer hnow hdue =>
    obtain ⟨-, ⟨n, hcountdown, -⟩, -⟩ := stage.of_timer htimer
    obtain ⟨rfl⟩ := hn'
    exact ⟨n, hcountdown, Nat.zero_le n⟩
  | kept => exact absurd hn' nofun

theorem Shows.not_removed (h : r.Shows plaintext) : ¬ r.Removed :=
  fun hremoved => absurd (h.2.symm.trans hremoved.2) nofun

theorem Stage.shows_or_removed (stage : r.Stage plaintext autoHideSeconds es) :
    r.Shows plaintext ∨ r.Removed := by
  rcases stage with ⟨-, hshows, -⟩ | ⟨-, hshows, -⟩ | ⟨-, hremoved, -⟩
  · exact .inl hshows
  · exact .inl hshows
  · exact .inr hremoved

/-- The note is removed by the first tick that is due, if nobody keeps it before. -/
theorem Stage.removed_iff (stage : r.Stage plaintext autoHideSeconds es) :
    r.Removed ↔ ∃ pre t, es = pre ++ [.tick t] ∧ r.hideAt ≤ t ∧
      (∀ u, .tick u ∈ pre → u < r.hideAt) ∧ ∀ u, .keepVisible u ∉ pre := by
  rcases stage with ⟨-, hshows, -, -, -, -, -, hearly, -⟩ | ⟨-, hshows, -, -, hearly, -⟩ |
    ⟨-, hremoved, -, hlast, hdue, hearly, hkeep⟩
  · refine iff_of_false hshows.not_removed ?_
    rintro ⟨pre, t, rfl, hdue, -⟩
    exact absurd (hearly t (by simp)) (not_lt.mpr hdue)
  · refine iff_of_false hshows.not_removed ?_
    rintro ⟨pre, t, rfl, hdue, -⟩
    exact absurd (hearly t (by simp)) (not_lt.mpr hdue)
  · exact iff_of_true hremoved ⟨_, _, hlast, hdue, hearly, hkeep⟩

/-- While the note is counted down, a tick removes it if it is due and leaves it if it is not. -/
theorem Stage.tick (stage : r.Stage plaintext autoHideSeconds es) {t : ℤ} (hnow : r.now ≤ t)
    (hshows : r.Shows plaintext) (hkeep : ∀ u, .keepVisible u ∉ es) :
    ∃ r', r.step env autoHideSeconds (.tick t) = some r' ∧
      if r.hideAt ≤ t then r'.Removed else r'.Shows plaintext := by
  have htimer : r.timer = true := by
    rcases stage with ⟨htimer, -⟩ | ⟨-, -, -, -, -, ⟨u, hu⟩⟩ | ⟨-, hremoved, -⟩
    · exact htimer
    · exact absurd hu (hkeep u)
    · exact absurd hremoved hshows.not_removed
  refine ⟨_, if_pos ⟨htimer, hnow⟩, ?_⟩
  rw [onTick]
  by_cases hdue : r.hideAt ≤ t
  · simp only [remaining_eq_zero_iff.mpr hdue, if_pos hdue, if_true]
    exact ⟨rfl, rfl⟩
  · simp only [remaining_eq_zero_iff, if_neg hdue]
    exact hshows

/-- Nothing happens to a note that has been removed. -/
theorem Stage.step_eq_none (stage : r.Stage plaintext autoHideSeconds es) (hremoved : r.Removed)
    (e : RevealEvent) : r.step env autoHideSeconds e = none := by
  rcases stage with ⟨-, hshows, -⟩ | ⟨-, hshows, -⟩ | ⟨htimer, -⟩
  · exact absurd hremoved hshows.not_removed
  · exact absurd hremoved hshows.not_removed
  · cases e with
    | tick t => exact if_neg (by simp [htimer])
    | keepVisible t => exact if_neg (by simp [hremoved.2])

/-- A note that is kept stays, and its timer is stopped. -/
theorem Stage.of_keepVisible (stage : r.Stage plaintext autoHideSeconds es) {t : ℤ}
    (ht : .keepVisible t ∈ es) :
    r.Shows plaintext ∧ ∀ u, r.step env autoHideSeconds (.tick u) = none := by
  rcases stage with ⟨-, -, -, -, -, -, -, -, hkeep⟩ | ⟨htimer, hshows, -⟩ |
    ⟨-, -, -, rfl, -, -, hkeep⟩
  · exact absurd ht (hkeep t)
  · exact ⟨hshows, fun u => if_neg (by simp [htimer])⟩
  · obtain ht | ht := List.mem_append.mp ht
    · exact absurd ht (hkeep t)
    · exact absurd (List.mem_singleton.mp ht) nofun

theorem Stage.countdown_le (stage : r.Stage plaintext autoHideSeconds es) {n : ℕ}
    (hn : r.countdown = .seconds n) : n ≤ autoHideSeconds ∧ (n = 0 ↔ r.Removed) := by
  rcases stage with ⟨-, hshows, -, hcountdown, hpos, hmax, -⟩ | ⟨-, -, -, hcountdown, -⟩ |
    ⟨-, hremoved, hcountdown, -⟩
  · obtain ⟨rfl⟩ := hn.symm.trans hcountdown
    exact ⟨hmax, iff_of_false hpos.ne' hshows.not_removed⟩
  · exact absurd (hn.symm.trans hcountdown) nofun
  · obtain ⟨rfl⟩ := hn.symm.trans hcountdown
    exact ⟨Nat.zero_le _, iff_of_true rfl hremoved⟩

theorem Stage.infinite_iff (stage : r.Stage plaintext autoHideSeconds es) :
    r.countdown = .infinite ↔ ∃ t, .keepVisible t ∈ es := by
  rcases stage with ⟨-, -, -, hcountdown, -, -, -, -, hkeep⟩ | ⟨-, -, -, hcountdown, -, hkeep⟩ |
    ⟨-, -, hcountdown, rfl, -, -, hkeep⟩
  · rw [hcountdown]
    exact iff_of_false nofun fun ⟨t, ht⟩ => hkeep t ht
  · exact iff_of_true hcountdown hkeep
  · rw [hcountdown]
    refine iff_of_false nofun ?_
    rintro ⟨t, ht⟩
    obtain ht | ht := List.mem_append.mp ht
    · exact hkeep t ht
    · exact absurd (List.mem_singleton.mp ht) nofun

theorem hideAt_of_step (h : r.step env autoHideSeconds e = some r') : r'.hideAt = r.hideAt := by
  cases steps_of_step h with
  | counted | hid | kept => rfl

end Reveal

open Reveal

variable {env : Platform} {autoHideSeconds : ℕ} {plaintext : JSString} {status : Status} {now : ℤ}
  {r r' : Reveal} {es : List RevealEvent}

/-- **Run lemma.** After every run the note is in one of its stages, and its deadline is the one it
got when it was revealed. -/
theorem stage_of_run (hauto : 1 ≤ autoHideSeconds) (hrun : (revealMachine env autoHideSeconds).run
      (reveal plaintext autoHideSeconds status now) es = some r) :
    r.Stage plaintext autoHideSeconds es ∧ r.hideAt = now + autoHideSeconds * 1000 := by
  induction es using List.reverseRecOn generalizing r with
  | nil =>
    obtain rfl := Option.some.inj hrun
    refine ⟨.counting rfl ⟨rfl, rfl⟩ rfl rfl hauto (Nat.le_refl _) ?_ nofun nofun, rfl⟩
    simp [reveal]
  | append_singleton es e ih =>
    obtain ⟨q, hq, hstep⟩ := Machine.run_append_eq_some_iff.mp hrun
    rw [Machine.run_singleton] at hstep
    obtain ⟨stage, hhideAt⟩ := ih hq
    exact ⟨stage.step hstep, (hideAt_of_step hstep).trans hhideAt⟩

/-- The countdown does not go up in a run either. -/
theorem countdown_of_run (stage : r.Stage plaintext autoHideSeconds es) {es' : List RevealEvent}
    (hrun : (revealMachine env autoHideSeconds).run r es' = some r') {n' : ℕ}
    (hn' : r'.countdown = .seconds n') : ∃ n, r.countdown = .seconds n ∧ n' ≤ n := by
  induction es' generalizing r es with
  | nil =>
    obtain rfl := Option.some.inj hrun
    exact ⟨n', hn', Nat.le_refl n'⟩
  | cons e es' ih =>
    obtain ⟨q, hstep, hrest⟩ := Machine.run_cons_eq_some_iff.mp hrun
    obtain ⟨m, hm, hle⟩ := ih (stage.step hstep) hrest
    obtain ⟨n, hn, hle'⟩ := stage.countdown_step hstep hm
    exact ⟨n, hn, hle.trans hle'⟩

/-- **Auto-hide.** After every run of a note that has been revealed: it is on the screen or removed;
it has been removed exactly if the last event is the first tick from the deadline on, the button not
having been clicked before; while it is counted down, a tick removes it from the deadline on and not
before; when it is removed, nothing can happen any more; and when the button has been clicked, the
note is there and no tick will come. The countdown shows at most what it began with and never goes
up, it is at zero exactly when the note is removed, and it gives way to "∞" exactly when the button
is clicked. The page reveals a note once. -/
theorem auto_hide (hauto : 1 ≤ autoHideSeconds) (hrun : (revealMachine env autoHideSeconds).run
      (reveal plaintext autoHideSeconds status now) es = some r) :
    (r.Shows plaintext ∨ r.Removed) ∧
    (r.Removed ↔ ∃ pre t, es = pre ++ [.tick t] ∧ now + autoHideSeconds * 1000 ≤ t ∧
      (∀ u, .tick u ∈ pre → u < now + autoHideSeconds * 1000) ∧ ∀ u, .keepVisible u ∉ pre) ∧
    (∀ t, r.now ≤ t → r.Shows plaintext → (∀ u, .keepVisible u ∉ es) →
      ∃ r', r.step env autoHideSeconds (.tick t) = some r' ∧
        if now + autoHideSeconds * 1000 ≤ t then r'.Removed else r'.Shows plaintext) ∧
    (r.Removed → ∀ e, r.step env autoHideSeconds e = none) ∧
    (∀ t, .keepVisible t ∈ es →
      r.Shows plaintext ∧ ∀ u, r.step env autoHideSeconds (.tick u) = none) ∧
    (∀ n, r.countdown = .seconds n → n ≤ autoHideSeconds ∧ (n = 0 ↔ r.Removed)) ∧
    (∀ es' r' n', (revealMachine env autoHideSeconds).run r es' = some r' →
      r'.countdown = .seconds n' → ∃ n, r.countdown = .seconds n ∧ n' ≤ n) ∧
    (r.countdown = .infinite ↔ ∃ t, .keepVisible t ∈ es) ∧
    ∀ root location ledger fs p, (shareMachine env root).run
      (initSharePage env root location ledger) fs = some p → p.revealed.length ≤ 1 := by
  obtain ⟨stage, hdeadline⟩ := stage_of_run hauto hrun
  rw [← hdeadline]
  refine ⟨stage.shows_or_removed, stage.removed_iff, fun t => stage.tick,
    fun hremoved => stage.step_eq_none hremoved, fun t => stage.of_keepVisible,
    fun n => stage.countdown_le, fun es' r' n' hrest => countdown_of_run stage hrest,
    stage.infinite_iff, ?_⟩
  intro root location ledger fs p hpage
  exact (SharePage.inv_of_run hpage).shown

/-- A note shown for a second; the browser is busy when the second is over. -/
theorem auto_hide_delayed :
    ∃ r, (revealMachine SharePage.clearPlatform 1).run
      (reveal (js "a") 1 ⟨js "Plaintext decrypted locally.", .success⟩ 0)
      [.tick 250, .tick 1730] = some r ∧ r.Removed := by
  have hrun : ((revealMachine SharePage.clearPlatform 1).run
      (reveal (js "a") 1 ⟨js "Plaintext decrypted locally.", .success⟩ 0)
      [.tick 250, .tick 1730]).isSome = true := by decide +kernel
  obtain ⟨r, hr⟩ := Option.isSome_iff_exists.mp hrun
  refine ⟨r, hr, (auto_hide (Nat.le_refl 1) hr).2.1.mpr ⟨[.tick 250], 1730, rfl, by decide, ?_, ?_⟩⟩
  · intro u hu
    obtain ⟨rfl⟩ := List.mem_singleton.mp hu
    decide
  · exact fun u hu => absurd (List.mem_singleton.mp hu) nofun

end KeyBank
