import KeyBank.Browser.JS
import KeyBank.Foundation.Machine

/-!
# The feedback of the copy buttons

`copyText` of `static/ui.js` writes to the clipboard and then says "Copied" on the button for two
seconds. Every copy has a timer of its own, and puts back the text it found on the button. While no
two copies overlap, that is the button's own text, and the feedback of each lasts for two seconds
and ends (`CopyButton.Stage`). A copy that is made during the feedback of another finds "Copied",
and its timer, the last to fire, leaves this on the button for good (`stuck_of_overlap`).
-/

namespace KeyBank

/-- `copiedFeedbackMs`. -/
def copiedFeedbackMs : ℤ := 2000

/-- A timer of `copyText`: when it is due, and the text it puts back. -/
structure CopyTimer where
  due : ℤ
  original : JSString
  deriving DecidableEq

structure CopyButton where
  /-- The clock, in milliseconds, at the last event. -/
  now : ℤ
  /-- The text of `[data-copy-label]`. -/
  label : JSString
  /-- Whether `data-copied` is present. -/
  copied : Bool
  /-- The calls of `copyText` that wait for the clipboard. -/
  writes : ℕ
  /-- The timers that have not fired. -/
  timers : List CopyTimer
  deriving DecidableEq

inductive CopyEvent where
  | click (time : ℤ)
  /-- A write to the clipboard is done. -/
  | written (time : ℤ)
  /-- A timer fires, now or after others that are due as well. -/
  | fire (timer : ℕ) (time : ℤ)
  deriving DecidableEq

namespace CopyButton

variable (b : CopyButton)

/-- `copyText` after its `await`. -/
def onWritten (time : ℤ) : CopyButton where
  now := time
  label := js "Copied"
  copied := true
  writes := b.writes - 1
  timers := b.timers ++ [⟨time + copiedFeedbackMs, b.label⟩]

/-- The function a timer calls. -/
def onFire (timer : ℕ) (original : JSString) (time : ℤ) : CopyButton :=
  { b with
    now := time
    label := original
    copied := false
    timers := b.timers.eraseIdx timer }

/-- One event. The clock does not go back, and no timer fires before it is due. -/
def step : CopyEvent → Option CopyButton
  | .click time => if b.now ≤ time then some { b with now := time, writes := b.writes + 1 } else none
  | .written time => if b.now ≤ time ∧ 0 < b.writes then some (b.onWritten time) else none
  | .fire timer time =>
    match b.timers[timer]? with
    | some ⟨due, original⟩ =>
      if b.now ≤ time ∧ due ≤ time then some (b.onFire timer original time) else none
    | none => none

end CopyButton

/-- A copy button that has not been clicked. -/
def copyButton (label : JSString) (now : ℤ) : CopyButton := ⟨now, label, false, 0, []⟩

/-- A copy button as a machine. -/
def copyMachine : Machine CopyButton CopyEvent where
  step := CopyButton.step

namespace CopyButton

/-- No copy is made during the feedback of another. -/
def Apart (b : CopyButton) (e : CopyEvent) : Prop := ∀ t, e = .written t → b.timers = []

/-- What is expected of the button after these events: it looks as it did at first when no timer is
pending, and says "Copied" for two seconds after each copy. -/
def FeedbackEnds (label : JSString) (es : List CopyEvent) (b : CopyButton) : Prop :=
  (b.timers = [] → b.label = label ∧ b.copied = false) ∧
    ∀ c, .written c ∈ es → b.now < c + copiedFeedbackMs → b.label = js "Copied" ∧ b.copied = true

/-- The feedback of a run's copies ends: after any part of the run, and in whatever order the timers
then pending fire. -/
def AlwaysEnds (label : JSString) (now : ℤ) (es : List CopyEvent) : Prop :=
  ∀ pre post fires b, es = pre ++ post → (∀ e ∈ fires, ∃ i t, e = .fire i t) →
    copyMachine.run (copyButton label now) (pre ++ fires) = some b →
      b.FeedbackEnds label (pre ++ fires)

/-- The button rests, or says "Copied" for one copy. -/
inductive Stage (label : JSString) (es : List CopyEvent) (b : CopyButton) : Prop where
  | resting (htimers : b.timers = []) (hlabel : b.label = label) (hcopied : b.copied = false)
      (hover : ∀ c, .written c ∈ es → c + copiedFeedbackMs ≤ b.now)
  | confirming {due : ℤ} (htimers : b.timers = [⟨due, label⟩]) (hlabel : b.label = js "Copied")
      (hcopied : b.copied = true) (hstarted : due ≤ b.now + copiedFeedbackMs)
      (hover : ∀ c, .written c ∈ es → c + copiedFeedbackMs ≤ due)

/-- Everything an event can do. -/
inductive Steps (b : CopyButton) : CopyEvent → CopyButton → Prop where
  | clicked {t : ℤ} (hnow : b.now ≤ t) :
    Steps b (.click t) { b with now := t, writes := b.writes + 1 }
  | written {t : ℤ} (hnow : b.now ≤ t) (hwrites : 0 < b.writes) :
    Steps b (.written t) (b.onWritten t)
  | fired {i : ℕ} {timer : CopyTimer} {t : ℤ} (hi : b.timers[i]? = some timer) (hnow : b.now ≤ t)
      (hdue : timer.due ≤ t) : Steps b (.fire i t) (b.onFire i timer.original t)

variable {label : JSString} {b b' : CopyButton} {e : CopyEvent} {es : List CopyEvent}

/-- **Inversion.** A step does one of these things. -/
theorem steps_of_step (h : b.step e = some b') : b.Steps e b' := by
  cases e with
  | click t =>
    rw [step] at h
    split at h
    · next hnow =>
      obtain rfl := Option.some.inj h
      exact .clicked hnow
    · cases h
  | written t =>
    rw [step] at h
    split at h
    · next hpossible =>
      obtain rfl := Option.some.inj h
      exact .written hpossible.1 hpossible.2
    · cases h
  | fire i t =>
    rw [step] at h
    split at h
    · next due original hi =>
      split at h
      · next hpossible =>
        obtain rfl := Option.some.inj h
        exact .fired hi hpossible.1 hpossible.2
      · cases h
    · cases h

theorem Stage.feedbackEnds (stage : b.Stage label es) : b.FeedbackEnds label es := by
  rcases stage with ⟨-, hlabel, hcopied, hover⟩ | ⟨htimers, hlabel, hcopied, -, -⟩
  · exact ⟨fun _ => ⟨hlabel, hcopied⟩, fun c hc hnow => absurd (hover c hc) (Int.not_le.mpr hnow)⟩
  · refine ⟨fun hnil => ?_, fun _ _ _ => ⟨hlabel, hcopied⟩⟩
    exact absurd (htimers.symm.trans hnil) (List.cons_ne_nil _ _)

/-- A click only adds a call that waits for the clipboard. -/
private theorem Stage.click (stage : b.Stage label es) {t : ℤ} (hnow : b.now ≤ t) :
    Stage label (es ++ [.click t]) { b with now := t, writes := b.writes + 1 } := by
  have hmem : ∀ c, .written c ∈ es ++ [.click t] → .written c ∈ es := by simp
  rcases stage with ⟨htimers, hlabel, hcopied, hover⟩ |
    ⟨htimers, hlabel, hcopied, hstarted, hover⟩
  · exact .resting htimers hlabel hcopied fun c hc => Int.le_trans (hover c (hmem c hc)) hnow
  · refine .confirming htimers hlabel hcopied ?_ fun c hc => hover c (hmem c hc)
    exact Int.le_trans hstarted (Int.add_le_add_right hnow _)

/-- A copy during no other's feedback starts one. -/
private theorem Stage.written (stage : b.Stage label es) (hapart : b.timers = []) {t : ℤ}
    (hnow : b.now ≤ t) : (b.onWritten t).Stage label (es ++ [.written t]) := by
  rcases stage with ⟨htimers, hlabel, -, hover⟩ | ⟨htimers, -⟩
  · have hpending : (b.onWritten t).timers = [⟨t + copiedFeedbackMs, label⟩] := by
      rw [onWritten, htimers, hlabel]
      rfl
    refine .confirming hpending rfl rfl (Int.le_refl _) fun c hc => ?_
    obtain hc | hc := List.mem_append.mp hc
    · have hc := hover c hc
      simp only [copiedFeedbackMs] at hc ⊢
      omega
    · obtain ⟨rfl⟩ := List.mem_singleton.mp hc
      exact Int.le_refl _
  · exact absurd (htimers.symm.trans hapart) (List.cons_ne_nil _ _)

/-- The timer of the only copy puts the text of the button back. -/
private theorem Stage.fire (stage : b.Stage label es) {i : ℕ} {timer : CopyTimer} {t : ℤ}
    (hi : b.timers[i]? = some timer) (hdue : timer.due ≤ t) :
    (b.onFire i timer.original t).Stage label (es ++ [.fire i t]) := by
  rcases stage with ⟨htimers, -⟩ | ⟨htimers, -, -, -, hover⟩
  · rw [htimers] at hi
    exact absurd hi nofun
  · rw [htimers] at hi
    rcases i with _ | i
    · obtain rfl := Option.some.inj hi
      refine .resting ?_ rfl rfl fun c hc => ?_
      · rw [onFire, htimers]
        rfl
      · exact Int.le_trans (hover c (by simpa using hc)) hdue
    · exact absurd hi nofun

/-- **Step lemma.** -/
theorem Stage.step (stage : b.Stage label es) (hapart : b.Apart e) (h : b.step e = some b') :
    b'.Stage label (es ++ [e]) := by
  cases steps_of_step h with
  | clicked hnow => exact stage.click hnow
  | written hnow => exact stage.written (hapart _ rfl) hnow
  | fired hi _ hdue => exact stage.fire hi hdue

/-- **Run lemma.** While no copies overlap, the button rests or says "Copied" for one of them. -/
theorem stage_of_run {now : ℤ} (hapart : copyMachine.Always Apart (copyButton label now) es)
    (hrun : copyMachine.run (copyButton label now) es = some b) : b.Stage label es := by
  induction es using List.reverseRecOn generalizing b with
  | nil =>
    obtain rfl := Option.some.inj hrun
    exact .resting rfl rfl rfl nofun
  | append_singleton es e ih =>
    obtain ⟨q, hq, hstep⟩ := Machine.run_append_eq_some_iff.mp hrun
    rw [Machine.run_singleton] at hstep
    obtain ⟨hbefore, hlast⟩ := Machine.always_append_iff.mp hapart
    exact (ih hbefore hq).step (hlast q hq).1 hstep

private theorem step_fire {i : ℕ} {timer : CopyTimer} {t : ℤ} (hi : b.timers[i]? = some timer)
    (hnow : b.now ≤ t) (hdue : timer.due ≤ t) :
    b.step (.fire i t) = some (b.onFire i timer.original t) := by
  simp only [CopyButton.step, hi, if_pos (And.intro hnow hdue)]

/-- When a copy is made during the feedback of another, both timers can fire and leave "Copied" on
the button. -/
theorem stuck_of_overlap (stage : b.Stage label es) (hpending : b.timers ≠ []) {t : ℤ}
    (h : b.step (.written t) = some b') :
    ∃ fires b'', (∀ e ∈ fires, ∃ i u, e = .fire i u) ∧ copyMachine.run b' fires = some b'' ∧
      b''.timers = [] ∧ b''.label = js "Copied" := by
  rcases stage with ⟨htimers, -⟩ | ⟨htimers, hlabel, -, hstarted, -⟩
  · exact absurd htimers hpending
  rename_i due
  cases steps_of_step h with
  | written hnow =>
    have hdue : due ≤ t + copiedFeedbackMs :=
      Int.le_trans hstarted (Int.add_le_add_right hnow _)
    have htimers' : (b.onWritten t).timers =
        [⟨due, label⟩, ⟨t + copiedFeedbackMs, js "Copied"⟩] := by
      rw [onWritten, htimers, hlabel]
      rfl
    have hnow' : (b.onWritten t).now ≤ t + copiedFeedbackMs :=
      Int.le_add_of_nonneg_right (by decide)
    have hfirst := step_fire (b := b.onWritten t) (i := 0) (by rw [htimers']; rfl) hnow' hdue
    have hrest : ((b.onWritten t).onFire 0 label (t + copiedFeedbackMs)).timers =
        [⟨t + copiedFeedbackMs, js "Copied"⟩] := by
      rw [onFire, htimers']
      rfl
    have hsecond := step_fire (b := (b.onWritten t).onFire 0 label (t + copiedFeedbackMs)) (i := 0)
      (by rw [hrest]; rfl) (Int.le_refl _) (Int.le_refl _)
    refine ⟨[.fire 0 (t + copiedFeedbackMs), .fire 0 (t + copiedFeedbackMs)], _, by simp,
      Machine.run_cons_eq_some_iff.mpr ⟨_, hfirst, (Machine.run_singleton _ _).trans hsecond⟩,
      ?_, rfl⟩
    rw [onFire, hrest]
    rfl

end CopyButton

open CopyButton

/-- **Copy feedback.** The feedback of a run's copies ends if no copy is made during the feedback of
another, and, unless the button says "Copied" from the beginning, only then. -/
theorem feedback_ends {label : JSString} {now : ℤ} {es : List CopyEvent} {b : CopyButton}
    (hrun : copyMachine.run (copyButton label now) es = some b) :
    (copyMachine.Always Apart (copyButton label now) es → AlwaysEnds label now es) ∧
      (label ≠ js "Copied" → AlwaysEnds label now es →
        copyMachine.Always Apart (copyButton label now) es) := by
  constructor
  · rintro hapart pre post fires b' rfl hfires hrun'
    have hapart' : copyMachine.Always Apart (copyButton label now) (pre ++ fires) := by
      refine Machine.always_append_iff.mpr ⟨(Machine.always_append_iff.mp hapart).1, fun q _ => ?_⟩
      refine Machine.always_of_forall_mem (fun e he q t ht => ?_) q
      obtain ⟨i, u, rfl⟩ := hfires e he
      exact absurd ht nofun
    exact (stage_of_run hapart' hrun').feedbackEnds
  · intro hlabel hends
    induction es using List.reverseRecOn generalizing b with
    | nil => trivial
    | append_singleton es e ih =>
      obtain ⟨q, hq, hstep⟩ := Machine.run_append_eq_some_iff.mp hrun
      rw [Machine.run_singleton] at hstep
      have hbefore := ih hq fun pre post fires b' heq => hends pre (post ++ [e]) fires b' (by
        rw [heq, List.append_assoc])
      refine Machine.always_append_iff.mpr ⟨hbefore, fun q' hq' => ⟨?_, fun _ _ => trivial⟩⟩
      obtain rfl := Option.some.inj (hq.symm.trans hq')
      rintro t rfl
      by_contra hpending
      obtain ⟨fires, b'', hfires, hrest, htimers, hstuck⟩ :=
        stuck_of_overlap (stage_of_run hbefore hq) hpending hstep
      have hall : copyMachine.run (copyButton label now) ((es ++ [.written t]) ++ fires) =
        some b'' := Machine.run_append_eq_some_iff.mpr ⟨b, hrun, hrest⟩
      obtain ⟨hlabel', -⟩ := (hends _ [] fires b'' (by rw [List.append_nil]) hfires hall).1 htimers
      exact hlabel (hlabel'.symm.trans hstuck)

/-- Two copies, the second half a second after the feedback of the first is over. -/
theorem feedback_ends_apart :
    AlwaysEnds (js "Copy link") 0
      [.click 0, .written 10, .fire 0 2010, .click 2500, .written 2510, .fire 0 4510] := by
  have hrun : (copyMachine.run (copyButton (js "Copy link") 0)
      [.click 0, .written 10, .fire 0 2010, .click 2500, .written 2510, .fire 0 4510]).isSome =
        true := by decide
  obtain ⟨b, hb⟩ := Option.isSome_iff_exists.mp hrun
  refine (feedback_ends hb).1
    ⟨nofun, fun b₁ h₁ => ⟨fun _ _ => ?_, fun b₂ h₂ => ⟨nofun, fun b₃ h₃ => ⟨nofun, fun b₄ h₄ =>
      ⟨fun _ _ => ?_, fun b₅ h₅ => ⟨nofun, fun _ _ => trivial⟩⟩⟩⟩⟩⟩
  · obtain rfl := Option.some.inj h₁
    rfl
  · obtain rfl := Option.some.inj h₁
    obtain rfl := Option.some.inj h₂
    obtain rfl := Option.some.inj h₃
    obtain rfl := Option.some.inj h₄
    rfl

/-- Two copies, a second apart: the first timer ends the feedback of both, and the second leaves
"Copied" on the button. -/
theorem feedback_ends_overlap :
    (copyMachine.run (copyButton (js "Copy link") 0)
        [.click 0, .written 10, .click 1000, .written 1010, .fire 0 2010]).map
      (fun b => (b.now, b.label, b.copied)) = some (2010, js "Copy link", false) ∧
    (copyMachine.run (copyButton (js "Copy link") 0)
        [.click 0, .written 10, .click 1000, .written 1010, .fire 0 2010, .fire 0 3010]).map
      (fun b => (b.timers, b.label)) = some ([], js "Copied") ∧
    ¬ AlwaysEnds (js "Copy link") 0
      [.click 0, .written 10, .click 1000, .written 1010, .fire 0 2010, .fire 0 3010] := by
  refine ⟨by decide, by decide, fun hends => ?_⟩
  have hrun : (copyMachine.run (copyButton (js "Copy link") 0)
      [.click 0, .written 10, .click 1000, .written 1010, .fire 0 2010, .fire 0 3010]).map
        (fun b => (b.timers, b.label)) = some ([], js "Copied") := by decide
  obtain ⟨b, hb, heq⟩ := Option.map_eq_some_iff.mp hrun
  obtain ⟨htimers, hlabel⟩ := Prod.mk.inj heq
  rw [← List.append_nil (_ :: _)] at hb
  obtain ⟨hlabel', -⟩ := (hends _ [] [] b (List.append_nil _).symm nofun hb).1 htimers
  exact absurd (hlabel'.symm.trans hlabel) (by decide)

end KeyBank
