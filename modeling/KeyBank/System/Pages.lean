import KeyBank.Browser.CreateRun
import KeyBank.Browser.ShareRun

/-!
# What the pages do with what they get

Facts about one step of a page that do not depend on where its replies come from. `K` stands for
what is known of them: the share page decrypts, and reveals, only with a text in `K` that arrived as
a body, and with the fragment it still has; the create page encrypts only with a key in `K` that
arrived as JSON.
-/

namespace KeyBank

open Calls

/-! ### The share page -/

namespace SharePage

variable {env : Platform} {root : ShareRoot} {K K' : JSString → Prop} {p p' : SharePage}
  {e : ShareEvent}

/-- The note was decrypted with a text in `K` and the fragment of the page. -/
def Opened (env : Platform) (K : JSString → Prop) (p : SharePage) (note : JSString) : Prop :=
  ∃ text f, K text ∧ p.fragment = some f ∧
    decryptMessage env.crypto text f.wrapped f.iv f.ct = .ok note

/-- The page uses only texts in `K`. -/
structure Keeps (env : Platform) (K : JSString → Prop) (p : SharePage) : Prop where
  inv : p.Inv
  decrypting : ∀ (call : ℕ) (text : JSString) (f : Fragment),
    p.handlers[call]? = some (.decrypting text f) → K text ∧ p.fragment = some f
  revealed : ∀ note ∈ p.revealed, Opened env K p note

theorem Keeps.mono (keeps : Keeps env K p) (hK : ∀ text, K text → K' text) : Keeps env K' p where
  inv := keeps.inv
  decrypting call text f hcall := (keeps.decrypting call text f hcall).imp_left (hK text)
  revealed note hnote := by
    obtain ⟨text, f, htext, hrest⟩ := keeps.revealed note hnote
    exact ⟨text, f, hK text htext, hrest⟩

/-- A call that is decrypting after another one has changed was so before. -/
private theorem decrypting_of_set {call i : ℕ} {h : ClickHandler} {text : JSString} {f : Fragment}
    (hi : (p.handlers.set call h)[i]? = some (.decrypting text f)) (hne : h ≠ .decrypting text f) :
    p.handlers[i]? = some (.decrypting text f) := by
  by_cases hcall : call = i
  · subst hcall
    have hlt : call < p.handlers.length := by
      simpa using (List.getElem?_eq_some_iff.mp hi).1
    rw [List.getElem?_set_self hlt] at hi
    exact absurd (Option.some.inj hi) hne
  · rwa [List.getElem?_set_ne hcall] at hi

private theorem decrypting_of_concat {i : ℕ} {h : ClickHandler} {text : JSString} {f : Fragment}
    (hi : (p.handlers ++ [h])[i]? = some (.decrypting text f)) (hne : h ≠ .decrypting text f) :
    p.handlers[i]? = some (.decrypting text f) := by
  obtain hlt | hge := Nat.lt_or_ge i p.handlers.length
  · rwa [List.getElem?_append_left hlt] at hi
  · rw [List.getElem?_append_right hge] at hi
    exact absurd (List.mem_singleton.mp (List.mem_of_getElem? hi)).symm hne

/-- Nothing is decrypting on a page whose card is ready or invalid, and nothing is shown. -/
private theorem Keeps.of_idle (keeps : Keeps env K p) (hcard : p.card = .ready ∨ p.card = .invalid)
    {q : SharePage} (inv : q.Inv) (hhandlers : q.handlers = p.handlers)
    (hrevealed : q.revealed = p.revealed) : Keeps env K q := by
  have hidle : p.card ≠ .working ∧ p.card ≠ .opened := by
    rcases hcard with hcard | hcard <;> simp [hcard]
  refine ⟨inv, fun call text f hcall => ?_, fun note hnote => ?_⟩
  · rw [hhandlers] at hcall
    exact absurd ((keeps.inv.idle hidle.1).eq_done hcall) (by simp)
  · rw [hrevealed, keeps.inv.hidden hidle.2] at hnote
    cases hnote

/-- A call of the page has changed, to something else than decrypting. -/
private theorem Keeps.of_set (keeps : Keeps env K p) {q : SharePage} (inv : q.Inv) {call : ℕ}
    {h : ClickHandler} (hhandlers : q.handlers = p.handlers.set call h)
    (hfragment : q.fragment = p.fragment) (hrevealed : q.revealed = p.revealed)
    (hne : ∀ text f, h ≠ .decrypting text f) : Keeps env K q := by
  refine ⟨inv, fun i text f hi => ?_, fun note hnote => ?_⟩
  · rw [hhandlers] at hi
    rw [hfragment]
    exact keeps.decrypting i text f (decrypting_of_set hi (hne text f))
  · rw [hrevealed] at hnote
    rw [Opened, hfragment]
    exact keeps.revealed note hnote

/-- **Step lemma.** If the bodies that arrive are in `K`, the page goes on using only such. -/
theorem Keeps.step (keeps : Keeps env K p) (h : p.step env root e = some p')
    (hbody : ∀ call text, e = .body call text → K text) : Keeps env K p' := by
  have inv := keeps.inv.step h
  cases steps_of_step h with
  | ignored | stayed => exact keeps
  | sent | unsent =>
    refine ⟨inv, fun i text f hi => ?_, keeps.revealed⟩
    exact keeps.decrypting i text f (decrypting_of_concat hi nofun)
  | navigated | overlooked => exact ⟨inv, keeps.decrypting, keeps.revealed⟩
  | accepted _ hcard | rejected _ hcard => exact keeps.of_idle hcard inv rfl rfl
  | answered | gone | refused | lost | unread | undecryptable | garbled =>
    exact keeps.of_set inv rfl rfl rfl (fun _ _ => nofun)
  | @decrypting call status text f hcall hf =>
    refine ⟨inv, fun i text' f' hi => ?_, keeps.revealed⟩
    by_cases heq : ClickHandler.decrypting text f = .decrypting text' f'
    · obtain ⟨rfl, rfl⟩ := ClickHandler.decrypting.inj heq
      exact ⟨hbody call text rfl, hf⟩
    · exact keeps.decrypting i text' f' (decrypting_of_set hi heq)
  | @decrypted call text note f view hcall hresult =>
    obtain ⟨htext, hf⟩ := keeps.decrypting call text f hcall
    refine ⟨inv, fun i text' f' hi => ?_, fun note' hnote => ?_⟩
    · exact keeps.decrypting i text' f' (decrypting_of_set hi nofun)
    · rcases List.mem_append.mp hnote with hnote | hnote
      · exact keeps.revealed note' hnote
      · obtain rfl := List.mem_singleton.mp hnote
        exact ⟨text, f, htext, hf, hresult⟩

theorem keeps_init (env : Platform) (K : JSString → Prop) (root : ShareRoot) (location : URL)
    (ledger : Ledger) : Keeps env K (initSharePage env root location ledger) := by
  have inv := inv_init env root location ledger
  have hempty : (initSharePage env root location ledger).handlers = [] ∧
      (initSharePage env root location ledger).revealed = [] := by
    rw [initSharePage, inspectLink]
    split <;> exact ⟨rfl, rfl⟩
  refine ⟨inv, fun call text f hcall => ?_, fun note hnote => ?_⟩
  · rw [hempty.1] at hcall
    cases hcall
  · rw [hempty.2] at hnote
    cases hnote

end SharePage

/-! ### The create page -/

namespace CreatePage

variable {env : Platform} {root : CreateRoot} {K K' : KeyReply → Prop} {p p' : CreatePage}
  {e : CreateEvent env.crypto}

/-- The page encrypts only with keys in `K`. -/
structure Keeps (K : KeyReply → Prop) (p : CreatePage) : Prop where
  mode : p.Mode
  encrypting : ∀ (call : ℕ) (note : JSString) (ttl : ℕ) (key : KeyReply),
    p.submissions[call]? = some (.encrypting note ttl key) → K key

theorem Keeps.mono (keeps : Keeps K p) (hK : ∀ key, K key → K' key) : Keeps K' p where
  mode := keeps.mode
  encrypting call note ttl key hcall := hK key (keeps.encrypting call note ttl key hcall)

/-- A call has changed, and if it is encrypting now, then with a key in `K`. -/
private theorem Keeps.of_set (keeps : Keeps K p) {q : CreatePage} (mode : q.Mode) {call : ℕ}
    {s : Submission} (hsubmissions : q.submissions = p.submissions.set call s)
    (hs : ∀ note ttl key, s = .encrypting note ttl key → K key) : Keeps K q := by
  refine ⟨mode, fun i note ttl key hi => ?_⟩
  rw [hsubmissions] at hi
  by_cases hcall : call = i
  · subst hcall
    have hlt : call < p.submissions.length := by
      simpa using (List.getElem?_eq_some_iff.mp hi).1
    rw [List.getElem?_set_self hlt] at hi
    exact hs note ttl key (Option.some.inj hi)
  · rw [List.getElem?_set_ne hcall] at hi
    exact keeps.encrypting i note ttl key hi

private theorem Keeps.of_concat (keeps : Keeps K p) {q : CreatePage} (mode : q.Mode)
    {s : Submission} (hsubmissions : q.submissions = p.submissions ++ [s])
    (hs : ∀ note ttl key, s ≠ .encrypting note ttl key) : Keeps K q := by
  refine ⟨mode, fun i note ttl key hi => ?_⟩
  rw [hsubmissions] at hi
  obtain hlt | hge := Nat.lt_or_ge i p.submissions.length
  · rw [List.getElem?_append_left hlt] at hi
    exact keeps.encrypting i note ttl key hi
  · rw [List.getElem?_append_right hge] at hi
    exact absurd (List.mem_singleton.mp (List.mem_of_getElem? hi)).symm (hs note ttl key)

/-- **Step lemma.** If the keys that arrive are in `K`, the page goes on using only such. -/
theorem Keeps.step (keeps : Keeps K p) (h : p.step env root e = some p')
    (hjson : ∀ call key, e = .json call (.ok key) → K key) : Keeps K p' := by
  have mode := keeps.mode.step h
  cases steps_of_step h with
  | typed | chosen | customTyped | renewed | unsent => exact ⟨mode, keeps.encrypting⟩
  | sent | declined | prompted => exact keeps.of_concat mode rfl (fun _ _ _ => nofun)
  | @closed answer hopen =>
    obtain ⟨call, note, ttl, entry, view, -, -, heq⟩ := keeps.mode.closed hopen answer
    rw [heq] at mode ⊢
    split at mode
    · next hconfirm =>
      rw [if_pos hconfirm]
      exact keeps.of_set mode rfl (fun _ _ _ => nofun)
    · next hconfirm =>
      rw [if_neg hconfirm]
      exact keeps.of_set mode rfl (fun _ _ _ => nofun)
  | replied | refused | lost | unreadable | encrypted =>
    exact keeps.of_set mode rfl (fun _ _ _ => nofun)
  | @keyed call ttl note key hcall =>
    refine keeps.of_set mode rfl fun note' ttl' key' heq => ?_
    obtain ⟨-, -, rfl⟩ := Submission.encrypting.inj heq
    exact hjson call key rfl

theorem keeps_init (K : KeyReply → Prop) (root : CreateRoot) (ledger : Ledger) :
    Keeps K (initCreatePage root ledger) :=
  ⟨mode_init root ledger, fun _ _ _ _ hcall => by cases hcall⟩

/-- A step sends one request at most, and this is one for a key. -/
theorem Mode.step_requests (mode : p.Mode) (h : p.step env root e = some p') :
    p'.requests = p.requests ∨
      ∃ ttl, p'.requests = p.requests ++ [createKeyRequest ttl] := by
  cases steps_of_step h with
  | @sent answer ttl => exact .inr ⟨ttl, rfl⟩
  | @closed answer hopen =>
    obtain ⟨call, note, ttl, entry, view, -, -, heq⟩ := mode.closed hopen answer
    rw [heq]
    split
    · exact .inr ⟨ttl, rfl⟩
    · exact .inl rfl
  | _ => exact .inl rfl

end CreatePage

end KeyBank
