import KeyBank.Server.App
import Mathlib.Data.List.Induction

/-!
# One id along a run

What happens to a single id while commands take effect on a `Vault`: only a `Save` that draws it
and a `Load` that asks for it touch its entry, so between these its entry is what it was. The
lemmas speak about traces of the shared object, with no thread in sight; the last section reads
off a trace which response a thread gives.
-/

namespace KeyBank

open Interleaving

/-- One command that took effect on the shared state. -/
abbrev ApiEvent : Type := Event Api Env

/-! ### Reading events -/

/-- The id a `Save` draws, whether or not it succeeds. -/
def drawnID : ApiEvent → Option GoString
  | ⟨_, env, .save _ _, _⟩ => randomID env.draw
  | _ => none

/-- The id a `Load` asks for. -/
def loadedID : ApiEvent → Option GoString
  | ⟨_, _, .load id, _⟩ => some id
  | _ => none

/-- The id under which a `Save` stores a record. -/
def savedID : ApiEvent → Option GoString
  | ⟨_, _, .save _ _, .ok id⟩ => some id
  | _ => none

/-- The private key a `Load` returns. -/
def returned : ApiEvent → Option Bytes
  | ⟨_, _, .load _, .ok key⟩ => key
  | _ => none

/-- Whether `Save` or `Load` reports an error. -/
def storeFailed : ApiEvent → Bool
  | ⟨_, _, .save _ _, .error _⟩ => true
  | ⟨_, _, .load _, .error _⟩ => true
  | _ => false

/-- The lifetime of a `Save`, if the event is one, is positive. -/
def PositiveTTL (ev : ApiEvent) : Prop := ∀ priv ttl, ev.cmd = .save priv ttl → 0 < ttl

/-- All the ids drawn along a trace. -/
def drawnIDs (t : List ApiEvent) : List GoString := t.filterMap drawnID

/-- The clock does not go back along a trace. -/
def Clocked (t : List ApiEvent) : Prop := t.Pairwise fun a b => a.env.now ≤ b.env.now

theorem eq_load_of_loadedID {ev : ApiEvent} {x : GoString} (h : loadedID ev = some x) :
    ∃ i env reply, ev = ⟨i, env, .load x, reply⟩ := by
  obtain ⟨i, env, cmd, reply⟩ := ev
  cases cmd with
  | allow bucket ip => cases h
  | save priv ttl => cases h
  | load id =>
    cases h
    exact ⟨i, env, reply, rfl⟩

theorem eq_save_of_savedID {ev : ApiEvent} {x : GoString} (h : savedID ev = some x) :
    ∃ i env priv ttl, ev = ⟨i, env, .save priv ttl, .ok x⟩ := by
  obtain ⟨i, env, cmd, reply⟩ := ev
  cases cmd with
  | allow bucket ip => cases h
  | load id => cases h
  | save priv ttl =>
    rcases reply with err | id
    · cases h
    · cases h
      exact ⟨i, env, priv, ttl, rfl⟩

theorem isID_of_drawnID {ev : ApiEvent} {x : GoString} (h : drawnID ev = some x) : IsID x := by
  unfold drawnID at h
  split at h
  · exact isID_of_randomID h
  · cases h

/-! ### One step -/

namespace Vault

variable {σ : Type} {O : Object Api Env σ} (V : Vault O) {x : GoString}

/-- Only a `Save` that draws an id and a `Load` that asks for it touch its entry. -/
theorem view_frame (hx : IsID x) {ev : ApiEvent} (hpos : PositiveTTL ev)
    (hdraw : drawnID ev ≠ some x) (hload : loadedID ev ≠ some x) (s : σ) :
    V.view (O.exec ev.env ev.cmd s).2 x = V.view s x := by
  obtain ⟨i, env, cmd, reply⟩ := ev
  cases cmd with
  | allow bucket ip => exact V.allow_frame env bucket ip s x hx
  | save priv ttl =>
    rcases V.save_cases env priv ttl s (hpos _ _ rfl) with ⟨e, -, heq⟩ | ⟨y, v, hy, -, -, heq⟩
    · simp only [heq]
    · have hne : x ≠ y := by
        rintro rfl
        exact hdraw hy
      simp only [heq, TTLMap.set_ne _ hne]
  | load id =>
    have hne : x ≠ id := by
      rintro rfl
      exact hload rfl
    rcases V.load_cases env id s with ⟨e, -, heq⟩ | ⟨heq, -⟩
    · simp only [heq]
    · simp only [heq, TTLMap.erase_ne hne]

/-- An id that is not in use stays so until it is drawn. -/
theorem view_eq_none (hx : IsID x) {ev : ApiEvent} (hpos : PositiveTTL ev)
    (hdraw : drawnID ev ≠ some x) {s : σ} (hs : V.view s x = none) :
    V.view (O.exec ev.env ev.cmd s).2 x = none := by
  by_cases hload : loadedID ev = some x
  · obtain ⟨i, env, reply, rfl⟩ := eq_load_of_loadedID hload
    rcases V.load_cases env x s with ⟨e, -, heq⟩ | ⟨heq, -⟩
    · simpa only [heq] using hs
    · simp only [heq, TTLMap.erase_self]
  · rw [V.view_frame hx hpos hdraw hload, hs]

/-- A `Load` that does not fail returns a key only if its id has a visible entry, and that entry
is gone afterwards. -/
theorem load_ok {env : Env} {s : σ} {key : Option Bytes}
    (hok : (O.exec env (.load x) s).1 = .ok key) :
    V.view (O.exec env (.load x) s).2 x = none ∧
      ((key = none ∧ (V.view s).live env.now x = none) ∨
        ∃ e r, (V.view s).live env.now x = some e ∧ V.dec e.value = some r ∧
          key = some r.privPEM) := by
  rcases V.load_cases env x s with ⟨e, herr, -⟩ | ⟨hview, ⟨hlive, heq⟩ | ⟨e, hlive, h⟩⟩
  · rw [herr] at hok
    cases hok
  · rw [heq] at hok
    cases hok
    exact ⟨by rw [hview, TTLMap.erase_self], .inl ⟨rfl, hlive⟩⟩
  · rcases h with ⟨-, err, heq⟩ | ⟨r, hdec, heq⟩
    · rw [heq] at hok
      cases hok
    · rw [heq] at hok
      cases hok
      exact ⟨by rw [hview, TTLMap.erase_self], .inr ⟨e, r, hlive, hdec, rfl⟩⟩

/-- A `Load` of a live entry that reads back leaves it there or returns its key. -/
theorem load_of_live {env : Env} {s : σ} {e : TTLEntry V.V} {r : Record}
    (hlive : (V.view s).live env.now x = some e) (hdec : V.dec e.value = some r) :
    V.view (O.exec env (.load x) s).2 = V.view s ∨
      (O.exec env (.load x) s).1 = .ok (some r.privPEM) := by
  rcases V.load_cases env x s with ⟨err, -, heq⟩ | ⟨-, ⟨hnone, -⟩ | ⟨e', hlive', hcase⟩⟩
  · exact .inl (by rw [heq])
  · rw [hlive] at hnone
    cases hnone
  · rw [hlive] at hlive'
    cases hlive'
    rcases hcase with ⟨hbad, -⟩ | ⟨r', hdec', hok⟩
    · rw [hdec] at hbad
      cases hbad
    · rw [hdec] at hdec'
      cases hdec'
      exact .inr hok

/-- A `Save` that does not fail sets the entry of the id it drew. -/
theorem save_ok {env : Env} {priv : Bytes} {ttl : Duration} {s : σ} (hpos : 0 < ttl)
    (hok : (O.exec env (.save priv ttl) s).1 = .ok x) :
    randomID env.draw = some x ∧ ∃ v, V.enc ⟨priv, env.now⟩ = some v ∧
      V.view (O.exec env (.save priv ttl) s).2 =
        (V.view s).set x ⟨v, some (V.expiry env.now ttl)⟩ := by
  rcases V.save_cases env priv ttl s hpos with ⟨e, herr, -⟩ | ⟨y, v, hy, hv, heq, hview⟩
  · rw [herr] at hok
    cases hok
  · rw [heq] at hok
    cases hok
    exact ⟨hy, v, hv, hview⟩

/-- An entry that is there after a step other than a `Save` of it was there before. -/
theorem view_of_view_exec (hx : IsID x) {ev : ApiEvent} (hpos : PositiveTTL ev) {s : σ}
    (hreply : ev.reply = (O.exec ev.env ev.cmd s).1) (hsaved : savedID ev ≠ some x)
    {e : TTLEntry V.V} (he : V.view (O.exec ev.env ev.cmd s).2 x = some e) :
    V.view s x = some e := by
  obtain ⟨i, env, cmd, reply⟩ := ev
  cases cmd with
  | allow bucket ip => rwa [V.view_frame hx hpos nofun nofun] at he
  | save priv ttl =>
    rcases V.save_cases env priv ttl s (hpos _ _ rfl) with ⟨err, -, heq⟩ | ⟨y, v, -, -, hok, hview⟩
    · simpa only [heq] using he
    · have hne : x ≠ y := by
        rintro rfl
        rw [hok] at hreply
        subst hreply
        exact hsaved rfl
      simpa only [hview, TTLMap.set_ne _ hne] using he
  | load id =>
    rcases V.load_cases env id s with ⟨err, -, heq⟩ | ⟨hview, -⟩
    · simpa only [heq] using he
    · by_cases hid : x = id
      · subst hid
        rw [hview, TTLMap.erase_self] at he
        cases he
      · simpa only [hview, TTLMap.erase_ne hid] using he

/-! ### Along a trace -/

/-- The entry of an id is what it was before a trace that neither draws nor loads it. -/
theorem view_replay (hx : IsID x) {s : σ} {t : List ApiEvent} (hpos : ∀ ev ∈ t, PositiveTTL ev)
    (hdraw : ∀ ev ∈ t, drawnID ev ≠ some x) (hload : ∀ ev ∈ t, loadedID ev ≠ some x) :
    V.view (O.replay s t) x = V.view s x := by
  induction t generalizing s with
  | nil => rfl
  | cons ev t ih =>
    simp only [List.forall_mem_cons] at hpos hdraw hload
    rw [Object.replay_cons, ih hpos.2 hdraw.2 hload.2, V.view_frame hx hpos.1 hdraw.1 hload.1]

/-- An id that is not in use stays so along a trace that does not draw it. -/
theorem view_replay_eq_none (hx : IsID x) {s : σ} {t : List ApiEvent}
    (hpos : ∀ ev ∈ t, PositiveTTL ev) (hdraw : ∀ ev ∈ t, drawnID ev ≠ some x)
    (hs : V.view s x = none) : V.view (O.replay s t) x = none := by
  induction t generalizing s with
  | nil => exact hs
  | cons ev t ih =>
    simp only [List.forall_mem_cons] at hpos hdraw
    exact ih hpos.2 hdraw.2 (V.view_eq_none hx hpos.1 hdraw.1 hs)

/-- A `Load` of an id not in use returns nothing. -/
theorem returned_eq_none {s : σ} {ev : ApiEvent} (hload : loadedID ev = some x)
    (hreply : ev.reply = (O.exec ev.env ev.cmd s).1) (hs : V.view s x = none) :
    returned ev = none := by
  obtain ⟨i, env, reply, rfl⟩ := eq_load_of_loadedID hload
  rcases reply with err | key
  · rfl
  · rcases (V.load_ok hreply.symm).2 with ⟨rfl, -⟩ | ⟨e, r, hlive, -⟩
    · rfl
    · rw [(TTLMap.live_eq_some_iff.mp hlive).1] at hs
      cases hs

/-- No `Load` returns a key under an id not in use before the id is drawn. -/
theorem returned_eq_none_of_mem (hx : IsID x) {s : σ} {t : List ApiEvent} (hlegal : O.Legal s t)
    (hpos : ∀ ev ∈ t, PositiveTTL ev) (hdraw : ∀ ev ∈ t, drawnID ev ≠ some x)
    (hs : V.view s x = none) {ev : ApiEvent} (hev : ev ∈ t) (hload : loadedID ev = some x) :
    returned ev = none := by
  obtain ⟨u, v, rfl⟩ := List.append_of_mem hev
  have hlegal' := (O.legal_append.mp hlegal).2
  refine V.returned_eq_none hload hlegal'.1 (V.view_replay_eq_none hx ?_ ?_ hs)
  · exact fun e he => hpos e (List.mem_append_left _ he)
  · exact fun e he => hdraw e (List.mem_append_left _ he)

/-- The first `Load` of a stored id in a trace without store errors returns its key if it comes in
time, and removes it, so that no later one returns a key. -/
theorem returned_first (hx : IsID x) {s : σ} {u w : List ApiEvent} {ev : ApiEvent} {v : V.V}
    {expiry : ℤ} {r : Record} (hs : V.view s x = some ⟨v, some expiry⟩) (hdec : V.dec v = some r)
    (hlegal : O.Legal s (u ++ ev :: w)) (hpos : ∀ ev' ∈ u ++ ev :: w, PositiveTTL ev')
    (hdraw : ∀ ev' ∈ u ++ ev :: w, drawnID ev' ≠ some x) (hok : storeFailed ev = false)
    (hfirst : ∀ ev' ∈ u, loadedID ev' ≠ some x) (hload : loadedID ev = some x) :
    returned ev = (if ev.env.now ≤ expiry then some r.privPEM else none) ∧
      ∀ ev' ∈ w, loadedID ev' = some x → returned ev' = none := by
  simp only [List.forall_mem_append, List.forall_mem_cons] at hpos hdraw
  obtain ⟨-, hreply, hlegalw⟩ := O.legal_append.mp hlegal
  have hview : V.view (O.replay s u) x = some ⟨v, some expiry⟩ := by
    rw [V.view_replay hx hpos.1 hdraw.1 hfirst, hs]
  obtain ⟨i, env, reply, rfl⟩ := eq_load_of_loadedID hload
  rcases reply with err | key
  · cases hok
  · obtain ⟨hgone, hkey⟩ := V.load_ok hreply.symm
    refine ⟨?_, fun ev' hev' hload' => ?_⟩
    · rcases hkey with ⟨rfl, hlive⟩ | ⟨e, r', hlive, hdec', rfl⟩
      · rw [if_neg]
        · rfl
        · intro hle
          simp [TTLMap.live, hview, TTLEntry.visible, Option.filter, hle] at hlive
      · obtain ⟨he, hvis⟩ := TTLMap.live_eq_some_iff.mp hlive
        rw [hview] at he
        cases he
        rw [hdec] at hdec'
        cases hdec'
        rw [if_pos (by simpa [TTLEntry.visible] using hvis)]
        rfl
    · exact V.returned_eq_none_of_mem hx hlegalw hpos.2.2 hdraw.2.2 hgone hev' hload'

/-- **Provenance.** Every entry under an id was set by a `Save` that returned the id, and no later
`Save` did. -/
theorem exists_save (hx : IsID x) {s : σ} {t : List ApiEvent} (hlegal : O.Legal s t)
    (hpos : ∀ ev ∈ t, PositiveTTL ev) (hs : V.view s x = none) {e : TTLEntry V.V}
    (he : V.view (O.replay s t) x = some e) :
    ∃ u i env priv ttl v, t = u ++ ⟨i, env, .save priv ttl, .ok x⟩ :: v ∧
      (∀ ev ∈ v, savedID ev ≠ some x) ∧ V.enc ⟨priv, env.now⟩ = some e.value ∧
      e.expiry = some (V.expiry env.now ttl) := by
  induction t using List.reverseRecOn generalizing e with
  | nil =>
    rw [Object.replay_nil, hs] at he
    cases he
  | append_singleton t ev ih =>
    obtain ⟨hlegal, hreply, -⟩ := O.legal_append.mp hlegal
    rw [O.replay_append] at he
    simp only [List.forall_mem_append, List.forall_mem_singleton] at hpos
    -- Either this step sets the entry, or it was there before and this step is no `Save` of it.
    by_cases hsaved : savedID ev = some x
    · obtain ⟨i, env, priv, ttl, rfl⟩ := eq_save_of_savedID hsaved
      obtain ⟨-, v, henc, hview⟩ := V.save_ok (hpos.2 _ _ rfl) hreply.symm
      rw [Object.replay_cons, Object.replay_nil, hview, TTLMap.set_self] at he
      cases he
      exact ⟨t, i, env, priv, ttl, [], rfl, by simp, henc, rfl⟩
    · have hbefore : V.view (O.replay s t) x = some e :=
        V.view_of_view_exec hx hpos.2 hreply hsaved he
      obtain ⟨u, i, env, priv, ttl, v, rfl, hv, henc, hexp⟩ := ih hlegal hpos.1 hbefore
      refine ⟨u, i, env, priv, ttl, v ++ [ev], by simp, ?_, henc, hexp⟩
      rw [List.forall_mem_append, List.forall_mem_singleton]
      exact ⟨hv, hsaved⟩

end Vault

/-- Nothing is stored at the start. -/
theorem Backend.view_init (b : Backend) (x : GoString) : b.vault.view b.init x = none := by
  cases b <;> rfl

/-- The instants of expiry are those of the backend. -/
theorem Backend.vault_expiry (b : Backend) : b.vault.expiry = b.expiry := by
  cases b <;> rfl

/-- What the backend keeps of a record that round trips is read back as that record. -/
theorem Backend.RoundTrips.dec {b : Backend} {r : Record} (h : b.RoundTrips r) {v : b.vault.V}
    (hv : b.vault.enc r = some v) : b.vault.dec v = some r := by
  cases b with
  | mem => exact hv.symm
  | redis codec create fetch =>
    obtain ⟨payload, hmarshal, hunmarshal⟩ := h
    rw [show codec.marshal r = some v from hv] at hmarshal
    cases hmarshal
    exact hunmarshal

/-! ### Threads that serve requests -/

/-- The response of a thread, if it has finished. -/
def responseOf {σ : Type} (q : Pool Api σ Exit) (requests : ℕ → Request) (i : ℕ) :
    Option Response :=
  match q.threads i with
  | .done e => respond (requests i).method e
  | .call _ _ => none

section Threads

variable {σ : Type} {O : Object Api Env σ} {p q : Pool Api σ Exit} {t : List ApiEvent}
  {decode : Decoder} {H : ℕ → Handlers} {trustXFF : Bool}
  {requests : ℕ → Request}

/-- A thread that is about to make a call still serves its request. -/
theorem serves_around {u : List ApiEvent} {ev : ApiEvent}
    (hserves : ∀ i, Serves decode (H i) trustXFF (requests i) (p.threads i))
    (hrun : Runs O p (t ++ ev :: u) q) :
    ∃ next, Serves decode (H ev.thread) trustXFF (requests ev.thread) (.call ev.cmd next) ∧
      ∀ e, next ev.reply = .done e → q.threads ev.thread = .done e ∧
        callsOf ev.thread u = [] := by
  obtain ⟨q', next, hq', hthread, -, hrest⟩ := hrun.around
  refine ⟨next, hthread ▸ (hserves ev.thread).of_path (hq'.path ev.thread), fun e he => ?_⟩
  have hpath := hrest.path ev.thread
  simp only [Function.update_self, he] at hpath
  exact (Prog.path_done_iff.mp hpath).symm

/-- A `Save` is made for a request with a key pair, with a lifetime within the bounds, and its
answer is the response. -/
theorem save_around {u : List ApiEvent} {i : ℕ} {env : Env} {priv : Bytes} {ttl : Duration}
    {saved : Except StoreError GoString}
    (hserves : ∀ i, Serves decode (H i) trustXFF (requests i) (p.threads i))
    (hrun : Runs O p (t ++ ⟨i, env, .save priv ttl, saved⟩ :: u) q) :
    ∃ w key seconds, w.Fresh ∧ (requests i).keyPair = some key ∧ priv = key.priv ∧
      Handlers.requestedSeconds (decode (requests i).body) = some seconds ∧
      (H i).requestedTTL seconds = some ttl ∧
      q.threads i = .done ⟨Handlers.keySaved w key saved, false⟩ := by
  obtain ⟨next, hnext, hdone⟩ := serves_around hserves hrun
  cases hnext with
  | save hw hkey hbody httl => exact ⟨_, _, _, hw, hkey, rfl, hbody, httl, (hdone _ rfl).1⟩

/-- A `Load` is answered by the response. -/
theorem load_around {u : List ApiEvent} {i : ℕ} {env : Env} {id : GoString}
    {loaded : Except StoreError (Option Bytes)}
    (hserves : ∀ i, Serves decode (H i) trustXFF (requests i) (p.threads i))
    (hrun : Runs O p (t ++ ⟨i, env, .load id, loaded⟩ :: u) q) :
    ∃ w : ResponseWriter, w.Fresh ∧
      q.threads i = .done ⟨Handlers.keyLoaded w loaded, false⟩ := by
  obtain ⟨next, hnext, hdone⟩ := serves_around hserves hrun
  cases hnext with
  | load hw id => exact ⟨_, hw, (hdone _ rfl).1⟩

/-- A limiter is asked about the client's address, and a request it refuses is answered with 429
and makes no further call. -/
theorem refused_around {u : List ApiEvent} {i : ℕ} {env : Env} {bucket : Bucket} {ip : GoString}
    (hserves : ∀ i, Serves decode (H i) trustXFF (requests i) (p.threads i))
    (hrun : Runs O p (t ++ ⟨i, env, .allow bucket ip, false⟩ :: u) q) :
    ip = remoteIP (requests i) trustXFF ∧ callsOf i u = [] ∧
      ∃ resp, responseOf q requests i = some resp ∧ resp.status = 429 := by
  obtain ⟨next, hnext, hdone⟩ := serves_around hserves hrun
  dsimp only at hnext
  cases hnext with
  | @allow _ _ w hw hrefused _ =>
    obtain ⟨hq, hcalls⟩ := hdone _ hrefused
    obtain ⟨resp, hresp, hstatus⟩ := exists_respond (requests i).method
      (w.error "too many requests" 429)
    refine ⟨rfl, hcalls, resp, by rw [responseOf, hq]; exact hresp, ?_⟩
    rw [hstatus, hw.status_error]

/-- Every lifetime is positive. -/
theorem positiveTTL_of_mem (hserves : ∀ i, Serves decode (H i) trustXFF (requests i) (p.threads i))
    (hrun : Runs O p t q) {ev : ApiEvent} (hev : ev ∈ t) : PositiveTTL ev := by
  intro priv ttl hcmd
  obtain ⟨u, v, rfl⟩ := List.append_of_mem hev
  obtain ⟨i, env, cmd, reply⟩ := ev
  cases hcmd
  obtain ⟨_, _, _, -, -, -, -, httl, -⟩ := save_around hserves hrun
  have hmin := (Handlers.requestedTTL_bounds httl).1
  rw [Int64.le_iff_toInt_le] at hmin
  rw [Int64.lt_iff_toInt_lt]
  exact lt_of_lt_of_le (by decide) hmin

end Threads

end KeyBank
