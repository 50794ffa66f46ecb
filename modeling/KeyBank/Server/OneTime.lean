import KeyBank.Server.VaultRun

/-!
# One-time delivery

Any number of `CreateKey` and `FetchKey` requests run concurrently against one backend. Each
answered `POST` has one `Save` in the trace, and the ids drawn are distinct, so the entry of its
id is set once, by that `Save`, and removed by the first `Load` that asks for it. Whatever the
order of the commands, at most one `Load` returns the key, and it returns the key of that very
`POST`.
-/

namespace KeyBank

open Interleaving

/-- Threads that call the handlers directly, `create` for `CreateKey` and `fetch` for
`FetchKey`, over a backend that has just started. -/
def handlerPool (b : Backend) (decode : Decoder) (h : Handlers) (which : ℕ → Bucket)
    (requests : ℕ → Request) : Pool Api b.State Exit :=
  ⟨b.init, fun i =>
    match which i with
    | .create => h.createKey decode .new (requests i)
    | .fetch => Handlers.fetchKey .new (requests i)⟩

/-- Whether the event is a `Load` of `x` that returns a key. -/
def delivers (x : GoString) (ev : ApiEvent) : Bool :=
  loadedID ev = some x && (returned ev).isSome

/-- The key `priv`, saved under `x` until `expiry`, is delivered once along the trace `t`, of
which `post` is the part after the `Save`. -/
structure DeliveredOnce (x : GoString) (priv : Bytes) (expiry : ℤ) (t post : List ApiEvent)
    (response : ℕ → Option Response) : Prop where
  /-- At most one `Load` of `x` returns a key. -/
  atMostOnce : t.countP (delivers x) ≤ 1
  /-- It returns the key of this `Save`. -/
  itsOwnKey : ∀ ev ∈ t, loadedID ev = some x → ∀ key, returned ev = some key → key = priv
  /-- If some `Load` of `x` takes effect in time, the first one after the `Save` returns the key,
  and no other one does. -/
  firstInTime : (∃ ev ∈ post, loadedID ev = some x ∧ ev.env.now ≤ expiry) →
    t.countP (delivers x) = 1 ∧ ∃ u ev v, post = u ++ ev :: v ∧
      (∀ ev' ∈ u, loadedID ev' ≠ some x) ∧ loadedID ev = some x ∧ returned ev = some priv
  /-- Every later `Load` of `x` returns nothing, and its request is answered with 404. -/
  thenNotFound : ∀ u ev v, post = u ++ ev :: v → loadedID ev = some x →
    ∀ ev' ∈ v, loadedID ev' = some x →
      returned ev' = none ∧ ∃ resp, response ev'.thread = some resp ∧ resp.status = 404

section

variable {b : Backend} {decode : Decoder} {h : Handlers} {which : ℕ → Bucket}
  {requests : ℕ → Request} {t : List ApiEvent} {q : Pool Api b.State Exit}

theorem serves_handlerPool (trustXFF : Bool) (i : ℕ) :
    Serves decode h trustXFF (requests i) ((handlerPool b decode h which requests).threads i) := by
  simp only [handlerPool]
  split
  · exact serves_createKey ResponseWriter.fresh_new rfl rfl
  · exact serves_fetchKey ResponseWriter.fresh_new _ _

/-! ### The `Save` behind a 201 -/

/-- `CreateKey` answers 201 only after a `Save` of the private half of its pair, with the id this
`Save` returned and the public half. -/
theorem saved_of_createKey {w : ResponseWriter} (hw : w.Fresh) {r : Request} {e : Exit}
    {l : List (Σ c : Cmd, c.Reply)} (hpath : Prog.Path (h.createKey decode w r) l (.done e))
    (h201 : e.w.status = 201) :
    ∃ key ttl id, r.keyPair = some key ∧ ⟨.save key.priv ttl, .ok id⟩ ∈ l ∧
      e.w.body = [.json [("id", id), ("pub_pem", key.pub)]] := by
  have hdone {w' : ResponseWriter} (hne : w'.status ≠ 201)
      (h : Prog.Path (finish w') l (.done e)) : False := by
    obtain ⟨-, heq⟩ := Prog.path_done_iff.mp h
    cases heq
    exact hne h201
  rcases Handlers.createKey_cases (h := h) decode hw r with ⟨w', hne, heq⟩ | ⟨seconds, -, heq⟩
  · rw [heq] at hpath
    exact (hdone hne hpath).elim
  rw [heq, Handlers.createKeyFor] at hpath
  split at hpath
  · exact (hdone (by simp [Handlers.status_writeJSONError hw]) hpath).elim
  · next ttl _ =>
    rw [Handlers.generateAndSave] at hpath
    split at hpath
    · exact (hdone (by simp [hw.status_error]) hpath).elim
    · next key hkey =>
      rcases Prog.path_call_iff.mp hpath with ⟨-, h⟩ | ⟨saved, l', rfl, hpath'⟩
      · cases h
      · obtain ⟨rfl, heq⟩ := Prog.path_done_iff.mp hpath'
        cases heq
        rcases saved with err | id
        · exact absurd h201 (by simp [Handlers.keySaved, hw.status_error])
        · refine ⟨key, ttl, id, hkey, List.mem_singleton.mpr rfl, ?_⟩
          rw [Handlers.keySaved, (hw.setHeader _ _).writeHeader_write]

/-! ### Deliveries along a trace -/

theorem delivers_eq_true {x : GoString} {ev : ApiEvent} :
    delivers x ev = true ↔ loadedID ev = some x ∧ ∃ key, returned ev = some key := by
  simp [delivers, Option.isSome_iff_exists]

private theorem countP_delivers_eq_zero {x : GoString} {l : List ApiEvent}
    (h : ∀ ev ∈ l, loadedID ev = some x → returned ev = none) : l.countP (delivers x) = 0 := by
  rw [List.countP_eq_zero]
  intro ev hev hdel
  obtain ⟨hload, key, hkey⟩ := delivers_eq_true.mp hdel
  rw [h ev hev hload] at hkey
  cases hkey

/-- The first `Load` of an id in a trace that has one. -/
private theorem exists_first_load {x : GoString} {l : List ApiEvent}
    (h : ∃ ev ∈ l, loadedID ev = some x) : ∃ u ev v, l = u ++ ev :: v ∧
      loadedID ev = some x ∧ ∀ ev' ∈ u, loadedID ev' ≠ some x := by
  obtain ⟨ev, hev⟩ := Option.isSome_iff_exists.mp
    (List.find?_isSome (p := fun ev => loadedID ev = some x).mpr (by simpa using h))
  obtain ⟨hload, u, v, rfl, hu⟩ := List.find?_eq_some_iff_append.mp hev
  exact ⟨u, ev, v, rfl, by simpa using hload, by simpa using hu⟩

/-- Of the `Load`s of `x` in a trace only the first may return a key: it returns `priv`, if it comes
in time. -/
def FirstOnly (x : GoString) (priv : Bytes) (expiry : ℤ) (l : List ApiEvent) : Prop :=
  ∀ u ev w, l = u ++ ev :: w → loadedID ev = some x → (∀ ev' ∈ u, loadedID ev' ≠ some x) →
    returned ev = (if ev.env.now ≤ expiry then some priv else none) ∧
      ∀ ev' ∈ w, loadedID ev' = some x → returned ev' = none

namespace FirstOnly

variable {x : GoString} {priv : Bytes} {expiry : ℤ} {u w l : List ApiEvent} {ev : ApiEvent}

/-- The first `Load` is the only one that may count. -/
theorem countP_eq (h : FirstOnly x priv expiry (u ++ ev :: w)) (hload : loadedID ev = some x)
    (hu : ∀ ev' ∈ u, loadedID ev' ≠ some x) :
    (u ++ ev :: w).countP (delivers x) = if (returned ev).isSome then 1 else 0 := by
  have hw := (h u ev w rfl hload hu).2
  rw [List.countP_append, List.countP_cons,
    countP_delivers_eq_zero fun ev' hev' hload' => absurd hload' (hu ev' hev'),
    countP_delivers_eq_zero hw, Nat.zero_add, Nat.zero_add]
  simp [delivers, hload]

theorem countP_le_one (h : FirstOnly x priv expiry l) : l.countP (delivers x) ≤ 1 := by
  by_cases hloads : ∃ ev ∈ l, loadedID ev = some x
  · obtain ⟨u, ev, w, rfl, hload, hu⟩ := exists_first_load hloads
    rw [h.countP_eq hload hu]
    split <;> omega
  · rw [countP_delivers_eq_zero fun ev hev hload => absurd ⟨ev, hev, hload⟩ hloads]
    exact Nat.zero_le 1

/-- No other key is returned. -/
theorem eq_of_returned (h : FirstOnly x priv expiry l) (hev : ev ∈ l) (hload : loadedID ev = some x)
    {key : Bytes} (hkey : returned ev = some key) : key = priv := by
  obtain ⟨u, f, w, rfl, hloadf, hu⟩ := exists_first_load ⟨ev, hev, hload⟩
  obtain ⟨hreturned, hw⟩ := h u f w rfl hloadf hu
  rcases List.mem_append.mp hev with hev | hev
  · exact absurd hload (hu ev hev)
  · rcases List.mem_cons.mp hev with rfl | hev
    · rw [hreturned] at hkey
      split at hkey
      · exact (Option.some.inj hkey).symm
      · cases hkey
    · rw [hw ev hev hload] at hkey
      cases hkey

/-- If some `Load` comes in time, then so does the first. -/
theorem exists_returned (h : FirstOnly x priv expiry l) (hclock : Clocked l) (hev : ev ∈ l)
    (hload : loadedID ev = some x) (hle : ev.env.now ≤ expiry) :
    l.countP (delivers x) = 1 ∧ ∃ u ev v, l = u ++ ev :: v ∧
      (∀ ev' ∈ u, loadedID ev' ≠ some x) ∧ loadedID ev = some x ∧ returned ev = some priv := by
  obtain ⟨u, f, w, rfl, hloadf, hu⟩ := exists_first_load ⟨ev, hev, hload⟩
  have hfle : f.env.now ≤ expiry := by
    rcases List.mem_append.mp hev with hev | hev
    · exact absurd hload (hu ev hev)
    · rcases List.mem_cons.mp hev with rfl | hev
      · exact hle
      · have hfw := (List.pairwise_append.mp hclock).2.1
        exact (List.rel_of_pairwise_cons hfw hev).trans hle
  have hreturned := (h u f w rfl hloadf hu).1
  rw [if_pos hfle] at hreturned
  refine ⟨?_, u, f, w, rfl, hu, hloadf, hreturned⟩
  rw [h.countP_eq hloadf hu, hreturned]
  rfl

/-- After any `Load` there is nothing left. -/
theorem returned_eq_none (h : FirstOnly x priv expiry (u ++ ev :: w)) (hload : loadedID ev = some x)
    {ev' : ApiEvent} (hev' : ev' ∈ w) (hload' : loadedID ev' = some x) : returned ev' = none := by
  -- The first `Load` of `x` is `ev` or comes before it.
  obtain ⟨u', f, w', heq, hloadf, hu'⟩ := exists_first_load (l := u ++ [ev])
    ⟨ev, by simp, hload⟩
  have hsplit : u ++ ev :: w = u' ++ f :: (w' ++ w) := by
    rw [List.append_cons, heq, List.append_assoc, List.cons_append]
  exact (h u' f (w' ++ w) hsplit hloadf hu').2 ev' (List.mem_append_right _ hev') hload'

end FirstOnly

/-- A `Load` that finds nothing is answered with 404. -/
private theorem notFound_of_load
    (hserves : ∀ i, Serves decode h false (requests i) ((handlerPool b decode h which requests).threads i))
    (hrun : Runs b.object (handlerPool b decode h which requests) t q) {x : GoString}
    {ev : ApiEvent} (hev : ev ∈ t) (hload : loadedID ev = some x) (hok : storeFailed ev = false)
    (hnone : returned ev = none) :
    ∃ resp, responseOf q requests ev.thread = some resp ∧ resp.status = 404 := by
  obtain ⟨u, v, rfl⟩ := List.append_of_mem hev
  obtain ⟨i, env, reply, rfl⟩ := eq_load_of_loadedID hload
  rcases reply with err | key
  · cases hok
  · obtain rfl : key = none := hnone
    obtain ⟨w, hw, hdone⟩ := load_around (H := fun _ => h) hserves hrun
    obtain ⟨resp, hresp, hstatus⟩ := exists_respond (requests i).method w.notFound
    refine ⟨resp, by rw [responseOf, hdone]; exact hresp, ?_⟩
    rw [hstatus, ResponseWriter.notFound, hw.status_error]

/-- From the `Save` on: its key is delivered once. -/
private theorem deliveredOnce_of_save {pre post : List ApiEvent} {i : ℕ} {env : Env}
    {priv : Bytes} {ttl : Duration} {x : GoString}
    (hrun : Runs b.object (handlerPool b decode h which requests)
      (pre ++ ⟨i, env, .save priv ttl, .ok x⟩ :: post) q)
    (hclock : Clocked (pre ++ ⟨i, env, .save priv ttl, .ok x⟩ :: post))
    (hdraws : (drawnIDs (pre ++ ⟨i, env, .save priv ttl, .ok x⟩ :: post)).Nodup)
    (hok : ∀ ev ∈ pre ++ ⟨i, env, .save priv ttl, .ok x⟩ :: post, storeFailed ev = false)
    (hcodec : b.RoundTrips ⟨priv, env.now⟩) :
    DeliveredOnce x priv (b.expiry env.now ttl) (pre ++ ⟨i, env, .save priv ttl, .ok x⟩ :: post)
      post (responseOf q requests) := by
  have hserves (i : ℕ) : Serves decode h false (requests i)
      ((handlerPool b decode h which requests).threads i) := serves_handlerPool false i
  have hpos : ∀ ev ∈ pre ++ ⟨i, env, .save priv ttl, .ok x⟩ :: post, PositiveTTL ev :=
    fun ev hev => positiveTTL_of_mem (H := fun _ => h) hserves hrun hev
  obtain ⟨hlegalPre, hsaved, hlegalPost⟩ := (Object.legal_append _).mp hrun.legal
  obtain ⟨hdraw, v, henc, hview⟩ := b.vault.save_ok
    (hpos _ (List.mem_append_right _ List.mem_cons_self) _ _ rfl) hsaved.symm
  have hx : IsID x := isID_of_randomID hdraw
  have hstored := congrFun hview x
  rw [TTLMap.set_self, b.vault_expiry] at hstored
  -- Of all the draws of the run only this one yields `x`.
  simp only [drawnIDs, List.filterMap_append, List.filterMap_cons, drawnID, hdraw,
    List.nodup_middle, List.nodup_cons, List.mem_append, List.mem_filterMap, not_or, not_exists,
    not_and] at hdraws
  obtain ⟨⟨hdrawPre, hdrawPost⟩, -⟩ := hdraws
  simp only [List.forall_mem_append, List.forall_mem_cons] at hok hpos
  have hbefore : ∀ ev ∈ pre, loadedID ev = some x → returned ev = none := fun ev hev hload =>
    b.vault.returned_eq_none_of_mem hx hlegalPre hpos.1 hdrawPre (b.view_init x) hev hload
  have hfirst : FirstOnly x priv (b.expiry env.now ttl) post := by
    rintro u ev w rfl hload hu
    exact b.vault.returned_first hx hstored (hcodec.dec henc) hlegalPost hpos.2.2 hdrawPost
      (hok.2.2 ev (by simp)) hu hload
  have hcount : (pre ++ ⟨i, env, .save priv ttl, .ok x⟩ :: post).countP (delivers x) =
      post.countP (delivers x) := by
    rw [List.countP_append, List.countP_cons, countP_delivers_eq_zero hbefore, Nat.zero_add]
    rfl
  constructor
  case atMostOnce =>
    rw [hcount]
    exact hfirst.countP_le_one
  case itsOwnKey =>
    intro ev hev hload key hkey
    rcases List.mem_append.mp hev with hev | hev
    · rw [hbefore ev hev hload] at hkey
      cases hkey
    · rcases List.mem_cons.mp hev with rfl | hev
      · cases hload
      · exact hfirst.eq_of_returned hev hload hkey
  case firstInTime =>
    rintro ⟨ev, hev, hload, hle⟩
    have hclockPost : Clocked post := (List.pairwise_append.mp hclock).2.1.of_cons
    rw [hcount]
    exact hfirst.exists_returned hclockPost hev hload hle
  case thenNotFound =>
    rintro u ev w rfl hload ev' hev' hload'
    have hnone := hfirst.returned_eq_none hload hev' hload'
    refine ⟨hnone, notFound_of_load hserves hrun (by simp [hev']) hload' ?_ hnone⟩
    exact hok.2.2 ev' (by simp [hev'])

/-! ### Every answered `POST` -/

/-- **One-time delivery.** In every interleaving of requests to `CreateKey` and `FetchKey` in
which the ids drawn are distinct and the store reports no error: a `POST` that answered 201 with
an id and a public half has a `Save` of the matching private half in the trace, and that key is
delivered once. -/
theorem one_time_delivery (hrun : Runs b.object (handlerPool b decode h which requests) t q)
    (hclock : Clocked t) (hdraws : (drawnIDs t).Nodup) (hok : ∀ ev ∈ t, storeFailed ev = false)
    (hcodec : ∀ ev ∈ t, ∀ priv ttl, ev.cmd = .save priv ttl → b.RoundTrips ⟨priv, ev.env.now⟩)
    {i : ℕ} (hpost : which i = .create) {resp : Response} {x : GoString} {pub : Bytes}
    (hresp : responseOf q requests i = some resp) (h201 : resp.status = 201)
    (hbody : resp.body = [.json [("id", x), ("pub_pem", pub)]]) :
    ∃ priv pre env ttl post, (requests i).keyPair = some ⟨pub, priv⟩ ∧
      t = pre ++ ⟨i, env, .save priv ttl, .ok x⟩ :: post ∧
      DeliveredOnce x priv (b.expiry env.now ttl) t post (responseOf q requests) := by
  have hpath := hrun.path i
  cases hq : q.threads i with
  | call c next =>
    rw [responseOf, hq] at hresp
    cases hresp
  | done e =>
    rw [responseOf, hq] at hresp
    have hstart : (handlerPool b decode h which requests).threads i =
        h.createKey decode .new (requests i) := by simp only [handlerPool, hpost]
    rw [hq, hstart] at hpath
    obtain ⟨key, ttl, id, hkey, hcall, hsent⟩ := saved_of_createKey ResponseWriter.fresh_new hpath
      (by rw [← status_of_respond hresp, h201])
    rw [body_of_respond hresp, hsent] at hbody
    split at hbody
    · cases hbody
    · cases hbody
      obtain ⟨env, hev⟩ := mem_of_mem_callsOf hcall
      obtain ⟨pre, post, rfl⟩ := List.append_of_mem hev
      exact ⟨key.priv, pre, env, ttl, post, hkey, rfl,
        deliveredOnce_of_save hrun hclock hdraws hok (hcodec _ hev _ _ rfl)⟩

end

/-- One `POST` and two requests for its id. -/
def tripleRequests : ℕ → Request
  | 0 => bareRequest "POST" "/api/keys" (some ⟨[1], [2]⟩)
  | _ => { bareRequest "GET" "/api/keys/0" none with matched := [zeroID] }

/-- Their threads over the in-memory store. -/
abbrev triplePool : Pool Api MemData Exit :=
  handlerPool .mem decodeEmpty (.new none) (fun i => if i = 0 then .create else .fetch)
    tripleRequests

/-- A run in which both requests for the id race after the `POST`. -/
def tripleRun : List ApiEvent × Pool Api MemData Exit :=
  triplePool.run Backend.mem.object [(0, stepAt 0), (2, stepAt 5), (1, stepAt 9)]

theorem one_time_delivery_tripleRun :
    ∃ priv pre env ttl post, (tripleRequests 0).keyPair = some ⟨[1], priv⟩ ∧
      tripleRun.1 = pre ++ ⟨0, env, .save priv ttl, .ok zeroID⟩ :: post ∧
      DeliveredOnce zeroID priv (Backend.mem.expiry env.now ttl) tripleRun.1 post
        (responseOf tripleRun.2 tripleRequests) := by
  have hrun : Runs Backend.mem.object triplePool tripleRun.1 tripleRun.2 := Pool.runs_run _ _ _
  have hclock : Clocked tripleRun.1 := by
    unfold Clocked
    decide +kernel
  have hresp : responseOf tripleRun.2 tripleRequests 0 =
      some ⟨201, [("Content-Type", lit "application/json")],
        [.json [("id", zeroID), ("pub_pem", [1])]]⟩ := rfl
  exact one_time_delivery hrun hclock (by decide +kernel) (by decide +kernel)
    (fun _ _ _ _ _ => trivial) rfl hresp rfl rfl

end KeyBank
