import KeyBank.Server.VaultRun

/-!
# Which requests touch the keys

A request reaches the store only through one of the two routes of the API. `MayCall` says what a
request may ask of the shared state, from its method and the unescaped segments of its path alone;
`makes_appHandler` says that it never asks for more, through both multiplexers and all the
middlewares, whatever is replied.

So everything else that a browser, a crawler or a link preview may request of a link, its page and
the static files, with any method, costs no quota and leaves every key in place:
`previews_harmless`.
-/

namespace KeyBank

open Interleaving ServeMux

/-- The request is for `POST /api/keys`. -/
def Request.PostsKey (r : Request) : Prop :=
  r.method = "POST" ∧ pathSegments r.path = [lit "api", lit "keys"]

/-- The request is for `GET /api/keys/{id}`, which serves `HEAD` as well. A segment that stands for
a slash is no id. -/
def Request.GetsKey (r : Request) (id : GoString) : Prop :=
  (r.method = "GET" ∨ r.method = "HEAD") ∧
    pathSegments r.path = [lit "api", lit "keys", id] ∧ id ≠ slash

/-- What a request may ask of the shared state. -/
def Request.MayCall (r : Request) (trustXFF : Bool) : Cmd → Prop
  | .allow .create ip => r.PostsKey ∧ ip = remoteIP r trustXFF
  | .allow .fetch ip => (∃ id, r.GetsKey id) ∧ ip = remoteIP r trustXFF
  | .save priv _ => r.PostsKey ∧ ∃ key, r.keyPair = some key ∧ priv = key.priv
  | .load id => r.GetsKey id

/-! ### Handlers and middlewares -/

variable {P : Cmd → Prop} {assets : Assets} {decode : Decoder} {h : Handlers} {trustXFF : Bool}

/-- Panicking is no call. -/
theorem makes_panicRecover {next : Handler} {w : ResponseWriter} {r : Request}
    (hnext : (next w r).Makes P) : (panicRecover next w r).Makes P := by
  refine hnext.bind fun e => ?_
  split <;> exact trivial

theorem makes_renderPage (w : ResponseWriter) (data : PageData) :
    (h.renderPage w data).Makes P := by
  unfold Handlers.renderPage
  split <;> exact trivial

theorem makes_createKey {w : ResponseWriter} {r : Request}
    (hsave : ∀ key ttl, r.keyPair = some key → P (.save key.priv ttl)) :
    (h.createKey decode w r).Makes P := by
  have hfor (seconds : Int64) : (h.createKeyFor seconds w r).Makes P := by
    unfold Handlers.createKeyFor
    split
    · exact trivial
    · unfold Handlers.generateAndSave
      split
      · exact trivial
      · next key hkey => exact ⟨hsave key _ hkey, fun _ => trivial⟩
  unfold Handlers.createKey
  split
  · exact hfor 0
  · exact trivial
  · exact trivial
  · split
    · exact hfor _
    · exact trivial

theorem makes_rateLimit {bucket : Bucket} {next : Handler} {w : ResponseWriter} {r : Request}
    (hallow : P (.allow bucket (remoteIP r trustXFF))) (hnext : (next w r).Makes P) :
    (rateLimit bucket trustXFF next w r).Makes P := by
  refine ⟨hallow, fun allowed => ?_⟩
  cases allowed with
  | false => exact trivial
  | true => exact hnext

/-- A multiplexer makes the calls of the handlers whose pattern serves the method and fits the
path. -/
theorem makes_serveMux {mux : List (Pattern × Handler)} {w : ResponseWriter} {r : Request}
    (hmux : ∀ p ∈ mux, p.1.Serves r.method → ∀ matched,
      Fits p.1.segments (pathSegments r.path) matched →
        (p.2 w { r with matched := matched }).Makes P) :
    (serveMux mux w r).Makes P := by
  unfold serveMux
  split
  · next hd matched hfound =>
    obtain ⟨p, hp, hserves, hfits⟩ := fits_of_findHandler hfound
    exact hmux _ hp hserves matched hfits
  all_goals exact trivial

/-! ### The routes -/

theorem makes_staticHandler (w : ResponseWriter) (r : Request) :
    (staticHandler assets w r).Makes P := by
  refine makes_panicRecover (makes_serveMux fun p hp _ matched _ => ?_)
  obtain rfl := List.mem_singleton.mp hp
  exact trivial

theorem makes_dynamicHandler (w : ResponseWriter) (r : Request) :
    (dynamicHandler decode h trustXFF w r).Makes (r.MayCall trustXFF) := by
  refine makes_panicRecover (makes_serveMux fun p hp hserves matched hfits => ?_)
  simp only [dynamicMux, List.mem_cons, List.not_mem_nil, or_false] at hp
  rcases hp with rfl | rfl | rfl | rfl | rfl
  · -- `POST /api/keys`
    have hposts : r.PostsKey := by
      have hsegs : pathSegments r.path = [lit "api", lit "keys"] ∧ matched = [] := by
        simpa using hfits
      exact ⟨(hserves.eq rfl).resolve_right (by simp), hsegs.1⟩
    exact makes_rateLimit ⟨hposts, rfl⟩
      (makes_createKey fun key ttl hkey => ⟨hposts, key, hkey, rfl⟩)
  · -- `GET /api/keys/{id}`
    obtain ⟨id, rfl, hgets⟩ : ∃ id, matched = [id] ∧ r.GetsKey id := by
      obtain ⟨id, hsegs, hid, rfl⟩ : ∃ id,
          pathSegments r.path = [lit "api", lit "keys", id] ∧ id ≠ slash ∧ matched = [id] := by
        simpa using hfits
      exact ⟨id, rfl, (hserves.eq rfl).imp_right And.right, hsegs, hid⟩
    exact makes_rateLimit ⟨⟨id, hgets⟩, rfl⟩ ⟨hgets, fun _ => trivial⟩
  all_goals exact makes_renderPage _ _

/-- **Only the API touches the keys.** Whatever is replied to them, the calls of a request are
those its method and path allow. -/
theorem makes_appHandler (w : ResponseWriter) (r : Request) :
    (appHandler assets decode h trustXFF w r).Makes (r.MayCall trustXFF) := by
  refine makes_serveMux fun p hp _ matched _ => ?_
  simp only [rootMux, List.mem_cons, List.not_mem_nil, or_false] at hp
  rcases hp with rfl | rfl
  · exact makes_staticHandler _ _
  · exact makes_dynamicHandler _ _

/-! ### The route to a key -/

/-- `GET /api/keys/{id}` is served by `FetchKey`, behind the limiter, for every id that a segment
spells but the slash. -/
theorem appHandler_getKey {r : Request} {seg : Text} (hmethod : r.method = "GET")
    (huri : r.requestURI = r.path) (hpath : r.path = joinPath [lit "api", lit "keys", seg])
    (hseg : 47 ∉ seg ∧ seg ≠ [] ∧ seg ≠ [46] ∧ seg ≠ [46, 46]) (hid : pathUnescape seg ≠ slash) :
    ∃ w, w.Fresh ∧ appHandler assets decode h trustXFF .new r =
      panicRecover (rateLimit .fetch trustXFF Handlers.fetchKey) w
        { r with matched := [pathUnescape seg] } := by
  have hplain : ∀ s ∈ [lit "api", lit "keys", seg],
      47 ∉ s ∧ s ≠ [] ∧ s ≠ [46] ∧ s ≠ [46, 46] := by
    simpa [hseg] using (by decide : (47 ∉ lit "api" ∧ lit "api" ≠ [] ∧ lit "api" ≠ [46] ∧
      lit "api" ≠ [46, 46]) ∧ 47 ∉ lit "keys" ∧ lit "keys" ≠ [] ∧ lit "keys" ≠ [46] ∧
      lit "keys" ≠ [46, 46])
  have hclean : cleanPath r.path = r.path := by
    rw [hpath, cleanPath_joinPath (List.cons_ne_nil _ _) hplain]
  have hsegs : pathSegments r.path = [lit "api", lit "keys", pathUnescape seg] := by
    rw [hpath, pathSegments_joinPath (List.cons_ne_nil _ _)
      fun s hs => ⟨(hplain s hs).1, (hplain s hs).2.1⟩]
    rfl
  have hstar : r.requestURI ≠ [42] := by
    rw [huri, hpath, joinPath]
    simp
  -- The outer multiplexer: the first segment is not `static`.
  have hroot : findHandler (rootMux assets decode h trustXFF) r.method r.requestURI r.path =
      .handler (dynamicHandler decode h trustXFF) [] := by
    have hunder : ¬Under (lit "static") r.path := by
      rw [Under, hsegs]
      exact fun hu => absurd (Option.some.inj hu.1) (by decide)
    have hlacks : ¬LacksSlash (lit "static") r.path := by
      -- There are more slashes than in the root of a subtree.
      rintro ⟨-, hcount⟩
      have hle : (r.path ++ slash).count 47 ≤ 2 := by
        rw [hcount]
        split <;> omega
      rw [hpath, joinPath, List.intercalate_cons_cons, List.intercalate_cons_cons,
        List.intercalate_singleton] at hle
      simp [slash] at hle
      omega
    have hmux : ¬AnsweredByMux (lit "static") r.method r.requestURI r.path := by
      simp [AnsweredByMux, hstar, hclean, hlacks]
    have hfound := findHandler_subtreeMux (lit "static") (staticHandler assets)
      (dynamicHandler decode h trustXFF) hmux
    rwa [if_neg hunder] at hfound
  -- The inner one: of the patterns for `GET` only `/api/keys/{id}` and `/` fit.
  have hdynamic : findHandler (dynamicMux decode h trustXFF) r.method r.requestURI r.path =
      .handler (rateLimit .fetch trustXFF Handlers.fetchKey) [pathUnescape seg] := by
    refine findHandler_of_match hstar hclean (p := ⟨some "GET", [.lit (lit "api"),
      .lit (lit "keys"), .wild]⟩) (matchMethodAndPath_of_fits ?_ (by rw [hmethod]) ?_ ?_) ?_
    · simp [dynamicMux]
    · rw [hsegs]
      exact .lit (.lit (.wild hid .nil))
    · intro q hq hget m hfits hfirst
      simp only [dynamicMux, List.mem_cons, List.not_mem_nil, or_false] at hq
      rw [hmethod] at hget
      rcases hq with rfl | rfl | rfl | rfl | rfl
      · exact absurd (Option.some.inj hget) (by decide)
      · rfl
      · simp [hsegs] at hfits
      · have hne : lit "api" ≠ lit "share" := by decide
        simp [hsegs, hne] at hfits
      · cases hfirst with
        | lt hlt => exact absurd hlt (by decide)
        | cons heq => exact absurd heq (by decide)
    · simp
  refine ⟨(ResponseWriter.new.setHeaders hardeningHeaders).setHeader "Cache-Control"
    (lit "no-store"), (ResponseWriter.fresh_new.setHeaders _).setHeader _ _, ?_⟩
  rw [appHandler, serveMux, hroot]
  simp only [dynamicHandler, chain, List.foldr, panicRecover, securityHeaders, serveMux, hdynamic]

/-! ### Runs -/

variable {b : Backend} {requests : ℕ → Request} {t : List ApiEvent} {q : Pool Api b.State Exit}

theorem serves_serverPool (i : ℕ) : Serves decode h trustXFF (requests i).capped
    ((serverPool b (appHandler assets decode h trustXFF) requests).threads i) :=
  serves_appHandler ResponseWriter.fresh_new (requests i)

theorem positiveTTL_of_run
    (hrun : Runs b.object (serverPool b (appHandler assets decode h trustXFF) requests) t q) :
    ∀ ev ∈ t, PositiveTTL ev := fun _ hev =>
  positiveTTL_of_mem (H := fun _ => h) serves_serverPool hrun hev

/-- Every command of a run is one that its request may call. -/
theorem mayCall_of_mem
    (hrun : Runs b.object (serverPool b (appHandler assets decode h trustXFF) requests) t q)
    {ev : ApiEvent} (hev : ev ∈ t) : (requests ev.thread).MayCall trustXFF ev.cmd :=
  hrun.makes (P := fun i => (requests i).MayCall trustXFF)
    (fun i => makes_appHandler .new (requests i)) hev

theorem getsKey_of_loadedID
    (hrun : Runs b.object (serverPool b (appHandler assets decode h trustXFF) requests) t q)
    {ev : ApiEvent} (hev : ev ∈ t) {x : GoString} (hload : loadedID ev = some x) :
    (requests ev.thread).GetsKey x := by
  have hmay := mayCall_of_mem hrun hev
  obtain ⟨i, env, reply, rfl⟩ := eq_load_of_loadedID hload
  exact hmay

/-- **Previews are harmless.** In every run of the application, whatever the others request and
whatever fails: a request that is none of the two of the API makes no call, so it costs no quota;
and a key stays where it is, with the lifetime it has, as long as nobody requests that very key with
`GET` or `HEAD` and its id is not drawn again. -/
theorem previews_harmless
    (hrun : Runs b.object (serverPool b (appHandler assets decode h trustXFF) requests) t q) :
    (∀ i, ¬(requests i).PostsKey → (∀ id, ¬(requests i).GetsKey id) → callsOf i t = []) ∧
      ∀ pre post x e, t = pre ++ post → IsID x →
        (∀ ev ∈ post, ¬(requests ev.thread).GetsKey x) → (∀ ev ∈ post, drawnID ev ≠ some x) →
          b.vault.view (b.object.replay b.init pre) x = some e →
            b.vault.view (b.object.replay b.init t) x = some e := by
  refine ⟨fun i hposts hgets => ?_, fun pre post x e ht hx hgets hdraw he => ?_⟩
  · refine List.eq_nil_iff_forall_not_mem.mpr fun c hc => ?_
    obtain ⟨env, hev⟩ := mem_of_mem_callsOf hc
    have hmay := mayCall_of_mem hrun hev
    obtain ⟨cmd, reply⟩ := c
    cases cmd with
    | allow bucket ip =>
      cases bucket with
      | create => exact hposts hmay.1
      | fetch =>
        obtain ⟨id, hid⟩ := hmay.1
        exact hgets id hid
    | save priv ttl => exact hposts hmay.1
    | load id => exact hgets id hmay
  · subst ht
    have hpos : ∀ ev ∈ post, PositiveTTL ev := fun ev hev =>
      positiveTTL_of_run hrun ev (List.mem_append_right _ hev)
    have hload : ∀ ev ∈ post, loadedID ev ≠ some x := fun ev hev hload =>
      hgets ev hev (getsKey_of_loadedID hrun (List.mem_append_right _ hev) hload)
    rw [Object.replay_append, b.vault.view_replay hx hpos hdraw hload, he]

/-- A `POST`, the page of the link, and requests that are no fetch of the key it makes. -/
def previewRequests : ℕ → Request
  | 0 => bareRequest "POST" "/api/keys" (some ⟨[1], [2]⟩)
  | 1 => bareRequest "GET" "/share/00000000000000000000000000000000" none
  | 2 => bareRequest "DELETE" "/api/keys/00000000000000000000000000000000" none
  | 3 => bareRequest "GET" "/api/keys/00000000000000000000000000000000/" none
  | _ => bareRequest "GET" "/api/keys/1" none

abbrev previewPool : Pool Api MemData Exit :=
  serverPool .mem (appHandler emptyAssets decodeEmpty (.new none) false) previewRequests

/-- The `POST` is served, then the others. -/
def previewRun : List ApiEvent × Pool Api MemData Exit :=
  previewPool.run Backend.mem.object
    [(0, stepAt 0), (0, stepAt 0), (1, stepAt 1), (2, stepAt 2), (3, stepAt 3), (4, stepAt 4),
      (4, stepAt 4)]

theorem previews_harmless_previewRun :
    callsOf 1 previewRun.1 = [] ∧
      memVault.view (Backend.mem.object.replay Backend.mem.init previewRun.1) zeroID =
        some ⟨⟨[2], 0⟩, some 86400000000000⟩ := by
  have hrun : Runs Backend.mem.object previewPool previewRun.1 previewRun.2 :=
    Pool.runs_run _ _ _
  obtain ⟨hidle, hkept⟩ := previews_harmless hrun
  have hshare : pathSegments (previewRequests 1).path = [lit "share", zeroID] := by decide +kernel
  have hother : pathSegments (previewRequests 4).path = [lit "api", lit "keys", lit "1"] := by
    decide +kernel
  refine ⟨hidle 1 (fun h => absurd h.1 (by decide)) fun id h => ?_,
    hkept (previewRun.1.take 2) [⟨4, stepAt 4, .allow .fetch (lit "203.0.113.7"), true⟩,
      ⟨4, stepAt 4, .load (lit "1"), .ok none⟩] _ _ rfl isID_zeroID (fun ev hev h => ?_)
      (fun ev hev h => ?_) rfl⟩
  · exact absurd (congrArg List.length (hshare.symm.trans h.2.1)) (by simp)
  · obtain rfl | rfl : ev = _ ∨ ev = _ := by simpa using hev
    all_goals exact absurd (hother.symm.trans h.2.1) (by decide +kernel)
  · obtain rfl | rfl : ev = _ ∨ ev = _ := by simpa using hev
    all_goals cases h

end KeyBank
