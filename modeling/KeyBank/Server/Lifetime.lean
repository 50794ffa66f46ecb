import KeyBank.Server.VaultRun

/-!
# Every key expires in time

Whatever `MAX_TTL` holds and however often `SetMaxTTL` is called, the bounds are fields of
`Handlers`, so each `Save` has a lifetime between a minute and the current maximum. Both stores
derive an instant of expiry from it that is no later than the `Save` plus the lifetime, and a
`Load` returns an entry only up to its expiry.
-/

namespace KeyBank

open Interleaving

/-- The `Handlers` value `newAppHandler` builds from the environment, after more calls of
`SetMaxTTL`. -/
def retuned (getenv : Getenv) (parseDuration : GoString → Option Duration) (templates : Templates)
    (calls : List Duration) : Handlers :=
  let cfg := loadConfig getenv parseDuration
  calls.foldl Handlers.setMaxTTL (appHandlers templates cfg.autoHideSeconds cfg.maxTTL)

/-- A server that serves request `i` with the handlers `H i`, since `SetMaxTTL` may be called
between two requests. -/
def retunedPool (b : Backend) (assets : Assets) (decode : Decoder) (H : ℕ → Handlers)
    (trustXFF : Bool) (requests : ℕ → Request) : Pool Api b.State Exit :=
  ⟨b.init, fun i => appHandler assets decode (H i) trustXFF .new (requests i)⟩

/-- The trace `t` of a server with handlers `H` keeps to the promised lifetimes. -/
structure KeepsLifetimes (b : Backend) (decode : Decoder) (H : ℕ → Handlers)
    (requests : ℕ → Request) (t : List ApiEvent) : Prop where
  /-- Each `Save` has a lifetime of at least 60 s and at most the current maximum, which is at
  most seven days, and it is the requested number of seconds unless that is zero. -/
  save : ∀ i env priv ttl saved, (⟨i, env, .save priv ttl, saved⟩ : ApiEvent) ∈ t →
    60 * 1000000000 ≤ ttl.toInt ∧ ttl ≤ (H i).maxTTL ∧
      (H i).maxTTL.toInt ≤ 7 * 24 * 3600 * 1000000000 ∧
      ∃ seconds, Handlers.requestedSeconds (decode (requests i).capped.body) = some seconds ∧
        (seconds ≠ 0 → ttl.toInt = seconds.toInt * 1000000000)
  /-- Each key a `Load` returns was set by the last `Save` of its id, no longer ago than its
  lifetime. -/
  load : ∀ (pre post : List ApiEvent) j env' x key,
    t = pre ++ ⟨j, env', .load x, .ok (some key)⟩ :: post → IsID x →
      ∃ u i env priv ttl v, pre = u ++ ⟨i, env, .save priv ttl, .ok x⟩ :: v ∧
        (∀ ev ∈ v, savedID ev ≠ some x) ∧ env'.now ≤ env.now + ttl.toInt ∧
        (b.RoundTrips ⟨priv, env.now⟩ → key = priv)

/-- An entry expires no later than its `Save` plus its lifetime. -/
theorem Backend.expiry_le (b : Backend) (now : ℤ) {ttl : Duration} (h : minTTL ≤ ttl) :
    b.expiry now ttl ≤ now + ttl.toInt := by
  cases b with
  | mem => exact le_rfl
  | redis codec create fetch =>
    have hms : Duration.millisecond ≤ ttl := Int64.le_trans (by decide) h
    have hle := Redis.expireAfter_le hms
    simp only [Backend.expiry]
    omega

/-- **The lifetimes.** Whatever the environment holds, however often `SetMaxTTL` is called in
between, and whatever is requested, every run keeps to the promised lifetimes. -/
theorem keepsLifetimes {b : Backend} {getenv : Getenv}
    {parseDuration : GoString → Option Duration} {assets : Assets} {templates : Templates}
    {decode : Decoder} {calls : ℕ → List Duration} {trustXFF : Bool} {requests : ℕ → Request}
    {t : List ApiEvent} {q : Pool Api b.State Exit}
    (hrun : Runs b.object (retunedPool b assets decode
      (fun i => retuned getenv parseDuration templates (calls i)) trustXFF requests) t q) :
    KeepsLifetimes b decode (fun i => retuned getenv parseDuration templates (calls i)) requests
      t := by
  generalize (fun i => retuned getenv parseDuration templates (calls i)) = H at hrun ⊢
  have hserves (i : ℕ) : Serves decode (H i) trustXFF (requests i).capped
      ((retunedPool b assets decode H trustXFF requests).threads i) :=
    serves_appHandler ResponseWriter.fresh_new (requests i)
  have hsave : ∀ i env priv ttl saved, (⟨i, env, .save priv ttl, saved⟩ : ApiEvent) ∈ t →
      ∃ seconds, Handlers.requestedSeconds (decode (requests i).capped.body) = some seconds ∧
        (H i).requestedTTL seconds = some ttl := by
    intro i env priv ttl saved hev
    obtain ⟨u, v, rfl⟩ := List.append_of_mem hev
    obtain ⟨_, _, seconds, -, -, -, hbody, httl, -⟩ := save_around hserves hrun
    exact ⟨seconds, hbody, httl⟩
  constructor
  case save =>
    intro i env priv ttl saved hev
    obtain ⟨seconds, hbody, httl⟩ := hsave i env priv ttl saved hev
    obtain ⟨hmin, hmax, hexact⟩ := Handlers.requestedTTL_bounds httl
    exact ⟨Int64.le_iff_toInt_le.mp hmin, hmax, (Handlers.toInt_maxTTL _).2, seconds, hbody,
      hexact⟩
  case load =>
    rintro pre post j env' x key rfl hx
    obtain ⟨hlegal, hreply, -⟩ := (Object.legal_append _).mp hrun.legal
    obtain ⟨-, ⟨⟨⟩, -⟩ | ⟨e, r, hlive, hdec, hkey⟩⟩ := b.vault.load_ok hreply.symm
    have hpos : ∀ ev ∈ pre, PositiveTTL ev := fun ev hev =>
      positiveTTL_of_mem hserves hrun (List.mem_append_left _ hev)
    -- The entry that was live was set by a `Save`, whose lifetime is in the bounds.
    obtain ⟨u, i, env, priv, ttl, v, rfl, hv, henc, hexp⟩ := b.vault.exists_save hx hlegal hpos
      (b.view_init x) (TTLMap.live_eq_some_iff.mp hlive).1
    refine ⟨u, i, env, priv, ttl, v, rfl, hv, ?_, fun hcodec => ?_⟩
    · obtain ⟨seconds, -, httl⟩ := hsave i env priv ttl (.ok x) (by simp)
      rw [b.vault_expiry] at hexp
      exact (TTLMap.le_expiry_of_live hlive hexp).trans
        (b.expiry_le _ (Handlers.requestedTTL_bounds httl).1)
    · rw [hcodec.dec henc] at hdec
      cases hdec
      exact Option.some.inj hkey

/-- A `POST` and a request for its id. -/
def pairRequests : ℕ → Request
  | 0 => bareRequest "POST" "/api/keys" (some ⟨[1], [2]⟩)
  | _ => bareRequest "GET" "/api/keys/00000000000000000000000000000000" none

/-- They are served one after the other from memory, with a maximum of ten minutes set in
between. -/
def pairCalls (i : ℕ) : List Duration := List.replicate i (600 * Duration.second)

abbrev pairPool : Pool Api MemData Exit :=
  retunedPool .mem emptyAssets decodeEmpty
    (fun i => retuned (fun _ => []) (fun _ => none) (fun _ => some []) (pairCalls i)) false
    pairRequests

def pairRun : List ApiEvent × Pool Api MemData Exit :=
  pairPool.run Backend.mem.object [(0, stepAt 0), (0, stepAt 0), (1, stepAt 7), (1, stepAt 7)]

theorem keepsLifetimes_pairRun :
    KeepsLifetimes .mem decodeEmpty
      (fun i => retuned (fun _ => []) (fun _ => none) (fun _ => some []) (pairCalls i))
      pairRequests pairRun.1 := by
  have hrun : Runs Backend.mem.object pairPool pairRun.1 pairRun.2 := Pool.runs_run _ _ _
  exact keepsLifetimes hrun

end KeyBank
