import KeyBank.Server.VaultRun

/-!
# Custody of the private keys

Which requests can make a live record leave the store? `FetchKey` removes it and sends it; but
the pattern `GET /api/keys/{id}` also serves `HEAD`, whose response has no body, and `Save` writes
over whatever its drawn id names. `Careful` excludes these two. In every run whose steps all meet
it, a record leaves only to a response that carries it; `custody_breach` is a run in which a
`HEAD` request destroys a key nobody has seen.
-/

namespace KeyBank

open Interleaving

variable {b : Backend} {assets : Assets} {decode : Decoder} {h : Handlers} {trustXFF : Bool}
  {requests : ℕ → Request} {t : List ApiEvent} {q : Pool Api b.State Exit}

/-- The step is neither a `Load` of a live record for a `HEAD` request nor a `Save` that draws
the id of a live record. -/
structure Careful (b : Backend) (requests : ℕ → Request) (s : b.State) (ev : ApiEvent) : Prop where
  head : ∀ x, IsID x → loadedID ev = some x → (requests ev.thread).method = "HEAD" →
    (b.vault.view s).live ev.env.now x = none
  draw : ∀ x, drawnID ev = some x → (b.vault.view s).live ev.env.now x = none

/-- The record `e`, kept under `x` in the state `s` before the step `ev`, was saved in `pre` with
the private key `priv`. -/
def SavedAs (b : Backend) (pre : List ApiEvent) (x : GoString) (e : TTLEntry b.vault.V)
    (priv : Bytes) : Prop :=
  ∃ i env ttl, (⟨i, env, .save priv ttl, .ok x⟩ : ApiEvent) ∈ pre ∧
    b.vault.enc ⟨priv, env.now⟩ = some e.value ∧ e.expiry = some (b.expiry env.now ttl)

/-- **Custody.** In every run whose steps are careful, and for every step of it: a record that is
live is still there after the step, or the step is a `Load` by a request whose response carries
the private key that was saved. -/
theorem custody
    (hrun : Runs b.object (serverPool b (appHandler assets decode h trustXFF) requests) t q)
    (hcodec : ∀ ev ∈ t, ∀ priv ttl, ev.cmd = .save priv ttl → b.RoundTrips ⟨priv, ev.env.now⟩)
    (hcareful : b.object.Always (Careful b requests) b.init t) {pre post : List ApiEvent}
    {ev : ApiEvent} (ht : t = pre ++ ev :: post) {x : GoString} (hx : IsID x)
    {e : TTLEntry b.vault.V}
    (hlive : (b.vault.view (b.object.replay b.init pre)).live ev.env.now x = some e) :
    ∃ priv, SavedAs b pre x e priv ∧
      (b.vault.view (b.object.replay b.init (pre ++ [ev])) x = some e ∨
        loadedID ev = some x ∧ ∃ resp, responseOf q requests ev.thread = some resp ∧
          resp.body = [.bytes priv]) := by
  subst ht
  have hserves (i : ℕ) : Serves decode h trustXFF (requests i).capped
      ((serverPool b (appHandler assets decode h trustXFF) requests).threads i) :=
    serves_appHandler ResponseWriter.fresh_new (requests i)
  have hpos : ∀ ev' ∈ pre ++ ev :: post, PositiveTTL ev' := fun ev' hev' =>
    positiveTTL_of_mem (H := fun _ => h) hserves hrun hev'
  simp only [List.forall_mem_append, List.forall_mem_cons] at hpos
  obtain ⟨hlegal, hreply, -⟩ := (Object.legal_append _).mp hrun.legal
  obtain ⟨-, hstep, -⟩ := (Object.always_append _).mp hcareful
  have hview := (TTLMap.live_eq_some_iff.mp hlive).1
  obtain ⟨u, i, env, priv, ttl, v, rfl, -, henc, hexp⟩ :=
    b.vault.exists_save hx hlegal hpos.1 (b.view_init x) hview
  rw [b.vault_expiry] at hexp
  refine ⟨priv, ⟨i, env, ttl, by simp, henc, hexp⟩, ?_⟩
  rw [Object.replay_append, Object.replay_cons, Object.replay_nil]
  -- Only a `Load` of the id could remove the entry; it returns the key or changes nothing.
  by_cases hload : loadedID ev = some x
  · have hmethod : (requests ev.thread).method ≠ "HEAD" := by
      intro hhead
      rw [hstep.head x hx hload hhead] at hlive
      cases hlive
    have hdec : b.vault.dec e.value = some ⟨priv, env.now⟩ :=
      (hcodec ⟨i, env, .save priv ttl, .ok x⟩ (by simp) _ _ rfl).dec henc
    obtain ⟨j, env', reply, rfl⟩ := eq_load_of_loadedID hload
    rcases b.vault.load_of_live hlive hdec with hkept | hok
    · exact .inl (by simpa only [hkept] using hview)
    · obtain rfl : reply = .ok (some priv) := hreply.trans hok
      obtain ⟨w, hw, hdone⟩ := load_around (H := fun _ => h) hserves hrun
      refine .inr ⟨rfl, ⟨200, w.header, [.bytes priv]⟩, ?_, rfl⟩
      simp [responseOf, hdone, Handlers.keyLoaded, hw.writeHeader_write, respond, hmethod]
  · have hdraw : drawnID ev ≠ some x := by
      intro hdraw
      rw [hstep.draw x hdraw] at hlive
      cases hlive
    exact .inl ((b.vault.view_frame hx hpos.2.1 hdraw hload _).trans hview)

/-! ### A `HEAD` request -/

/-- A `POST`, and requests with the given method for the key it makes. -/
def requestsFor (method : String) : ℕ → Request
  | 0 => bareRequest "POST" "/api/keys" (some ⟨[1], [2]⟩)
  | _ => bareRequest method "/api/keys/00000000000000000000000000000000" none

abbrev custodyPool (method : String) : Pool Api MemData Exit :=
  serverPool .mem (appHandler emptyAssets decodeEmpty (.new none) false) (requestsFor method)

/-- The `POST` is served, then one of the other requests. -/
def custodyRun (method : String) : List ApiEvent × Pool Api MemData Exit :=
  (custodyPool method).run Backend.mem.object
    [(0, stepAt 0), (0, stepAt 0), (1, stepAt 7), (1, stepAt 7)]

/-- The key saved by the `POST` is live for a day; the `Load` of the `HEAD` request removes it
seven nanoseconds later, and the response to that request has no body. -/
theorem custody_breach :
    Runs Backend.mem.object (custodyPool "HEAD") (custodyRun "HEAD").1 (custodyRun "HEAD").2 ∧
      (∀ ev ∈ (custodyRun "HEAD").1, storeFailed ev = false) ∧
      ∃ pre ev e, (custodyRun "HEAD").1 = pre ++ [ev] ∧
        (memVault.view (Backend.mem.object.replay Backend.mem.init pre)).live ev.env.now zeroID =
          some e ∧
        memVault.view (Backend.mem.object.replay Backend.mem.init (pre ++ [ev])) zeroID = none ∧
        ∃ resp, responseOf (custodyRun "HEAD").2 (requestsFor "HEAD") ev.thread = some resp ∧
          resp.status = 200 ∧ resp.body = [] := by
  refine ⟨Pool.runs_run _ _ _, by decide +kernel, (custodyRun "HEAD").1.take 3,
    ⟨1, stepAt 7, .load zeroID, .ok (some [2])⟩, ⟨⟨[2], 0⟩, some 86400000000000⟩, ?_⟩
  exact ⟨rfl, rfl, rfl, _, rfl, rfl, rfl⟩

/-- With `GET` in place of `HEAD` the run is careful, and the key is handed over. -/
theorem custody_get :
    ∃ priv, SavedAs .mem ((custodyRun "GET").1.take 3) zeroID
        ⟨⟨[2], 0⟩, some 86400000000000⟩ priv ∧
      (memVault.view (Backend.mem.object.replay Backend.mem.init
          ((custodyRun "GET").1.take 3 ++ [⟨1, stepAt 7, .load zeroID, .ok (some [2])⟩])) zeroID =
          some ⟨⟨[2], 0⟩, some 86400000000000⟩ ∨
        loadedID ⟨1, stepAt 7, .load zeroID, .ok (some [2])⟩ = some zeroID ∧
          ∃ resp, responseOf (custodyRun "GET").2 (requestsFor "GET") 1 = some resp ∧
            resp.body = [.bytes priv]) := by
  have hrun : Runs Backend.mem.object (custodyPool "GET") (custodyRun "GET").1
      (custodyRun "GET").2 := Pool.runs_run _ _ _
  have hmethod : ∀ i, (requestsFor "GET" i).method ≠ "HEAD" := by
    rintro (_ | i)
    · exact (by decide : "POST" ≠ "HEAD")
    · exact (by decide : "GET" ≠ "HEAD")
  have hstep {s : MemData} {ev : ApiEvent}
      (hdraw : ∀ x, drawnID ev = some x → (memVault.view s).live ev.env.now x = none) :
      Careful .mem (requestsFor "GET") s ev :=
    ⟨fun _ _ _ hhead => absurd hhead (hmethod _), hdraw⟩
  exact custody hrun (fun _ _ _ _ _ => trivial)
    ⟨hstep nofun, hstep fun _ _ => rfl, hstep nofun, hstep nofun, trivial⟩ rfl isID_zeroID rfl

end KeyBank
