import KeyBank.Server.Quota

/-!
# Runs of the two limiters

Calls of `Allow` one after another, on both limiters and for any addresses, while Redis answers.
Between two calls the rest of the key space may change in any way, and Redis may remove a counter
that has expired; nothing else happens to a counter.

* `answersTo_eq_decisions`: the answers to one client are those of a fixed-window counter at the
  times of its calls, so the other calls have no part in them.
* `fixed_windows` has the consequences: what is admitted along a window and in an interval, and that
  a counter always expires within the hour.
-/

namespace KeyBank

open FixedWindow

/-- A call of `Allow` on one of the limiters. -/
structure AllowCall where
  bucket : Bucket
  ip : GoString
  now : ℤ
  /-- What has been done to the key space since the call before. -/
  others : Redis.DB → Redis.DB

namespace AllowCall

/-- The call, with the limits of the two buckets. -/
def allow (limit : Bucket → Int64) (c : AllowCall) (db : Redis.DB) : Bool × Redis.DB :=
  (redisRateLimiter c.bucket.name (limit c.bucket).toInt).allow ⟨c.now, none, true⟩ c.ip
    (c.others db)

/-- Nothing else has touched a counter; one that had expired may have been removed. -/
def LeavesCounters (c : AllowCall) : Prop :=
  ∀ db bucket ip, c.others db (counterKey (Bucket.name bucket) ip) = db (counterKey bucket.name ip) ∨
    (db.live c.now (counterKey bucket.name ip) = none ∧
      c.others db (counterKey bucket.name ip) = none)

/-- The call is one of this client to this route. -/
def IsOf (bucket : Bucket) (ip : GoString) (c : AllowCall) : Prop := c.bucket = bucket ∧ c.ip = ip

instance (bucket : Bucket) (ip : GoString) (c : AllowCall) : Decidable (c.IsOf bucket ip) :=
  inferInstanceAs (Decidable (_ ∧ _))

/-- What Redis removes by itself. -/
theorem leavesCounters_of_evict {c : AllowCall} {found : GoString → Bool}
    (h : c.others = Redis.evict c.now found) : c.LeavesCounters := by
  intro db bucket ip
  rw [h, Redis.evict]
  split
  · next hgone =>
    rw [Bool.and_eq_true, Option.isNone_iff_eq_none] at hgone
    exact .inr ⟨hgone.2, rfl⟩
  · exact .inl rfl

/-- A `Save` of the server. -/
theorem leavesCounters_of_save {c : AllowCall} {codec : RecordCodec} {create fetch : ℤ} {env : Env}
    {priv : Bytes} {ttl : Duration}
    (h : c.others = fun db =>
      ((Backend.redis codec create fetch).object.exec env (.save priv ttl) db).2) :
    c.LeavesCounters := by
  intro db bucket ip
  rw [h]
  have hdraw : drawnID ⟨0, env, .save priv ttl, .error .random⟩ ≠
      some (counterKey bucket.name ip) :=
    fun hdraw => (isID_of_drawnID hdraw).ne_counterKey bucket.name ip rfl
  refine .inl (exec_ne db ?_ hdraw ?_)
  · exact fun _ _ hcmd => nomatch hcmd
  · exact nofun

end AllowCall

/-- The calls follow each other in time and nothing else touches the counters. -/
structure Orderly (calls : List AllowCall) : Prop where
  clock : calls.Pairwise fun c c' => c.now ≤ c'.now
  leaves : ∀ c ∈ calls, c.LeavesCounters

section Runs

variable (limit : Bucket → Int64)

/-- Each call with its answer. -/
def answers : Redis.DB → List AllowCall → List (AllowCall × Bool)
  | _, [] => []
  | db, c :: calls => (c, (c.allow limit db).1) :: answers (c.allow limit db).2 calls

/-- The key space after the calls. -/
def afterCalls (db : Redis.DB) (calls : List AllowCall) : Redis.DB :=
  calls.foldl (fun db c => (c.allow limit db).2) db

/-- The times of the calls of a client. -/
def callTimes (bucket : Bucket) (ip : GoString) (calls : List AllowCall) : List ℤ :=
  (calls.filter fun c => c.IsOf bucket ip).map AllowCall.now

/-- What a client is answered, and when. -/
def answersTo (bucket : Bucket) (ip : GoString) (db : Redis.DB) (calls : List AllowCall) :
    List (ℤ × Bool) :=
  ((answers limit db calls).filter fun a => a.1.IsOf bucket ip).map fun a => (a.1.now, a.2)

end Runs

/-! ### One call -/

section Call

variable {limit : Bucket → Int64} {c : AllowCall} {db : Redis.DB} {bucket : Bucket} {ip : GoString}
  {cur : Option Window} {last : ℤ}

/-- Up to the call nothing has changed for the counter. -/
theorem Tracks.others (h : Tracks db (counterKey bucket.name ip) cur last)
    (hleaves : c.LeavesCounters) (hlast : last ≤ c.now) :
    Tracks (c.others db) (counterKey bucket.name ip) cur c.now := by
  rcases hleaves db bucket ip with heq | ⟨hnone, hgone⟩
  · exact h.of_eq hlast heq
  · exact h.of_gone hlast hnone hgone

/-- **The call of the client.** -/
theorem Tracks.allow (limit : Bucket → Int64) (h : Tracks db (counterKey bucket.name ip) cur last)
    (hleaves : c.LeavesCounters) (hlast : last ≤ c.now) (hc : c.IsOf bucket ip) :
    (c.allow limit db).1 = decide (((hit hourNs cur c.now).calls : ℤ) ≤ (limit bucket).toInt) ∧
      Tracks (c.allow limit db).2 (counterKey bucket.name ip) (some (hit hourNs cur c.now))
        c.now := by
  obtain ⟨rfl, rfl⟩ := hc
  exact allow_of_tracks (limit c.bucket).toInt_le rfl le_rfl (h.others hleaves hlast)

/-- **The call of another client**, or to the other route. -/
theorem Tracks.allow_ne (limit : Bucket → Int64) (h : Tracks db (counterKey bucket.name ip) cur last)
    (hleaves : c.LeavesCounters) (hlast : last ≤ c.now) (hc : ¬c.IsOf bucket ip) :
    Tracks (c.allow limit db).2 (counterKey bucket.name ip) cur c.now := by
  have hkey : counterKey bucket.name ip ≠ counterKey c.bucket.name c.ip := by
    intro heq
    obtain ⟨rfl, rfl⟩ := counterKey_inj heq
    exact hc ⟨rfl, rfl⟩
  exact (h.others hleaves hlast).of_eq le_rfl (redisRateLimiter_allow_ne hkey)

/-- **A refused call** does not prolong a window: every expiry stays. -/
theorem AllowCall.expiry_of_refused (hlimit : 1 ≤ (limit c.bucket).toInt)
    (hrefused : (c.allow limit db).1 = false) (k : GoString) :
    ((c.allow limit db).2 k).map TTLEntry.expiry = (c.others db k).map TTLEntry.expiry := by
  rw [AllowCall.allow] at hrefused ⊢
  by_cases hk : k = counterKey c.bucket.name c.ip
  · subst hk
    rcases redisRateLimiter_allow_cases c.bucket.name c.ip (limit c.bucket).toInt
      ⟨c.now, none, true⟩ (c.others db) with h | h | ⟨e, n, hlive, -, h⟩
    · rw [h]
    · -- A call that opens a window is admitted.
      rw [h] at hrefused
      exact absurd hlimit (of_decide_eq_false hrefused)
    · rw [h, (TTLMap.live_eq_some_iff.mp hlive).1]
      dsimp only
      rw [TTLMap.set_self]
      rfl
  · rw [redisRateLimiter_allow_ne hk]

/-- No counter lives longer than an hour from now. -/
def Expires (db : Redis.DB) (now : ℤ) : Prop :=
  ∀ bucket ip e, db (counterKey (Bucket.name bucket) ip) = some e →
    ∃ x, e.expiry = some x ∧ x ≤ now + hourNs

theorem Expires.mono {now now' : ℤ} (h : Expires db now) (hle : now ≤ now') : Expires db now' := by
  intro bucket ip e he
  obtain ⟨x, hx, hxle⟩ := h bucket ip e he
  exact ⟨x, hx, hxle.trans (Int.add_le_add_right hle _)⟩

/-- **One call**, of any client, gives no counter more than an hour. -/
theorem Expires.allow (h : Expires db last) (hleaves : c.LeavesCounters) (hlast : last ≤ c.now) :
    Expires (c.allow limit db).2 c.now := by
  have hothers : Expires (c.others db) c.now := by
    intro bucket ip e he
    rcases hleaves db bucket ip with heq | ⟨-, hgone⟩
    · rw [heq] at he
      exact h.mono hlast bucket ip e he
    · rw [hgone] at he
      exact absurd he nofun
  intro bucket ip e he
  rw [AllowCall.allow] at he
  by_cases hk : counterKey bucket.name ip = counterKey c.bucket.name c.ip
  · rw [hk] at he
    rcases redisRateLimiter_allow_cases c.bucket.name c.ip (limit c.bucket).toInt
      ⟨c.now, none, true⟩ (c.others db) with hallow | hallow | ⟨e', n, hlive, -, hallow⟩
    · rw [hallow] at he
      exact hothers c.bucket c.ip e he
    · rw [hallow] at he
      obtain rfl := Option.some.inj ((TTLMap.set_self _ _ _).symm.trans he)
      exact ⟨_, rfl, le_rfl⟩
    · rw [hallow] at he
      obtain rfl := Option.some.inj ((TTLMap.set_self _ _ _).symm.trans he)
      exact hothers c.bucket c.ip e' (TTLMap.live_eq_some_iff.mp hlive).1
  · rw [redisRateLimiter_allow_ne hk] at he
    exact hothers bucket ip e he

end Call

/-! ### Every run -/

section Run

variable {limit : Bucket → Int64} {calls : List AllowCall} {db : Redis.DB} {last : ℤ}

theorem Orderly.tail {c : AllowCall} (h : Orderly (c :: calls)) : Orderly calls :=
  ⟨(List.pairwise_cons.mp h.clock).2, (List.forall_mem_cons.mp h.leaves).2⟩

/-- There is an instant before all the calls. -/
theorem Orderly.exists_start (h : Orderly calls) (now : ℤ) :
    ∃ start, (∀ c ∈ calls, start ≤ c.now) ∧ ((∀ c ∈ calls, c.now ≤ now) → start ≤ now) := by
  rcases calls with _ | ⟨c, calls⟩
  · exact ⟨now, nofun, fun _ => le_rfl⟩
  · refine ⟨c.now, ?_, fun hcalls => hcalls c List.mem_cons_self⟩
    exact List.forall_mem_cons.mpr ⟨le_rfl, (List.pairwise_cons.mp h.clock).1⟩

theorem Orderly.of_append {pre post : List AllowCall} (h : Orderly (pre ++ post)) : Orderly pre :=
  ⟨(List.pairwise_append.mp h.clock).1, fun c hc => h.leaves c (List.mem_append_left _ hc)⟩

theorem Orderly.pairwise_callTimes (h : Orderly calls) (bucket : Bucket) (ip : GoString) :
    (callTimes bucket ip calls).Pairwise (· ≤ ·) :=
  List.pairwise_map.mpr (h.clock.filter _)

/-- **The answers to a client** are those of a fixed-window counter at the times of its calls. -/
theorem answersTo_eq_decisions {bucket : Bucket} {ip : GoString} {cur : Option Window}
    (h : Tracks db (counterKey bucket.name ip) cur last) (horderly : Orderly calls)
    (hlast : ∀ c ∈ calls, last ≤ c.now) :
    answersTo limit bucket ip db calls =
      decisions hourNs (limit bucket).toInt cur (callTimes bucket ip calls) := by
  induction calls generalizing db cur last with
  | nil => rfl
  | cons c calls ih =>
    rw [List.forall_mem_cons] at hlast
    have hleaves := horderly.leaves c List.mem_cons_self
    have hlater := (List.pairwise_cons.mp horderly.clock).1
    by_cases hc : c.IsOf bucket ip
    · obtain ⟨hanswer, hnext⟩ := h.allow limit hleaves hlast.1 hc
      have htimes : callTimes bucket ip (c :: calls) = c.now :: callTimes bucket ip calls := by
        simp [callTimes, hc]
      have hanswers : answersTo limit bucket ip db (c :: calls) =
          (c.now, (c.allow limit db).1) :: answersTo limit bucket ip (c.allow limit db).2 calls := by
        simp [answersTo, answers, hc]
      rw [htimes, hanswers, hanswer, decisions]
      exact congrArg _ (ih hnext horderly.tail hlater)
    · have hnext := h.allow_ne limit hleaves hlast.1 hc
      have htimes : callTimes bucket ip (c :: calls) = callTimes bucket ip calls := by
        simp [callTimes, hc]
      have hanswers : answersTo limit bucket ip db (c :: calls) =
          answersTo limit bucket ip (c.allow limit db).2 calls := by
        simp [answersTo, answers, hc]
      rw [htimes, hanswers]
      exact ih hnext horderly.tail hlater

/-- No counter lives longer than an hour, whenever one looks. -/
theorem expires_afterCalls (h : Expires db last) (horderly : Orderly calls) {now : ℤ}
    (hlast : ∀ c ∈ calls, last ≤ c.now) (hnow : last ≤ now) (hcalls : ∀ c ∈ calls, c.now ≤ now) :
    Expires (afterCalls limit db calls) now := by
  induction calls generalizing db last with
  | nil => exact h.mono hnow
  | cons c calls ih =>
    rw [List.forall_mem_cons] at hlast hcalls
    have hleaves := horderly.leaves c List.mem_cons_self
    exact ih (h.allow hleaves hlast.1) horderly.tail (List.pairwise_cons.mp horderly.clock).1
      hcalls.1 hcalls.2

/-- **Exact fixed-window semantics.** Take any limits of at least one and any calls of `Allow`, from
a key space without counters on. For every bucket and address:

* along a window a call is admitted if and only if at most as many calls as the limit, refused ones
  and itself counted, have been made in the window;
* the answers depend on the times of its own calls only;
* an interval shorter than an hour has at most twice as many admissions as the limit.

A refused call leaves every expiry as it is, and no counter is ever without an expiry within the
hour. -/
theorem fixed_windows (hlimit : ∀ bucket, 1 ≤ (limit bucket).toInt)
    (hdb : ∀ bucket ip, db (counterKey (Bucket.name bucket) ip) = none)
    (horderly : Orderly calls) :
    (∀ bucket ip, ∀ w ∈ windows hourNs (answersTo limit bucket ip db calls), ∀ j p,
      w[j]? = some p → (p.2 = true ↔ ((j + 1 : ℕ) : ℤ) ≤ (limit bucket).toInt)) ∧
    (∀ db' calls', (∀ bucket ip, db' (counterKey (Bucket.name bucket) ip) = none) →
      Orderly calls' → ∀ bucket ip, callTimes bucket ip calls' = callTimes bucket ip calls →
        answersTo limit bucket ip db' calls' = answersTo limit bucket ip db calls) ∧
    (∀ bucket ip a b, b - a < hourNs →
      (admitted (within a b (answersTo limit bucket ip db calls)) : ℤ) ≤
        2 * (limit bucket).toInt) ∧
    (∀ c ∈ calls, ∀ db', (c.allow limit db').1 = false → ∀ k,
      ((c.allow limit db').2 k).map TTLEntry.expiry = (c.others db' k).map TTLEntry.expiry) ∧
    ∀ pre post, calls = pre ++ post → ∀ now, (∀ c ∈ pre, c.now ≤ now) →
      Expires (afterCalls limit db pre) now := by
  -- The answers are a function of the times, so the statements about them are facts of the counter.
  have hdecisions : ∀ {db : Redis.DB} {calls : List AllowCall},
      (∀ bucket ip, db (counterKey (Bucket.name bucket) ip) = none) → Orderly calls →
      ∀ bucket ip, answersTo limit bucket ip db calls =
        decisions hourNs (limit bucket).toInt none (callTimes bucket ip calls) := by
    intro db calls hdb horderly bucket ip
    obtain ⟨start, hstart, -⟩ := horderly.exists_start 0
    exact answersTo_eq_decisions (.of_none (hdb bucket ip) start) horderly hstart
  refine ⟨fun bucket ip w hw j p hj => ?_, fun db' calls' hdb' horderly' bucket ip htimes => ?_,
    fun bucket ip a b hab => ?_, fun c _ db' hrefused k => ?_, ?_⟩
  · rw [hdecisions hdb horderly] at hw
    rw [exact_decisions hourNs _ _ w hw j p hj, decide_eq_true_iff]
  · rw [hdecisions hdb' horderly', hdecisions hdb horderly, htimes]
  · have h0 : 0 ≤ (limit bucket).toInt := Int.le_trans Int.one_nonneg (hlimit bucket)
    have htimes := horderly.pairwise_callTimes bucket ip
    rw [← map_fst_decisions hourNs (limit bucket).toInt none (callTimes bucket ip calls),
      List.pairwise_map] at htimes
    rw [hdecisions hdb horderly]
    exact admitted_within_le (by decide) h0 htimes (quota_decisions h0 _) (by omega)
  · exact AllowCall.expiry_of_refused (hlimit c.bucket) hrefused k
  · rintro pre post rfl now hnow
    obtain ⟨start, hstart, hstartNow⟩ := horderly.of_append.exists_start now
    have hexpires : Expires db start := by
      intro bucket ip e he
      rw [hdb bucket ip] at he
      exact absurd he nofun
    exact expires_afterCalls hexpires horderly.of_append hstart (hstartNow hnow) hnow

end Run

/-- The address of a client, with colons. -/
def colonIP : GoString := lit "2001:db8::1"

/-- Three calls on one counter: the second half an hour after the first, when a key has been saved,
the third when the window is over and Redis has removed the counter; and one on another counter. -/
def sampleCalls : List AllowCall :=
  [⟨.create, colonIP, 0, id⟩,
    ⟨.create, colonIP, 1800000000000, fun db =>
      ((Backend.redis braceCodec 1 1).object.exec (stepAt 5) (.save [2] defaultTTL) db).2⟩,
    ⟨.fetch, colonIP, 1800000000000, id⟩,
    ⟨.create, colonIP, 3600000000001, Redis.evict 3600000000001 fun _ => true⟩]

def oneLimit : Bucket → Int64 := fun _ => 1

/-- The first and the third call are admitted. -/
theorem fixed_windows_sampleCalls :
    answersTo oneLimit .create colonIP Redis.empty sampleCalls =
        [(0, true), (1800000000000, false), (3600000000001, true)] ∧
      Expires (afterCalls oneLimit Redis.empty sampleCalls) 3600000000001 := by
  have horderly : Orderly sampleCalls := by
    refine ⟨by simp [sampleCalls], ?_⟩
    simp only [sampleCalls, List.forall_mem_cons, List.not_mem_nil, false_imp_iff, implies_true,
      and_true]
    exact ⟨fun _ _ _ => .inl rfl, AllowCall.leavesCounters_of_save rfl, fun _ _ _ => .inl rfl,
      AllowCall.leavesCounters_of_evict rfl⟩
  have hlimit : ∀ bucket, 1 ≤ (oneLimit bucket).toInt := fun _ => show 1 ≤ Int64.toInt 1 by decide
  have hdb : ∀ bucket ip, Redis.empty (counterKey (Bucket.name bucket) ip) = none :=
    fun _ _ => rfl
  obtain ⟨-, -, -, -, hexpires⟩ := fixed_windows hlimit hdb horderly
  exact ⟨by decide +kernel, hexpires sampleCalls [] (List.append_nil _).symm _ (by decide)⟩

end KeyBank
