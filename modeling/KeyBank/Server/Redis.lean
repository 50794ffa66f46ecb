import KeyBank.Foundation.TTLMap
import KeyBank.Server.Go

/-!
# Redis, as the server's client drives it

One flat key space of byte strings in which keys may expire. A command is atomic: it reads the
clock once and either takes effect or reports an error and changes nothing. Keys vanish only by
expiry or by a command.

The commands are the ones the vendored client sends: `SET` and `SETNX` with the expiry argument it
derives from a `time.Duration`, `GETDEL`, and the limiter's script of `INCR` followed by `EXPIRE`. A
counter is a string like any other: `INCR` reads and writes its decimal text.
-/

namespace KeyBank

namespace Redis

/-- The key space. -/
abbrev DB : Type := TTLMap GoString GoString

/-- The server start: no keys. -/
def empty : DB := fun _ => none

/-- What a command can fail with: the client's `redis.Nil`, no answer, a type error, or an expiry
that is not positive. -/
inductive Error where
  | nil
  | unreachable
  | notAnInteger
  | overflow
  | invalidExpire
  deriving DecidableEq, Repr

/-! ### Expiry arguments -/

/-- `redis.KeepTTL`. -/
def keepTTL : Duration := -1

/-- Whether an expiry is sent in milliseconds (`px`) rather than in seconds (`ex`). -/
def usePrecise (dur : Duration) : Bool :=
  dur < Duration.second || dur % Duration.second != 0

def formatMs (dur : Duration) : Int64 :=
  if 0 < dur ∧ dur < Duration.millisecond then 1 else dur / Duration.millisecond

def formatSec (dur : Duration) : Int64 :=
  if 0 < dur ∧ dur < Duration.second then 1 else dur / Duration.second

/-- What `px` or `ex` adds to the clock, in nanoseconds. -/
def expireAfter (dur : Duration) : ℤ :=
  if usePrecise dur then (formatMs dur).toInt * 1000000 else (formatSec dur).toInt * 1000000000

/-- The expiry `SET` gives a key, `old` being the one it has. -/
def setExpiry (now : ℤ) (expiration : Duration) (old : Option ℤ) : Option ℤ :=
  if 0 < expiration then some (now + expireAfter expiration)
  else if expiration = keepTTL then old
  else none

/-! ### Commands -/

/-- `SET key value [EX | PX | KEEPTTL]`. -/
def set (up : Bool) (now : ℤ) (key value : GoString) (expiration : Duration) (db : DB) :
    Except Error Unit × DB :=
  if up then
    let old := (db.live now key).bind fun e => e.expiry
    (.ok (), TTLMap.set db key ⟨value, setExpiry now expiration old⟩)
  else (.error .unreachable, db)

/-- `SETNX key value`, or `SET key value [EX | PX | KEEPTTL] NX`: whether the key was free. The
expiry is looked at first. -/
def setNX (up : Bool) (now : ℤ) (key value : GoString) (expiration : Duration) (db : DB) :
    Except Error Bool × DB :=
  if up then
    if expiration ≠ 0 ∧ expiration ≠ keepTTL ∧ expireAfter expiration ≤ 0 then
      (.error .invalidExpire, db)
    else
      match db.live now key with
      | some _ => (.ok false, db)
      | none => (.ok true, TTLMap.set db key ⟨value, setExpiry now expiration none⟩)
  else (.error .unreachable, db)

/-- `GETDEL key`. -/
def getDel (up : Bool) (now : ℤ) (key : GoString) (db : DB) : Except Error GoString × DB :=
  if up then
    match db.live now key with
    | some e => (.ok e.value, TTLMap.erase db key)
    | none => (.error .nil, TTLMap.erase db key)
  else (.error .unreachable, db)

/-- `INCR key`: a missing key counts from zero and gets no expiry, an existing one keeps its. -/
def incr (now : ℤ) (key : GoString) (db : DB) : Except Error ℤ × DB :=
  match db.live now key with
  | none => (.ok 1, TTLMap.set db key ⟨decimalInt 1, none⟩)
  | some e =>
    match parseInt64 e.value with
    | none => (.error .notAnInteger, db)
    | some n =>
      if n = Int64.maxValue.toInt then (.error .overflow, db)
      else (.ok (n + 1), TTLMap.set db key ⟨decimalInt (n + 1), e.expiry⟩)

/-- `EXPIRE key seconds`. -/
def expire (now : ℤ) (key : GoString) (seconds : ℤ) (db : DB) : DB :=
  match db.live now key with
  | none => db
  | some e => TTLMap.set db key ⟨e.value, some (now + seconds * 1000000000)⟩

/-- Everything `SETNX` can do. -/
theorem setNX_cases (up : Bool) (now : ℤ) (key value : GoString) (expiration : Duration) (db : DB) :
    (∃ e, setNX up now key value expiration db = (.error e, db)) ∨
    ((db.live now key).isSome = true ∧ setNX up now key value expiration db = (.ok false, db)) ∨
    (db.live now key = none ∧ setNX up now key value expiration db =
      (.ok true, TTLMap.set db key ⟨value, setExpiry now expiration none⟩)) := by
  rw [setNX]
  split
  · split
    · exact .inl ⟨.invalidExpire, rfl⟩
    · cases hlive : db.live now key with
      | some e => exact .inr (.inl ⟨rfl, rfl⟩)
      | none => exact .inr (.inr ⟨rfl, rfl⟩)
  · exact .inl ⟨.unreachable, rfl⟩

/-! ### Counting -/

theorem incr_of_live {now : ℤ} {key : GoString} {db : DB} {e : TTLEntry GoString} {n : ℤ}
    (hlive : db.live now key = some e) (hparse : parseInt64 e.value = some n)
    (hmax : n ≠ Int64.maxValue.toInt) :
    incr now key db = (.ok (n + 1), TTLMap.set db key ⟨decimalInt (n + 1), e.expiry⟩) := by
  simp [incr, hlive, hparse, hmax]

theorem incr_overflow {now : ℤ} {key : GoString} {db : DB} {e : TTLEntry GoString}
    (hlive : db.live now key = some e)
    (hparse : parseInt64 e.value = some Int64.maxValue.toInt) :
    incr now key db = (.error .overflow, db) := by
  simp [incr, hlive, hparse]

/-! ### The expiry a positive duration gives -/

theorem setExpiry_of_pos {now : ℤ} {d : Duration} {old : Option ℤ} (h : 0 < d) :
    setExpiry now d old = some (now + expireAfter d) := by
  simp [setExpiry, h]

/-- Truncation to milliseconds never lengthens a lifetime of at least a millisecond. -/
theorem expireAfter_le {d : Duration} (h : Duration.millisecond ≤ d) :
    expireAfter d ≤ d.toInt := by
  have hms : Duration.millisecond.toInt = 1000000 := by decide
  have hsec : Duration.second.toInt = 1000000000 := by decide
  have hd : 1000000 ≤ d.toInt := by
    have := Int64.le_iff_toInt_le.mp h
    omega
  have hdivms : (d / Duration.millisecond).toInt = d.toInt / 1000000 := by
    rw [Int64.toInt_div_of_ne_right _ _ (by decide), hms, Int.tdiv_eq_ediv_of_nonneg (by omega)]
  have hdivsec : (d / Duration.second).toInt = d.toInt / 1000000000 := by
    rw [Int64.toInt_div_of_ne_right _ _ (by decide), hsec, Int.tdiv_eq_ediv_of_nonneg (by omega)]
  unfold expireAfter
  split
  · have hnot : ¬ (0 < d ∧ d < Duration.millisecond) := by
      rw [Int64.lt_iff_toInt_lt, Int64.lt_iff_toInt_lt, hms]
      omega
    rw [formatMs, if_neg hnot, hdivms]
    omega
  · next hprec =>
    have hnot : ¬ (0 < d ∧ d < Duration.second) := by
      simp only [usePrecise, Bool.or_eq_true, decide_eq_true_eq, not_or] at hprec
      exact fun hlt => hprec.1 hlt.2
    rw [formatSec, if_neg hnot, hdivsec]
    omega

/-- A positive lifetime of a whole number of milliseconds is kept to. -/
theorem expireAfter_of_whole {d : Duration} (hpos : 0 < d) (hwhole : d.toInt % 1000000 = 0) :
    expireAfter d = d.toInt := by
  have hms : Duration.millisecond.toInt = 1000000 := by decide
  have hsec : Duration.second.toInt = 1000000000 := by decide
  have hzero : (0 : Duration).toInt = 0 := by decide
  have hd : 0 < d.toInt := by
    have := Int64.lt_iff_toInt_lt.mp hpos
    omega
  have hnot : ¬ (0 < d ∧ d < Duration.millisecond) := by
    rw [Int64.lt_iff_toInt_lt, Int64.lt_iff_toInt_lt, hms]
    omega
  rw [expireAfter]
  split
  · rw [formatMs, if_neg hnot, Int64.toInt_div_of_ne_right _ _ (by decide), hms,
      Int.tdiv_eq_ediv_of_nonneg (by omega)]
    omega
  · next hprec =>
    -- Sent in seconds, the lifetime is a whole number of them.
    simp only [usePrecise, Bool.or_eq_true, decide_eq_true_eq, bne_iff_ne, not_or,
      not_not] at hprec
    have hmod : d.toInt % 1000000000 = 0 := by
      have := congrArg Int64.toInt hprec.2
      rw [Int64.toInt_mod, hsec, hzero, Int.tmod_eq_emod_of_nonneg (by omega)] at this
      exact this
    have hnot' : ¬ (0 < d ∧ d < Duration.second) := fun hlt => hprec.1 hlt.2
    rw [formatSec, if_neg hnot', Int64.toInt_div_of_ne_right _ _ (by decide), hsec,
      Int.tdiv_eq_ediv_of_nonneg (by omega)]
    omega

/-! ### Expired keys -/

/-- Redis removes expired keys by itself: those it comes across, `found` among all the keys. -/
def evict (now : ℤ) (found : GoString → Bool) (db : DB) : DB := fun k =>
  if found k && (db.live now k).isNone then none else db k

/-- What Redis removes by itself has not been visible any more. -/
theorem live_evict {now t : ℤ} (h : now ≤ t) (found : GoString → Bool) (db : DB) (k : GoString) :
    (evict now found db).live t k = db.live t k := by
  rw [TTLMap.live, evict]
  split
  · next hgone =>
    rw [Bool.and_eq_true, Option.isNone_iff_eq_none] at hgone
    rw [TTLMap.live_eq_none_of_le h hgone.2]
    rfl
  · rfl

end Redis

end KeyBank
