import KeyBank.Foundation.Json
import KeyBank.Server.App
import Mathlib.Data.List.Forall2
import Mathlib.Data.List.ReduceOption

/-!
# The body of `POST /api/keys`

`decodeCreateKeyRequest` is the decoder the handlers take as a parameter: `json.NewDecoder` with
`DisallowUnknownFields`, called twice on a body that `http.MaxBytesReader` may cap. It reads one
value and stores it in a `*createKeyRequest`, and then tries for a second value.

`Asks B v` is the grammar of the bodies that ask for `v` seconds: nothing but white space, or one
object whose members are all named `ttl`, up to the case of its letters, and hold `null` or an
integer. `createKey_spec` says that `CreateKey` saves a key for these bodies, if they fit under
the cap and `v` is in bounds, and answers everything else with 400 or 413 before it has called
anything.
-/

namespace KeyBank

open Interleaving Json

/-! ### The decoder -/

/-- `maxNestingDepth` of `encoding/json`. -/
def maxNestingDepth : ℕ := 10000

/-- What can be read of a body. -/
def Body.readable (body : Body) : Bytes := body.limit.elim body.bytes fun n => body.bytes.take n

/-- Reading to the end of what can be read runs into the cap. -/
def Body.exceeded (body : Body) : Bool := body.limit.any fun n => n < body.bytes.length

/-- `foldName`. No character outside ASCII folds to a letter of the field name. -/
def foldName (name : List ℕ) : List ℕ := name.map fun u => if 97 ≤ u ∧ u ≤ 122 then u - 32 else u

/-- The tag of the field `TTL`. -/
def ttlName : List ℕ := [116, 116, 108]

/-- Store a member in the field `TTL`; `none` is a saved error. -/
def storeMember (ttl : Option Int64) (m : List ℕ × Value) : Option Int64 :=
  if foldName m.1 = foldName ttlName then
    match m.2 with
    | .null => ttl
    | .number literal => ttl.bind fun _ => (atoi literal).map Int64.ofInt
    | _ => none
  else none

/-- Store a value in a `*createKeyRequest`. -/
def unmarshal : Value → Except DecodeError (Option Int64)
  | .null => .ok none
  | .object members =>
    match members.foldl storeMember (some 0) with
    | some ttl => .ok (some ttl)
    | none => .error .other
  | _ => .error .other

/-- Store a value in an empty struct. -/
def unmarshalEmpty : Value → Option DecodeError
  | .null => none
  | .object [] => none
  | _ => some .other

/-- Read one value. A number that goes up to the cap may go on behind it. -/
def decodeValue (exceeded : Bool) (s : Bytes) : Except DecodeError (Value × Bytes) :=
  match readValue maxNestingDepth s with
  | .ok (.number literal, []) => if exceeded then .error .maxBytes else .ok (.number literal, [])
  | .ok r => .ok r
  | .error .invalid => .error .other
  | .error .cut =>
    if exceeded then .error .maxBytes else if s.all isSpace then .error .eof else .error .other

/-- The two calls of `Decode`. -/
def decodeCreateKeyRequest : Decoder := fun body =>
  match decodeValue body.exceeded body.readable with
  | .error e => ⟨.error e, none⟩
  | .ok (v, rest) =>
    ⟨unmarshal v,
      match decodeValue body.exceeded rest with
      | .error e => some e
      | .ok (v, _) => unmarshalEmpty v⟩

/-! ### The grammar -/

/-- The integer a literal stands for. -/
def integerValue : Bytes → ℤ
  | 45 :: ds => -decValue ds
  | ds => decValue ds

/-- A member of the object, and the number it gives, if it is not `null`. -/
inductive TTLMember : List ℕ × Value → Option ℤ → Prop where
  | null {name : List ℕ} (hname : foldName name = foldName ttlName) : TTLMember (name, .null) none
  | integer {name : List ℕ} {t : Bytes} (hname : foldName name = foldName ttlName)
      (hmin : Int64.minValue.toInt ≤ integerValue t) (hmax : integerValue t ≤ Int64.maxValue.toInt) :
      TTLMember (name, .number t) (some (integerValue t))

/-- The last number given, or zero. -/
def lastTTL (vs : List (Option ℤ)) : ℤ := vs.reduceOption.getLast?.getD 0

/-- The bodies that ask for `v` seconds. -/
inductive Asks : Bytes → ℤ → Prop where
  | nothing {w : Bytes} (hw : Spaces w) : Asks w 0
  | object {w t w' : Bytes} {ms : List (List ℕ × Value)} {vs : List (Option ℤ)} (hw : Spaces w)
      (ht : PlainObject t ms) (hw' : Spaces w') (hms : List.Forall₂ TTLMember ms vs) :
      Asks (w ++ (t ++ w')) (lastTTL vs)

/-! ### The decoder follows the grammar -/

theorem integerValue_of_whole {ds : Bytes} (hds : IsWhole ds) : integerValue ds = decValue ds := by
  obtain ⟨b, ds, rfl⟩ := List.exists_cons_of_ne_nil hds.ne_nil
  rw [integerValue]
  rintro _ ⟨⟩
  exact hds.head_ne rfl rfl

/-- `strconv.ParseInt` on an integer literal. -/
theorem atoi_of_integer {t : Bytes} (ht : IsInteger t) :
    atoi t = if Int64.minValue.toInt ≤ integerValue t ∧ integerValue t ≤ Int64.maxValue.toInt then
      some (integerValue t) else none := by
  have hall : ∀ {ds : Bytes}, IsWhole ds → ds ≠ [] ∧ ds.all isDecDigit = true := fun hds =>
    ⟨hds.ne_nil, List.all_eq_true.mpr hds.digits⟩
  rcases ht with hds | ⟨ds, rfl, hds⟩
  · have hvalue := integerValue_of_whole hds
    obtain ⟨b, ds, rfl⟩ := List.exists_cons_of_ne_nil hds.ne_nil
    have h43 : b ≠ 43 := hds.head_ne rfl
    have h45 : b ≠ 45 := hds.head_ne rfl
    simp [atoi, hvalue, h43, h45, hall hds]
  · simp [atoi, integerValue, hall hds]

/-- What `strconv.ParseInt` accepts holds no dot and no letter `e`. -/
theorem notMem_of_atoi {t : Bytes} {n : ℤ} (h : atoi t = some n) :
    46 ∉ t ∧ 101 ∉ t ∧ 69 ∉ t := by
  have hmem : ∀ b ∈ t, b = 43 ∨ b = 45 ∨ isDecDigit b = true := by
    simp only [atoi, Option.ite_none_right_eq_some] at h
    obtain ⟨⟨-, hdigits, -⟩, -⟩ := h
    rw [List.all_eq_true] at hdigits
    intro b hb
    split at hdigits
    · rcases List.mem_cons.mp hb with rfl | hb
      · exact .inl rfl
      · exact .inr (.inr (hdigits b hb))
    · rcases List.mem_cons.mp hb with rfl | hb
      · exact .inr (.inl rfl)
      · exact .inr (.inr (hdigits b hb))
    · exact .inr (.inr (hdigits b hb))
  refine ⟨fun hb => ?_, fun hb => ?_, fun hb => ?_⟩
  all_goals exact absurd (hmem _ hb) (by decide)

theorem readValue_of_spaces {w : Bytes} (hw : Spaces w) (depth : ℕ) :
    readValue depth w = .error .cut := by
  have hskip : skipSpace w = [] := List.dropWhile_eq_nil_iff.mpr hw
  cases depth <;> rw [readValue, readWith, hskip]

/-- **End of input.** `Decode` reports it when only white space was left, and nothing was cut
off. -/
theorem decodeValue_eq_eof {exceeded : Bool} {s : Bytes} :
    decodeValue exceeded s = .error .eof ↔ exceeded = false ∧ Spaces s := by
  constructor
  · intro h
    unfold decodeValue at h
    split at h
    · split at h <;> cases h
    · cases h
    · cases h
    · split at h
      · cases h
      · next hexceeded =>
        split at h
        · next hs => exact ⟨by simpa using hexceeded, List.all_eq_true.mp hs⟩
        · cases h
  · rintro ⟨rfl, hs⟩
    rw [decodeValue, readValue_of_spaces hs]
    simp [List.all_eq_true.mpr hs]

theorem decodeValue_eq_object {exceeded : Bool} {s rest : Bytes} {ms : List (List ℕ × Value)} :
    decodeValue exceeded s = .ok (.object ms, rest) ↔
      readValue maxNestingDepth s = .ok (.object ms, rest) := by
  constructor
  · intro h
    unfold decodeValue at h
    split at h
    · split at h <;> cases h
    · next r hr =>
      cases h
      exact hr
    · cases h
    · split at h
      · cases h
      · split at h <;> cases h
  · intro h
    rw [decodeValue, h]

private theorem toInt_ofInt {n : ℤ} (hmin : Int64.minValue.toInt ≤ n)
    (hmax : n ≤ Int64.maxValue.toInt) : (Int64.ofInt n).toInt = n := by
  have hmax' : Int64.maxValue.toInt = 2 ^ 63 - 1 := by decide
  exact Int64.toInt_ofInt_of_le hmin (by omega)

/-- The values of a flat object are `null` or integers. -/
def HoldsInteger (m : List ℕ × Value) : Prop := ∀ t, m.2 = .number t → IsInteger t

/-- Storing one member keeps what is in the field or replaces it by the member's number. -/
theorem ttlMember_of_storeMember {x y : Int64} {m : List ℕ × Value} (hm : HoldsInteger m)
    (h : storeMember (some x) m = some y) : ∃ v, TTLMember m v ∧ y.toInt = v.getD x.toInt := by
  obtain ⟨name, value⟩ := m
  unfold storeMember at h
  split at h
  · next hname =>
    split at h
    · next hnull =>
      obtain rfl : value = .null := hnull
      cases h
      exact ⟨none, .null hname, rfl⟩
    · next t hnumber =>
      obtain rfl : value = .number t := hnumber
      rw [Option.bind_some, atoi_of_integer (hm t rfl)] at h
      split at h
      · next hrange =>
        cases h
        exact ⟨_, .integer hname hrange.1 hrange.2, toInt_ofInt hrange.1 hrange.2⟩
      · cases h
    · cases h
  · cases h

theorem storeMember_of_ttlMember {m : List ℕ × Value} (hm : HoldsInteger m) {v : Option ℤ}
    (h : TTLMember m v) (x : Int64) :
    ∃ y, storeMember (some x) m = some y ∧ y.toInt = v.getD x.toInt := by
  rcases h with hname | @⟨name, t, hname, hmin, hmax⟩
  · exact ⟨x, by rw [storeMember, if_pos hname], rfl⟩
  · refine ⟨Int64.ofInt (integerValue t), ?_, toInt_ofInt hmin hmax⟩
    rw [storeMember, if_pos hname]
    simp only [atoi_of_integer (hm t rfl), if_pos (And.intro hmin hmax)]
    rfl

/-- A saved error stays. -/
theorem foldl_storeMember_none (ms : List (List ℕ × Value)) : ms.foldl storeMember none = none := by
  induction ms with
  | nil => rfl
  | cons m ms ih =>
    have hnone : storeMember none m = none := by
      unfold storeMember
      split
      · split <;> rfl
      · rfl
    rw [List.foldl_cons, hnone, ih]

theorem getLast?_reduceOption_cons (v : Option ℤ) (vs : List (Option ℤ)) (x : ℤ) :
    (v :: vs).reduceOption.getLast?.getD x = vs.reduceOption.getLast?.getD (v.getD x) := by
  rcases v with _ | v
  · rw [List.reduceOption_cons_of_none, Option.getD_none]
  · rw [List.reduceOption_cons_of_some, List.getLast?_cons, Option.getD_some, Option.getD_some]

/-- **Storing the members** succeeds when each of them is `null` or a number in range, and leaves
the last number in the field. -/
theorem foldl_storeMember_eq_some {ms : List (List ℕ × Value)} (hms : ∀ m ∈ ms, HoldsInteger m)
    {x y : Int64} :
    ms.foldl storeMember (some x) = some y ↔
      ∃ vs, List.Forall₂ TTLMember ms vs ∧ y.toInt = vs.reduceOption.getLast?.getD x.toInt := by
  induction ms generalizing x with
  | nil =>
    constructor
    · intro h
      cases h
      exact ⟨[], .nil, rfl⟩
    · rintro ⟨vs, ⟨⟩, hy⟩
      exact congrArg some (Int64.toInt_inj.mp hy).symm
  | cons m ms ih =>
    rw [List.forall_mem_cons] at hms
    rw [List.foldl_cons]
    constructor
    · intro h
      rcases hz : storeMember (some x) m with _ | z
      · rw [hz, foldl_storeMember_none] at h
        cases h
      · rw [hz] at h
        obtain ⟨v, hv, hzv⟩ := ttlMember_of_storeMember hms.1 hz
        obtain ⟨vs, hvs, hy⟩ := (ih hms.2).mp h
        exact ⟨v :: vs, .cons hv hvs, by rw [getLast?_reduceOption_cons, ← hzv, hy]⟩
    · rintro ⟨_, hall, hy⟩
      obtain ⟨v, vs, hv, hvs, rfl⟩ := List.forall₂_cons_left_iff.mp hall
      obtain ⟨z, hz, hzv⟩ := storeMember_of_ttlMember hms.1 hv x
      rw [hz]
      exact (ih hms.2).mpr ⟨vs, hvs, by rw [hy, getLast?_reduceOption_cons, hzv]⟩

/-- What is stored without an error was `null` or an integer. -/
theorem isPlain_of_foldl_storeMember {ms : List (List ℕ × Value)} {x y : Int64}
    (h : ms.foldl storeMember (some x) = some y) : ∀ m ∈ ms, m.2.IsPlain := by
  induction ms generalizing x with
  | nil => exact nofun
  | cons m ms ih =>
    rw [List.foldl_cons] at h
    rcases hz : storeMember (some x) m with _ | z
    · rw [hz, foldl_storeMember_none] at h
      cases h
    · rw [hz] at h
      refine List.forall_mem_cons.mpr ⟨?_, ih h⟩
      obtain ⟨name, value⟩ := m
      unfold storeMember at hz
      split at hz
      · split at hz
        · next hnull =>
          obtain rfl : value = .null := hnull
          trivial
        · next t hnumber =>
          obtain rfl : value = .number t := hnumber
          obtain ⟨n, hn, -⟩ := Option.map_eq_some_iff.mp hz
          exact notMem_of_atoi hn
        · cases hz
      · cases hz

theorem holdsInteger_of_plainObject {t : Bytes} {ms : List (List ℕ × Value)}
    (h : PlainObject t ms) : ∀ m ∈ ms, HoldsInteger m := by
  have hmember : ∀ {t : Bytes} {m : List ℕ × Value}, PlainMember t m → HoldsInteger m := by
    rintro _ _ ⟨-, -, -, -, hx, -⟩ t rfl
    cases hx with
    | integer ht => exact ht
  rcases h with - | h
  · exact nofun
  · induction h with
    | last h => exact List.forall_mem_singleton.mpr (hmember h)
    | cons h _ ih => exact List.forall_mem_cons.mpr ⟨hmember h, ih⟩

theorem unmarshal_eq_some {v : Value} {s : Int64} (h : unmarshal v = .ok (some s)) :
    ∃ ms, v = .object ms ∧ ms.foldl storeMember (some 0) = some s := by
  unfold unmarshal at h
  split at h
  · cases h
  · next ms =>
    split at h
    · next hms =>
      cases h
      exact ⟨ms, rfl, hms⟩
    · cases h
  · cases h

/-- Storing a value never looks like the end of the input. -/
theorem unmarshal_ne_eof (v : Value) :
    unmarshal v ≠ .error .eof ∧ unmarshalEmpty v ≠ some .eof := by
  constructor
  · unfold unmarshal
    split
    · exact nofun
    · split <;> exact nofun
    · exact nofun
  · unfold unmarshalEmpty
    split <;> exact nofun

private theorem exceeded_eq_false {B : Bytes} {limit : ℕ} :
    Body.exceeded ⟨B, some limit⟩ = false ↔ B.length ≤ limit := by
  simp [Body.exceeded]

private theorem readable_of_le {B : Bytes} {limit : ℕ} (h : B.length ≤ limit) :
    Body.readable ⟨B, some limit⟩ = B := by
  simp [Body.readable, List.take_of_length_le h]

/-- Seconds are decoded from an empty input, or from one object with nothing but white space
behind it. -/
private theorem requestedSeconds_cases {body : Body} {s : Int64}
    (h : Handlers.requestedSeconds (decodeCreateKeyRequest body) = some s) :
    (s = 0 ∧ decodeValue body.exceeded body.readable = .error .eof) ∨
      ∃ ms rest, decodeValue body.exceeded body.readable = .ok (.object ms, rest) ∧
        ms.foldl storeMember (some 0) = some s ∧
        decodeValue body.exceeded rest = .error .eof := by
  rcases hv : decodeValue body.exceeded body.readable with e | ⟨v, rest⟩
  · -- an error is no refusal only if it is the end of an empty input
    rw [decodeCreateKeyRequest, hv] at h
    cases e with
    | eof => exact .inl ⟨(Option.some.inj h).symm, rfl⟩
    | maxBytes => cases h
    | other => cases h
  · rw [decodeCreateKeyRequest, hv, Handlers.requestedSeconds] at h
    dsimp only at h
    split at h
    · next heof => exact absurd heof (unmarshal_ne_eof v).1
    · next ttl hfirst hsecond =>
      obtain rfl := Option.some.inj h
      obtain ⟨ms, rfl, hstore⟩ := unmarshal_eq_some hfirst
      refine .inr ⟨ms, rest, rfl, hstore, ?_⟩
      split at hsecond
      · next e he => rw [he, Option.some.inj hsecond]
      · exact absurd hsecond (unmarshal_ne_eof _).2
    · cases h

private theorem asks_of_requestedSeconds {B : Bytes} {limit : ℕ} {s : Int64}
    (h : Handlers.requestedSeconds (decodeCreateKeyRequest ⟨B, some limit⟩) = some s) :
    B.length ≤ limit ∧ Asks B s.toInt := by
  rcases requestedSeconds_cases h with ⟨rfl, heof⟩ | ⟨ms, rest, hv, hstore, heof⟩
  · obtain ⟨hexceeded, hspaces⟩ := decodeValue_eq_eof.mp heof
    have hlength := exceeded_eq_false.mp hexceeded
    rw [readable_of_le hlength] at hspaces
    exact ⟨hlength, .nothing hspaces⟩
  · obtain ⟨hexceeded, hspaces⟩ := decodeValue_eq_eof.mp heof
    have hlength := exceeded_eq_false.mp hexceeded
    rw [readable_of_le hlength, decodeValue_eq_object] at hv
    have hread : readValue (9999 + 1) B = .ok (.object ms, rest) := hv
    obtain ⟨w, t, hw, ht, rfl⟩ :=
      of_readValue_eq_ok hread (isPlain_of_foldl_storeMember hstore)
    obtain ⟨vs, hvs, hlast⟩ :=
      (foldl_storeMember_eq_some (holdsInteger_of_plainObject ht)).mp hstore
    exact ⟨hlength, hlast ▸ .object hw ht hspaces hvs⟩

private theorem requestedSeconds_of_asks {B : Bytes} {limit : ℕ} {s : Int64}
    (hlength : B.length ≤ limit) (hasks : Asks B s.toInt) :
    Handlers.requestedSeconds (decodeCreateKeyRequest ⟨B, some limit⟩) = some s := by
  rw [decodeCreateKeyRequest, exceeded_eq_false.mpr hlength, readable_of_le hlength]
  generalize hs : s.toInt = n at hasks
  rcases hasks with hw | @⟨w, t, w', ms, vs, hw, ht, hw', hms⟩
  · rw [decodeValue_eq_eof.mpr ⟨rfl, hw⟩]
    exact congrArg some (Int64.toInt_inj.mp hs).symm
  · have hread : readValue maxNestingDepth (w ++ (t ++ w')) = .ok (.object ms, w') :=
      readValue_of_plainObject hw ht 9999 w'
    have hstore : ms.foldl storeMember (some 0) = some s :=
      (foldl_storeMember_eq_some (holdsInteger_of_plainObject ht)).mpr ⟨vs, hms, hs⟩
    rw [decodeValue_eq_object.mpr hread]
    dsimp only
    rw [decodeValue_eq_eof.mpr ⟨rfl, hw'⟩, unmarshal, hstore]
    rfl

/-- **The decoder follows the grammar**: the bodies from which a number of seconds is decoded are
those that fit under the cap and ask for it. -/
theorem requestedSeconds_decode {B : Bytes} {limit : ℕ} {s : Int64} :
    Handlers.requestedSeconds (decodeCreateKeyRequest ⟨B, some limit⟩) = some s ↔
      B.length ≤ limit ∧ Asks B s.toInt :=
  ⟨asks_of_requestedSeconds, fun ⟨hlength, hasks⟩ => requestedSeconds_of_asks hlength hasks⟩

/-! ### The object with one number -/

theorem isWhole_decimal (n : ℕ) : IsWhole (decimal n) where
  ne_nil := by simp [decimal]
  digits := List.all_eq_true.mp (all_isDecDigit_decimal n)
  zero hhead := by
    obtain ⟨b, hb⟩ := List.length_eq_one_iff.mp (length_decimal_of_head? hhead)
    rw [hb, List.head?_cons, Option.some.injEq] at hhead
    rw [hb, hhead]

/-- The object with a number as its only member asks for that number. -/
theorem asks_decimal {n : ℕ} (hn : (n : ℤ) ≤ Int64.maxValue.toInt) :
    Asks (lit "\x7b\"ttl\":" ++ decimal n ++ lit "\x7d") n := by
  have hnothing : Spaces [] := nofun
  have hname : Chars [116, 116, 108] ttlName :=
    .plain (by decide) (by decide) (by decide) <| .plain (by decide) (by decide) (by decide) <|
      .plain (by decide) (by decide) (by decide) .nil
  have hmember : PlainMember (34 :: ([116, 116, 108] ++ 34 :: (58 :: (decimal n ++ []))))
      (ttlName, .number (decimal n)) :=
    .mk hnothing hname hnothing hnothing (.integer (.inl (isWhole_decimal n))) hnothing
  have hvalue : integerValue (decimal n) = n := by
    rw [integerValue_of_whole (isWhole_decimal n), decValue_decimal]
  have hmin : Int64.minValue.toInt ≤ 0 := by decide
  have hmembers : List.Forall₂ TTLMember [(ttlName, .number (decimal n))] [some (n : ℤ)] := by
    rw [← hvalue]
    exact .cons (.integer rfl (by omega) (by omega)) .nil
  have hasks := Asks.object hnothing (.members (.last hmember)) hnothing hmembers
  have hbody : lit "\x7b\"ttl\":" ++ decimal n ++ lit "\x7d" =
      [] ++ ((123 :: (34 :: ([116, 116, 108] ++ 34 :: (58 :: (decimal n ++ []))) ++ [125])) ++ []) := by
    simp only [List.append_nil, List.nil_append]
    rfl
  rw [hbody]
  exact hasks

/-! ### `CreateKey` -/

/-- What `POST /api/keys` accepts when lifetimes go up to `M` nanoseconds: a body under the cap
that asks for `v` seconds, zero or in bounds. -/
structure Accepts (M : ℤ) (B : Bytes) (v : ℤ) : Prop where
  length : B.length ≤ 64 * 1024
  asks : Asks B v
  bounds : v = 0 ∨ (60 ≤ v ∧ v ≤ M / 1000000000)

/-- The lifetime `v` seconds ask for, in nanoseconds: zero asks for a day, if that is allowed. -/
def askedLifetime (M v : ℤ) : ℤ :=
  if v = 0 then min (24 * 3600 * 1000000000) M else v * 1000000000

/-- A number of seconds in bounds gives its lifetime. -/
theorem exists_requestedTTL (h : Handlers) {v : ℤ}
    (hv : v = 0 ∨ (60 ≤ v ∧ v ≤ h.maxTTL.toInt / 1000000000)) :
    ∃ s d, Int64.toInt s = v ∧ h.requestedTTL s = some d ∧
      d.toInt = askedLifetime h.maxTTL.toInt v := by
  obtain ⟨hmin, hmax⟩ := Handlers.toInt_maxTTL h
  have hmin64 : Int64.minValue.toInt = -9223372036854775808 := by decide
  have hmax64 : Int64.maxValue.toInt = 9223372036854775807 := by decide
  have hs : (Int64.ofInt v).toInt = v := toInt_ofInt (by omega) (by omega)
  have hasked : (v = 0 ∧ askedLifetime h.maxTTL.toInt v = min 86400000000000 h.maxTTL.toInt) ∨
      (60 ≤ v ∧ v ≤ h.maxTTL.toInt / 1000000000 ∧
        askedLifetime h.maxTTL.toInt v = v * 1000000000) := by
    rcases hv with hv | hv
    · exact .inl ⟨hv, by rw [askedLifetime, if_pos hv]; rfl⟩
    · exact .inr ⟨hv.1, hv.2, by rw [askedLifetime, if_neg (by omega)]⟩
  have hd : (Int64.ofInt (askedLifetime h.maxTTL.toInt v)).toInt =
      askedLifetime h.maxTTL.toInt v := toInt_ofInt (by omega) (by omega)
  have hdefault : defaultTTL.toInt = 86400000000000 := by decide
  refine ⟨Int64.ofInt v, Int64.ofInt (askedLifetime h.maxTTL.toInt v), hs, ?_, hd⟩
  rw [Handlers.requestedTTL_eq_some, hs, hd, hdefault]
  exact hasked

/-- An accepted body goes on to the generation of a key pair. -/
theorem createKey_of_accepts (h : Handlers) {B : Bytes} {v : ℤ}
    (haccepts : Accepts h.maxTTL.toInt B v) :
    ∃ ttl : Duration, ttl.toInt = askedLifetime h.maxTTL.toInt v ∧
      ∀ w r, r.body = ⟨B, some (64 * 1024)⟩ →
        h.createKey decodeCreateKeyRequest w r = Handlers.generateAndSave ttl w r := by
  obtain ⟨hlength, hasks, hbounds⟩ := haccepts
  obtain ⟨s, ttl, rfl, httl, hlifetime⟩ := exists_requestedTTL h hbounds
  refine ⟨ttl, hlifetime, fun w r hbody => ?_⟩
  have hseconds : Handlers.requestedSeconds (decodeCreateKeyRequest r.body) = some s := by
    rw [hbody]
    exact requestedSeconds_decode.mpr ⟨hlength, hasks⟩
  rw [Handlers.createKey_of_seconds hseconds, Handlers.createKeyFor, httl]

/-- **`CreateKey` accepts exactly its grammar.** -/
theorem createKey_spec (h : Handlers) {w : ResponseWriter} (hw : w.Fresh) {r : Request}
    {key : KeyPair} (hkey : r.keyPair = some key) :
    (∀ v, Accepts h.maxTTL.toInt r.body.bytes v →
      ∃ ttl next,
        maxBodySize (64 * 1024) (h.createKey decodeCreateKeyRequest) w r =
          .call (.save key.priv ttl) next ∧
        ttl.toInt = askedLifetime h.maxTTL.toInt v ∧
        ∀ saved, ∃ w', next saved = finish w' ∧ ∀ id, saved = .ok id → w'.status = 201) ∧
    ((∀ v, ¬Accepts h.maxTTL.toInt r.body.bytes v) →
      ∃ w', maxBodySize (64 * 1024) (h.createKey decodeCreateKeyRequest) w r = finish w' ∧
        (w'.status = 400 ∨ w'.status = 413)) := by
  rw [maxBodySize]
  constructor
  · intro v haccepts
    obtain ⟨ttl, hlifetime, hcreate⟩ := createKey_of_accepts h haccepts
    refine ⟨ttl, fun saved => finish (Handlers.keySaved w key saved), ?_, hlifetime,
      fun saved => ⟨_, rfl, ?_⟩⟩
    · rw [hcreate _ _ rfl]
      simp only [Handlers.generateAndSave, hkey]
    · rintro id rfl
      exact (hw.setHeader _ _).status_writeHeader_write 201 _
  · intro hrefused
    rcases hs : Handlers.requestedSeconds
        (decodeCreateKeyRequest ⟨r.body.bytes, some (64 * 1024)⟩) with _ | s
    · exact Handlers.createKey_of_none hw hs
    · obtain ⟨hlength, hasks⟩ := requestedSeconds_decode.mp hs
      have hnone : h.requestedTTL s = none := by
        rw [Option.eq_none_iff_forall_ne_some]
        intro d hd
        refine hrefused s.toInt ⟨hlength, hasks, ?_⟩
        rcases Handlers.requestedTTL_eq_some.mp hd with ⟨h0, -⟩ | ⟨h60, hle, -⟩
        · exact .inl h0
        · exact .inr ⟨h60, hle⟩
      rw [Handlers.createKey_of_seconds hs, Handlers.createKeyFor, hnone]
      exact ⟨_, rfl, .inl (Handlers.status_writeJSONError hw 400 _)⟩

/-- A body with a repeated member, as `CreateKey` may get it. -/
def repeatedBody : Bytes := lit " \x7b\"TTL\":null, \"ttl\":120\x7d\n"

/-- The last number counts: the key is saved for two minutes. -/
theorem createKey_spec_repeated :
    ∃ ttl next,
      maxBodySize (64 * 1024) ((Handlers.new none).createKey decodeCreateKeyRequest) .new
          { bareRequest "POST" "/api/keys" (some ⟨[1], [2]⟩) with body := ⟨repeatedBody, none⟩ } =
        .call (.save [2] ttl) next ∧
      ttl.toInt = 120000000000 := by
  have hdecode : Handlers.requestedSeconds
      (decodeCreateKeyRequest ⟨repeatedBody, some (64 * 1024)⟩) = some 120 := by decide +kernel
  obtain ⟨hlength, hasks⟩ := requestedSeconds_decode.mp hdecode
  have hasks : Asks repeatedBody 120 := hasks
  obtain ⟨ttl, next, hcall, httl, -⟩ := (createKey_spec (Handlers.new none)
    (r := { bareRequest "POST" "/api/keys" (some ⟨[1], [2]⟩) with body := ⟨repeatedBody, none⟩ })
    ResponseWriter.fresh_new rfl).1 120 ⟨hlength, hasks, by decide⟩
  exact ⟨ttl, next, hcall, httl⟩

end KeyBank
