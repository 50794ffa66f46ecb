import Mathlib.Data.Char
import Mathlib.Data.List.Basic
import Mathlib.Data.Nat.Notation

/-!
# UTF-8 with replacement

The encoder and the decoder of the WHATWG Encoding Standard. The decoder never fails: it writes
U+FFFD for every maximal piece of an ill-formed sequence and goes on.

* `encode` is `TextEncoder.encode` on scalar values.
* `decodeWithoutBOM` is the bare decoder, a machine that reads one byte at a time: `State` holds
  how many bytes are still needed, the bits so far and the range the next byte must be in.
* `decode` is `TextDecoder.decode` with no options: a leading U+FEFF is taken for a byte order
  mark and dropped.
* `replaceAscii` is what an escaper does to bytes; `decodeFrom_replaceAscii` says that the decoder
  sees it done to characters, whatever the bytes are.
-/

namespace Utf8

/-- The replacement character. -/
def replacement : Char := '\uFFFD'

/-- The byte order mark. -/
def bom : Char := '\uFEFF'

/-- UTF-8 bytes of scalar values. -/
def encode (cs : List Char) : List UInt8 := cs.flatMap String.utf8EncodeChar

/-- The decoder between two bytes. -/
structure State where
  needed : ℕ
  point : ℕ
  lower : ℕ
  upper : ℕ
  deriving DecidableEq, Repr

/-- Between two characters. -/
def initial : State := ⟨0, 0, 0x80, 0xBF⟩

/-- A byte between two characters: what is written and the next state. -/
def start (n : ℕ) : List Char × State :=
  if n ≤ 0x7F then ([Char.ofNat n], initial)
  else if 0xC2 ≤ n ∧ n ≤ 0xDF then ([], ⟨1, n % 0x20, 0x80, 0xBF⟩)
  else if 0xE0 ≤ n ∧ n ≤ 0xEF then
    ([], ⟨2, n % 0x10, if n = 0xE0 then 0xA0 else 0x80, if n = 0xED then 0x9F else 0xBF⟩)
  else if 0xF0 ≤ n ∧ n ≤ 0xF4 then
    ([], ⟨3, n % 0x8, if n = 0xF0 then 0x90 else 0x80, if n = 0xF4 then 0x8F else 0xBF⟩)
  else ([replacement], initial)

/-- One byte. A byte that cannot continue a character ends it and is read again as a first
byte. -/
def step (s : State) (n : ℕ) : List Char × State :=
  if s.needed = 0 then start n
  else if s.lower ≤ n ∧ n ≤ s.upper then
    if s.needed = 1 then ([Char.ofNat (s.point * 0x40 + n % 0x40)], initial)
    else ([], ⟨s.needed - 1, s.point * 0x40 + n % 0x40, 0x80, 0xBF⟩)
  else (replacement :: (start n).1, (start n).2)

/-- Read bytes from a state on. -/
def decodeFrom : State → List UInt8 → List Char
  | s, [] => if s.needed = 0 then [] else [replacement]
  | s, b :: bs => (step s b.toNat).1 ++ decodeFrom (step s b.toNat).2 bs

/-- Read bytes, byte order marks included. -/
def decodeWithoutBOM (bs : List UInt8) : List Char := decodeFrom initial bs

/-- Drop a leading byte order mark. -/
def dropBOM (cs : List Char) : List Char := if cs.head? = some bom then cs.tail else cs

/-- Read bytes, without a leading byte order mark. -/
def decode (bs : List UInt8) : List Char := dropBOM (decodeWithoutBOM bs)

/-! ### Round trip -/

private theorem toNat_ofNat {n : ℕ} (h : n < 0x100) : (UInt8.ofNat n).toNat = n := by
  simp only [UInt8.toNat_ofNat']
  omega

/-- The first byte of a character of two or more. -/
private theorem step_initial (n : ℕ) : step initial n = start n := by
  simp [step, initial]

/-- A byte in range that does not complete its character. -/
private theorem step_more {k p l u n : ℕ} (hk : 1 < k) (hl : l ≤ n) (hu : n ≤ u) :
    step ⟨k, p, l, u⟩ n = ([], ⟨k - 1, p * 0x40 + n % 0x40, 0x80, 0xBF⟩) := by
  have h0 : k ≠ 0 := by omega
  have h1 : k ≠ 1 := by omega
  simp [step, h0, h1, hl, hu]

/-- A byte in range that completes its character. -/
private theorem step_last {p l u n : ℕ} (hl : l ≤ n) (hu : n ≤ u) :
    step ⟨1, p, l, u⟩ n = ([Char.ofNat (p * 0x40 + n % 0x40)], initial) := by
  simp [step, hl, hu]

/-- The first byte of a character of two. -/
private theorem start_two {v : ℕ} (hlow : 0x7F < v) (hhigh : v ≤ 0x7FF) :
    start (v / 64 % 0x20 + 0xC0) = ([], ⟨1, v / 64, 0x80, 0xBF⟩) := by
  rw [start, if_neg (by omega), if_pos (by omega),
    show (v / 64 % 0x20 + 0xC0) % 0x20 = v / 64 by omega]

/-- The first byte of a character of three. The range it sets for the second byte keeps out long
forms and surrogates, so a scalar value is in it. -/
private theorem start_three {v : ℕ} (hlow : 0x7FF < v) (hhigh : v ≤ 0xFFFF)
    (hvalid : v < 0xD800 ∨ 0xDFFF < v) :
    ∃ l u, start (v / 4096 % 0x10 + 0xE0) = ([], ⟨2, v / 4096, l, u⟩) ∧
      l ≤ v / 64 % 0x40 + 0x80 ∧ v / 64 % 0x40 + 0x80 ≤ u := by
  refine ⟨if v / 4096 % 0x10 + 0xE0 = 0xE0 then 0xA0 else 0x80,
    if v / 4096 % 0x10 + 0xE0 = 0xED then 0x9F else 0xBF, ?_, ?_, ?_⟩
  · rw [start, if_neg (by omega), if_neg (by omega), if_pos (by omega),
      show (v / 4096 % 0x10 + 0xE0) % 0x10 = v / 4096 by omega]
  · split <;> omega
  · split <;> omega

/-- The first byte of a character of four. The range it sets for the second byte keeps out long
forms and what is above the last scalar value. -/
private theorem start_four {v : ℕ} (hlow : 0xFFFF < v) (hhigh : v < 0x110000) :
    ∃ l u, start (v / 262144 % 0x8 + 0xF0) = ([], ⟨3, v / 262144, l, u⟩) ∧
      l ≤ v / 4096 % 0x40 + 0x80 ∧ v / 4096 % 0x40 + 0x80 ≤ u := by
  refine ⟨if v / 262144 % 0x8 + 0xF0 = 0xF0 then 0x90 else 0x80,
    if v / 262144 % 0x8 + 0xF0 = 0xF4 then 0x8F else 0xBF, ?_, ?_, ?_⟩
  · rw [start, if_neg (by omega), if_neg (by omega), if_neg (by omega), if_pos (by omega),
      show (v / 262144 % 0x8 + 0xF0) % 0x8 = v / 262144 by omega]
  · split <;> omega
  · split <;> omega

/-- The decoder reads a character at the front and is then between characters again. -/
theorem decodeFrom_encodeChar_append (c : Char) (bs : List UInt8) :
    decodeFrom initial (String.utf8EncodeChar c ++ bs) = c :: decodeFrom initial bs := by
  obtain ⟨v, hv⟩ : ∃ v, v = c.val.toNat := ⟨_, rfl⟩
  have hc : Char.ofNat v = c := by
    rw [hv]
    exact Char.ofNat_toNat c
  have hvalid : v < 0xD800 ∨ 0xDFFF < v ∧ v < 0x110000 := hv ▸ c.valid
  simp only [String.utf8EncodeChar, ← hv]
  -- The four lengths; each time the bits of the bytes put together are the scalar value.
  split
  · next h1 =>
    simp only [List.cons_append, List.nil_append, decodeFrom, step_initial,
      toNat_ofNat (show v < 0x100 by omega), start, if_pos h1, hc]
  · split
    · next h1 h2 =>
      have hpoint : v / 64 * 0x40 + (v % 0x40 + 0x80) % 0x40 = v := by omega
      simp only [List.cons_append, List.nil_append, decodeFrom, step_initial,
        toNat_ofNat (show v / 64 % 0x20 + 0xC0 < 0x100 by omega),
        toNat_ofNat (show v % 0x40 + 0x80 < 0x100 by omega),
        start_two (show 0x7F < v by omega) h2,
        step_last (show 0x80 ≤ v % 0x40 + 0x80 by omega) (show v % 0x40 + 0x80 ≤ 0xBF by omega),
        hpoint, hc]
    · split
      · next h1 h2 h3 =>
        obtain ⟨l, u, hfirst, hl, hu⟩ := start_three (v := v) (by omega) h3 (by omega)
        have hpoint : (v / 4096 * 0x40 + (v / 64 % 0x40 + 0x80) % 0x40) * 0x40 +
            (v % 0x40 + 0x80) % 0x40 = v := by omega
        simp only [List.cons_append, List.nil_append, decodeFrom, step_initial,
          toNat_ofNat (show v / 4096 % 0x10 + 0xE0 < 0x100 by omega),
          toNat_ofNat (show v / 64 % 0x40 + 0x80 < 0x100 by omega),
          toNat_ofNat (show v % 0x40 + 0x80 < 0x100 by omega), hfirst,
          step_more (show 1 < 2 by omega) hl hu,
          step_last (show 0x80 ≤ v % 0x40 + 0x80 by omega) (show v % 0x40 + 0x80 ≤ 0xBF by omega),
          hpoint, hc]
      · next h1 h2 h3 =>
        obtain ⟨l, u, hfirst, hl, hu⟩ := start_four (v := v) (by omega) (by omega)
        have hpoint : ((v / 262144 * 0x40 + (v / 4096 % 0x40 + 0x80) % 0x40) * 0x40 +
            (v / 64 % 0x40 + 0x80) % 0x40) * 0x40 + (v % 0x40 + 0x80) % 0x40 = v := by omega
        simp only [List.cons_append, List.nil_append, decodeFrom, step_initial,
          toNat_ofNat (show v / 262144 % 0x8 + 0xF0 < 0x100 by omega),
          toNat_ofNat (show v / 4096 % 0x40 + 0x80 < 0x100 by omega),
          toNat_ofNat (show v / 64 % 0x40 + 0x80 < 0x100 by omega),
          toNat_ofNat (show v % 0x40 + 0x80 < 0x100 by omega), hfirst,
          step_more (show 1 < 3 by omega) hl hu,
          step_more (show 1 < 3 - 1 by omega) (show 0x80 ≤ v / 64 % 0x40 + 0x80 by omega)
            (show v / 64 % 0x40 + 0x80 ≤ 0xBF by omega),
          step_last (show 0x80 ≤ v % 0x40 + 0x80 by omega) (show v % 0x40 + 0x80 ≤ 0xBF by omega),
          hpoint, hc]

/-- **Round trip.** The bare decoder undoes the encoder. -/
@[simp] theorem decodeWithoutBOM_encode (cs : List Char) : decodeWithoutBOM (encode cs) = cs := by
  unfold decodeWithoutBOM encode
  induction cs with
  | nil => rfl
  | cons c cs ih => rw [List.flatMap_cons, decodeFrom_encodeChar_append, ih]

theorem encode_append (cs ds : List Char) : encode (cs ++ ds) = encode cs ++ encode ds :=
  List.flatMap_append

theorem encode_injective : Function.Injective encode :=
  Function.LeftInverse.injective decodeWithoutBOM_encode

/-- The bytes of longer codes are at least 128, so an ASCII character stands only for itself. -/
theorem notMem_encode {d : Char} (hd : d.toNat < 128) {cs : List Char} (h : d ∉ cs) :
    UInt8.ofNat d.toNat ∉ encode cs := by
  intro hmem
  obtain ⟨c, hc, hbyte⟩ := List.mem_flatMap.mp hmem
  have hne : c.val.toNat ≠ d.toNat := fun heq => h (Char.toNat_inj.mp heq ▸ hc)
  rw [String.utf8EncodeChar.eq_1] at hbyte
  generalize c.val.toNat = v at hbyte hne
  generalize d.toNat = n at hbyte hne hd
  split at hbyte
  · rw [List.mem_singleton, ← UInt8.toNat_inj, UInt8.toNat_ofNat', UInt8.toNat_ofNat'] at hbyte
    omega
  · split at hbyte
    · simp only [List.mem_cons, List.not_mem_nil, or_false, ← UInt8.toNat_inj,
        UInt8.toNat_ofNat'] at hbyte
      omega
    · split at hbyte <;>
      · simp only [List.mem_cons, List.not_mem_nil, or_false, ← UInt8.toNat_inj,
          UInt8.toNat_ofNat'] at hbyte
        omega

/-- The decoder undoes the encoder but for a leading byte order mark. -/
theorem decode_encode (cs : List Char) : decode (encode cs) = dropBOM cs := by
  rw [decode, decodeWithoutBOM_encode]

theorem dropBOM_eq_self_iff {cs : List Char} : dropBOM cs = cs ↔ cs.head? ≠ some bom := by
  unfold dropBOM
  split
  · next h =>
    rcases cs with _ | ⟨c, cs⟩
    · simp at h
    · simp only [List.tail_cons, h, ne_eq, not_true_eq_false, iff_false]
      exact fun heq => absurd (congrArg List.length heq) (by simp)
  · next h => simp [h]

/-! ### Replacing ASCII characters -/

/-- The states a decoder gets into: whatever bytes follow, no long form, no surrogate and nothing
above the last scalar value is completed. -/
def State.Sound (s : State) : Prop :=
  0x80 ≤ s.lower ∧ s.upper ≤ 0xBF ∧
    (s.needed = 0 ∨
      (s.needed = 1 ∧ 0x2 ≤ s.point ∧ s.point ≤ 0x43FF ∧ (s.point < 0x360 ∨ 0x37F < s.point)) ∨
      (s.needed = 2 ∧ ((s.point = 0 ∧ 0xA0 ≤ s.lower) ∨ (0x1 ≤ s.point ∧ s.point ≤ 0xC) ∨
        (s.point = 0xD ∧ s.upper ≤ 0x9F) ∨ (0xE ≤ s.point ∧ s.point ≤ 0x10F))) ∨
      (s.needed = 3 ∧ ((s.point = 0 ∧ 0x90 ≤ s.lower) ∨ (0x1 ≤ s.point ∧ s.point ≤ 0x3) ∨
        (s.point = 0x4 ∧ s.upper ≤ 0x8F))))

theorem sound_initial : initial.Sound := ⟨by decide, by decide, .inl rfl⟩

private theorem sound_start (n : ℕ) : (start n).2.Sound := by
  rw [start]
  split
  · exact sound_initial
  split
  · refine ⟨by simp, by simp, ?_⟩
    dsimp only
    omega
  split
  · refine ⟨?_, ?_, ?_⟩ <;> dsimp only
    · split <;> omega
    · split <;> omega
    · split <;> split <;> omega
  split
  · refine ⟨?_, ?_, ?_⟩ <;> dsimp only
    · split <;> omega
    · split <;> omega
    · split <;> split <;> omega
  · exact sound_initial

theorem State.Sound.step {s : State} (h : s.Sound) (n : ℕ) : (Utf8.step s n).2.Sound := by
  obtain ⟨hlower, hupper, hpoint⟩ := h
  rw [Utf8.step]
  split
  · exact sound_start n
  split
  · split
    · exact sound_initial
    · refine ⟨by simp, by simp, ?_⟩
      dsimp only
      omega
  · exact sound_start n

private theorem le_toNat_ofNat {n : ℕ} (hlow : 0x80 ≤ n) (hhigh : n ≤ 0x10FFFF)
    (hvalid : n < 0xD800 ∨ 0xDFFF < n) : 0x80 ≤ (Char.ofNat n).toNat := by
  have hn : n.isValidChar := by
    simp only [Nat.isValidChar]
    omega
  rw [Char.ofNat, dif_pos hn]
  exact hlow

private theorem le_toNat_of_start {n : ℕ} (hn : 0x80 ≤ n) :
    ∀ c ∈ (start n).1, 0x80 ≤ c.toNat := by
  rw [start, if_neg (by omega)]
  split
  · exact nofun
  split
  · exact nofun
  split
  · exact nofun
  · intro c hc
    rw [List.mem_singleton.mp hc]
    decide

/-- No ASCII character is written for a byte that is none. -/
theorem State.Sound.le_toNat {s : State} (h : s.Sound) {n : ℕ} (hn : 0x80 ≤ n) :
    ∀ c ∈ (Utf8.step s n).1, 0x80 ≤ c.toNat := by
  obtain ⟨hlower, hupper, hpoint⟩ := h
  rw [Utf8.step]
  split
  · exact le_toNat_of_start hn
  split
  · split
    · intro c hc
      rw [List.mem_singleton.mp hc]
      exact le_toNat_ofNat (by omega) (by omega) (by omega)
    · exact nofun
  · intro c hc
    obtain rfl | hc := List.mem_cons.mp hc
    · decide
    · exact le_toNat_of_start hn c hc

/-- A byte that continues no character ends the one that was begun. -/
theorem decodeFrom_of_lead {s : State} (h : s.Sound) {b : UInt8}
    (hb : b.toNat < 0x80 ∨ 0xBF < b.toNat) (bs : List UInt8) :
    decodeFrom s (b :: bs) = decodeFrom s [] ++ decodeFrom initial (b :: bs) := by
  obtain ⟨hlower, hupper, -⟩ := h
  simp only [decodeFrom, Utf8.step]
  split
  · rfl
  · rw [if_neg (by omega)]
    rfl

theorem decodeFrom_append_of_lead {b : UInt8} (hb : b.toNat < 0x80 ∨ 0xBF < b.toNat)
    (xs bs : List UInt8) {s : State} (h : s.Sound) :
    decodeFrom s (xs ++ b :: bs) = decodeFrom s xs ++ decodeFrom initial (b :: bs) := by
  induction xs generalizing s with
  | nil => exact decodeFrom_of_lead h hb bs
  | cons x xs ih =>
    have hcons : ∀ ys, decodeFrom s (x :: ys) =
        (Utf8.step s x.toNat).1 ++ decodeFrom (Utf8.step s x.toNat).2 ys := fun _ => rfl
    rw [List.cons_append, hcons, hcons, ih (h.step _), List.append_assoc]

theorem decodeFrom_encode_append (cs : List Char) (bs : List UInt8) :
    decodeFrom initial (encode cs ++ bs) = cs ++ decodeFrom initial bs := by
  induction cs with
  | nil => rfl
  | cons c cs ih =>
    rw [encode, List.flatMap_cons, List.append_assoc, decodeFrom_encodeChar_append, ← encode, ih]
    rfl

/-- The first byte of a character continues none. -/
private theorem exists_lead (c : Char) :
    ∃ b bs, String.utf8EncodeChar c = b :: bs ∧ (b.toNat < 0x80 ∨ 0xBF < b.toNat) := by
  rw [String.utf8EncodeChar.eq_1]
  split
  · exact ⟨_, _, rfl, .inl (by rw [toNat_ofNat] <;> omega)⟩
  split
  · exact ⟨_, _, rfl, .inr (by rw [toNat_ofNat] <;> omega)⟩
  split
  · exact ⟨_, _, rfl, .inr (by rw [toNat_ofNat] <;> omega)⟩
  · exact ⟨_, _, rfl, .inr (by rw [toNat_ofNat] <;> omega)⟩

/-- Replace ASCII characters in bytes, of which the others are left alone. -/
def replaceAscii (g : Char → List Char) (bs : List UInt8) : List UInt8 :=
  bs.flatMap fun b => if b.toNat < 0x80 then encode (g (Char.ofNat b.toNat)) else [b]

private theorem flatMap_of_nonascii {g : Char → List Char} (hg : ∀ c, 0x80 ≤ c.toNat → g c = [c])
    {cs : List Char} (hcs : ∀ c ∈ cs, 0x80 ≤ c.toNat) : cs.flatMap g = cs :=
  (List.flatMap_congr fun c hc => hg c (hcs c hc)).trans (List.flatMap_singleton' cs)

/-- **Bytes and characters.** To replace ASCII characters in bytes is to replace them in what the
bytes spell, ill-formed or not. -/
theorem decodeFrom_replaceAscii {g : Char → List Char} (hg : ∀ c, 0x80 ≤ c.toNat → g c = [c])
    (hne : ∀ c, g c ≠ []) (bs : List UInt8) {s : State} (h : s.Sound) :
    decodeFrom s (replaceAscii g bs) = (decodeFrom s bs).flatMap g := by
  have hpending (s : State) : (decodeFrom s []).flatMap g = decodeFrom s [] := by
    refine flatMap_of_nonascii hg ?_
    rw [decodeFrom]
    split
    · exact nofun
    · intro c hc
      rw [List.mem_singleton.mp hc]
      decide
  induction bs generalizing s with
  | nil => exact (hpending s).symm
  | cons b bs ih =>
    rw [replaceAscii, List.flatMap_cons, ← replaceAscii]
    split
    · next hb =>
      -- What replaces the character begins with a byte that continues none.
      obtain ⟨c, cs, hc⟩ := List.exists_cons_of_ne_nil (hne (Char.ofNat b.toNat))
      obtain ⟨b', bs', hb', hlead⟩ := exists_lead c
      have hfirst : encode (g (Char.ofNat b.toNat)) ++ replaceAscii g bs =
          b' :: (bs' ++ encode cs ++ replaceAscii g bs) := by
        rw [hc, encode, List.flatMap_cons, hb', ← encode]
        rfl
      rw [hfirst, decodeFrom_of_lead h hlead, ← hfirst, decodeFrom_encode_append,
        ih sound_initial, decodeFrom_of_lead h (.inl hb), List.flatMap_append]
      have hascii : decodeFrom initial (b :: bs) =
          Char.ofNat b.toNat :: decodeFrom initial bs := by
        rw [decodeFrom, step_initial, start, if_pos (by omega)]
        rfl
      rw [hascii, List.flatMap_cons, hpending]
    · next hb =>
      rw [List.singleton_append, decodeFrom, decodeFrom, ih (h.step _), List.flatMap_append,
        flatMap_of_nonascii hg (h.le_toNat (by omega))]

/-! ### Ill-formed bytes -/

example : decode [0xEF, 0xBB, 0xBF, 0x61] = ['a'] := by decide

example : decodeWithoutBOM [0xE2, 0x82, 0x41, 0xC0] = [replacement, 'A', replacement] := by decide

end Utf8
