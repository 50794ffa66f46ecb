import Mathlib.Data.List.Basic
import Mathlib.Data.Nat.Notation

/-!
# Base64

Bytes, the sextets they are regrouped into, and the text of sextets in the standard alphabet.

* `sextets` regroups bytes, filling the last sextet with zero bits; `ofSextets` regroups back and
  discards leftover bits, so that `ofSextets_sextets` holds for bytes of every length. It is not
  injective: `ofSextets_eq_iff` says which sextets stand for the same bytes.
* `encode` is the padded text (`btoa`).
* `forgivingDecode` is the forgiving-base64 decode of the WHATWG Infra Standard (`atob`): it
  ignores white space, accepts missing padding, and rejects a length that is 1 modulo 4.
* `forgivingDecode_padded` says exactly when text padded to a multiple of four is accepted.

Text is a sequence of UTF-16 code units.
-/

namespace Base64

/-! ### Bytes and sextets -/

def sextets : List UInt8 → List ℕ
  | [] => []
  | [a] => [a.toNat / 4, a.toNat % 4 * 16]
  | [a, b] => [a.toNat / 4, a.toNat % 4 * 16 + b.toNat / 16, b.toNat % 16 * 4]
  | a :: b :: c :: bs =>
    a.toNat / 4 :: (a.toNat % 4 * 16 + b.toNat / 16) :: (b.toNat % 16 * 4 + c.toNat / 64) ::
      c.toNat % 64 :: sextets bs

def ofSextets : List ℕ → List UInt8
  | w :: x :: y :: z :: vs =>
    UInt8.ofNat (w * 4 + x / 16) :: UInt8.ofNat (x % 16 * 16 + y / 4) ::
      UInt8.ofNat (y % 4 * 64 + z) :: ofSextets vs
  | [w, x, y] => [UInt8.ofNat (w * 4 + x / 16), UInt8.ofNat (x % 16 * 16 + y / 4)]
  | [w, x] => [UInt8.ofNat (w * 4 + x / 16)]
  | _ => []

private theorem ofNat_eq {a : UInt8} {n : ℕ} (h : n = a.toNat) : UInt8.ofNat n = a := by
  rw [h, UInt8.ofNat_toNat]

/-- **Round trip.** Bytes are read back from their sextets. -/
@[simp] theorem ofSextets_sextets (bs : List UInt8) : ofSextets (sextets bs) = bs := by
  induction bs using sextets.induct with
  | case1 => rfl
  | case2 a =>
    have ha := a.toNat_lt
    simp only [sextets, ofSextets, List.cons.injEq, and_true]
    exact ofNat_eq (by omega)
  | case3 a b =>
    have ha := a.toNat_lt
    have hb := b.toNat_lt
    simp only [sextets, ofSextets, List.cons.injEq, and_true]
    exact ⟨ofNat_eq (by omega), ofNat_eq (by omega)⟩
  | case4 a b c bs ih =>
    have ha := a.toNat_lt
    have hb := b.toNat_lt
    have hc := c.toNat_lt
    simp only [sextets, ofSextets, ih, List.cons.injEq, and_true]
    exact ⟨ofNat_eq (by omega), ofNat_eq (by omega), ofNat_eq (by omega)⟩

theorem lt_of_mem_sextets {bs : List UInt8} : ∀ v ∈ sextets bs, v < 64 := by
  induction bs using sextets.induct with
  | case1 => simp [sextets]
  | case2 a =>
    have ha := a.toNat_lt
    simp only [sextets, List.forall_mem_cons]
    exact ⟨by omega, by omega, nofun⟩
  | case3 a b =>
    have ha := a.toNat_lt
    have hb := b.toNat_lt
    simp only [sextets, List.forall_mem_cons]
    exact ⟨by omega, by omega, by omega, nofun⟩
  | case4 a b c bs ih =>
    have ha := a.toNat_lt
    have hb := b.toNat_lt
    have hc := c.toNat_lt
    simp only [sextets, List.forall_mem_cons]
    exact ⟨by omega, by omega, by omega, by omega, ih⟩

/-- Two, three or four sextets for one, two or three bytes. -/
theorem length_sextets (bs : List UInt8) :
    (sextets bs).length + (3 - bs.length % 3) % 3 = (bs.length + 2) / 3 * 4 := by
  induction bs using sextets.induct with
  | case1 => simp [sextets]
  | case2 a => simp [sextets]
  | case3 a b => simp [sextets]
  | case4 a b c bs ih =>
    simp only [sextets, List.length_cons]
    omega

/-! ### Unused bits

Bytes that do not fill their last sextet leave bits of it that decoding discards. Two sequences of
sextets stand for the same bytes when they have the same normal form, in which these bits are
zero. -/

/-- How many values the unused bits of the last of `n` sextets can take. -/
def spare (n : ℕ) : ℕ := if n % 4 = 2 then 16 else if n % 4 = 3 then 4 else 1

/-- Set the unused bits to zero. -/
def clearSpare (vs : List ℕ) : List ℕ :=
  vs.dropLast ++ (vs.getLast?.map fun v => v / spare vs.length * spare vs.length).toList

/-- Equal but for the unused bits. -/
def sameUsed (vs ws : List ℕ) : Bool :=
  vs.length = ws.length && vs.dropLast = ws.dropLast &&
    (vs.getLast?.map (· / spare vs.length)) = ws.getLast?.map (· / spare ws.length)

private theorem spare_pos (n : ℕ) : 0 < spare n := by
  rw [spare]
  split
  · decide
  · split <;> decide

private theorem clearSpare_cons {w x y z : ℕ} (vs : List ℕ) :
    clearSpare (w :: x :: y :: z :: vs) = w :: x :: y :: z :: clearSpare vs := by
  rcases List.eq_nil_or_concat vs with rfl | ⟨us, v, rfl⟩
  · simp [clearSpare, spare]
  · have hspare : spare (us.length + 1 + 1 + 1 + 1 + 1) = spare (us.length + 1) := by
      simp only [spare]
      have hmod : (us.length + 1 + 1 + 1 + 1 + 1) % 4 = (us.length + 1) % 4 := by omega
      rw [hmod]
    simp [clearSpare, hspare, List.dropLast_cons_of_ne_nil, List.getLast?_cons]

/-- **Normal form.** Decoding and encoding again sets the unused bits to zero. -/
theorem sextets_ofSextets {vs : List ℕ} (h : ∀ v ∈ vs, v < 64) (hlength : vs.length % 4 ≠ 1) :
    sextets (ofSextets vs) = clearSpare vs := by
  induction vs using ofSextets.induct with
  | case1 w x y z vs ih =>
    simp only [List.forall_mem_cons] at h
    obtain ⟨hw, hx, hy, hz, hvs⟩ := h
    have hlength' : vs.length % 4 ≠ 1 := by
      simp only [List.length_cons] at hlength
      omega
    rw [clearSpare_cons, ofSextets, sextets, ih hvs hlength']
    simp only [UInt8.toNat_ofNat', List.cons.injEq, and_true]
    omega
  | case2 w x y =>
    simp only [List.forall_mem_cons] at h
    obtain ⟨hw, hx, hy, -⟩ := h
    simp only [ofSextets, sextets, UInt8.toNat_ofNat']
    simp [clearSpare, spare]
    omega
  | case3 w x =>
    simp only [List.forall_mem_cons] at h
    obtain ⟨hw, hx, -⟩ := h
    simp only [ofSextets, sextets, UInt8.toNat_ofNat']
    simp [clearSpare, spare]
    omega
  | case4 vs h4 h3 h2 =>
    -- No sextet or a single one is left, and a single one is excluded.
    match vs with
    | [] => rfl
    | [v] => exact absurd rfl hlength
    | [w, x] => exact absurd rfl (h2 w x)
    | [w, x, y] => exact absurd rfl (h3 w x y)
    | w :: x :: y :: z :: vs => exact absurd rfl (h4 w x y z vs)

theorem clearSpare_eq_iff {vs ws : List ℕ} :
    clearSpare vs = clearSpare ws ↔ sameUsed vs ws = true := by
  rcases List.eq_nil_or_concat vs with rfl | ⟨vs, v, rfl⟩ <;>
    rcases List.eq_nil_or_concat ws with rfl | ⟨ws, w, rfl⟩
  · simp [clearSpare, sameUsed]
  · simp [clearSpare, sameUsed]
  · simp [clearSpare, sameUsed]
  · have hpos := spare_pos (ws.length + 1)
    simp only [clearSpare, sameUsed, List.concat_eq_append, List.dropLast_concat,
      List.getLast?_concat, List.length_append, List.length_singleton, Option.map_some,
      Option.toList_some, Bool.and_eq_true, decide_eq_true_eq, Option.some.injEq]
    constructor
    · intro h
      obtain ⟨rfl, h⟩ := List.append_inj' h rfl
      exact ⟨⟨rfl, rfl⟩, Nat.eq_of_mul_eq_mul_right hpos (List.cons.inj h).1⟩
    · rintro ⟨⟨-, rfl⟩, h⟩
      rw [h]

/-- A sequence in normal form. -/
theorem clearSpare_eq_self_iff {vs : List ℕ} :
    clearSpare vs = vs ↔ vs.getLast?.all (fun v => v % spare vs.length = 0) = true := by
  rcases List.eq_nil_or_concat vs with rfl | ⟨vs, v, rfl⟩
  · simp [clearSpare]
  · simp only [clearSpare, List.concat_eq_append, List.dropLast_concat, List.getLast?_concat,
      Option.map_some, Option.toList_some, List.append_cancel_left_eq, List.cons.injEq, and_true,
      Option.all_some, decide_eq_true_eq]
    rw [← Nat.dvd_iff_mod_eq_zero, Nat.dvd_iff_div_mul_eq]

/-- **Same bytes.** Two sequences of sextets are decoded to the same bytes exactly when they are
equal but for the unused bits. -/
theorem ofSextets_eq_iff {vs ws : List ℕ} (hvs : ∀ v ∈ vs, v < 64) (hws : ∀ w ∈ ws, w < 64)
    (hv : vs.length % 4 ≠ 1) (hw : ws.length % 4 ≠ 1) :
    ofSextets vs = ofSextets ws ↔ sameUsed vs ws = true := by
  rw [← clearSpare_eq_iff, ← sextets_ofSextets hvs hv, ← sextets_ofSextets hws hw]
  constructor
  · intro h
    rw [h]
  · intro h
    rw [← ofSextets_sextets (ofSextets vs), h, ofSextets_sextets]

/-! ### Text -/

/-- The character of a sextet. -/
def symbol (v : ℕ) : UInt16 :=
  if v < 26 then UInt16.ofNat (65 + v)
  else if v < 52 then UInt16.ofNat (71 + v)
  else if v < 62 then UInt16.ofNat (v - 4)
  else if v = 62 then 43
  else 47

/-- The sextet of a character. -/
def value (u : UInt16) : Option ℕ :=
  if 65 ≤ u ∧ u ≤ 90 then some (u.toNat - 65)
  else if 97 ≤ u ∧ u ≤ 122 then some (u.toNat - 71)
  else if 48 ≤ u ∧ u ≤ 57 then some (u.toNat + 4)
  else if u = 43 then some 62
  else if u = 47 then some 63
  else none

/-- The padding character `=`. -/
def pad : UInt16 := 61

def encode (bs : List UInt8) : List UInt16 :=
  (sextets bs).map symbol ++ List.replicate ((3 - bs.length % 3) % 3) pad

/-- ASCII white space. -/
def isSpace (u : UInt16) : Bool := u = 9 || u = 10 || u = 12 || u = 13 || u = 32

/-- Remove one or two padding characters at the end. -/
def stripPad (s : List UInt16) : List UInt16 :=
  match s.reverse with
  | [] => []
  | u :: r =>
    if u = pad then
      match r with
      | [] => []
      | v :: r' => if v = pad then r'.reverse else r.reverse
    else s

def forgivingDecode (s : List UInt16) : Option (List UInt8) :=
  let s := s.filter fun u => !isSpace u
  let s := if s.length % 4 = 0 then stripPad s else s
  if s.length % 4 = 1 then none else (s.mapM value).map ofSextets

theorem value_symbol {v : ℕ} (h : v < 64) : value (symbol v) = some v := by
  have hall : ∀ v < 64, value (symbol v) = some v := by decide
  exact hall v h

theorem symbol_ne_pad {v : ℕ} (h : v < 64) : symbol v ≠ pad := by
  have hall : ∀ v < 64, symbol v ≠ pad := by decide
  exact hall v h

theorem isSpace_symbol {v : ℕ} (h : v < 64) : isSpace (symbol v) = false := by
  have hall : ∀ v < 64, isSpace (symbol v) = false := by decide
  exact hall v h

theorem mapM_value_symbol {vs : List ℕ} (h : ∀ v ∈ vs, v < 64) :
    (vs.map symbol).mapM value = some vs := by
  induction vs with
  | nil => rfl
  | cons v vs ih =>
    rw [List.forall_mem_cons] at h
    simp [value_symbol h.1, ih h.2]

private theorem mapM_value_append_pad (s : List UInt16) : (s ++ [pad]).mapM value = none := by
  induction s with
  | nil => rfl
  | cons u s ih =>
    rw [List.cons_append, List.mapM_cons, ih]
    rcases value u with _ | v <;> rfl

private theorem stripPad_symbols {vs : List ℕ} (h : ∀ v ∈ vs, v < 64) :
    stripPad (vs.map symbol) = vs.map symbol := by
  rcases List.eq_nil_or_concat vs with rfl | ⟨vs, v, rfl⟩
  · rfl
  · have hv := symbol_ne_pad (h v (by simp))
    simp [stripPad, hv]

private theorem stripPad_symbols_pad {vs : List ℕ} (h : ∀ v ∈ vs, v < 64) :
    stripPad (vs.map symbol ++ [pad]) = vs.map symbol := by
  rcases List.eq_nil_or_concat vs with rfl | ⟨vs, v, rfl⟩
  · rfl
  · have hv := symbol_ne_pad (h v (by simp))
    simp [stripPad, hv]

private theorem stripPad_pad_pad (s : List UInt16) : stripPad (s ++ [pad, pad]) = s := by
  simp [stripPad]

/-- **What padding can repair.** Text in the alphabet, padded to a multiple of four, is decoded
exactly when its own length is not 1 modulo 4. -/
theorem forgivingDecode_padded {vs : List ℕ} (h : ∀ v ∈ vs, v < 64) :
    forgivingDecode (vs.map symbol ++ List.replicate ((4 - vs.length % 4) % 4) pad) =
      if vs.length % 4 = 1 then none else some (ofSextets vs) := by
  have hspaces : (vs.map symbol ++ List.replicate ((4 - vs.length % 4) % 4) pad).filter
      (fun u => !isSpace u) =
        vs.map symbol ++ List.replicate ((4 - vs.length % 4) % 4) pad := by
    rw [List.filter_eq_self]
    intro u hu
    rcases List.mem_append.mp hu with hu | hu
    · obtain ⟨v, hv, rfl⟩ := List.mem_map.mp hu
      rw [isSpace_symbol (h v hv)]
      rfl
    · rw [(List.mem_replicate.mp hu).2]
      rfl
  have hlength : (vs.map symbol ++ List.replicate ((4 - vs.length % 4) % 4) pad).length % 4 =
      0 := by
    simp only [List.length_append, List.length_map, List.length_replicate]
    omega
  unfold forgivingDecode
  simp only [hspaces, if_pos hlength]
  have hmod : vs.length % 4 = 0 ∨ vs.length % 4 = 1 ∨ vs.length % 4 = 2 ∨ vs.length % 4 = 3 := by
    omega
  rcases hmod with hmod | hmod | hmod | hmod
  · simp [hmod, stripPad_symbols h, mapM_value_symbol h]
  · -- Three padding characters, of which one is left behind.
    have hthree : List.replicate ((4 - vs.length % 4) % 4) pad = [pad] ++ [pad, pad] := by
      rw [hmod]
      rfl
    rw [hthree, ← List.append_assoc, stripPad_pad_pad, mapM_value_append_pad]
    simp [hmod]
  · simp [hmod, stripPad_pad_pad, mapM_value_symbol h]
  · simp [hmod, stripPad_symbols_pad h, mapM_value_symbol h]

end Base64
