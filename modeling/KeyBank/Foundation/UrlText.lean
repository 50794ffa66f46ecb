import KeyBank.Foundation.Utf8

/-!
# Text in URLs

Percent-encoding and the `application/x-www-form-urlencoded` format of the WHATWG URL Standard,
on scalar values.

* A percent-encode set is a predicate on characters; `percentEncode` replaces those in the set by
  their UTF-8 bytes, two hexadecimal digits each.
* `serialize` and `parse` are the two directions of the form-urlencoded format. Text that needs
  no escaping survives them unchanged (`parse_serialize`).
* `fragment` is what a URL keeps after its first `#`.
-/

namespace UrlText

/-! ### Percent-encoding -/

def hexUpper (n : ℕ) : Char := if n < 10 then Char.ofNat (48 + n) else Char.ofNat (55 + n)

def hexValue (b : UInt8) : Option ℕ :=
  if 48 ≤ b ∧ b ≤ 57 then some (b.toNat - 48)
  else if 97 ≤ b ∧ b ≤ 102 then some (b.toNat - 87)
  else if 65 ≤ b ∧ b ≤ 70 then some (b.toNat - 55)
  else none

def percentByte (b : UInt8) : List Char := ['%', hexUpper (b.toNat / 16), hexUpper (b.toNat % 16)]

/-- UTF-8 percent-encode one character if it is in the set. -/
def percentEncodeChar (inSet : Char → Bool) (c : Char) : List Char :=
  if inSet c then (String.utf8EncodeChar c).flatMap percentByte else [c]

def percentEncode (inSet : Char → Bool) (cs : List Char) : List Char :=
  cs.flatMap (percentEncodeChar inSet)

/-- Replace every valid escape by its byte. -/
def percentDecode : List UInt8 → List UInt8
  | [] => []
  | [b] => [b]
  | [b, h] => [b, h]
  | b :: h :: l :: bs =>
    if b = 37 then
      match hexValue h, hexValue l with
      | some x, some y => UInt8.ofNat (16 * x + y) :: percentDecode bs
      | _, _ => b :: percentDecode (h :: l :: bs)
    else b :: percentDecode (h :: l :: bs)

/-- The fragment percent-encode set. -/
def fragmentSet (c : Char) : Bool :=
  c.toNat < 32 || 126 < c.toNat || c = ' ' || c = '"' || c = '<' || c = '>' || c = '\x60'

/-- The characters form-urlencoding leaves alone; the others, and they only, are in its set. -/
def isUnreserved (c : Char) : Bool :=
  let n := c.toNat
  (48 ≤ n && n ≤ 57) || (65 ≤ n && n ≤ 90) || (97 ≤ n && n ≤ 122) || n = 42 || n = 45 ||
    n = 46 || n = 95

theorem percentEncode_of_notIn {inSet : Char → Bool} {cs : List Char}
    (h : ∀ c ∈ cs, inSet c = false) : percentEncode inSet cs = cs := by
  induction cs with
  | nil => rfl
  | cons c cs ih =>
    rw [List.forall_mem_cons] at h
    have hc : percentEncodeChar inSet c = [c] := by simp [percentEncodeChar, h.1]
    rw [percentEncode, List.flatMap_cons, hc]
    exact congrArg _ (ih h.2)

/-- Escapes are made of `%` and digits, so any other character occurs only outside the set. -/
theorem notMem_percentEncode {inSet : Char → Bool} {d : Char}
    (hd : d ≠ '%' ∧ ∀ n < 16, hexUpper n ≠ d) (hset : inSet d = true) (cs : List Char) :
    d ∉ percentEncode inSet cs := by
  intro hmem
  obtain ⟨c, -, hc⟩ := List.mem_flatMap.mp hmem
  rw [percentEncodeChar] at hc
  split at hc
  · obtain ⟨b, -, hb⟩ := List.mem_flatMap.mp hc
    have hb256 := b.toNat_lt
    simp only [percentByte, List.mem_cons, List.not_mem_nil, or_false] at hb
    rcases hb with hb | hb | hb
    · exact hd.1 hb
    · exact hd.2 _ (by omega) hb.symm
    · exact hd.2 _ (by omega) hb.symm
  · next hnot =>
    rw [List.mem_singleton] at hc
    rw [hc] at hset
    exact hnot hset

theorem percentDecode_of_notMem {bs : List UInt8} (h : 37 ∉ bs) : percentDecode bs = bs := by
  induction bs using percentDecode.induct with
  | case1 => rfl
  | case2 => rfl
  | case3 => rfl
  | case4 => simp at h
  | case5 => simp at h
  | case6 b x y bs hb ih =>
    rw [percentDecode, if_neg hb, ih fun hmem => h (List.mem_cons_of_mem _ hmem)]

/-! ### The form-urlencoded format -/

/-- Encode one name or value. -/
def formEncode (cs : List Char) : List Char :=
  cs.flatMap fun c => if c = ' ' then ['+'] else percentEncodeChar (fun c => !isUnreserved c) c

/-- Write name-value pairs. -/
def serialize (pairs : List (List Char × List Char)) : List Char :=
  ['&'].intercalate (pairs.map fun p => formEncode p.1 ++ '=' :: formEncode p.2)

/-- Decode one name or value. -/
def formDecode (bs : List UInt8) : List Char :=
  Utf8.decodeWithoutBOM (percentDecode (bs.map fun b => if b = 43 then 32 else b))

/-- Read name-value pairs from the UTF-8 bytes of a text. -/
def parse (bs : List UInt8) : List (List Char × List Char) :=
  ((bs.splitOn 38).filter fun seq => seq ≠ []).map fun seq =>
    (formDecode (seq.takeWhile (· ≠ 61)), formDecode ((seq.dropWhile (· ≠ 61)).drop 1))

/-- The first value with a name. -/
def get (pairs : List (List Char × List Char)) (name : List Char) : Option (List Char) :=
  pairs.lookup name

/-! ### Text without anything to escape -/

theorem toNat_of_isUnreserved {c : Char} (h : isUnreserved c = true) :
    c.toNat < 128 ∧ c.toNat ≠ 32 ∧ c.toNat ≠ 37 ∧ c.toNat ≠ 38 ∧ c.toNat ≠ 43 ∧ c.toNat ≠ 61 := by
  simp only [isUnreserved, Bool.or_eq_true, Bool.and_eq_true, decide_eq_true_eq] at h
  omega

private theorem utf8EncodeChar_of_lt {c : Char} (h : c.toNat < 128) :
    String.utf8EncodeChar c = [UInt8.ofNat c.toNat] := by
  have hle : c.val.toNat ≤ 0x7F := Nat.le_of_lt_succ h
  simp only [String.utf8EncodeChar, hle, if_true]
  rfl

/-- ASCII text has one byte for each character. -/
theorem utf8_encode_of_lt {cs : List Char} (h : ∀ c ∈ cs, c.toNat < 128) :
    Utf8.encode cs = cs.map fun c => UInt8.ofNat c.toNat := by
  induction cs with
  | nil => rfl
  | cons c cs ih =>
    rw [List.forall_mem_cons] at h
    have hcs : Utf8.encode (c :: cs) = String.utf8EncodeChar c ++ Utf8.encode cs := rfl
    rw [hcs, utf8EncodeChar_of_lt h.1, ih h.2]
    rfl

/-- The byte of an ASCII character is another one only if the character is. -/
private theorem notMem_utf8 {cs : List Char} {n : ℕ} (hn : n < 128)
    (h : ∀ c ∈ cs, c.toNat < 128 ∧ c.toNat ≠ n) : UInt8.ofNat n ∉ Utf8.encode cs := by
  rw [utf8_encode_of_lt fun c hc => (h c hc).1, List.mem_map]
  rintro ⟨c, hc, heq⟩
  have hbyte := congrArg UInt8.toNat heq
  simp only [UInt8.toNat_ofNat'] at hbyte
  have hchar := h c hc
  omega

variable {cs : List Char}

theorem formEncode_of_unreserved (h : ∀ c ∈ cs, isUnreserved c = true) : formEncode cs = cs := by
  induction cs with
  | nil => rfl
  | cons c cs ih =>
    rw [List.forall_mem_cons] at h
    have hspace : c ≠ ' ' := by
      rintro rfl
      exact absurd h.1 (by decide)
    have hcs : formEncode (c :: cs) = (if c = ' ' then ['+']
        else percentEncodeChar (fun c => !isUnreserved c) c) ++ formEncode cs := rfl
    rw [hcs, if_neg hspace, percentEncodeChar, h.1, ih h.2]
    rfl

theorem formDecode_of_unreserved (h : ∀ c ∈ cs, isUnreserved c = true) :
    formDecode (Utf8.encode cs) = cs := by
  have hplus : (43 : UInt8) ∉ Utf8.encode cs := notMem_utf8 (by decide) fun c hc =>
    have := toNat_of_isUnreserved (h c hc)
    ⟨this.1, this.2.2.2.2.1⟩
  have hpercent : (37 : UInt8) ∉ Utf8.encode cs := notMem_utf8 (by decide) fun c hc =>
    have := toNat_of_isUnreserved (h c hc)
    ⟨this.1, this.2.2.1⟩
  have hmap : (Utf8.encode cs).map (fun b => if b = 43 then 32 else b) = Utf8.encode cs := by
    calc _ = (Utf8.encode cs).map id := List.map_congr_left fun b hb => if_neg fun (hb43 : b = 43) =>
          hplus (hb43 ▸ hb)
      _ = Utf8.encode cs := List.map_id _
  rw [formDecode, hmap, percentDecode_of_notMem hpercent, Utf8.decodeWithoutBOM_encode]

private theorem utf8_encode_intercalate (c : Char) (ls : List (List Char)) :
    Utf8.encode ([c].intercalate ls) = (Utf8.encode [c]).intercalate (ls.map Utf8.encode) := by
  induction ls with
  | nil => rfl
  | cons l ls ih =>
    rcases ls with _ | ⟨l', ls⟩
    · simp
    · rw [List.map_cons, List.map_cons, List.intercalate_cons_cons, List.intercalate_cons_cons,
        Utf8.encode_append, Utf8.encode_append, ih, List.map_cons]

/-- The bytes of one pair are split at the first `=`. -/
private theorem split_pair {name value : List UInt8} (h : 61 ∉ name) :
    (name ++ 61 :: value).takeWhile (· ≠ 61) = name ∧
      ((name ++ 61 :: value).dropWhile (· ≠ 61)).drop 1 = value := by
  have hname : ∀ b ∈ name, decide (b ≠ 61) = true := by
    intro b hb
    rw [decide_eq_true_eq]
    rintro rfl
    exact h hb
  rw [List.takeWhile_append_of_pos hname, List.dropWhile_append_of_pos hname]
  simp

/-- **Round trip.** Pairs in which nothing needs escaping are written as they are and read
back. -/
theorem parse_serialize {pairs : List (List Char × List Char)} (hne : pairs ≠ [])
    (h : ∀ p ∈ pairs, (∀ c ∈ p.1, isUnreserved c = true) ∧ ∀ c ∈ p.2, isUnreserved c = true) :
    parse (Utf8.encode (serialize pairs)) = pairs := by
  have hplain : pairs.map (fun p => formEncode p.1 ++ '=' :: formEncode p.2) =
      pairs.map fun p => p.1 ++ '=' :: p.2 :=
    List.map_congr_left fun p hp => by
      rw [formEncode_of_unreserved (h p hp).1, formEncode_of_unreserved (h p hp).2]
  have hbytes (p : List Char × List Char) : Utf8.encode (p.1 ++ '=' :: p.2) =
      Utf8.encode p.1 ++ 61 :: Utf8.encode p.2 := Utf8.encode_append p.1 ('=' :: p.2)
  have hnotMem {n : ℕ} (hn : n < 128) (hn' : ∀ c, isUnreserved c = true → c.toNat ≠ n)
      {cs : List Char} (hcs : ∀ c ∈ cs, isUnreserved c = true) :
      UInt8.ofNat n ∉ Utf8.encode cs :=
    notMem_utf8 hn fun c hc => ⟨(toNat_of_isUnreserved (hcs c hc)).1, hn' c (hcs c hc)⟩
  -- No name and no value holds the byte of an ampersand, so the split gives the pairs back.
  have hsplit : (Utf8.encode (serialize pairs)).splitOn 38 =
      pairs.map fun p => Utf8.encode p.1 ++ 61 :: Utf8.encode p.2 := by
    rw [serialize, hplain, utf8_encode_intercalate, List.map_map]
    refine (List.splitOn_intercalate 38 ?_ (by simpa using hne)).trans
      (List.map_congr_left fun p _ => hbytes p)
    simp only [List.forall_mem_map, Function.comp_apply]
    intro p hp
    have hamp : ∀ c, isUnreserved c = true → c.toNat ≠ 38 := fun c hc =>
      (toNat_of_isUnreserved hc).2.2.2.1
    rw [hbytes, List.mem_append, List.mem_cons, not_or, not_or]
    exact ⟨hnotMem (by decide) hamp (h p hp).1, by decide, hnotMem (by decide) hamp (h p hp).2⟩
  have hfilter : (pairs.map fun p => Utf8.encode p.1 ++ 61 :: Utf8.encode p.2).filter
      (fun seq => seq ≠ []) = pairs.map fun p => Utf8.encode p.1 ++ 61 :: Utf8.encode p.2 := by
    rw [List.filter_eq_self]
    intro seq hseq
    obtain ⟨p, -, rfl⟩ := List.mem_map.mp hseq
    simp
  -- Nor that of an equals sign, so each pair is cut between name and value.
  rw [parse, hsplit, hfilter, List.map_map]
  calc _ = pairs.map id := List.map_congr_left fun p hp => by
        have heq : ∀ c, isUnreserved c = true → c.toNat ≠ 61 := fun c hc =>
          (toNat_of_isUnreserved hc).2.2.2.2.2
        obtain ⟨hname, hvalue⟩ := @split_pair (Utf8.encode p.1) (Utf8.encode p.2)
          (hnotMem (by decide) heq (h p hp).1)
        rw [Function.comp_apply, hname, hvalue, formDecode_of_unreserved (h p hp).1,
          formDecode_of_unreserved (h p hp).2]
        rfl
    _ = pairs := List.map_id _

/-! ### Fragments -/

/-- A C0 control or a space. -/
def isC0OrSpace (c : Char) : Bool := c.toNat ≤ 32

/-- What the URL parser works on: no C0 controls or spaces around, no tabs and newlines. -/
def cleanUrl (url : List Char) : List Char :=
  (((url.dropWhile isC0OrSpace).reverse.dropWhile isC0OrSpace).reverse).filter fun c =>
    c ≠ '\t' ∧ c ≠ '\n' ∧ c ≠ '\r'

/-- The fragment of a URL: what follows the first `#`, percent-encoded. -/
def fragment (url : List Char) : List Char :=
  percentEncode fragmentSet (((cleanUrl url).dropWhile (· ≠ '#')).drop 1)

/-- Text of a fragment that the URL parser leaves as it is. -/
def isPlainFragment (c : Char) : Bool :=
  !isC0OrSpace c && !fragmentSet c

/-- Cleaning takes nothing away from a fragment without controls and spaces. -/
private theorem cleanUrl_of_plain {before frag : List Char} (hbefore : '#' ∉ before)
    (hne : frag ≠ []) (hplain : ∀ c ∈ frag, isC0OrSpace c = false) :
    ∃ before', '#' ∉ before' ∧ cleanUrl (before ++ '#' :: frag) = before' ++ '#' :: frag := by
  have hfront : (before ++ '#' :: frag).dropWhile isC0OrSpace =
      before.dropWhile isC0OrSpace ++ '#' :: frag := by
    have hhash : ('#' :: frag).dropWhile isC0OrSpace = '#' :: frag :=
      List.dropWhile_cons_of_neg (by decide)
    rw [List.dropWhile_append, hhash]
    split
    · next hempty => rw [List.isEmpty_iff.mp hempty, List.nil_append]
    · rfl
  -- the last character is one of the fragment, which is not empty
  have hback : (before.dropWhile isC0OrSpace ++ '#' :: frag).reverse.dropWhile isC0OrSpace =
      (before.dropWhile isC0OrSpace ++ '#' :: frag).reverse := by
    obtain ⟨init, last, rfl⟩ := (List.eq_nil_or_concat frag).resolve_left hne
    have hlast := hplain last (by simp)
    simp [hlast]
  have hkeep : frag.filter (fun c => c ≠ '\t' ∧ c ≠ '\n' ∧ c ≠ '\r') = frag := by
    rw [List.filter_eq_self]
    intro c hc
    have hctl := hplain c hc
    refine decide_eq_true ⟨?_, ?_, ?_⟩ <;> rintro rfl <;> exact absurd hctl (by decide)
  refine ⟨(before.dropWhile isC0OrSpace).filter fun c => c ≠ '\t' ∧ c ≠ '\n' ∧ c ≠ '\r',
    fun hmem => hbefore ?_, ?_⟩
  · exact (List.dropWhile_sublist _).subset (List.mem_filter.mp hmem).1
  · rw [cleanUrl, hfront, hback, List.reverse_reverse, List.filter_append,
      List.filter_cons_of_pos (by decide), hkeep]

/-- The fragment of a URL in which a plain, non-empty text follows the first `#` is this text. -/
theorem fragment_of_plain {before frag : List Char} (hbefore : '#' ∉ before) (hne : frag ≠ [])
    (hfrag : ∀ c ∈ frag, isPlainFragment c = true) :
    fragment (before ++ '#' :: frag) = frag := by
  have hplain : ∀ c ∈ frag, isC0OrSpace c = false ∧ fragmentSet c = false := fun c hc => by
    have hc := hfrag c hc
    rwa [isPlainFragment, Bool.and_eq_true, Bool.not_eq_true', Bool.not_eq_true'] at hc
  obtain ⟨before', hbefore', hclean⟩ := cleanUrl_of_plain hbefore hne fun c hc => (hplain c hc).1
  have hdrop : ∀ c ∈ before', decide (c ≠ '#') = true := fun c hc =>
    decide_eq_true fun heq => hbefore' (heq ▸ hc)
  rw [fragment, hclean, List.dropWhile_append_of_pos hdrop]
  simpa using percentEncode_of_notIn fun c hc => (hplain c hc).2

end UrlText
