import KeyBank.Foundation.UrlText
import Mathlib.Data.List.TakeWhile

/-!
# Reading JSON

A reader of JSON texts on byte strings, in the manner of a streaming decoder: it reads one value
off the front and looks no further. Where the input ends inside a value it says so (`cut`), since
more bytes could have completed the value; everything else it refuses is an error of grammar.

* A string is read to its code units: escapes are resolved, bytes outside ASCII are kept as they
  stand. A number is kept as its literal.
* Containers nest to a given depth. `readItems` reads the items of both kinds.
* `Chars` and `IsInteger` say which texts spell a string and an integer, and `readString` and
  `readNumber` are proved against them in both directions: what is read is spelled by the text
  that was taken, and what spells a value is read.
-/

namespace Json

abbrev Text : Type := List UInt8

/-- Why no value was read. -/
inductive ReadError where
  | invalid
  | cut
  deriving DecidableEq, Repr

/-- What was read, and the text after it. -/
abbrev Read (α : Type) : Type := Except ReadError (α × Text)

/-- Go on after what was read. -/
def andThen {α β : Type} (r : Read α) (f : α → Text → Read β) : Read β :=
  match r with
  | .ok (a, s) => f a s
  | .error e => .error e

/-- Use what was read. -/
def mapRead {α β : Type} (f : α → β) (r : Read α) : Read β := andThen r fun a s => .ok (f a, s)

inductive Value where
  | null
  | bool (b : Bool)
  | number (literal : Text)
  | string (units : List ℕ)
  | array (items : List Value)
  | object (members : List (List ℕ × Value))

/-! ### White space, literals and strings -/

def isSpace (b : UInt8) : Bool := b = 32 || b = 9 || b = 10 || b = 13

def skipSpace (s : Text) : Text := s.dropWhile isSpace

/-- Read the bytes of a literal. -/
def readLiteral : Text → Text → Read Unit
  | [], s => .ok ((), s)
  | _ :: _, [] => .error .cut
  | b :: bs, c :: s => if c = b then readLiteral bs s else .error .invalid

/-- The unit a one-letter escape stands for. -/
def escapeUnit (b : UInt8) : Option ℕ :=
  if b = 34 ∨ b = 92 ∨ b = 47 then some b.toNat
  else if b = 98 then some 8
  else if b = 102 then some 12
  else if b = 110 then some 10
  else if b = 114 then some 13
  else if b = 116 then some 9
  else none

/-- The unit four hexadecimal digits stand for. -/
def hexUnit (h₁ h₂ h₃ h₄ : UInt8) : Option ℕ := do
  return 4096 * (← UrlText.hexValue h₁) + 256 * (← UrlText.hexValue h₂) +
    16 * (← UrlText.hexValue h₃) + (← UrlText.hexValue h₄)

/-- Read a string from after its opening quotation mark. -/
def readString : Text → Read (List ℕ)
  | [] => .error .cut
  | b :: s =>
    if b = 34 then .ok ([], s)
    else if b = 92 then
      match s with
      | [] => .error .cut
      | e :: s =>
        if e = 117 then
          match s with
          | h₁ :: h₂ :: h₃ :: h₄ :: s =>
            match hexUnit h₁ h₂ h₃ h₄ with
            | some u => mapRead (u :: ·) (readString s)
            | none => .error .invalid
          | s => if s.all fun h => (UrlText.hexValue h).isSome then .error .cut else .error .invalid
        else
          match escapeUnit e with
          | some u => mapRead (u :: ·) (readString s)
          | none => .error .invalid
    else if b < 32 then .error .invalid
    else mapRead (b.toNat :: ·) (readString s)

/-! ### Numbers -/

def isDigit (b : UInt8) : Bool := 48 ≤ b && b ≤ 57

/-- Read one or more digits. -/
def readDigits (s : Text) : Read Text :=
  if s.takeWhile isDigit = [] then .error (if s = [] then .cut else .invalid)
  else .ok (s.takeWhile isDigit, s.dropWhile isDigit)

/-- Read the integer part of a number: a zero ends it. -/
def readWhole : Text → Read Text
  | 48 :: s => .ok ([48], s)
  | s => readDigits s

def readFraction : Text → Read Text
  | 46 :: s => mapRead (46 :: ·) (readDigits s)
  | s => .ok ([], s)

def readExponent : Text → Read Text
  | b :: s =>
    if b = 101 ∨ b = 69 then
      match s with
      | 43 :: s => mapRead ([b, 43] ++ ·) (readDigits s)
      | 45 :: s => mapRead ([b, 45] ++ ·) (readDigits s)
      | s => mapRead (b :: ·) (readDigits s)
    else .ok ([], b :: s)
  | [] => .ok ([], [])

/-- Read an unsigned number. -/
def readUnsigned (s : Text) : Read Text :=
  andThen (readWhole s) fun whole s =>
  andThen (readFraction s) fun fraction s =>
  mapRead (whole ++ fraction ++ ·) (readExponent s)

def readNumber : Text → Read Text
  | 45 :: s => mapRead (45 :: ·) (readUnsigned s)
  | s => readUnsigned s

/-! ### Values -/

section Items

variable {α : Type} (read : Text → Read α) (close : UInt8)

/-- Read items, one or more, up to the closing bracket; there are at most `n`. -/
def readList : ℕ → Text → Read (List α)
  | 0, _ => .error .invalid
  | n + 1, s =>
    andThen (read s) fun a s =>
    match skipSpace s with
    | [] => .error .cut
    | b :: s =>
      if b = 44 then mapRead (a :: ·) (readList n s)
      else if b = close then .ok ([a], s)
      else .error .invalid

/-- Read the items of a container from after its opening bracket. No item is empty, so there are
fewer than bytes. -/
def readItems (s : Text) : Read (List α) :=
  match skipSpace s with
  | [] => .error .cut
  | b :: t => if b = close then .ok ([], t) else readList read close s.length s

end Items

/-- Read a member of an object. -/
def readMember (read : Text → Read Value) (s : Text) : Read (List ℕ × Value) :=
  match skipSpace s with
  | [] => .error .cut
  | b :: s =>
    if b = 34 then
      andThen (readString s) fun name s =>
      match skipSpace s with
      | [] => .error .cut
      | b :: s => if b = 58 then mapRead (fun v => (name, v)) (read s) else .error .invalid
    else .error .invalid

/-- Read a value, the values inside it with `nested`; without that no container is read. -/
def readWith (nested : Option (Text → Read Value)) (s : Text) : Read Value :=
  match skipSpace s with
  | [] => .error .cut
  | b :: s =>
    if b = 34 then mapRead .string (readString s)
    else if b = 123 then
      match nested with
      | some read => mapRead .object (readItems (readMember read) 125 s)
      | none => .error .invalid
    else if b = 91 then
      match nested with
      | some read => mapRead .array (readItems read 93 s)
      | none => .error .invalid
    else if b = 110 then mapRead (fun _ => .null) (readLiteral [117, 108, 108] s)
    else if b = 116 then mapRead (fun _ => .bool true) (readLiteral [114, 117, 101] s)
    else if b = 102 then mapRead (fun _ => .bool false) (readLiteral [97, 108, 115, 101] s)
    else if b = 45 ∨ isDigit b then mapRead .number (readNumber (b :: s))
    else .error .invalid

/-- Read a value whose containers nest at most `depth` deep. -/
def readValue : ℕ → Text → Read Value
  | 0 => readWith none
  | depth + 1 => readWith (some (readValue depth))

/-! ### Going on after a value -/

@[simp] theorem andThen_ok {α β : Type} (a : α) (s : Text) (f : α → Text → Read β) :
    andThen (.ok (a, s)) f = f a s := rfl

@[simp] theorem mapRead_ok {α β : Type} (f : α → β) (a : α) (s : Text) :
    mapRead f (.ok (a, s)) = .ok (f a, s) := rfl

theorem andThen_eq_ok {α β : Type} {r : Read α} {f : α → Text → Read β} {x : β × Text} :
    andThen r f = .ok x ↔ ∃ a s, r = .ok (a, s) ∧ f a s = .ok x := by
  rcases r with e | ⟨a, s⟩
  · simp [andThen]
  · constructor
    · exact fun h => ⟨a, s, rfl, h⟩
    · rintro ⟨a', s', heq, h⟩
      cases heq
      exact h

theorem mapRead_eq_ok {α β : Type} {f : α → β} {r : Read α} {b : β} {s : Text} :
    mapRead f r = .ok (b, s) ↔ ∃ a, r = .ok (a, s) ∧ f a = b := by
  rw [mapRead, andThen_eq_ok]
  constructor
  · rintro ⟨a, s', hr, heq⟩
    cases heq
    exact ⟨a, hr, rfl⟩
  · rintro ⟨a, hr, rfl⟩
    exact ⟨a, s, hr, rfl⟩

/-! ### White space and literals -/

/-- White space, as it may stand around values. -/
def Spaces (w : Text) : Prop := ∀ b ∈ w, isSpace b = true

theorem spaces_takeWhile (s : Text) : Spaces (s.takeWhile isSpace) :=
  List.all_eq_true.mp (List.all_takeWhile (p := isSpace))

theorem takeWhile_append_skipSpace (s : Text) : s.takeWhile isSpace ++ skipSpace s = s :=
  List.takeWhile_append_dropWhile

theorem skipSpace_append {w : Text} (hw : Spaces w) (s : Text) : skipSpace (w ++ s) = skipSpace s :=
  List.dropWhile_append_of_pos hw

theorem skipSpace_cons {b : UInt8} (hb : isSpace b = false) (s : Text) :
    skipSpace (b :: s) = b :: s := by
  rw [skipSpace, List.dropWhile_cons_of_neg (by simp [hb])]

/-- What follows white space begins with the next byte of the text proper. -/
theorem of_skipSpace_eq_cons {s t : Text} {b : UInt8} (h : skipSpace s = b :: t) :
    ∃ w, Spaces w ∧ s = w ++ b :: t :=
  ⟨_, spaces_takeWhile s, by rw [← h, takeWhile_append_skipSpace]⟩

theorem readLiteral_append (l s : Text) : readLiteral l (l ++ s) = .ok ((), s) := by
  induction l with
  | nil => rw [List.nil_append, readLiteral]
  | cons b l ih => rw [List.cons_append, readLiteral, if_pos rfl, ih]

theorem of_readLiteral_eq_ok {l s rest : Text} (h : readLiteral l s = .ok ((), rest)) :
    s = l ++ rest := by
  induction l generalizing s with
  | nil =>
    rw [readLiteral] at h
    cases h
    rfl
  | cons b l ih =>
    rcases s with _ | ⟨c, s⟩
    · cases h
    · rw [readLiteral] at h
      split at h
      · next hcb => rw [hcb, ih h, List.cons_append]
      · cases h

/-! ### Strings -/

/-- A text between quotation marks and the units it spells. -/
inductive Chars : Text → List ℕ → Prop where
  | nil : Chars [] []
  | plain {b : UInt8} {s : Text} {us : List ℕ} (hcontrol : ¬b < 32) (hquote : b ≠ 34)
      (hescape : b ≠ 92) (hs : Chars s us) : Chars (b :: s) (b.toNat :: us)
  | escape {e : UInt8} {u : ℕ} {s : Text} {us : List ℕ} (he : escapeUnit e = some u)
      (hs : Chars s us) : Chars (92 :: e :: s) (u :: us)
  | unicode {h₁ h₂ h₃ h₄ : UInt8} {u : ℕ} {s : Text} {us : List ℕ}
      (hu : hexUnit h₁ h₂ h₃ h₄ = some u) (hs : Chars s us) :
      Chars (92 :: 117 :: h₁ :: h₂ :: h₃ :: h₄ :: s) (u :: us)

theorem Chars.append {s t : Text} {us vs : List ℕ} (hs : Chars s us) (ht : Chars t vs) :
    Chars (s ++ t) (us ++ vs) := by
  induction hs with
  | nil => exact ht
  | plain hcontrol hquote hescape _ ih => exact .plain hcontrol hquote hescape ih
  | escape he _ ih => exact .escape he ih
  | unicode hu _ ih => exact .unicode hu ih

theorem readString_of_chars {t : Text} {us : List ℕ} (h : Chars t us) (s : Text) :
    readString (t ++ 34 :: s) = .ok (us, s) := by
  induction h with
  | nil => simp [readString.eq_def]
  | @plain b t us hcontrol hquote hescape _ ih =>
    rw [List.cons_append, readString.eq_def]
    simp only [if_neg hquote, if_neg hescape, if_neg hcontrol, ih, mapRead_ok]
  | @escape e u t us he _ ih =>
    have hne : e ≠ 117 := by
      rintro rfl
      cases he
    rw [List.cons_append, List.cons_append, readString.eq_def]
    simp [hne, he, ih]
  | @unicode h₁ h₂ h₃ h₄ u t us hu _ ih =>
    simp only [List.cons_append]
    rw [readString.eq_def]
    simp [hu, ih]

theorem of_readString_eq_ok {s rest : Text} {us : List ℕ} (h : readString s = .ok (us, rest)) :
    ∃ t, Chars t us ∧ s = t ++ 34 :: rest := by
  fun_induction readString s generalizing us with
  | case1 | case3 | case5 | case6 | case7 | case9 | case10 => cases h
  | case2 s =>
    cases h
    exact ⟨[], .nil, rfl⟩
  | case4 h₁ h₂ h₃ h₄ s u hu _ ih =>
    obtain ⟨us, hs, rfl⟩ := mapRead_eq_ok.mp h
    obtain ⟨t, ht, rfl⟩ := ih hs
    exact ⟨_, .unicode hu ht, rfl⟩
  | case8 e s _ u he _ ih =>
    obtain ⟨us, hs, rfl⟩ := mapRead_eq_ok.mp h
    obtain ⟨t, ht, rfl⟩ := ih hs
    exact ⟨_, .escape he ht, rfl⟩
  | case11 b s hquote hescape hcontrol ih =>
    obtain ⟨us, hs, rfl⟩ := mapRead_eq_ok.mp h
    obtain ⟨t, ht, rfl⟩ := ih hs
    exact ⟨_, .plain hcontrol hquote hescape ht, rfl⟩

/-- Whether a text spells given units is seen by reading it. -/
theorem chars_of_readString {t : Text} {us : List ℕ} (h : readString (t ++ [34]) = .ok (us, [])) :
    Chars t us := by
  obtain ⟨t', ht, heq⟩ := of_readString_eq_ok h
  rwa [List.append_cancel_right heq]

/-! ### Integers -/

/-- The digits of a natural number, with no superfluous leading zero. -/
structure IsWhole (ds : Text) : Prop where
  ne_nil : ds ≠ []
  digits : ∀ b ∈ ds, isDigit b = true
  zero : ds.head? = some 48 → ds = [48]

theorem IsWhole.head_ne {b c : UInt8} {ds : Text} (h : IsWhole (b :: ds))
    (hc : isDigit c = false) : b ≠ c := by
  rintro rfl
  exact absurd (h.digits b List.mem_cons_self) (Bool.eq_false_iff.mp hc)

/-- The literal of an integer: no fraction and no exponent. -/
def IsInteger (t : Text) : Prop := IsWhole t ∨ ∃ ds, t = 45 :: ds ∧ IsWhole ds

/-- No byte that goes on with an integer literal: no digit, dot or letter `e`. -/
def EndsNumber (s : Text) : Prop :=
  ∀ b, s.head? = some b → isDigit b = false ∧ b ≠ 46 ∧ b ≠ 101 ∧ b ≠ 69

private theorem readDigits_append {ds s : Text} (hne : ds ≠ []) (hds : ∀ b ∈ ds, isDigit b = true)
    (hs : EndsNumber s) : readDigits (ds ++ s) = .ok (ds, s) := by
  have hrest : s.takeWhile isDigit = [] ∧ s.dropWhile isDigit = s := by
    rcases s with _ | ⟨b, s⟩
    · exact ⟨rfl, rfl⟩
    · have hb := (hs b rfl).1
      exact ⟨List.takeWhile_cons_of_neg (by simp [hb]), List.dropWhile_cons_of_neg (by simp [hb])⟩
  rw [readDigits, List.takeWhile_append_of_pos hds, List.dropWhile_append_of_pos hds, hrest.1,
    hrest.2, List.append_nil, if_neg hne]

private theorem of_readDigits_eq_ok {s t rest : Text} (h : readDigits s = .ok (t, rest)) :
    s = t ++ rest ∧ t ≠ [] ∧ ∀ b ∈ t, isDigit b = true := by
  unfold readDigits at h
  split at h
  · cases h
  · next hne =>
    cases h
    exact ⟨List.takeWhile_append_dropWhile.symm, hne, fun b hb => List.mem_takeWhile_imp hb⟩

private theorem readWhole_of_ne {b : UInt8} (hb : b ≠ 48) (s : Text) :
    readWhole (b :: s) = readDigits (b :: s) := by
  rw [readWhole]
  rintro s' ⟨⟩
  exact hb rfl

private theorem readWhole_append {t s : Text} (ht : IsWhole t) (hs : EndsNumber s) :
    readWhole (t ++ s) = .ok (t, s) := by
  obtain ⟨b, ds, rfl⟩ := List.exists_cons_of_ne_nil ht.ne_nil
  by_cases hb : b = 48
  · subst hb
    rw [ht.zero rfl]
    rfl
  · rw [List.cons_append, readWhole_of_ne hb, ← List.cons_append,
      readDigits_append ht.ne_nil ht.digits hs]

private theorem of_readWhole_eq_ok {s t rest : Text} (h : readWhole s = .ok (t, rest)) :
    s = t ++ rest ∧ IsWhole t := by
  rcases s with _ | ⟨b, s⟩
  · cases h
  by_cases hb : b = 48
  · subst hb
    cases h
    exact ⟨rfl, by simp, by simp [isDigit], fun _ => rfl⟩
  · rw [readWhole_of_ne hb] at h
    obtain ⟨heq, hne, hdigits⟩ := of_readDigits_eq_ok h
    refine ⟨heq, hne, hdigits, fun hhead => absurd ?_ hb⟩
    obtain ⟨c, ds, rfl⟩ := List.exists_cons_of_ne_nil hne
    rw [List.cons_append] at heq
    exact (List.cons.inj heq).1.trans (Option.some.inj hhead)

private theorem readUnsigned_of_whole {t s : Text} (ht : IsWhole t) (hs : EndsNumber s) :
    readUnsigned (t ++ s) = .ok (t, s) := by
  have hfraction : readFraction s = .ok ([], s) := by
    unfold readFraction
    split
    · exact absurd rfl (hs 46 rfl).2.1
    · rfl
  have hexponent : readExponent s = .ok ([], s) := by
    rcases s with _ | ⟨b, s⟩
    · rfl
    · obtain ⟨-, -, h101, h69⟩ := hs b rfl
      rw [readExponent.eq_def]
      simp [h101, h69]
  rw [readUnsigned, readWhole_append ht hs, andThen_ok, hfraction, andThen_ok, hexponent,
    mapRead_ok, List.append_nil, List.append_nil]

private theorem of_readExponent_eq_ok {s t rest : Text} (h : readExponent s = .ok (t, rest)) :
    s = t ++ rest ∧ (101 ∉ t → 69 ∉ t → t = []) := by
  rcases s with _ | ⟨b, s⟩
  · cases h
    exact ⟨rfl, fun _ _ => rfl⟩
  rw [readExponent.eq_def] at h
  by_cases he : b = 101 ∨ b = 69
  · have hmem : ∀ l : Text, 101 ∉ b :: l → 69 ∉ b :: l → b :: l = [] := by
      intro l h101 h69
      rcases he with rfl | rfl
      · exact absurd List.mem_cons_self h101
      · exact absurd List.mem_cons_self h69
    simp only [if_pos he] at h
    split at h
    all_goals
      obtain ⟨ds, hds, rfl⟩ := mapRead_eq_ok.mp h
      obtain ⟨rfl, -, -⟩ := of_readDigits_eq_ok hds
      exact ⟨rfl, hmem _⟩
  · simp only [if_neg he] at h
    cases h
    exact ⟨rfl, fun _ _ => rfl⟩

/-- A literal without dot and letter `e` has only its integer part. -/
private theorem of_readUnsigned_eq_ok {s t rest : Text} (h : readUnsigned s = .ok (t, rest)) :
    s = t ++ rest ∧ (46 ∉ t → 101 ∉ t → 69 ∉ t → IsWhole t) := by
  obtain ⟨whole, s₁, hwhole, h⟩ := andThen_eq_ok.mp h
  obtain ⟨fraction, s₂, hfraction, h⟩ := andThen_eq_ok.mp h
  obtain ⟨exponent, hexponent, rfl⟩ := mapRead_eq_ok.mp h
  obtain ⟨rfl, hw⟩ := of_readWhole_eq_ok hwhole
  have hf : s₁ = fraction ++ s₂ ∧ (46 ∉ fraction → fraction = []) := by
    unfold readFraction at hfraction
    split at hfraction
    · obtain ⟨ds, hds, rfl⟩ := mapRead_eq_ok.mp hfraction
      obtain ⟨rfl, -, -⟩ := of_readDigits_eq_ok hds
      exact ⟨rfl, fun hdot => absurd List.mem_cons_self hdot⟩
    · cases hfraction
      exact ⟨rfl, fun _ => rfl⟩
  obtain ⟨rfl, hf⟩ := hf
  obtain ⟨rfl, he⟩ := of_readExponent_eq_ok hexponent
  refine ⟨by simp, fun h46 h101 h69 => ?_⟩
  simp only [List.mem_append, not_or] at h46 h101 h69
  rw [hf h46.1.2, he h101.2 h69.2, List.append_nil, List.append_nil]
  exact hw

theorem readNumber_of_integer {t s : Text} (ht : IsInteger t) (hs : EndsNumber s) :
    readNumber (t ++ s) = .ok (t, s) := by
  rcases ht with hwhole | ⟨ds, rfl, hwhole⟩
  · have hminus : ∀ s', t ++ s ≠ 45 :: s' := by
      intro s' heq
      obtain ⟨b, ds, rfl⟩ := List.exists_cons_of_ne_nil hwhole.ne_nil
      obtain rfl := (List.cons.inj heq).1
      exact hwhole.head_ne rfl rfl
    rw [readNumber, readUnsigned_of_whole hwhole hs]
    exact hminus
  · rw [List.cons_append, readNumber, readUnsigned_of_whole hwhole hs, mapRead_ok]

theorem of_readNumber_eq_ok {s t rest : Text} (h : readNumber s = .ok (t, rest)) :
    s = t ++ rest ∧ (46 ∉ t → 101 ∉ t → 69 ∉ t → IsInteger t) := by
  unfold readNumber at h
  split at h
  · obtain ⟨ds, hds, rfl⟩ := mapRead_eq_ok.mp h
    obtain ⟨rfl, hwhole⟩ := of_readUnsigned_eq_ok hds
    refine ⟨rfl, fun h46 h101 h69 => .inr ⟨ds, rfl, ?_⟩⟩
    exact hwhole (List.not_mem_of_not_mem_cons h46) (List.not_mem_of_not_mem_cons h101)
      (List.not_mem_of_not_mem_cons h69)
  · obtain ⟨heq, hwhole⟩ := of_readUnsigned_eq_ok h
    exact ⟨heq, fun h46 h101 h69 => .inl (hwhole h46 h101 h69)⟩

/-! ### Flat objects -/

/-- A value that is `null` or an integer, and the text that spells it. -/
inductive Plain : Text → Value → Prop where
  | null : Plain [110, 117, 108, 108] .null
  | integer {t : Text} (ht : IsInteger t) : Plain t (.number t)

/-- A member with a plain value, with white space around its parts. -/
inductive PlainMember : Text → List ℕ × Value → Prop where
  | mk {w₁ n w₂ w₃ x w₄ : Text} {name : List ℕ} {v : Value} (h₁ : Spaces w₁) (hn : Chars n name)
      (h₂ : Spaces w₂) (h₃ : Spaces w₃) (hx : Plain x v) (h₄ : Spaces w₄) :
      PlainMember (w₁ ++ 34 :: (n ++ 34 :: (w₂ ++ 58 :: (w₃ ++ (x ++ w₄))))) (name, v)

/-- Members separated by commas, one or more. -/
inductive PlainMembers : Text → List (List ℕ × Value) → Prop where
  | last {t : Text} {m : List ℕ × Value} (h : PlainMember t m) : PlainMembers t [m]
  | cons {t u : Text} {m : List ℕ × Value} {ms : List (List ℕ × Value)} (h : PlainMember t m)
      (hrest : PlainMembers u ms) : PlainMembers (t ++ 44 :: u) (m :: ms)

/-- An object all of whose values are plain. -/
inductive PlainObject : Text → List (List ℕ × Value) → Prop where
  | empty {w : Text} (hw : Spaces w) : PlainObject (123 :: (w ++ [125])) []
  | members {t : Text} {ms : List (List ℕ × Value)} (h : PlainMembers t ms) :
      PlainObject (123 :: (t ++ [125])) ms

/-- The value is `null`, or a number whose literal has neither fraction nor exponent. -/
def Value.IsPlain : Value → Prop
  | .null => True
  | .number t => 46 ∉ t ∧ 101 ∉ t ∧ 69 ∉ t
  | _ => False

/-- A minus sign or a digit begins a number. -/
private theorem readWith_number (nested : Option (Text → Read Value)) {b : UInt8}
    (hb : b = 45 ∨ isDigit b = true) (s : Text) :
    readWith nested (b :: s) = mapRead .number (readNumber (b :: s)) := by
  have hne : ∀ c : UInt8, c ≠ 45 → isDigit c = false → b ≠ c := by
    rintro c hc hdigit rfl
    rcases hb with rfl | hb
    · exact hc rfl
    · simp [hb] at hdigit
  have hspace : isSpace b = false := by
    simp [isSpace, hne 32 (by decide) (by decide), hne 9 (by decide) (by decide),
      hne 10 (by decide) (by decide), hne 13 (by decide) (by decide)]
  rw [readWith, skipSpace_cons hspace]
  simp only [if_neg (hne 34 (by decide) (by decide)), if_neg (hne 123 (by decide) (by decide)),
    if_neg (hne 91 (by decide) (by decide)), if_neg (hne 110 (by decide) (by decide)),
    if_neg (hne 116 (by decide) (by decide)), if_neg (hne 102 (by decide) (by decide)), if_pos hb]

private theorem readWith_of_plain (nested : Option (Text → Read Value)) {t s : Text} {v : Value}
    (h : Plain t v) (hs : EndsNumber s) : readWith nested (t ++ s) = .ok (v, s) := by
  rcases h with _ | ht
  · exact congrArg (mapRead fun _ => Value.null) (readLiteral_append [117, 108, 108] s)
  · have hhead : ∃ b ds, t = b :: ds ∧ (b = 45 ∨ isDigit b = true) := by
      rcases ht with hwhole | ⟨ds, rfl, -⟩
      · obtain ⟨b, ds, rfl⟩ := List.exists_cons_of_ne_nil hwhole.ne_nil
        exact ⟨b, ds, rfl, .inr (hwhole.digits b List.mem_cons_self)⟩
      · exact ⟨45, ds, rfl, .inl rfl⟩
    obtain ⟨b, ds, rfl, hb⟩ := hhead
    rw [List.cons_append, readWith_number nested hb, ← List.cons_append,
      readNumber_of_integer ht hs, mapRead_ok]

/-- What `readWith` reads, as far as flat objects go. -/
private theorem of_readWith_eq_ok {nested : Option (Text → Read Value)} {s rest : Text} {v : Value}
    (h : readWith nested s = .ok (v, rest)) :
    ∃ w t, Spaces w ∧ s = w ++ t ∧ (v.IsPlain → ∃ x, Plain x v ∧ t = x ++ rest) ∧
      ∀ ms, v = .object ms → ∃ read u, nested = some read ∧ t = 123 :: u ∧
        readItems (readMember read) 125 u = .ok (ms, rest) := by
  unfold readWith at h
  split at h
  · cases h
  · next b t hskip =>
    obtain ⟨w, hw, rfl⟩ := of_skipSpace_eq_cons hskip
    refine ⟨w, b :: t, hw, rfl, ?_⟩
    -- The first byte tells the kinds of values apart: strings, arrays and the two Boolean
    -- literals are neither plain nor objects.
    split at h
    · obtain ⟨us, -, rfl⟩ := mapRead_eq_ok.mp h
      exact ⟨False.elim, nofun⟩
    split at h
    · next hb =>
      split at h
      · next read =>
        obtain ⟨ms, hms, rfl⟩ := mapRead_eq_ok.mp h
        refine ⟨False.elim, fun ms' heq => ?_⟩
        cases heq
        exact ⟨read, t, rfl, by rw [hb], hms⟩
      · cases h
    split at h
    · split at h
      · obtain ⟨items, -, rfl⟩ := mapRead_eq_ok.mp h
        exact ⟨False.elim, nofun⟩
      · cases h
    split at h
    · next hb =>
      obtain ⟨⟨⟩, hl, rfl⟩ := mapRead_eq_ok.mp h
      obtain rfl := of_readLiteral_eq_ok hl
      exact ⟨fun _ => ⟨_, .null, by rw [hb]; rfl⟩, nofun⟩
    split at h
    · obtain ⟨-, -, rfl⟩ := mapRead_eq_ok.mp h
      exact ⟨False.elim, nofun⟩
    split at h
    · obtain ⟨-, -, rfl⟩ := mapRead_eq_ok.mp h
      exact ⟨False.elim, nofun⟩
    split at h
    · obtain ⟨x, hx, rfl⟩ := mapRead_eq_ok.mp h
      obtain ⟨heq, hinteger⟩ := of_readNumber_eq_ok hx
      exact ⟨fun hplain => ⟨x, .integer (hinteger hplain.1 hplain.2.1 hplain.2.2), heq⟩, nofun⟩
    · cases h

/-- A value is followed by white space and then by a byte that ends it. -/
private theorem endsNumber_spaces {w s : Text} (hw : Spaces w) (hs : EndsNumber s) :
    EndsNumber (w ++ s) := by
  rcases w with _ | ⟨c, w⟩
  · exact hs
  · rintro b ⟨⟩
    have hspace := hw c List.mem_cons_self
    simp only [isSpace, Bool.or_eq_true, decide_eq_true_eq] at hspace
    rcases hspace with ((rfl | rfl) | rfl) | rfl <;> decide

private theorem readWith_append (nested : Option (Text → Read Value)) {w : Text} (hw : Spaces w)
    (s : Text) : readWith nested (w ++ s) = readWith nested s := by
  rw [readWith, skipSpace_append hw, ← readWith]

private theorem readMember_of_plain {read : Text → Read Value} {nested : Option (Text → Read Value)}
    (hread : read = readWith nested) {t : Text} {m : List ℕ × Value} (h : PlainMember t m)
    {s : Text} (hs : EndsNumber s) :
    ∃ w, Spaces w ∧ readMember read (t ++ s) = .ok (m, w ++ s) := by
  obtain @⟨w₁, n, w₂, w₃, x, w₄, name, v, h₁, hn, h₂, h₃, hx, h₄⟩ := h
  refine ⟨w₄, h₄, ?_⟩
  have hvalue : read (w₃ ++ (x ++ (w₄ ++ s))) = .ok (v, w₄ ++ s) := by
    rw [hread, readWith_append nested h₃, readWith_of_plain nested hx (endsNumber_spaces h₄ hs)]
  simp only [List.append_assoc, List.cons_append]
  rw [readMember, skipSpace_append h₁, skipSpace_cons (by decide)]
  simp only [↓reduceIte]
  rw [readString_of_chars hn, andThen_ok, skipSpace_append h₂, skipSpace_cons (by decide)]
  simp only [↓reduceIte]
  rw [hvalue, mapRead_ok]

private theorem of_readMember_eq_ok {read : Text → Read Value} {nested : Option (Text → Read Value)}
    (hread : read = readWith nested) {s rest : Text} {m : List ℕ × Value}
    (h : readMember read s = .ok (m, rest)) (hplain : m.2.IsPlain) :
    ∃ t, PlainMember t m ∧ s = t ++ rest := by
  unfold readMember at h
  split at h
  · cases h
  · next b s hskip =>
    obtain ⟨w₁, h₁, rfl⟩ := of_skipSpace_eq_cons hskip
    split at h
    · next hb =>
      subst hb
      obtain ⟨name, s, hname, hmember⟩ := andThen_eq_ok.mp h
      obtain ⟨n, hn, rfl⟩ := of_readString_eq_ok hname
      split at hmember
      · cases hmember
      · next c s hskip =>
        obtain ⟨w₂, h₂, rfl⟩ := of_skipSpace_eq_cons hskip
        split at hmember
        · next hc =>
          subst hc
          obtain ⟨v, hv, rfl⟩ := mapRead_eq_ok.mp hmember
          rw [hread] at hv
          obtain ⟨w₃, u, h₃, rfl, hspelled, -⟩ := of_readWith_eq_ok hv
          obtain ⟨x, hx, rfl⟩ := hspelled hplain
          have hnil : Spaces [] := fun _ hb => nomatch hb
          exact ⟨_, .mk h₁ hn h₂ h₃ hx hnil, by simp⟩
        · cases hmember
    · cases h

private theorem PlainMember.append {t w : Text} {m : List ℕ × Value} (h : PlainMember t m)
    (hw : Spaces w) : PlainMember (t ++ w) m := by
  obtain ⟨h₁, hn, h₂, h₃, hx, h₄⟩ := h
  have hspaces := List.forall_mem_append.mpr ⟨h₄, hw⟩
  simpa using PlainMember.mk h₁ hn h₂ h₃ hx hspaces

/-- Every member takes more than one byte. -/
private theorem length_le_of_plainMembers {t : Text} {ms : List (List ℕ × Value)}
    (h : PlainMembers t ms) : ms.length ≤ t.length := by
  induction h with
  | last h =>
    obtain ⟨⟩ := h
    simp
    omega
  | cons h _ ih =>
    simp
    omega

private theorem readList_of_plain {read : Text → Read Value} {nested : Option (Text → Read Value)}
    (hread : read = readWith nested) {t : Text} {ms : List (List ℕ × Value)}
    (h : PlainMembers t ms) (s : Text) {n : ℕ} (hn : ms.length ≤ n) :
    readList (readMember read) 125 n (t ++ 125 :: s) = .ok (ms, s) := by
  have hends : ∀ c, isDigit c = false → c ≠ 46 → c ≠ 101 → c ≠ 69 → ∀ s, EndsNumber (c :: s) := by
    rintro c hdigit h46 h101 h69 s b ⟨⟩
    exact ⟨hdigit, h46, h101, h69⟩
  induction h generalizing n with
  | @last t m h =>
    obtain ⟨n, rfl⟩ := Nat.exists_eq_add_of_le' hn
    obtain ⟨w, hw, hmember⟩ := readMember_of_plain hread h
      (hends 125 (by decide) (by decide) (by decide) (by decide) s)
    rw [List.length_singleton, readList, hmember, andThen_ok, skipSpace_append hw,
      skipSpace_cons (by decide)]
    rfl
  | @cons t u m ms h _ ih =>
    obtain ⟨n, rfl⟩ := Nat.exists_eq_add_of_le' (Nat.le_trans (Nat.le_add_left 1 _) hn)
    obtain ⟨w, hw, hmember⟩ := readMember_of_plain hread h
      (hends 44 (by decide) (by decide) (by decide) (by decide) (u ++ 125 :: s))
    have hrest := ih (n := n) (by simpa using hn)
    rw [List.append_assoc, List.cons_append, readList, hmember, andThen_ok, skipSpace_append hw,
      skipSpace_cons (by decide)]
    simp only [↓reduceIte]
    rw [hrest, mapRead_ok]

private theorem of_readList_eq_ok {read : Text → Read Value} {nested : Option (Text → Read Value)}
    (hread : read = readWith nested) {n : ℕ} {s rest : Text} {ms : List (List ℕ × Value)}
    (h : readList (readMember read) 125 n s = .ok (ms, rest)) (hplain : ∀ m ∈ ms, m.2.IsPlain) :
    ∃ t, PlainMembers t ms ∧ s = t ++ 125 :: rest := by
  induction n generalizing s ms with
  | zero => cases h
  | succ n ih =>
    obtain ⟨m, s₁, hm, hlist⟩ := andThen_eq_ok.mp h
    split at hlist
    · cases hlist
    · next b s₂ hskip =>
      obtain ⟨w, hw, rfl⟩ := of_skipSpace_eq_cons hskip
      split at hlist
      · next hb =>
        obtain ⟨ms', hms, rfl⟩ := mapRead_eq_ok.mp hlist
        rw [List.forall_mem_cons] at hplain
        obtain ⟨t, ht, rfl⟩ := of_readMember_eq_ok hread hm hplain.1
        obtain ⟨u, hu, rfl⟩ := ih hms hplain.2
        exact ⟨_, .cons (ht.append hw) hu, by simp [hb]⟩
      · split at hlist
        · next hb =>
          cases hlist
          obtain ⟨t, ht, rfl⟩ := of_readMember_eq_ok hread hm (hplain m List.mem_cons_self)
          exact ⟨_, .last (ht.append hw), by simp [hb]⟩
        · cases hlist

/-- A member begins, after white space, with the quotation mark of its name. -/
private theorem skipSpace_plainMembers {t : Text} {ms : List (List ℕ × Value)}
    (h : PlainMembers t ms) (s : Text) : ∃ u, skipSpace (t ++ s) = 34 :: u := by
  have hmember : ∀ {t : Text} {m : List ℕ × Value}, PlainMember t m →
      ∀ s, ∃ u, skipSpace (t ++ s) = 34 :: u := by
    rintro t m ⟨h₁, -, -, -, -, -⟩ s
    rw [List.append_assoc, skipSpace_append h₁, List.cons_append, skipSpace_cons (by decide)]
    exact ⟨_, rfl⟩
  rcases h with h | ⟨h, -⟩
  · exact hmember h s
  · rw [List.append_assoc]
    exact hmember h _

/-- **What spells a flat object is read as that object**, up to its closing brace. -/
theorem readValue_of_plainObject {w t : Text} {ms : List (List ℕ × Value)} (hw : Spaces w)
    (h : PlainObject t ms) (depth : ℕ) (s : Text) :
    readValue (depth + 1) (w ++ (t ++ s)) = .ok (.object ms, s) := by
  have hitems : ∀ u, t = 123 :: u →
      readItems (readMember (readValue depth)) 125 (u ++ s) = .ok (ms, s) →
      readValue (depth + 1) (w ++ (t ++ s)) = .ok (.object ms, s) := by
    rintro u rfl hread
    rw [readValue, readWith_append _ hw, List.cons_append, readWith, skipSpace_cons (by decide)]
    exact congrArg (mapRead Value.object) hread
  have hread : ∃ nested, readValue depth = readWith nested := by
    cases depth
    · exact ⟨_, rfl⟩
    · exact ⟨_, rfl⟩
  obtain ⟨nested, hread⟩ := hread
  rcases h with hw | h
  · refine hitems _ rfl ?_
    rw [readItems, List.append_assoc, skipSpace_append hw]
    rfl
  · refine hitems _ rfl ?_
    obtain ⟨u, hu⟩ := skipSpace_plainMembers h ([125] ++ s)
    have hlength := length_le_of_plainMembers h
    rw [readItems, List.append_assoc, hu]
    exact readList_of_plain hread h s (by simp; omega)

/-- **What is read as an object with plain values spells that object**, up to what is left. -/
theorem of_readValue_eq_ok {depth : ℕ} {s rest : Text} {ms : List (List ℕ × Value)}
    (h : readValue (depth + 1) s = .ok (.object ms, rest)) (hplain : ∀ m ∈ ms, m.2.IsPlain) :
    ∃ w t, Spaces w ∧ PlainObject t ms ∧ s = w ++ (t ++ rest) := by
  obtain ⟨w, t, hw, rfl, -, hobject⟩ := of_readWith_eq_ok h
  obtain ⟨read, u, hnested, rfl, hitems⟩ := hobject ms rfl
  have hread : ∃ nested, read = readWith nested := by
    cases hnested
    cases depth
    · exact ⟨_, rfl⟩
    · exact ⟨_, rfl⟩
  obtain ⟨nested, hread⟩ := hread
  unfold readItems at hitems
  split at hitems
  · cases hitems
  · next b u' hskip =>
    split at hitems
    · next hb =>
      cases hitems
      obtain ⟨w', hw', rfl⟩ := of_skipSpace_eq_cons hskip
      exact ⟨w, _, hw, .empty hw', by simp [hb]⟩
    · obtain ⟨t, ht, rfl⟩ := of_readList_eq_ok hread hitems hplain
      exact ⟨w, _, hw, .members ht, by simp⟩

/-! ### Objects of strings -/

/-- Members with string values, one or more, without white space. -/
inductive StringMembers : Text → List (List ℕ × Value) → Prop where
  | last {n x : Text} {name us : List ℕ} (hn : Chars n name) (hx : Chars x us) :
      StringMembers (34 :: (n ++ 34 :: 58 :: 34 :: (x ++ [34]))) [(name, .string us)]
  | cons {n x t : Text} {name us : List ℕ} {ms : List (List ℕ × Value)} (hn : Chars n name)
      (hx : Chars x us) (hrest : StringMembers t ms) :
      StringMembers (34 :: (n ++ 34 :: 58 :: 34 :: (x ++ 34 :: 44 :: t)))
        ((name, .string us) :: ms)

private theorem readWith_string (nested : Option (Text → Read Value)) {x : Text} {us : List ℕ}
    (hx : Chars x us) (s : Text) :
    readWith nested (34 :: (x ++ 34 :: s)) = .ok (.string us, s) := by
  rw [readWith, skipSpace_cons (by decide)]
  simp only [↓reduceIte]
  rw [readString_of_chars hx, mapRead_ok]

private theorem readMember_string (nested : Option (Text → Read Value)) {n x : Text}
    {name us : List ℕ} (hn : Chars n name) (hx : Chars x us) (s : Text) :
    readMember (readWith nested) (34 :: (n ++ 34 :: 58 :: 34 :: (x ++ 34 :: s))) =
      .ok ((name, .string us), s) := by
  rw [readMember, skipSpace_cons (by decide)]
  simp only [↓reduceIte]
  rw [readString_of_chars hn, andThen_ok, skipSpace_cons (by decide)]
  simp only [↓reduceIte]
  rw [readWith_string nested hx, mapRead_ok]

private theorem readList_of_stringMembers (nested : Option (Text → Read Value)) {t : Text}
    {ms : List (List ℕ × Value)} (h : StringMembers t ms) (s : Text) {n : ℕ}
    (hn : ms.length ≤ n) :
    readList (readMember (readWith nested)) 125 n (t ++ 125 :: s) = .ok (ms, s) := by
  induction h generalizing n with
  | last hn' hx =>
    obtain ⟨n, rfl⟩ := Nat.exists_eq_add_of_le' hn
    simp only [List.cons_append, List.append_assoc, List.nil_append]
    rw [List.length_singleton, readList, readMember_string nested hn' hx, andThen_ok,
      skipSpace_cons (by decide)]
    rfl
  | @cons n' x t name us ms hn' hx _ ih =>
    obtain ⟨n, rfl⟩ := Nat.exists_eq_add_of_le' (Nat.le_trans (Nat.le_add_left 1 _) hn)
    have hrest := ih (n := n) (by simpa using hn)
    simp only [List.cons_append, List.append_assoc]
    rw [readList, readMember_string nested hn' hx, andThen_ok, skipSpace_cons (by decide)]
    simp only [↓reduceIte]
    rw [hrest, mapRead_ok]

/-- **What spells an object of strings is read as that object**, up to its closing brace. -/
theorem readValue_of_stringMembers {t : Text} {ms : List (List ℕ × Value)}
    (h : StringMembers t ms) (depth : ℕ) (s : Text) :
    readValue (depth + 1) (123 :: (t ++ 125 :: s)) = .ok (.object ms, s) := by
  obtain ⟨nested, hnested⟩ : ∃ nested, readValue depth = readWith nested := by
    cases depth
    · exact ⟨_, rfl⟩
    · exact ⟨_, rfl⟩
  have hlength : ms.length ≤ t.length := by
    induction h with
    | last => simp
    | cons _ _ _ ih =>
      simp only [List.length_cons, List.length_append]
      omega
  have hhead : ∃ u, t = 34 :: u := by
    cases h
    · exact ⟨_, rfl⟩
    · exact ⟨_, rfl⟩
  obtain ⟨u, rfl⟩ := hhead
  have hitems : readItems (readMember (readValue depth)) 125 (34 :: u ++ 125 :: s) =
      .ok (ms, s) := by
    rw [readItems, List.cons_append, skipSpace_cons (by decide), hnested]
    exact readList_of_stringMembers nested h s (by simp at hlength ⊢; omega)
  rw [readValue, readWith, skipSpace_cons (by decide)]
  exact congrArg (mapRead Value.object) hitems

end Json
