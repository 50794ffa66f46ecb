import KeyBank.Foundation.Base64
import KeyBank.Foundation.Occurrence
import KeyBank.Foundation.UrlText
import KeyBank.Foundation.Utf16
import Mathlib.Data.List.DropRight

/-!
# JavaScript values the pages work with

Strings are sequences of UTF-16 code units. What a function throws is a `JSError`, with the text
the page's code gives it; an exception of the platform is known by its name only. The functions
of the language and of the web platform that the pages call are here, each by its own standard.
-/

namespace KeyBank

abbrev JSString : Type := List UInt16

/-- A string literal. -/
def js (s : String) : JSString := Utf16.encode s.toList

theorem js_append (s t : String) : js (s ++ t) = js s ++ js t := by
  rw [js, String.toList_append, Utf16.encode_append, js, js]

theorem js_injective : Function.Injective js := fun s t h => by
  have hdecode := congrArg Utf16.decode h
  rwa [js, js, Utf16.decode_encode, Utf16.decode_encode, String.toList_inj] at hdecode

/-- What a function throws: an `Error` of the page's own, or an exception of the platform. -/
inductive JSError where
  | error (message : JSString)
  | platform (name : String)
  deriving DecidableEq, Repr

/-- `error.message`. The text of a platform exception is the browser's; its name stands for
it. -/
def JSError.message : JSError → JSString
  | error message => message
  | platform name => js name

/-! ### Strings -/

/-- White space and line terminators, as `trim` and `\s` know them. -/
def isWhite (u : UInt16) : Bool :=
  (9 ≤ u && u ≤ 13) || u = 0x20 || u = 0xA0 || u = 0x1680 || (0x2000 ≤ u && u ≤ 0x200A) ||
    u = 0x2028 || u = 0x2029 || u = 0x202F || u = 0x205F || u = 0x3000 || u = 0xFEFF

/-- `s.trim()`. -/
def trim (s : JSString) : JSString := (s.dropWhile isWhite).rdropWhile isWhite

/-- `s.slice(i, j)` and `bytes.subarray(i, j)`. -/
def slice {α : Type} (s : List α) (i j : ℕ) : List α := (s.drop i).take (j - i)

theorem slice_append {α : Type} (before s after : List α) :
    slice (before ++ s ++ after) before.length (before ++ s).length = s := by
  rw [slice, List.append_assoc, List.drop_left, List.length_append, Nat.add_sub_cancel_left,
    List.take_left]

/-- `s.indexOf(sub)`; `none` is -1. -/
def indexOf (sub : JSString) : JSString → Option ℕ
  | [] => if sub = [] then some 0 else none
  | u :: s => if sub.isPrefixOf (u :: s) then some 0 else (indexOf sub s).map (· + 1)

/-- The first place where `sub` stands. -/
theorem indexOf_append {sub before s : JSString} (hbefore : ¬ Occurrence.StartsIn sub before s)
    (hs : sub <+: s) : indexOf sub (before ++ s) = some before.length := by
  induction before with
  | nil =>
    rcases s with _ | ⟨u, s⟩
    · exact if_pos (List.prefix_nil.mp hs)
    · exact if_pos (List.isPrefixOf_iff_prefix.mpr hs)
  | cons u before ih =>
    rw [Occurrence.startsIn_cons_iff, not_or] at hbefore
    rw [List.cons_append, indexOf, if_neg (mt List.isPrefixOf_iff_prefix.mp hbefore.1),
      ih hbefore.2]
    rfl

/-- `s.replace(/x/g, y)` for single characters. -/
def replaceAll (x y : UInt16) (s : JSString) : JSString := s.map fun u => if u = x then y else u

/-- `String.fromCharCode(...bytes)`. -/
def fromCharCode (bytes : List UInt8) : JSString := bytes.map UInt8.toUInt16

@[simp] theorem fromCharCode_append (bs cs : List UInt8) :
    fromCharCode (bs ++ cs) = fromCharCode bs ++ fromCharCode cs := List.map_append

/-- What a `Uint8Array` keeps of a code unit. -/
def charCodes (s : JSString) : List UInt8 := s.map UInt16.toUInt8

@[simp] theorem charCodes_fromCharCode (bs : List UInt8) : charCodes (fromCharCode bs) = bs := by
  rw [charCodes, fromCharCode, List.map_map]
  calc _ = bs.map id := List.map_congr_left fun b _ => UInt8.toUInt8_toUInt16 b
    _ = bs := List.map_id _

/-! ### Encodings -/

/-- `new TextEncoder().encode(s)`. -/
def textEncode (s : JSString) : List UInt8 := Utf8.encode (Utf16.decode s)

/-- `new TextDecoder().decode(bytes)`. -/
def textDecode (bytes : List UInt8) : JSString := Utf16.encode (Utf8.decode bytes)

/-- ASCII text is decoded byte by byte. -/
theorem textDecode_of_lt {bytes : List UInt8} (h : ∀ b ∈ bytes, b.toNat < 128) :
    textDecode bytes = fromCharCode bytes := by
  have hall : ∀ n < 128, String.utf8EncodeChar (Char.ofNat n) = [UInt8.ofNat n] ∧
      Utf16.encodeChar (Char.ofNat n) = [(UInt8.ofNat n).toUInt16] ∧ Char.ofNat n ≠ Utf8.bom := by
    decide
  obtain ⟨cs, hcs, htext, hbom⟩ : ∃ cs, bytes = Utf8.encode cs ∧
      Utf16.encode cs = fromCharCode bytes ∧ ∀ c ∈ cs, c ≠ Utf8.bom := by
    induction bytes with
    | nil => exact ⟨[], rfl, rfl, nofun⟩
    | cons b bytes ih =>
      rw [List.forall_mem_cons] at h
      obtain ⟨cs, hcs, htext, hbom⟩ := ih h.2
      obtain ⟨hbyte, hunit, hne⟩ := hall b.toNat h.1
      rw [UInt8.ofNat_toNat] at hbyte hunit
      refine ⟨Char.ofNat b.toNat :: cs, ?_, ?_, List.forall_mem_cons.mpr ⟨hne, hbom⟩⟩
      · rw [Utf8.encode, List.flatMap_cons, hbyte, hcs]
        rfl
      · rw [Utf16.encode_cons, hunit, htext]
        rfl
  rw [textDecode, ← htext, hcs, Utf8.decode_encode, Utf8.dropBOM_eq_self_iff.mpr]
  exact fun hhead => hbom _ (List.mem_of_head? hhead) rfl

/-- `btoa`: a code unit over 255 is an error. -/
def btoa (s : JSString) : Except JSError JSString :=
  if s.all fun u => u < 256 then .ok (Base64.encode (charCodes s))
  else .error (.platform "InvalidCharacterError")

/-- `atob`. -/
def atob (s : JSString) : Except JSError JSString :=
  match Base64.forgivingDecode s with
  | some bytes => .ok (fromCharCode bytes)
  | none => .error (.platform "InvalidCharacterError")

/-! ### URLs -/

/-- The characters `encodeURIComponent` leaves alone. -/
def isComponentUnreserved (c : Char) : Bool :=
  let n := c.toNat
  (48 ≤ n && n ≤ 57) || (65 ≤ n && n ≤ 90) || (97 ≤ n && n ≤ 122) || n = 33 || n = 39 || n = 40 ||
    n = 41 || n = 42 || n = 45 || n = 46 || n = 95 || n = 126

/-- `encodeURIComponent`: a lone surrogate is an error. -/
def encodeURIComponent (s : JSString) : Except JSError JSString :=
  if Utf16.encode (Utf16.decode s) = s then
    .ok (Utf16.encode
      (UrlText.percentEncode (fun c => !isComponentUnreserved c) (Utf16.decode s)))
  else .error (.platform "URIError")

/-- `URLSearchParams`: names and values, in order. -/
abbrev URLSearchParams : Type := List (List Char × List Char)

namespace URLSearchParams

/-- `new URLSearchParams` on an object with string members. -/
def ofRecord (members : List (JSString × JSString)) : URLSearchParams :=
  members.map fun m => (Utf16.decode m.1, Utf16.decode m.2)

/-- `new URLSearchParams` on a string; a leading `?` is dropped. -/
def ofString (init : JSString) : URLSearchParams :=
  let cs := Utf16.decode init
  UrlText.parse (Utf8.encode (if cs.head? = some '?' then cs.tail else cs))

/-- `params.get`; `none` is `null`. -/
def get (params : URLSearchParams) (name : String) : Option JSString :=
  (UrlText.get params name.toList).map Utf16.encode

/-- `params.toString`. -/
def toString (params : URLSearchParams) : JSString := Utf16.encode (UrlText.serialize params)

end URLSearchParams

/-- `location.hash` on a page opened at an absolute URL. -/
def hashOf (url : JSString) : JSString :=
  let fragment := UrlText.fragment (Utf16.decode url)
  if fragment = [] then [] else Utf16.encode ('#' :: fragment)

end KeyBank
