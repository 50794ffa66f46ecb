import KeyBank.Browser.Crypto
import KeyBank.Server.Go

/-!
# Keys as text

The server writes a key with `pem.EncodeToMemory` (`generateKey`), and the page reads it with
`pemToBytes`. What is written is read back (`pem_round_trip`); nor does it matter what follows the
block, how the body is broken into lines, or what stands before the block, as long as no marker
begins there.

A text without a marker can still be completed to one: the page looks for the markers anywhere in
the text and not only at the start of a line, so a text that ends in all of a marker but its last
dashes is completed by those of the BEGIN line (`pem_round_trip_junction`).
-/

namespace KeyBank

open Occurrence

/-! ### What the server writes -/

/-- `base64.StdEncoding`, as bytes. -/
def stdEncoding (bytes : Bytes) : GoString := (Base64.encode bytes).map UInt16.toUInt8

/-- The writer that breaks the base64 text into lines of 64 bytes, `used` of which are written;
closing it ends a line that has been begun. -/
def lineBreaker : ℕ → GoString → GoString
  | used, [] => if used = 0 then [] else [10]
  | used, b :: bs =>
    if used = 63 then b :: 10 :: lineBreaker 0 bs else b :: lineBreaker (used + 1) bs

/-- The first and the last line of a block. -/
def pemLine (start label : String) : GoString := lit start ++ lit label ++ lit "-----\n"

/-- `pem.EncodeToMemory` on a block without headers. -/
def encodeToMemory (label : String) (bytes : Bytes) : GoString :=
  pemLine "-----BEGIN " label ++ lineBreaker 0 (stdEncoding bytes) ++ pemLine "-----END " label

/-! ### What the page looks for -/

def beginMarker (label : String) : JSString := js ("-----BEGIN " ++ label ++ "-----")

def endMarker (label : String) : JSString := js ("-----END " ++ label ++ "-----")

/-- The labels of the two keys. -/
def pemLabels : List String := ["PUBLIC KEY", "PRIVATE KEY"]

/-- Text with more white space. -/
inductive Spaced : JSString → JSString → Prop where
  | nil : Spaced [] []
  | keep {s t : JSString} (u : UInt16) (h : Spaced s t) : Spaced (u :: s) (u :: t)
  | space {s t : JSString} {u : UInt16} (hu : isWhite u = true) (h : Spaced s t) : Spaced s (u :: t)

/-- The text between the markers: the rest of the BEGIN line and the lines of base64. -/
def pemBody (bytes : Bytes) : JSString := 10 :: fromCharCode (lineBreaker 0 (stdEncoding bytes))

/-! ### The body -/

/-- Base64 text is ASCII without white space, and without the characters that differ in
base64url. -/
theorem mem_encode {bytes : Bytes} {u : UInt16} (h : u ∈ Base64.encode bytes) :
    isWhite u = false ∧ u ≠ 45 ∧ u ≠ 95 ∧ u.toNat < 128 := by
  have hsymbol : ∀ v < 64, isWhite (Base64.symbol v) = false ∧ Base64.symbol v ≠ 45 ∧
      Base64.symbol v ≠ 95 ∧ (Base64.symbol v).toNat < 128 := by decide
  obtain hmem | hmem := List.mem_append.mp h
  · obtain ⟨v, hv, rfl⟩ := List.mem_map.mp hmem
    exact hsymbol v (Base64.lt_of_mem_sextets v hv)
  · rw [List.eq_of_mem_replicate hmem]
    decide

theorem fromCharCode_stdEncoding (bytes : Bytes) :
    fromCharCode (stdEncoding bytes) = Base64.encode bytes := by
  rw [fromCharCode, stdEncoding, List.map_map]
  calc _ = (Base64.encode bytes).map id := List.map_congr_left fun u hu => by
        obtain ⟨-, -, -, hlt⟩ := mem_encode hu
        refine UInt16.toNat_inj.mp ?_
        simp only [Function.comp_apply, id_eq, UInt8.toNat_toUInt16, UInt16.toNat_toUInt8]
        omega
    _ = Base64.encode bytes := List.map_id _

private theorem fromCharCode_cons (b : UInt8) (bytes : Bytes) :
    fromCharCode (b :: bytes) = b.toUInt16 :: fromCharCode bytes := rfl

/-- Line breaks are all that is added. -/
theorem filter_lineBreaker (used : ℕ) {s : GoString}
    (h : ∀ u ∈ fromCharCode s, isWhite u = false) :
    (fromCharCode (lineBreaker used s)).filter (fun u => !isWhite u) = fromCharCode s := by
  induction s generalizing used with
  | nil =>
    rw [lineBreaker]
    split
    · rfl
    · decide
  | cons b s ih =>
    rw [fromCharCode_cons, List.forall_mem_cons] at h
    have hbreak : isWhite (UInt8.toUInt16 10) = true := by decide
    rw [lineBreaker]
    split
    · simp only [fromCharCode_cons, List.filter_cons, h.1, hbreak, Bool.not_false, Bool.not_true,
        Bool.false_eq_true, if_true, if_false, ih 0 h.2]
    · simp only [fromCharCode_cons, List.filter_cons, h.1, Bool.not_false, if_true, ih _ h.2]

theorem filter_pemBody (bytes : Bytes) :
    (pemBody bytes).filter (fun u => !isWhite u) = Base64.encode bytes := by
  have hlines := filter_lineBreaker (s := stdEncoding bytes) 0
  rw [fromCharCode_stdEncoding] at hlines
  rw [pemBody, List.filter_cons_of_neg (by decide)]
  exact hlines fun u hu => (mem_encode hu).1

namespace Spaced

variable {s t : JSString}

theorem refl (s : JSString) : Spaced s s := by
  induction s with
  | nil => exact .nil
  | cons u s ih => exact .keep u ih

theorem filter_eq (h : Spaced s t) :
    t.filter (fun u => !isWhite u) = s.filter (fun u => !isWhite u) := by
  induction h with
  | nil => rfl
  | keep u _ ih => rw [List.filter_cons, List.filter_cons, ih]
  | space hu _ ih => rw [List.filter_cons_of_neg (by simp [hu]), ih]

/-- A text that begins with white space still does. -/
theorem exists_cons {u : UInt16} (h : Spaced (u :: s) t) (hu : isWhite u = true) :
    ∃ w t', t = w :: t' ∧ isWhite w = true := by
  cases h with
  | keep _ h => exact ⟨u, _, rfl, hu⟩
  | space hw h => exact ⟨_, _, rfl, hw⟩

end Spaced

/-- A body with more white space begins with white space and has no dashes. -/
theorem Spaced.of_pemBody {bytes : Bytes} {body : JSString} (h : Spaced (pemBody bytes) body) :
    (∃ w t, body = w :: t ∧ isWhite w = true) ∧ 45 ∉ body ∧
      body.filter (fun u => !isWhite u) = Base64.encode bytes := by
  have hfilter := h.filter_eq.trans (filter_pemBody bytes)
  refine ⟨h.exists_cons (by decide), fun hmem => ?_, hfilter⟩
  have hdash : (45 : UInt16) ∈ Base64.encode bytes := by
    rw [← hfilter]
    exact List.mem_filter.mpr ⟨hmem, by decide⟩
  exact (mem_encode hdash).2.1 rfl

/-- **base64.** What `btoa` or the server writes is read back. -/
theorem base64ToBytes_encode (bytes : Bytes) : base64ToBytes (Base64.encode bytes) = .ok bytes := by
  have hnormal : replaceAll 95 47 (replaceAll 45 43 (Base64.encode bytes)) =
      Base64.encode bytes := by
    rw [replaceAll, replaceAll, List.map_map]
    calc _ = (Base64.encode bytes).map id := List.map_congr_left fun u hu => by
          obtain ⟨-, hdash, hline, -⟩ := mem_encode hu
          simp [hdash, hline]
      _ = Base64.encode bytes := List.map_id _
  have hlength := Base64.length_sextets bytes
  have hmod : (Base64.encode bytes).length % 4 = 0 := by
    rw [Base64.encode, List.length_append, List.length_map, List.length_replicate]
    omega
  have hpads : (3 - bytes.length % 3) % 3 = (4 - (Base64.sextets bytes).length % 4) % 4 := by omega
  have hlt : ∀ v ∈ Base64.sextets bytes, v < 64 := Base64.lt_of_mem_sextets
  have hdecode := Base64.forgivingDecode_padded hlt
  rw [← hpads, ← Base64.encode, if_neg (by omega), Base64.ofSextets_sextets] at hdecode
  rw [base64ToBytes, hnormal]
  simp only [hmod, if_true, List.replicate_zero, List.append_nil, atob, hdecode]
  exact congrArg Except.ok (charCodes_fromCharCode bytes)

/-! ### The markers -/

/-- What both markers begin and end with. -/
def dashes : JSString := js "-----"

section

variable {label : String} (hlabel : label ∈ pemLabels)
include hlabel

/-- Either marker overlaps with a BEGIN marker after it in dashes only. -/
private theorem marker_ends {marker : JSString}
    (hmarker : marker = beginMarker label ∨ marker = endMarker label) :
    marker.length ≤ (beginMarker label).length ∧ ∀ k < marker.length, 0 < k →
      marker.drop k <+: beginMarker label → marker.drop k <+: dashes := by
  have hall : ∀ label ∈ pemLabels, ∀ marker ∈ [beginMarker label, endMarker label],
      marker.length ≤ (beginMarker label).length ∧ ∀ k < marker.length, 0 < k →
        marker.drop k <+: beginMarker label → marker.drop k <+: dashes := by
    decide +kernel
  exact hall label hlabel marker (by simpa using hmarker)

private theorem exists_endMarker_eq : ∃ rest, endMarker label = 45 :: rest := by
  have hall : ∀ label ∈ pemLabels, (endMarker label).head? = some 45 := by decide +kernel
  exact List.head?_eq_some_iff.mp (hall label hlabel)

/-- No END marker starts in a BEGIN marker that white space follows. -/
private theorem not_startsIn_beginMarker {w : UInt16} (hw : isWhite w = true) (t : JSString) :
    ¬ StartsIn (endMarker label) (beginMarker label) (w :: t) := by
  have hall : ∀ label ∈ pemLabels, ∀ q ∈ (beginMarker label).tails, q ≠ [] →
      ¬ endMarker label <+: q ∧ (q <+: endMarker label →
        ((endMarker label).drop q.length).head?.all (fun u => !isWhite u) = true) := by
    decide +kernel
  rintro ⟨q, hq, hsuffix, hocc⟩
  obtain ⟨hnot, hnext⟩ := hall label hlabel q ((List.mem_tails q _).mpr hsuffix) hq
  obtain hlt | hle := Nat.lt_or_ge q.length (endMarker label).length
  · have hqe : q <+: endMarker label :=
      List.prefix_of_prefix_length_le (List.prefix_append q _) hocc hlt.le
    obtain ⟨d, hd⟩ := hqe
    have hnext := hnext ⟨d, hd⟩
    rw [← hd] at hocc hnext hlt
    rw [List.drop_left] at hnext
    obtain ⟨u, d, rfl⟩ := List.exists_cons_of_ne_nil (l := d) (by rintro rfl; simp at hlt)
    obtain ⟨rfl, -⟩ := List.cons_prefix_cons.mp ((List.prefix_append_right_inj q).mp hocc)
    simp [hw] at hnext
  · exact hnot (List.prefix_of_prefix_length_le hocc (List.prefix_append q _) hle)

omit hlabel in
private theorem mem_lineBreaker {used : ℕ} {s : GoString} {b : UInt8} (h : b ∈ lineBreaker used s) :
    b = 10 ∨ b ∈ s := by
  induction s generalizing used with
  | nil =>
    rw [lineBreaker] at h
    split at h
    · exact absurd h List.not_mem_nil
    · exact .inl (List.mem_singleton.mp h)
  | cons c s ih =>
    rw [lineBreaker] at h
    split at h
    · obtain rfl | h := List.mem_cons.mp h
      · exact .inr List.mem_cons_self
      · obtain rfl | h := List.mem_cons.mp h
        · exact .inl rfl
        · exact (ih h).imp_right (List.mem_cons_of_mem c)
    · obtain rfl | h := List.mem_cons.mp h
      · exact .inr List.mem_cons_self
      · exact (ih h).imp_right (List.mem_cons_of_mem c)

private theorem pemLine_text {start : String}
    (hstart : start = "-----BEGIN " ∨ start = "-----END ") :
    (∀ b ∈ pemLine start label, b.toNat < 128) ∧
      fromCharCode (pemLine start label) = js (start ++ label ++ "-----") ++ js "\n" := by
  have hall : ∀ label ∈ pemLabels, ∀ start ∈ ["-----BEGIN ", "-----END "],
      (∀ b ∈ pemLine start label, b.toNat < 128) ∧
        fromCharCode (pemLine start label) = js (start ++ label ++ "-----") ++ js "\n" := by
    decide +kernel
  exact hall label hlabel start (by simpa using hstart)

/-- A block is ASCII text. -/
theorem lt_of_mem_encodeToMemory {bytes : Bytes} : ∀ b ∈ encodeToMemory label bytes,
    b.toNat < 128 := by
  have hlines : ∀ b ∈ lineBreaker 0 (stdEncoding bytes), b.toNat < 128 := by
    intro b hb
    obtain rfl | hb := mem_lineBreaker hb
    · decide
    · obtain ⟨u, hu, rfl⟩ := List.mem_map.mp hb
      obtain ⟨-, -, -, hlt⟩ := mem_encode hu
      rw [UInt16.toNat_toUInt8]
      omega
  intro b hb
  rw [encodeToMemory, List.mem_append, List.mem_append] at hb
  obtain (hb | hb) | hb := hb
  · exact (pemLine_text hlabel (.inl rfl)).1 b hb
  · exact hlines b hb
  · exact (pemLine_text hlabel (.inr rfl)).1 b hb

/-- The text the page gets. -/
theorem textDecode_encodeToMemory (bytes : Bytes) : textDecode (encodeToMemory label bytes) =
    beginMarker label ++ pemBody bytes ++ endMarker label ++ js "\n" := by
  have hbeginText := (pemLine_text hlabel (.inl rfl)).2
  have hendText := (pemLine_text hlabel (.inr rfl)).2
  have hbody : js "\n" ++ fromCharCode (lineBreaker 0 (stdEncoding bytes)) = pemBody bytes := rfl
  rw [textDecode_of_lt (lt_of_mem_encodeToMemory hlabel), encodeToMemory, fromCharCode_append,
    fromCharCode_append, hbeginText, hendText, List.append_assoc (js _) (js "\n"), hbody,
    ← List.append_assoc]
  rfl

/-! ### Reading -/

/-- **What the page reads.** Nothing but the first markers and the base64 between them matters. -/
theorem pemToBytes_of_spaced {bytes : Bytes} (hne : bytes ≠ []) {before body after : JSString}
    (hbody : Spaced (pemBody bytes) body) (hbegin : ¬ beginMarker label <:+: before ++ dashes)
    (hend : ¬ endMarker label <:+: before ++ dashes) :
    pemToBytes (before ++ beginMarker label ++ body ++ endMarker label ++ after) label =
      .ok bytes := by
  obtain ⟨⟨w, t, hcons, hw⟩, hdash, hfilter⟩ := hbody.of_pemBody
  obtain ⟨hlength, hends⟩ := marker_ends hlabel (.inl rfl)
  obtain ⟨hlength', hends'⟩ := marker_ends hlabel (.inr rfl)
  have hfirst : ¬ StartsIn (beginMarker label) before
      (beginMarker label ++ (body ++ endMarker label ++ after)) :=
    fun h => hbegin (h.isInfix hlength hends)
  have hlast : ¬ StartsIn (endMarker label) (before ++ beginMarker label ++ body)
      (endMarker label ++ after) := by
    obtain ⟨rest, hdashes⟩ := exists_endMarker_eq hlabel
    rw [startsIn_append_iff, startsIn_append_iff]
    rintro ((h | h) | h)
    · exact hend (h.isInfix hlength' hends')
    · rw [hcons] at h
      exact not_startsIn_beginMarker hlabel hw _ h
    · rw [hdashes] at h
      exact not_startsIn_of_notMem hdash h
  have hbeginIndex := indexOf_append hfirst (List.prefix_append _ _)
  have hendIndex := indexOf_append hlast (List.prefix_append _ _)
  have hslice := slice_append (before ++ beginMarker label) body (endMarker label ++ after)
  rw [← List.append_assoc, List.length_append] at hslice
  have hnonempty : Base64.encode bytes ≠ [] := by
    rw [Base64.encode]
    exact fun h => sextets_ne_nil hne (List.map_eq_nil_iff.mp (List.append_eq_nil_iff.mp h).1)
  have hafter : ¬ (before ++ beginMarker label ++ body).length ≤ before.length := by
    rw [hcons]
    simp only [List.length_append, List.length_cons]
    omega
  have hmarkers : js ("-----BEGIN " ++ label ++ "-----") = beginMarker label ∧
      js ("-----END " ++ label ++ "-----") = endMarker label := ⟨rfl, rfl⟩
  simp only [List.append_assoc] at hbeginIndex hendIndex hslice hafter ⊢
  simp only [pemToBytes, hmarkers, hbeginIndex, hendIndex, if_neg hafter, hslice, hfilter,
    if_neg hnonempty, base64ToBytes_encode]

/-- The markers are longer than their dashes, and stand on one line. -/
private theorem marker_shape {marker : JSString}
    (hmarker : marker = beginMarker label ∨ marker = endMarker label) :
    10 ∉ marker ∧ ¬ marker <:+: dashes := by
  have hall : ∀ label ∈ pemLabels, ∀ marker ∈ [beginMarker label, endMarker label],
      10 ∉ marker ∧ ¬ marker <:+: dashes := by
    decide +kernel
  exact hall label hlabel marker (by simpa using hmarker)

/-- Text without a marker completes none if it is empty or ends in a line break. -/
private theorem not_infix_append_dashes {marker before : JSString}
    (hmarker : marker = beginMarker label ∨ marker = endMarker label) (h : ¬ marker <:+: before)
    (hend : before = [] ∨ before.getLast? = some 10) : ¬ marker <:+: before ++ dashes := by
  obtain ⟨hbreak, hlong⟩ := marker_shape hlabel hmarker
  rw [List.infix_append_iff]
  rintro (hbefore | hdashes | ⟨start, rest, rfl, hstart, hrest⟩)
  · exact h hbefore
  · exact hlong hdashes
  · rcases List.eq_nil_or_concat start with rfl | ⟨start, u, rfl⟩
    · exact hlong hrest.isInfix
    · -- The part of the marker in the text would end in its line break.
      rw [List.concat_eq_append] at hstart hbreak
      have hlast : before.getLast? = some u := by
        obtain ⟨r, rfl⟩ := hstart
        rw [← List.append_assoc, List.getLast?_concat]
      obtain rfl | hend := hend
      · exact absurd hlast nofun
      · obtain rfl := Option.some.inj (hend.symm.trans hlast)
        exact hbreak (by simp)

theorem pemToBytes_textDecode {bytes : Bytes} (hne : bytes ≠ []) :
    pemToBytes (textDecode (encodeToMemory label bytes)) label = .ok bytes := by
  rw [textDecode_encodeToMemory hlabel]
  have hread : pemToBytes ([] ++ beginMarker label ++ pemBody bytes ++ endMarker label ++ js "\n")
      label = .ok bytes :=
    pemToBytes_of_spaced hlabel hne (.refl _) (marker_shape hlabel (.inl rfl)).2
      (marker_shape hlabel (.inr rfl)).2
  exact hread

/-- **Round trip.** The page reads back what the server writes; so it does with any text after the
block and more white space in its body, and with any text before it that neither contains a marker
nor completes one with the dashes of the BEGIN line. Text that is empty or ends in a line break
completes none. -/
theorem pem_round_trip {bytes : Bytes} (hne : bytes ≠ []) :
    pemToBytes (textDecode (encodeToMemory label bytes)) label = .ok bytes ∧
    textDecode (encodeToMemory label bytes) =
      beginMarker label ++ pemBody bytes ++ endMarker label ++ js "\n" ∧
    ∀ before body after, Spaced (pemBody bytes) body → ¬ beginMarker label <:+: before →
      ¬ endMarker label <:+: before →
      (¬ beginMarker label <:+: before ++ dashes ∧ ¬ endMarker label <:+: before ++ dashes ∨
        before = [] ∨ before.getLast? = some 10) →
      pemToBytes (before ++ beginMarker label ++ body ++ endMarker label ++ after) label =
        .ok bytes := by
  refine ⟨pemToBytes_textDecode hlabel hne, textDecode_encodeToMemory hlabel bytes, ?_⟩
  intro before body after hbody hbegin hend hcompletes
  obtain ⟨hbegin', hend'⟩ | hline := hcompletes
  · exact pemToBytes_of_spaced hlabel hne hbody hbegin' hend'
  · exact pemToBytes_of_spaced hlabel hne hbody
      (not_infix_append_dashes hlabel (.inl rfl) hbegin hline)
      (not_infix_append_dashes hlabel (.inr rfl) hend hline)

end

/-- A key of one byte, after a line of text and with CRLF line ends. -/
theorem pem_round_trip_crlf :
    pemToBytes (js "Key:\n" ++ beginMarker "PUBLIC KEY" ++ js "\r\nAQ==\r\n" ++
      endMarker "PUBLIC KEY" ++ js "\r\n") "PUBLIC KEY" = .ok [1] := by
  have hbody : Spaced (pemBody [1]) (js "\r\nAQ==\r\n") :=
    .space (by decide) (.keep 10 (.keep 65 (.keep 81 (.keep 61 (.keep 61 (.space (by decide)
      (.keep 10 .nil)))))))
  exact (pem_round_trip (by decide) (by decide)).2.2 _ _ _ hbody (by decide +kernel)
    (by decide +kernel) (.inr (.inr (by decide)))

/-- A text that contains no marker and ends in all of one but its dashes. -/
theorem pem_round_trip_junction :
    ¬ beginMarker "PUBLIC KEY" <:+: js "-----BEGIN PUBLIC KEY" ∧
      ¬ endMarker "PUBLIC KEY" <:+: js "-----BEGIN PUBLIC KEY" ∧
      pemToBytes (js "-----BEGIN PUBLIC KEY" ++ textDecode (encodeToMemory "PUBLIC KEY" [1]))
        "PUBLIC KEY" ≠ .ok [1] := by
  decide +kernel

/-! ### Importing -/

/-- A public key that the server sends is imported. -/
theorem importRsaPublicKey_encodeToMemory (C : SubtleCrypto) {spki : Bytes} (hne : spki ≠ []) :
    importRsaPublicKey C (textDecode (encodeToMemory "PUBLIC KEY" spki)) =
      settled (C.importSpki spki) :=
  importRsaPublicKey_eq (pemToBytes_textDecode (by decide) hne)

/-- So is a private key. -/
theorem importRsaPrivateKey_encodeToMemory (C : SubtleCrypto) {pkcs8 : Bytes} (hne : pkcs8 ≠ []) :
    importRsaPrivateKey C (textDecode (encodeToMemory "PRIVATE KEY" pkcs8)) =
      settled (C.importPkcs8 pkcs8) :=
  importRsaPrivateKey_eq (pemToBytes_textDecode (by decide) hne)

end KeyBank
