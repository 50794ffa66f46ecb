import KeyBank.Browser.Pem
import KeyBank.Browser.ZeroKnowledge
import KeyBank.Server.Outages
import KeyBank.System.Journal

/-!
# What the readers see

Every note on a share page is paid for by a `Load` that returned a key to this very page
(`World.Fetched`), so what holds of the keys the server delivers holds of the notes the pages show:
no more than one for each `Save` (`notes_once_per_save`), and, if the link is the one a create page
has made, the note that was written there (`notes_as_written`).
-/

namespace KeyBank

open Interleaving

variable {d : Deployment} {W : World d} {es : List (WorldEvent d.platform.crypto)} {x : GoString}

/-! ### Once -/

/-- There are no more elements of one kind in `l` than of another in `t`, if the index of each of
the former stands on one of the latter. -/
private theorem countP_le_of_index {α β : Type} {l : List α} {t : List β} {p : α → Bool}
    {q : β → Bool} (index : β → ℕ)
    (h : ∀ i a, l[i]? = some a → p a = true → ∃ b ∈ t, q b = true ∧ index b = i) :
    l.countP p ≤ t.countP q := by
  have hcount : l.countP p = ((l.zipIdx.filter fun a => p a.1).map Prod.snd).length := by
    have hfst : (l.zipIdx.map Prod.fst).countP p = l.zipIdx.countP fun a => p a.1 :=
      List.countP_map
    rw [List.length_map, ← List.countP_eq_length_filter, ← hfst, List.zipIdx_map_fst]
  have hnodup : ((l.zipIdx.filter fun a => p a.1).map Prod.snd).Nodup := by
    refine (List.filter_sublist.map Prod.snd).nodup ?_
    rw [List.zipIdx_map_snd]
    exact List.nodup_range'
  have hsub : (l.zipIdx.filter fun a => p a.1).map Prod.snd ⊆ (t.filter q).map index := by
    intro i hi
    obtain ⟨⟨a, j⟩, ha, rfl⟩ := List.mem_map.mp hi
    obtain ⟨hmem, hp⟩ := List.mem_filter.mp ha
    obtain ⟨b, hb, hq, hindex⟩ := h j a (List.mem_zipIdx_iff_getElem?.mp hmem) hp
    exact List.mem_map.mpr ⟨b, List.mem_filter.mpr ⟨hb, hq⟩, hindex⟩
  calc l.countP p = _ := hcount
    _ ≤ ((t.filter q).map index).length := (List.subperm_of_subset hnodup hsub).length_le
    _ = t.countP q := by rw [List.length_map, List.countP_eq_length_filter]

namespace World

/-- The number of share pages that show a note of the id. -/
def shown (W : World d) (x : GoString) : ℕ :=
  W.readers.countP fun r => textEncode r.root.shareID = x ∧ r.page.revealed ≠ []

/-- The share page for which a thread of the server works. -/
def readerOf (W : World d) (n : ℕ) : ℕ :=
  match W.exchanges[n]?.map Exchange.client with
  | some (.reader i _) => i
  | _ => 0

/-- **A note is paid for by a key**, delivered to the page that shows it. -/
theorem Inv.shown_le (inv : W.Inv) (x : GoString) : W.shown x ≤ W.trace.countP (delivers x) := by
  refine countP_le_of_index (fun ev => W.readerOf ev.thread) fun i r hr hshown => ?_
  obtain ⟨hid, hrevealed⟩ := of_decide_eq_true hshown
  obtain ⟨note, hnote⟩ := List.exists_mem_of_ne_nil _ hrevealed
  obtain ⟨text, f, ⟨n, ex, call, env, key, hn, hclient, hload, -⟩, -⟩ :=
    (inv.readers i r hr).revealed note hnote
  rw [hid] at hload
  refine ⟨_, hload, delivers_eq_true.mpr ⟨rfl, key, rfl⟩, ?_⟩
  rw [readerOf, hn, Option.map_some, hclient]

end World

/-- What a `Save` stores a record under is what it has drawn. -/
theorem drawnID_of_savedID {σ : Type} {O : Object Api Env σ} (V : Vault O) {s : σ}
    {t : List ApiEvent} (hlegal : O.Legal s t) (hpos : ∀ ev ∈ t, PositiveTTL ev) {ev : ApiEvent}
    (hev : ev ∈ t) (hsaved : savedID ev = some x) : drawnID ev = some x := by
  obtain ⟨i, env, priv, ttl, rfl⟩ := eq_save_of_savedID hsaved
  obtain ⟨u, v, rfl⟩ := List.append_of_mem hev
  obtain ⟨-, hreply, -⟩ := O.legal_append.mp hlegal
  exact (V.save_ok (hpos _ hev _ _ rfl) hreply.symm).1

/-- With draws that do not repeat, an id is saved once at most. -/
theorem countP_saves_le_one {σ : Type} {O : Object Api Env σ} (V : Vault O) {s : σ}
    {t : List ApiEvent} (hlegal : O.Legal s t) (hpos : ∀ ev ∈ t, PositiveTTL ev)
    (hdraws : (drawnIDs t).Nodup) : t.countP (saves x) ≤ 1 :=
  calc t.countP (saves x) ≤ t.countP fun ev => drawnID ev == some x :=
        List.countP_mono_left fun ev hev hsaves => by
          rw [drawnID_of_savedID V hlegal hpos hev (of_decide_eq_true hsaves)]
          exact beq_self_eq_true _
    _ = (drawnIDs t).count x := List.count_filterMap.symm
    _ ≤ 1 := List.nodup_iff_count_le_one.mp hdraws x

/-- **One note for each key.** In every world that is reached, whatever the users, other clients and
the network do and whatever fails: no share page shows two notes, and no more share pages show a
note of an id than keys have been saved under it. So with draws that do not repeat only one page
ever shows a note of the id. -/
theorem notes_once_per_save (hrun : (worldMachine d).run (initWorld d) es = some W)
    (hx : IsID x) :
    (∀ r ∈ W.readers, r.page.revealed.length ≤ 1) ∧ W.shown x ≤ W.trace.countP (saves x) ∧
      ((drawnIDs W.trace).Nodup → W.shown x ≤ 1) := by
  have inv := World.inv_of_run hrun
  obtain ⟨requests, q, hserved, -⟩ := inv.exists_run
  have hpos := positiveTTL_of_run hserved
  have hle : W.shown x ≤ W.trace.countP (saves x) :=
    (inv.shown_le x).trans (countP_delivers_le_of_run hserved hx)
  refine ⟨fun r hr => ?_, hle, fun hdraws => ?_⟩
  · obtain ⟨i, hi⟩ := List.mem_iff_getElem?.mp hr
    exact (inv.readers i r hi).inv.shown
  · exact hle.trans (countP_saves_le_one d.backend.vault hserved.legal hpos hdraws)

/-! ### As written -/

/-- If only one element at most is `p`, any two such are one. -/
theorem eq_of_countP_le_one {α : Type} {l : List α} {p : α → Bool} {a b : α}
    (h : l.countP p ≤ 1) (ha : a ∈ l) (hb : b ∈ l) (hpa : p a = true) (hpb : p b = true) :
    a = b := by
  obtain ⟨u, v, rfl⟩ := List.append_of_mem ha
  rw [List.countP_append, List.countP_cons_of_pos hpa] at h
  rcases List.mem_append.mp hb with hb | hb
  · have hpos : 0 < u.countP p := List.countP_pos_iff.mpr ⟨b, hb, hpb⟩
    omega
  · rcases List.mem_cons.mp hb with rfl | hb
    · rfl
    · have hpos : 0 < v.countP p := List.countP_pos_iff.mpr ⟨b, hb, hpb⟩
      omega

/-- What comes of a delivery: with draws that do not repeat, the key that is delivered under an id
is the key that was saved under it. -/
theorem World.Inv.delivered_eq (inv : W.Inv) (hdraws : (drawnIDs W.trace).Nodup)
    (hcodec : ∀ ev ∈ W.trace, ∀ priv ttl, ev.cmd = .save priv ttl →
      d.backend.RoundTrips ⟨priv, ev.env.now⟩)
    {i j : ℕ} {env env' : Env} {priv key : Bytes} {ttl : Duration} (hx : IsID x)
    (hsave : (⟨i, env, .save priv ttl, .ok x⟩ : ApiEvent) ∈ W.trace)
    (hload : (⟨j, env', .load x, .ok (some key)⟩ : ApiEvent) ∈ W.trace) : key = priv := by
  obtain ⟨requests, q, hserved, -⟩ := inv.exists_run
  have honce := @countP_saves_le_one x _ _ d.backend.vault _ _ hserved.legal
    (positiveTTL_of_run hserved) hdraws
  obtain ⟨pre, post, ht⟩ := List.append_of_mem hload
  obtain ⟨u, i', env₁, priv₁, ttl₁, v, rfl, -, hkey⟩ := deliversLastSave_of_run hserved ht hx
  have hsave₁ : (⟨i', env₁, .save priv₁ ttl₁, .ok x⟩ : ApiEvent) ∈ W.trace := by simp [ht]
  have heq := eq_of_countP_le_one honce hsave hsave₁ (decide_eq_true rfl) (decide_eq_true rfl)
  cases heq
  exact hkey (hcodec _ hsave _ _ rfl)

/-- What is assumed of `generateKey`: it writes the encodings of a matching pair of keys, each as a
PEM block, and the browsers' cryptography imports them. -/
def KeyPair.Generated (C : SubtleCrypto) (Pair : C.PublicKey → C.PrivateKey → Prop)
    (pair : KeyPair) : Prop :=
  ∃ spki pkcs8 pk sk, spki ≠ [] ∧ pkcs8 ≠ [] ∧ pair.pub = encodeToMemory "PUBLIC KEY" spki ∧
    pair.priv = encodeToMemory "PRIVATE KEY" pkcs8 ∧ C.importSpki spki = some pk ∧
    C.importPkcs8 pkcs8 = some sk ∧ Pair pk sk

/-- A link that was made with the public half of a pair is decrypted with the private half, as the
pages get these halves. -/
theorem decrypts_of_generated {C : SubtleCrypto} {Pair : C.PublicKey → C.PrivateKey → Prop}
    (laws : C.Laws Pair) {pair : KeyPair} (hpair : pair.Generated C Pair) {rand : Randomness C}
    {origin : Origin} {id note url : JSString} (hid : Utf16.WellFormed id)
    (hurl : encryptMessage C rand (goText pair.pub) note >>= buildShareURL origin id = .ok url) :
    ∃ f, parseFragment (hashOf url) = .ok f ∧
      decryptMessage C (textDecode pair.priv) f.wrapped f.iv f.ct =
        .ok (textDecode (textEncode note)) := by
  obtain ⟨spki, pkcs8, pk, sk, hspki, hpkcs8, hpub, hpriv, hpk, hsk, hmatch⟩ := hpair
  have hascii := @lt_of_mem_encodeToMemory "PUBLIC KEY" (by decide) spki
  have himport : importRsaPublicKey C (goText pair.pub) = .ok pk := by
    rw [hpub, goText_of_lt hascii, ← textDecode_of_lt hascii,
      importRsaPublicKey_encodeToMemory C hspki, hpk, settled_some]
  have himport' : importRsaPrivateKey C (textDecode pair.priv) = .ok sk := by
    rw [hpriv, importRsaPrivateKey_encodeToMemory C hpkcs8, hsk, settled_some]
  -- Of the note only the characters are encrypted.
  have hnote : encryptMessage C rand (goText pair.pub) note =
      encryptMessage C rand (goText pair.pub) (Utf16.encode (Utf16.decode note)) := by
    simp only [encryptMessage, textEncode, Utf16.decode_encode]
  have hreceived := @received_eq C Pair laws rand origin id _ _ pk sk hmatch himport himport' hid
    (Utf16.decode note)
  rw [hnote] at hurl
  rw [received] at hreceived
  rcases hencrypted : encryptMessage C rand (goText pair.pub) (Utf16.encode (Utf16.decode note))
    with e | encrypted
  · rw [hencrypted] at hurl
    cases hurl
  · rw [hencrypted] at hurl hreceived
    have hbuild : buildShareURL origin id encrypted = .ok url := hurl
    simp only [bind, Except.bind, hbuild] at hreceived
    split at hreceived
    · cases hreceived
    · next f hparse =>
      refine ⟨f, hparse, ?_⟩
      rw [hreceived, textEncode, textDecode, Utf8.decode_encode]

/-- An id of the server is the same text for the page. -/
theorem textEncode_goText_of_isID (hx : IsID x) : textEncode (goText x) = x := by
  obtain ⟨bytes, rfl⟩ := hx
  have hall : ∀ n < 16, (hexDigit n).toNat < 128 := by decide
  have hascii : ∀ b ∈ hexEncodeToString bytes.toList, b.toNat < 128 := by
    intro b hb
    obtain ⟨byte, -, hb⟩ := List.mem_flatMap.mp hb
    have hlt := byte.toNat_lt
    simp only [List.mem_cons, List.not_mem_nil, or_false] at hb
    rcases hb with rfl | rfl
    · exact hall _ (by omega)
    · exact hall _ (by omega)
  obtain ⟨cs, hcs, -⟩ := exists_encode_of_lt hascii
  rw [hcs, textEncode_goText]

/-- The private half a link can be opened with: what was saved under the id of the link. -/
theorem World.Inv.saved_of_made (inv : W.Inv) {root : CreateRoot} {link : Link}
    (hmade : W.Made root link) :
    ∃ n ex env ttl pair rand, W.exchanges[n]? = some ex ∧ ex.request.keyPair = some pair ∧
      IsID (textEncode link.id) ∧ link.id = goText (textEncode link.id) ∧
      (⟨n, env, .save pair.priv ttl, .ok (textEncode link.id)⟩ : ApiEvent) ∈ W.trace ∧
      encryptMessage d.platform.crypto rand (goText pair.pub) link.note >>=
        buildShareURL root.origin link.id = .ok link.url := by
  obtain ⟨rand, key, ⟨n, ex, env, ttl, id, pair, hn, hpair, hsave, rfl⟩, hid, hurl⟩ := hmade
  obtain ⟨requests, q, hserved, -⟩ := inv.exists_run
  have hdraw := drawnID_of_savedID d.backend.vault hserved.legal (positiveTTL_of_run hserved)
    hsave rfl
  have hx := isID_of_drawnID hdraw
  have htext : textEncode link.id = id := by rw [hid, textEncode_goText_of_isID hx]
  rw [htext]
  refine ⟨n, ex, env, ttl, pair, rand, hn, hpair, hx, hid, hsave, ?_⟩
  rwa [hid]

/-- **Notes come out as they went in.** In every world that is reached with draws that do not repeat
and keys as `generateKey` makes them: a link that a create page has made is accepted, and what a
share page shows with the id and the fragment of the link is the note the link was made for, less a
byte order mark. No such page fails to decrypt a key it has got. -/
theorem notes_as_written
    {Pair : d.platform.crypto.PublicKey → d.platform.crypto.PrivateKey → Prop}
    (laws : d.platform.crypto.Laws Pair)
    (hrun : (worldMachine d).run (initWorld d) es = some W)
    (hkeys : ∀ ex ∈ W.exchanges, ∀ pair, ex.request.keyPair = some pair →
      pair.Generated d.platform.crypto Pair)
    (hdraws : (drawnIDs W.trace).Nodup)
    (hcodec : ∀ ev ∈ W.trace, ∀ priv ttl, ev.cmd = .save priv ttl →
      d.backend.RoundTrips ⟨priv, ev.env.now⟩)
    {c : Creator} (hc : c ∈ W.creators) {link : Link} (hlink : link ∈ c.made) :
    ∃ f, parseFragment (hashOf link.url) = .ok f ∧
      ∀ r ∈ W.readers, r.root.shareID = link.id → r.page.fragment = some f →
        (∀ note ∈ r.page.revealed, note = textDecode (textEncode link.note)) ∧
        ∀ (call : ℕ) (text : JSString) (f' : Fragment),
          r.page.handlers[call]? = some (.decrypting text f') →
            decryptMessage d.platform.crypto text f'.wrapped f'.iv f'.ct =
              .ok (textDecode (textEncode link.note)) := by
  have inv := World.inv_of_run hrun
  obtain ⟨n, ex, env, ttl, pair, rand, hn, hpair, hx, hid, hsave, hurl⟩ :=
    inv.saved_of_made (inv.made c hc link hlink)
  have hwell : Utf16.WellFormed link.id := ⟨_, hid⟩
  obtain ⟨f, hparse, hdecrypt⟩ := decrypts_of_generated laws
    (hkeys ex (List.mem_of_getElem? hn) pair hpair) hwell hurl
  refine ⟨f, hparse, fun r hr hroot hf => ?_⟩
  obtain ⟨i, hi⟩ := List.mem_iff_getElem?.mp hr
  have keeps := inv.readers i r hi
  -- The only key that is ever fetched under the id is the private half.
  have hfetched {text : JSString} (htext : W.Fetched i r.root text) :
      text = textDecode pair.priv := by
    obtain ⟨n', ex', call, env', key, -, -, hload, rfl⟩ := htext
    rw [hroot] at hload
    rw [inv.delivered_eq hdraws hcodec hx hsave hload]
  refine ⟨fun note hnote => ?_, fun call text f' hcall => ?_⟩
  · obtain ⟨text, f', htext, hf', hresult⟩ := keeps.revealed note hnote
    rw [hf, Option.some.injEq] at hf'
    subst hf'
    rw [hfetched htext, hdecrypt] at hresult
    exact (Except.ok.inj hresult).symm
  · obtain ⟨htext, hf'⟩ := keeps.decrypting call text f' hcall
    rw [hf, Option.some.injEq] at hf'
    subst hf'
    rw [hfetched htext, hdecrypt]

/-! ### A note on its way -/

open SharePage (clearPlatform)

/-- The in-memory store, and browsers whose cryptography hides nothing. -/
abbrev sampleDeployment : Deployment := ⟨.mem, emptyAssets, .new none, false, clearPlatform⟩

def sampleConnection (pair : Option KeyPair) : Connection := ⟨lit "203.0.113.7:4711", [], pair⟩

def samplePair : KeyPair :=
  ⟨encodeToMemory "PUBLIC KEY" [1], encodeToMemory "PRIVATE KEY" [2]⟩

/-- A note is written, and its link is made. -/
def writing : List (WorldEvent clearPlatform.crypto) :=
  [.openCreator sampleCreateRoot [], .creator 0 (.input (js "a")) (sampleConnection none),
    .creator 0 (.choose 0) (sampleConnection none),
    .creator 0 (.submit true) (sampleConnection (some samplePair)),
    .serve 0 (stepAt 0), .serve 0 (stepAt 0), .respond 0, .readBody 0,
    .creator 0 (.encrypted 0 clearRandomness true) (sampleConnection none)]

/-- The link. -/
def sampleURL : JSString :=
  (encryptMessage clearCrypto clearRandomness (goText samplePair.pub) (js "a") >>=
    buildShareURL localOrigin (goText zeroID)).toOption.getD []

def sampleLink : Link := ⟨js "a", goText zeroID, sampleURL⟩

/-- The address the link leads to. -/
def linkLocation : URL :=
  ⟨localOrigin, js "/share/" ++ goText zeroID, [], some (hashOf sampleURL).tail⟩

/-- The link is opened, and the note is read. -/
def reading : List (WorldEvent clearPlatform.crypto) :=
  [.openReader ⟨goText zeroID, []⟩ linkLocation [], .reader 0 .click (sampleConnection none),
    .serve 1 (stepAt 5), .serve 1 (stepAt 6), .respond 1, .readBody 1,
    .reader 0 (.decrypted 0) (sampleConnection none)]

/-- What there is to see after both. -/
private theorem exists_readRun :
    ∃ W, (worldMachine sampleDeployment).run (initWorld sampleDeployment) (writing ++ reading) =
        some W ∧ W.creators.map Creator.made = [[sampleLink]] ∧
      (W.exchanges.map fun ex => ex.request.keyPair) = [some samplePair, none] ∧
      drawnIDs W.trace = [zeroID] ∧ (W.readers.map fun r => r.page.revealed) = [[js "a"]] := by
  have hany : ((worldMachine sampleDeployment).run (initWorld sampleDeployment)
      (writing ++ reading)).any (fun W => W.creators.map Creator.made = [[sampleLink]] ∧
        (W.exchanges.map fun ex => ex.request.keyPair) = [some samplePair, none] ∧
        drawnIDs W.trace = [zeroID] ∧ (W.readers.map fun r => r.page.revealed) = [[js "a"]]) =
      true := by
    decide +kernel
  obtain ⟨W, hrun, hseen⟩ := (Option.any_eq_true _ _).mp hany
  exact ⟨W, hrun, of_decide_eq_true hseen⟩

/-- The pair is one that `generateKey` could have made. -/
theorem generated_samplePair : samplePair.Generated clearCrypto fun _ _ => True :=
  ⟨[1], [2], (), (), by simp, by simp, rfl, rfl, rfl, rfl, trivial⟩

theorem notes_once_per_save_readRun :
    ∃ W, (worldMachine sampleDeployment).run (initWorld sampleDeployment) (writing ++ reading) =
        some W ∧ (W.readers.map fun r => r.page.revealed) = [[js "a"]] ∧ W.shown zeroID ≤ 1 := by
  obtain ⟨W, hrun, -, -, hdraws, hrevealed⟩ := exists_readRun
  refine ⟨W, hrun, hrevealed, (notes_once_per_save hrun isID_zeroID).2.2 ?_⟩
  rw [hdraws]
  exact List.nodup_singleton _

theorem notes_as_written_readRun :
    ∃ W f, (worldMachine sampleDeployment).run (initWorld sampleDeployment) (writing ++ reading) =
        some W ∧ parseFragment (hashOf sampleLink.url) = .ok f ∧
      ∀ r ∈ W.readers, r.root.shareID = sampleLink.id → r.page.fragment = some f →
        ∀ note ∈ r.page.revealed, note = textDecode (textEncode sampleLink.note) := by
  obtain ⟨W, hrun, hmade, hpairs, hdraws, -⟩ := exists_readRun
  have hkeys : ∀ ex ∈ W.exchanges, ∀ pair, ex.request.keyPair = some pair →
      pair.Generated clearCrypto fun _ _ => True := by
    intro ex hex pair hpair
    have hmem : some pair ∈ W.exchanges.map fun ex => ex.request.keyPair :=
      List.mem_map.mpr ⟨ex, hex, hpair⟩
    rw [hpairs] at hmem
    obtain rfl : pair = samplePair := by simpa using hmem
    exact generated_samplePair
  obtain ⟨c, hc, hlinks⟩ : ∃ c ∈ W.creators, c.made = [sampleLink] := by
    have hmem : [sampleLink] ∈ W.creators.map Creator.made := by rw [hmade]; simp
    exact List.mem_map.mp hmem
  obtain ⟨f, hparse, hreaders⟩ := notes_as_written clearCrypto_laws hrun hkeys
    (by rw [hdraws]; exact List.nodup_singleton _) (fun _ _ _ _ _ => trivial) hc
    (hlinks ▸ List.mem_singleton_self sampleLink)
  exact ⟨W, f, hrun, hparse, fun r hr hid hf => (hreaders r hr hid hf).1⟩

end KeyBank
