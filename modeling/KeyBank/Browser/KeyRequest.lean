import KeyBank.Browser.Agreement
import KeyBank.Server.Routes

/-!
# The way of an id

The share page asks for the key with the id the server put on the page: `fetchKey` writes it as one
segment of a path, the browser resolves the path, the server's multiplexer takes the segment back
out and `FetchKey` loads what it finds there. Percent-encoding is undone by the multiplexer for
every text. Three ids get lost all the same: the browser takes `.` and `..` for dot segments, and
the multiplexer does not let a wildcard match the segment `/`, even if it was escaped.

`fetchKey_reaches_iff` says that there are no others.
-/

namespace KeyBank

open Interleaving ServeMux

/-- The ids no request of the page can name. -/
def unfetchable : List JSString := [js ".", js "..", js "/"]

/-- The request is served by `FetchKey`: the limiter is asked, and when it lets the request pass,
the key under the id is loaded, and whatever comes of that is answered. -/
def FetchesKey (app : Handler) (trustXFF : Bool) (r : Request) (id : GoString) : Prop :=
  ∃ (next : Bool → Prog Api Exit) (answer : Except StoreError (Option Bytes) → Prog Api Exit),
    app .new r = .call (.allow .fetch (remoteIP r trustXFF)) next ∧
    next true = .call (.load id) answer ∧
    ∀ loaded, ∃ w : ResponseWriter, w.Fresh ∧
      answer loaded = .done ⟨Handlers.keyLoaded w loaded, false⟩

/-- The request is answered with an error, and no call is made for it. -/
def AnsweredWithError (app : Handler) (r : Request) : Prop :=
  ∃ e, app .new r = .done e ∧ isOkStatus e.w.status = false

/-! ### The browser -/

/-- The segment `encodeURIComponent` makes of a text, in bytes. -/
def idSegment (cs : List Char) : Text :=
  Utf8.encode (UrlText.percentEncode (fun c => !isComponentUnreserved c) cs)

theorem pathUnescape_idSegment (cs : List Char) : pathUnescape (idSegment cs) = Utf8.encode cs :=
  pathUnescape_percentEncode (by decide) cs

theorem slash_notMem_idSegment (cs : List Char) : 47 ∉ idSegment cs :=
  Utf8.notMem_encode (d := '/') (by decide)
    (UrlText.notMem_percentEncode (by decide) (by decide) cs)

/-- An id is encoded if it is well-formed, and what the segment spells is the id. -/
theorem encodeURIComponent_eq_ok {id encoded : JSString} (h : encodeURIComponent id = .ok encoded) :
    id = Utf16.encode (Utf16.decode id) ∧ ∀ s : String,
      textEncode (js s ++ encoded) = lit s ++ idSegment (Utf16.decode id) := by
  rw [encodeURIComponent] at h
  split at h
  · next hid =>
    obtain rfl := Except.ok.inj h
    refine ⟨hid.symm, fun s => ?_⟩
    rw [textEncode, js, ← Utf16.encode_append, Utf16.decode_encode, Utf8.encode_append]
    rfl
  · cases h

/-- A segment that spells a literal is the segment of that literal. -/
private theorem id_eq_of_encoded {id encoded : JSString} {s : String}
    (h : encodeURIComponent id = .ok encoded)
    (hs : pathUnescape (textEncode encoded) = lit s) : id = js s := by
  obtain ⟨hid, hencoded⟩ := encodeURIComponent_eq_ok h
  rw [show textEncode encoded = idSegment (Utf16.decode id) from hencoded "",
    pathUnescape_idSegment] at hs
  have hchars : Utf16.decode id = s.toList := Utf8.encode_injective hs
  rw [hid, hchars]
  rfl

/-- Only the dot segments themselves are taken for dot segments. -/
theorem isSegment_iff {id encoded : JSString} (h : encodeURIComponent id = .ok encoded) :
    isSegment id = true ↔ id ≠ js "." ∧ id ≠ js ".." := by
  rw [isSegment, h, Bool.and_eq_true, Bool.not_eq_true', Bool.not_eq_true']
  constructor
  · rintro ⟨hsingle, hdouble⟩
    constructor
    · rintro rfl
      have hdot : encodeURIComponent (js ".") = .ok (js ".") := by decide +kernel
      obtain rfl := Except.ok.inj (h.symm.trans hdot)
      exact absurd hsingle (by decide)
    · rintro rfl
      have hdots : encodeURIComponent (js "..") = .ok (js "..") := by decide +kernel
      obtain rfl := Except.ok.inj (h.symm.trans hdots)
      exact absurd hdouble (by decide)
  · rintro ⟨hne, hne'⟩
    constructor
    · rw [← Bool.not_eq_true]
      intro hsingle
      refine hne (id_eq_of_encoded h ?_)
      simp only [isSingleDot, List.contains_eq_mem, List.mem_cons, List.not_mem_nil, or_false,
        decide_eq_true_eq] at hsingle
      rcases hsingle with rfl | rfl | rfl <;> decide +kernel
    · rw [← Bool.not_eq_true]
      intro hdouble
      refine hne' (id_eq_of_encoded h ?_)
      simp only [isDoubleDot, List.contains_eq_mem, List.mem_cons, List.not_mem_nil, or_false,
        decide_eq_true_eq] at hdouble
      rcases hdouble with rfl | rfl | rfl | rfl | rfl | rfl | rfl | rfl | rfl <;> decide +kernel

theorem method_of_fetchKeyRequest {id : JSString} {request : FetchRequest}
    (h : fetchKeyRequest id = .ok request) : request.method = js "GET" := by
  rcases hencoded : encodeURIComponent id with e | encoded
  · rw [fetchKeyRequest, hencoded] at h
    cases h
  · rw [fetchKeyRequest, hencoded] at h
    obtain rfl := Except.ok.inj h
    rfl

theorem Arrives.fetchKey_method {id : JSString} {request : FetchRequest} {r : Request}
    (hrequest : fetchKeyRequest id = .ok request) (hr : Arrives request.wire r) :
    r.method = "GET" :=
  js_injective (hr.method.trans (method_of_fetchKeyRequest hrequest))

/-- What `fetchKey` sends for an id that is no dot segment. -/
theorem Arrives.fetchKey {id : JSString} {request : FetchRequest} {r : Request}
    (hrequest : fetchKeyRequest id = .ok request) (hr : Arrives request.wire r)
    (hdots : id ≠ js "." ∧ id ≠ js "..") :
    r.method = "GET" ∧ r.requestURI = r.path ∧
      r.path = joinPath [lit "api", lit "keys", idSegment (Utf16.decode id)] := by
  rcases hencoded : encodeURIComponent id with e | encoded
  · rw [fetchKeyRequest, hencoded] at hrequest
    cases hrequest
  · rw [wire_fetchKeyRequest ((isSegment_iff hencoded).mpr hdots) hrequest] at hr
    rw [fetchKeyRequest, hencoded] at hrequest
    obtain rfl := Except.ok.inj hrequest
    obtain ⟨hmethod, huri, hpath, -⟩ := hr
    refine ⟨js_injective hmethod, hpath.symm, ?_⟩
    rw [hpath, huri]
    have hprefix : lit "/api/keys/" = 47 :: (lit "api" ++ slash ++ (lit "keys" ++ slash)) := by
      decide
    rw [FetchRequest.told, (encodeURIComponent_eq_ok hencoded).2, hprefix, joinPath,
      List.intercalate_cons_cons, List.intercalate_cons_cons, List.intercalate_singleton]
    simp only [List.cons_append, List.append_assoc]

/-! ### The server -/

section Server

variable {assets : Assets} {decode : Decoder} {h : Handlers} {trustXFF : Bool}

/-- Every other id arrives at `FetchKey`. -/
theorem fetchesKey_of_arrives {id : JSString} {request : FetchRequest} {r : Request}
    (hrequest : fetchKeyRequest id = .ok request) (hr : Arrives request.wire r) (hne : id ≠ [])
    (hid : id ∉ unfetchable) :
    FetchesKey (appHandler assets decode h trustXFF) trustXFF r (textEncode id) := by
  simp only [unfetchable, List.mem_cons, List.not_mem_nil, or_false, not_or] at hid
  obtain ⟨hdot, hdots, hslash⟩ := hid
  obtain ⟨hmethod, huri, hpath⟩ := hr.fetchKey hrequest ⟨hdot, hdots⟩
  rcases hencoded : encodeURIComponent id with e | encoded
  · rw [fetchKeyRequest, hencoded] at hrequest
    cases hrequest
  obtain ⟨hwell, -⟩ := encodeURIComponent_eq_ok hencoded
  -- What the segment spells tells what it is.
  have hspells {s : String} (hs : pathUnescape (idSegment (Utf16.decode id)) = lit s) :
      id = js s := by
    rw [pathUnescape_idSegment] at hs
    have hchars : Utf16.decode id = s.toList := Utf8.encode_injective hs
    rw [hwell, hchars]
    rfl
  obtain ⟨w, hw, happ⟩ := @appHandler_getKey assets decode h trustXFF r _ hmethod huri hpath
    ⟨slash_notMem_idSegment _, fun heq => hne (hspells (s := "") (by rw [heq]; rfl)),
      fun heq => hdot (hspells (by rw [heq]; decide)),
      fun heq => hdots (hspells (by rw [heq]; decide))⟩
    fun heq => hslash (hspells (by rw [heq]; decide))
  rw [pathUnescape_idSegment] at happ
  refine ⟨_, _, happ, rfl, fun loaded => ⟨w, hw, rfl⟩⟩

/-- A path that leads to `NotFoundPage` is answered at once, and with an error. -/
private theorem done_of_notFound {r : Request} {m m' : List GoString}
    (hroot : findHandler (rootMux assets decode h trustXFF) r.method r.requestURI r.path =
      .handler (dynamicHandler decode h trustXFF) m)
    (hdynamic : findHandler (dynamicMux decode h trustXFF) r.method r.requestURI r.path =
      .handler h.notFoundPage m') :
    AnsweredWithError (appHandler assets decode h trustXFF) r := by
  have hw := ((ResponseWriter.fresh_new.setHeaders hardeningHeaders).setHeader "Cache-Control"
    (lit "no-store"))
  rw [AnsweredWithError, appHandler, serveMux, hroot]
  simp only [dynamicHandler, chain, List.foldr, panicRecover, securityHeaders, serveMux, hdynamic,
    Handlers.notFoundPage, Handlers.renderPage]
  split
  · exact ⟨_, rfl, by rw [hw.status_error]; rfl⟩
  · refine ⟨_, rfl, ?_⟩
    rw [(hw.setHeader _ _).status_writeHeader_write]
    rfl

/-- The others arrive where no page is: no call is made, and no key is sent. -/
theorem done_of_arrives {id : JSString} {request : FetchRequest} {r : Request}
    (hrequest : fetchKeyRequest id = .ok request) (hr : Arrives request.wire r)
    (hid : id ∈ unfetchable) :
    AnsweredWithError (appHandler assets decode h trustXFF) r := by
  have hserved (target : String)
      (hwire : (fetchKeyRequest id).map FetchRequest.wire = .ok ⟨js "GET", js target, none⟩)
      (hmux : ∃ m m', findHandler (rootMux assets decode h trustXFF) "GET" (lit target)
          (lit target) = .handler (dynamicHandler decode h trustXFF) m ∧
        findHandler (dynamicMux decode h trustXFF) "GET" (lit target) (lit target) =
          .handler h.notFoundPage m') :
      AnsweredWithError (appHandler assets decode h trustXFF) r := by
    rw [hrequest] at hwire
    obtain ⟨hmethod, huri, hpath, -⟩ := hr
    rw [Except.ok.inj hwire] at hmethod huri
    have hmethod : r.method = "GET" := js_injective hmethod
    have huri : r.requestURI = lit target := huri.trans (textEncode_js target)
    obtain ⟨m, m', hroot, hdynamic⟩ := hmux
    refine @done_of_notFound _ _ _ _ r m m' ?_ ?_ <;> rwa [hmethod, hpath, huri]
  simp only [unfetchable, List.mem_cons, List.not_mem_nil, or_false] at hid
  rcases hid with rfl | rfl | rfl
  · exact hserved "/api/keys/" (by decide +kernel) ⟨_, _, rfl, rfl⟩
  · exact hserved "/api/" (by decide +kernel) ⟨_, _, rfl, rfl⟩
  · exact hserved "/api/keys/%2F" (by decide +kernel) ⟨_, _, rfl, rfl⟩

/-- **The way of an id.** Whatever text the id is: the request of the share page is served by
`FetchKey` with this very text, exactly if it is none of `.`, `..` and `/`; and if it is, the
request is answered with an error and without a look at the store. -/
theorem fetchKey_reaches_iff {id : JSString} {request : FetchRequest} {r : Request}
    (hrequest : fetchKeyRequest id = .ok request) (hr : Arrives request.wire r) (hne : id ≠ []) :
    (FetchesKey (appHandler assets decode h trustXFF) trustXFF r (textEncode id) ↔
        id ∉ unfetchable) ∧
      (id ∈ unfetchable → AnsweredWithError (appHandler assets decode h trustXFF) r) := by
  refine ⟨⟨fun hfetches hid => ?_, fetchesKey_of_arrives hrequest hr hne⟩,
    done_of_arrives hrequest hr⟩
  obtain ⟨next, -, happ, -⟩ := hfetches
  obtain ⟨e, hdone, -⟩ := @done_of_arrives assets decode h trustXFF id _ r hrequest hr hid
  rw [happ] at hdone
  cases hdone

end Server

/-- An id with characters of every kind: a slash, a percent sign, a letter outside ASCII. -/
def oddID : JSString := js "a/b%2F?é"

theorem fetchKey_reaches_oddID :
    ∃ request, fetchKeyRequest oddID = .ok request ∧
      FetchesKey (appHandler emptyAssets decodeEmpty (.new none) false) false
        { bareRequest "GET" "" none with
          requestURI := textEncode request.wire.target
          path := textEncode request.wire.target } (lit "a/b%2F?é") := by
  obtain ⟨request, hrequest⟩ : ∃ request, fetchKeyRequest oddID = .ok request := ⟨_, rfl⟩
  have hwire : (fetchKeyRequest oddID).map (fun q => (q.wire.method, q.wire.body)) =
      .ok (js "GET", none) := by decide +kernel
  rw [hrequest] at hwire
  obtain ⟨hmethod, hbody⟩ := Prod.mk.inj (Except.ok.inj hwire)
  refine ⟨request, hrequest, ?_⟩
  have hreaches := @fetchKey_reaches_iff emptyAssets decodeEmpty (.new none) false _ _
    { bareRequest "GET" "" none with
      requestURI := textEncode request.wire.target
      path := textEncode request.wire.target }
    hrequest ⟨hmethod.symm, rfl, rfl, by rw [hbody]; rfl⟩ (by decide)
  have htext : textEncode oddID = lit "a/b%2F?é" := textEncode_js _
  rw [htext] at hreaches
  exact hreaches.1.mpr (by decide +kernel)

end KeyBank
