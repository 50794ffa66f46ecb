import KeyBank.Server.Middleware

/-!
# The handlers

`handlers/handlers.go`. A `Handlers` value carries the bounds on its maximal lifetime as fields:
`New` starts at the seven-day ceiling and `SetMaxTTL` accepts nothing outside the bounds, so no
other value can be built.

What `encoding/json` reads from a body and what the page templates render are parameters.
-/

namespace KeyBank

open Interleaving

def minTTL : Duration := 60 * Duration.second
def maxAllowedTTL : Duration := 7 * 24 * Duration.hour
def defaultTTL : Duration := 24 * Duration.hour
def defaultAutoHideSeconds : ℤ := 60

/-! ### Templates -/

/-- `VendorScript`. -/
structure VendorScript where
  src : String
  integrity : String
  deriving DecidableEq, Repr

/-- `pageData`. -/
structure PageData where
  title : String
  page : String
  bodyClass : String
  bodyTemplate : String
  scriptPath : String
  vendorScripts : List VendorScript
  shareID : GoString
  autoHideSeconds : ℤ
  maxTTLSeconds : Int64
  statusCode : ℕ

/-- A page with the zero value in every field. -/
def PageData.zero : PageData := ⟨"", "", "", "", "", [], [], 0, 0, 0⟩

/-- `ExecuteTemplate` on the template `base`; `none` is an error. -/
abbrev Templates : Type := PageData → Option Bytes

/-! ### `Handlers` -/

/-- `Handlers`; the store is the shared state. -/
structure Handlers where
  templates : Option Templates
  autoHide : ℤ
  maxTTL : Duration
  minTTL_le : minTTL ≤ maxTTL
  maxTTL_le : maxTTL ≤ maxAllowedTTL

namespace Handlers

/-- `New`. -/
def new (templates : Option Templates) : Handlers :=
  ⟨templates, defaultAutoHideSeconds, maxAllowedTTL, by decide, by decide⟩

/-- `SetAutoHideSeconds`. -/
def setAutoHideSeconds (h : Handlers) (seconds : ℤ) : Handlers :=
  if 0 < seconds then { h with autoHide := seconds } else h

/-- `SetMaxTTL`. -/
def setMaxTTL (h : Handlers) (ttl : Duration) : Handlers :=
  if hb : minTTL ≤ ttl ∧ ttl ≤ maxAllowedTTL then
    { h with maxTTL := ttl, minTTL_le := hb.1, maxTTL_le := hb.2 }
  else h

end Handlers

/-! ### Reading the request body -/

/-- The errors of `Decode` the handler tells apart: `io.EOF`, `*http.MaxBytesError`, others. -/
inductive DecodeError where
  | eof
  | maxBytes
  | other
  deriving DecidableEq, Repr

/-- What two calls of `Decode` on a body give: the first into a `*createKeyRequest`, which
`null` leaves `nil` and which otherwise holds a `ttl`, the second into an empty struct. -/
structure Decoded where
  first : Except DecodeError (Option Int64)
  second : Option DecodeError

/-- `json.NewDecoder` with `DisallowUnknownFields`. -/
abbrev Decoder : Type := Body → Decoded

/-- `writeJSONError`. -/
def writeJSONError (w : ResponseWriter) (status : ℕ) (code : String) : ResponseWriter :=
  ((w.setHeader "Content-Type" (lit "application/json")).writeHeader status).write
    (.json [("error", lit code)])

/-- `writeDecodeError`; the error is `nil` when a second value was decoded. -/
def writeDecodeError (w : ResponseWriter) (err : Option DecodeError) : ResponseWriter :=
  if err = some .maxBytes then writeJSONError w 413 "request_body_too_large"
  else writeJSONError w 400 "invalid_request"

/-! ### The handlers -/

namespace Handlers

variable (h : Handlers)

/-- The lifetime `CreateKey` gives a key for the requested number of seconds; `none` is
`invalid_ttl`. -/
def requestedTTL (ttl : Int64) : Option Duration :=
  if ttl = 0 then some (if defaultTTL > h.maxTTL then h.maxTTL else defaultTTL)
  else if ttl < minTTL / Duration.second ∨ ttl > h.maxTTL / Duration.second then none
  else some (ttl * Duration.second)

/-- The end of `CreateKey`, from the answer of `Save` on. -/
def keySaved (w : ResponseWriter) (key : KeyPair) :
    Except StoreError GoString → ResponseWriter
  | .error _ => w.error "internal error" 500
  | .ok id =>
    ((w.setHeader "Content-Type" (lit "application/json")).writeHeader 201).write
      (.json [("id", id), ("pub_pem", key.pub)])

/-- `CreateKey` from the lifetime on: generate a pair, save its private half, answer with the
public half. -/
def generateAndSave (ttl : Duration) : Handler := fun w r =>
  match r.keyPair with
  | none => finish (w.error "internal error" 500)
  | some key => .call (.save key.priv ttl) fun saved => finish (keySaved w key saved)

/-- `CreateKey` on a request that asks for `ttl` seconds. -/
def createKeyFor (ttl : Int64) : Handler := fun w r =>
  match h.requestedTTL ttl with
  | none => finish (writeJSONError w 400 "invalid_ttl")
  | some ttl => generateAndSave ttl w r

/-- `CreateKey`. -/
def createKey (decode : Decoder) : Handler := fun w r =>
  match (decode r.body).first with
  | .error .eof => h.createKeyFor 0 w r
  | .error err => finish (writeDecodeError w (some err))
  | .ok none => finish (writeJSONError w 400 "invalid_request")
  | .ok (some ttl) =>
    match (decode r.body).second with
    | some .eof => h.createKeyFor ttl w r
    | err => finish (writeDecodeError w err)

/-- The end of `FetchKey`, from the answer of `Load` on. -/
def keyLoaded (w : ResponseWriter) : Except StoreError (Option Bytes) → ResponseWriter
  | .error _ => w.error "internal error" 500
  | .ok none => w.notFound
  | .ok (some key) => (w.writeHeader 200).write (.bytes key)

/-- `FetchKey`. -/
def fetchKey : Handler := fun w r =>
  .call (.load r.pathValueId) fun loaded => finish (keyLoaded w loaded)

/-- `renderPage`. -/
def renderPage (w : ResponseWriter) (data : PageData) : Prog Api Exit :=
  match h.templates.bind fun execute => execute data with
  | none => finish (w.error "internal error" 500)
  | some body =>
    finish (((w.setHeader "Content-Type" (lit "text/html; charset=utf-8")).writeHeader
      (if data.statusCode = 0 then 200 else data.statusCode)).write (.bytes body))

/-- `HomePage`. -/
def homePage : Handler := fun w _ =>
  h.renderPage w
    { PageData.zero with
      title := "Create a secure note"
      page := "create"
      bodyClass := "page-create"
      bodyTemplate := "create-body"
      scriptPath := "/static/app.js"
      vendorScripts := [{
        src := "/static/qrcode.js"
        integrity := "sha384-ahLw45Nl1X/zUAno5v8A1m7qYEzDIOrQtPeIGkG/a+vFi9BC17OhLEhzDJZUHqN2" }]
      autoHideSeconds := h.autoHide
      maxTTLSeconds := h.maxTTL / Duration.second }

/-- What `HomePage` renders. -/
def homePageData : PageData :=
  { PageData.zero with
    title := "Create a secure note"
    page := "create"
    bodyClass := "page-create"
    bodyTemplate := "create-body"
    scriptPath := "/static/app.js"
    vendorScripts := [{
      src := "/static/qrcode.js"
      integrity := "sha384-ahLw45Nl1X/zUAno5v8A1m7qYEzDIOrQtPeIGkG/a+vFi9BC17OhLEhzDJZUHqN2" }]
    autoHideSeconds := h.autoHide
    maxTTLSeconds := h.maxTTL / Duration.second }

theorem homePage_eq : h.homePage = fun w _ => h.renderPage w h.homePageData := rfl

/-- `NotFoundPage`. -/
def notFoundPage : Handler := fun w _ =>
  h.renderPage w
    { PageData.zero with
      title := "Page not found"
      page := "error"
      bodyClass := "page-error"
      bodyTemplate := "error-body"
      statusCode := 404 }

/-- `SharePage`. -/
def sharePage : Handler := fun w r =>
  h.renderPage w
    { PageData.zero with
      title := "Open a shared note"
      page := "share"
      bodyClass := "page-share"
      bodyTemplate := "share-body"
      scriptPath := "/static/app.js"
      shareID := r.pathValueId
      autoHideSeconds := h.autoHide }

/-! ### What a request asks for -/

/-- The number of seconds a body asks for, if `CreateKey` accepts the body; an empty body asks
for zero. -/
def requestedSeconds (d : Decoded) : Option Int64 :=
  match d.first, d.second with
  | .error .eof, _ => some 0
  | .ok (some ttl), some .eof => some ttl
  | _, _ => none

variable {h}

theorem status_writeJSONError {w : ResponseWriter} (hw : w.Fresh) (status : ℕ) (code : String) :
    (writeJSONError w status code).status = status :=
  (hw.setHeader _ _).status_writeHeader_write status _

theorem status_writeDecodeError {w : ResponseWriter} (hw : w.Fresh) (err : Option DecodeError) :
    (writeDecodeError w err).status = 400 ∨ (writeDecodeError w err).status = 413 := by
  unfold writeDecodeError
  split
  · exact .inr (status_writeJSONError hw 413 _)
  · exact .inl (status_writeJSONError hw 400 _)

/-- `CreateKey` goes on with the number of seconds the body asks for. -/
theorem createKey_of_seconds {decode : Decoder} {r : Request} {ttl : Int64}
    (hs : requestedSeconds (decode r.body) = some ttl) (w : ResponseWriter) :
    h.createKey decode w r = h.createKeyFor ttl w r := by
  rw [requestedSeconds] at hs
  split at hs
  · next heof =>
    cases hs
    rw [createKey, heof]
  · next hfirst hsecond =>
    cases hs
    rw [createKey, hfirst]
    simp only [hsecond]
  · cases hs

/-- A body that asks for nothing is refused without touching the store. -/
theorem createKey_of_none {decode : Decoder} {w : ResponseWriter} (hw : w.Fresh) {r : Request}
    (hs : requestedSeconds (decode r.body) = none) :
    ∃ w', h.createKey decode w r = finish w' ∧ (w'.status = 400 ∨ w'.status = 413) := by
  unfold createKey
  split
  · next heof => simp [requestedSeconds, heof] at hs
  · exact ⟨_, rfl, status_writeDecodeError hw _⟩
  · exact ⟨_, rfl, .inl (status_writeJSONError hw 400 _)⟩
  · next ttl hfirst =>
    split
    · next hsecond => simp [requestedSeconds, hfirst, hsecond] at hs
    · exact ⟨_, rfl, status_writeDecodeError hw _⟩

/-- `CreateKey` refuses the body without touching the store, or it goes on with the number of
seconds the body asks for. -/
theorem createKey_cases (decode : Decoder) {w : ResponseWriter} (hw : w.Fresh) (r : Request) :
    (∃ w', w'.status ≠ 201 ∧ h.createKey decode w r = finish w') ∨
    ∃ ttl, requestedSeconds (decode r.body) = some ttl ∧
      h.createKey decode w r = h.createKeyFor ttl w r := by
  rcases hs : requestedSeconds (decode r.body) with _ | ttl
  · obtain ⟨w', heq, hstatus⟩ := createKey_of_none (h := h) hw hs
    exact .inl ⟨w', by omega, heq⟩
  · exact .inr ⟨ttl, rfl, createKey_of_seconds hs w⟩

/-! ### The lifetime is within its bounds -/

theorem toInt_div_second {d : Duration} (hd : 0 ≤ d.toInt) :
    (d / Duration.second).toInt = d.toInt / 1000000000 := by
  rw [Int64.toInt_div_of_ne_right _ _ (by decide),
    show Duration.second.toInt = 1000000000 by decide, Int.tdiv_eq_ediv_of_nonneg hd]

/-- A number of seconds whose product with 10⁹ fits in 64 bits becomes that many seconds. -/
private theorem toInt_mul_second {n : Int64} (h0 : 0 ≤ n.toInt) (h1 : n.toInt ≤ 604800) :
    (n * Duration.second).toInt = n.toInt * 1000000000 := by
  rw [Int64.toInt_mul, show Duration.second.toInt = 1000000000 by decide]
  exact Int.bmod_eq_of_le (by omega) (by omega)

/-- The bounds in nanoseconds. -/
theorem toInt_maxTTL (h : Handlers) :
    60000000000 ≤ h.maxTTL.toInt ∧ h.maxTTL.toInt ≤ 604800000000000 := by
  have hmin := Int64.le_iff_toInt_le.mp h.minTTL_le
  have hmax := Int64.le_iff_toInt_le.mp h.maxTTL_le
  exact ⟨hmin, hmax⟩

/-- The lifetimes `CreateKey` gives, in nanoseconds: the default, shortened to the maximum, for
zero, and otherwise the number of seconds, which has to be in bounds. -/
theorem requestedTTL_eq_some {ttl : Int64} {d : Duration} :
    h.requestedTTL ttl = some d ↔
      (ttl.toInt = 0 ∧ d.toInt = min defaultTTL.toInt h.maxTTL.toInt) ∨
      (60 ≤ ttl.toInt ∧ ttl.toInt ≤ h.maxTTL.toInt / 1000000000 ∧
        d.toInt = ttl.toInt * 1000000000) := by
  obtain ⟨hmin, hmax⟩ := toInt_maxTTL h
  by_cases h0 : ttl = 0
  · -- zero asks for the default, which the maximum may cut
    subst h0
    have hdefault : (if defaultTTL > h.maxTTL then h.maxTTL else defaultTTL).toInt =
        min defaultTTL.toInt h.maxTTL.toInt := by
      split
      · next hlt =>
        have hle := Int64.lt_iff_toInt_lt.mp hlt
        omega
      · next hle =>
        have hle := Int64.le_iff_toInt_le.mp (Int64.not_lt.mp hle)
        omega
    rw [requestedTTL, if_pos rfl, Option.some.injEq, ← Int64.toInt_inj, hdefault]
    simp [eq_comm]
  · have hne : ttl.toInt ≠ 0 := fun heq => h0 (Int64.toInt_inj.mp heq)
    have hrange : (ttl < minTTL / Duration.second ∨ ttl > h.maxTTL / Duration.second) ↔
        ¬(60 ≤ ttl.toInt ∧ ttl.toInt ≤ h.maxTTL.toInt / 1000000000) := by
      rw [gt_iff_lt, Int64.lt_iff_toInt_lt, Int64.lt_iff_toInt_lt,
        toInt_div_second (d := h.maxTTL) (by omega),
        show (minTTL / Duration.second).toInt = 60 by decide]
      omega
    rw [requestedTTL, if_neg h0]
    by_cases hin : 60 ≤ ttl.toInt ∧ ttl.toInt ≤ h.maxTTL.toInt / 1000000000
    · -- the product is at most the maximum, so it does not wrap
      have hmul := toInt_mul_second (n := ttl) (by omega) (by omega)
      rw [if_neg (fun hout => hrange.mp hout hin), Option.some.injEq, ← Int64.toInt_inj, hmul]
      omega
    · rw [if_pos (hrange.mpr hin)]
      refine iff_of_false nofun ?_
      rintro (⟨heq, -⟩ | ⟨h60, hle, -⟩)
      · exact hne heq
      · exact hin ⟨h60, hle⟩

/-- **The lifetime of a key.** It is between a minute and the configured maximum, and it is
exactly the requested number of seconds unless that number is zero. -/
theorem requestedTTL_bounds {ttl : Int64} {d : Duration} (hd : h.requestedTTL ttl = some d) :
    minTTL ≤ d ∧ d ≤ h.maxTTL ∧ (ttl ≠ 0 → d.toInt = ttl.toInt * 1000000000) := by
  obtain ⟨hmin, hmax⟩ := toInt_maxTTL h
  rw [Int64.le_iff_toInt_le, Int64.le_iff_toInt_le, show minTTL.toInt = 60000000000 by decide]
  have hdefault : defaultTTL.toInt = 86400000000000 := by decide
  rcases requestedTTL_eq_some.mp hd with ⟨h0, hd⟩ | ⟨h60, hle, hd⟩
  · exact ⟨by omega, by omega, fun hne => absurd (Int64.toInt_inj.mp h0) hne⟩
  · exact ⟨by omega, by omega, fun _ => hd⟩

end Handlers

end KeyBank
