import KeyBank.Browser.ExpiryRun
import KeyBank.Browser.RoundTrip
import KeyBank.Browser.Traffic
import KeyBank.Server.RequestBody
import Mathlib.Data.Nat.Digits.Defs

/-!
# The page and the server agree on lifetimes

The page takes its maximum from the attribute `data-max-ttl-seconds`, where `HomePage` writes the
whole seconds of the server's maximum; the server compares a request with the same number. So every
lifetime the form gives is in the server's bounds, and the body of the request spells it in the
server's grammar.
-/

namespace KeyBank

open Interleaving Json

/-- A request as the server gets it. The targets of the API have no query. -/
structure Arrives (wire : Wire) (r : Request) : Prop where
  method : js r.method = wire.method
  uri : r.requestURI = textEncode wire.target
  path : r.path = r.requestURI
  body : r.body.bytes = wire.body.elim [] textEncode

/-- The request is never answered with 400, which stands for `invalid_request` and `invalid_ttl`.
When the limiter lets it pass, the private half of its pair is saved for `ttl` seconds, and it is
answered with 201 if that succeeds. -/
structure KeptFor (app : Handler) (trustXFF : Bool) (r : Request) (ttl : ℕ) : Prop where
  valid : (app .new r).All fun e => e.w.status ≠ 400
  saved : ∀ key, r.keyPair = some key → ∃ (next : Bool → Prog Api Exit) (lifetime : Duration)
      (answer : Except StoreError GoString → Prog Api Exit),
    app .new r = .call (.allow .create (remoteIP r trustXFF)) next ∧
    next true = .call (.save key.priv lifetime) answer ∧ lifetime.toInt = ttl * 1000000000 ∧
    ∀ id, ∃ e, answer (.ok id) = .done e ∧ e.w.status = 201

/-! ### The request -/

theorem textEncode_js (s : String) : textEncode (js s) = lit s := by
  rw [textEncode, js, Utf16.decode_encode]
  rfl

theorem textEncode_ttlBody (ttl : ℕ) :
    textEncode (ttlBody ttl) = lit "\x7b\"ttl\":" ++ decimal ttl ++ lit "\x7d" := by
  rw [ttlBody, ← js_append, ← js_append, textEncode_js, lit_append, lit_append, lit_toString]

/-- What `createKey` sends arrives as `POST /api/keys` with a body that asks for the lifetime. -/
theorem Arrives.createKey {ttl : ℕ} {r : Request} (h : Arrives (createKeyRequest ttl).wire r) :
    r.method = "POST" ∧ r.requestURI = lit "/api/keys" ∧ r.path = lit "/api/keys" ∧
      r.body.bytes = lit "\x7b\"ttl\":" ++ decimal ttl ++ lit "\x7d" := by
  obtain ⟨hmethod, huri, hpath, hbody⟩ := h
  rw [wire_createKeyRequest] at hmethod huri hbody
  have huri : r.requestURI = lit "/api/keys" := huri.trans (textEncode_js _)
  exact ⟨js_injective hmethod, huri, hpath.trans huri, hbody.trans (textEncode_ttlBody ttl)⟩

theorem length_ttlBody {ttl : ℕ} (hmax : ttl ≤ 604800) :
    (lit "\x7b\"ttl\":" ++ decimal ttl ++ lit "\x7d").length ≤ 64 * 1024 := by
  have hlength : (decimal ttl).length ≤ 6 := by
    rw [decimal, List.length_map]
    exact Nat.toDigits_length 10 ttl 6 (by omega) (by omega)
  have hopen : (lit "\x7b\"ttl\":").length = 7 := rfl
  have hclose : (lit "\x7d").length = 1 := rfl
  rw [List.length_append, List.length_append, hopen, hclose]
  omega

/-! ### The server -/

section Server

variable {assets : Assets} {h : Handlers} {trustXFF : Bool}

/-- An accepted body is not answered with 400. -/
theorem all_generateAndSave {w : ResponseWriter} (hw : w.Fresh) (ttl : Duration) (r : Request) :
    (Handlers.generateAndSave ttl w r).All fun e => e.panicked = false ∧ e.w.status ≠ 400 := by
  rw [Handlers.generateAndSave]
  rcases r.keyPair with _ | key
  · exact ⟨rfl, by simp [hw.status_error]⟩
  · intro saved
    rcases saved with e | id
    · exact ⟨rfl, by simp [Handlers.keySaved, hw.status_error]⟩
    · have hstatus : (Handlers.keySaved w key (.ok id)).status = 201 :=
        (hw.setHeader _ _).status_writeHeader_write 201 _
      exact ⟨rfl, by simp [hstatus]⟩

/-- **The server keeps what it is asked for**: a number of seconds in its bounds. -/
theorem keptFor_of_arrives {ttl : ℕ} {r : Request} (hr : Arrives (createKeyRequest ttl).wire r)
    (hmin : 60 ≤ ttl) (hmax : (ttl : ℤ) ≤ h.maxTTL.toInt / 1000000000) :
    KeptFor (appHandler assets decodeCreateKeyRequest h trustXFF) trustXFF r ttl := by
  obtain ⟨hmethod, huri, hpath, hbody⟩ := hr.createKey
  obtain ⟨-, hmaxTTL⟩ := h.toInt_maxTTL
  have hmax64 : Int64.maxValue.toInt = 9223372036854775807 := by decide
  have haccepts : Accepts h.maxTTL.toInt r.body.bytes ttl := by
    rw [hbody]
    exact ⟨length_ttlBody (by omega), asks_decimal (by omega), .inr ⟨by omega, hmax⟩⟩
  obtain ⟨lifetime, hlifetime, hcreate⟩ := createKey_of_accepts h haccepts
  rw [askedLifetime, if_neg (by omega)] at hlifetime
  obtain ⟨w, hw, happ⟩ :=
    @appHandler_postKeys assets decodeCreateKeyRequest h trustXFF r hmethod huri hpath
  have hchain : chain [maxBodySize (64 * 1024), rateLimit .create trustXFF]
      (h.createKey decodeCreateKeyRequest) w { r with matched := [] } =
      .call (.allow .create (remoteIP r trustXFF)) fun allowed =>
        if allowed then Handlers.generateAndSave lifetime w { r.capped with matched := [] }
        else finish (w.error "too many requests" 429) := by
    rw [← hcreate w { r.capped with matched := [] } rfl]
    rfl
  rw [panicRecover, hchain, Prog.call_bind] at happ
  constructor
  · -- The limiter may refuse; then and later on no status is 400.
    rw [happ]
    rintro (_ | _)
    · have hrefused : (w.error "too many requests" 429).status ≠ 400 := by
        rw [hw.status_error]
        omega
      exact hrefused
    · refine (all_generateAndSave hw lifetime _).bind fun e he => ?_
      rw [he.1]
      exact he.2
  · intro key hkey
    have hsave : Handlers.generateAndSave lifetime w { r.capped with matched := [] } =
        .call (.save key.priv lifetime) fun saved => finish (Handlers.keySaved w key saved) := by
      rw [Handlers.generateAndSave, Request.capped, hkey]
    have hok : ∀ id, (Handlers.keySaved w key (.ok id)).status = 201 := fun id =>
      (hw.setHeader _ _).status_writeHeader_write 201 _
    refine ⟨_, lifetime,
      fun saved => panicRecover (fun w _ => finish (Handlers.keySaved w key saved)) w r, happ, ?_,
      hlifetime, fun id => ⟨⟨Handlers.keySaved w key (.ok id), false⟩, rfl, hok id⟩⟩
    rw [if_pos rfl, hsave]
    rfl

end Server

/-! ### The maximum -/

/-- The page's maximum is the whole seconds of the server's. -/
theorem maxTTL_of_homePage {h : Handlers} {root : CreateRoot}
    (hroot : root.maxTtlSeconds = h.homePageData.maxTTLSeconds.toInt) :
    (root.maxTTL : ℤ) = h.maxTTL.toInt / 1000000000 ∧ 60 ≤ root.maxTTL := by
  obtain ⟨hmin, hmax⟩ := h.toInt_maxTTL
  have hseconds : root.maxTtlSeconds = h.maxTTL.toInt / 1000000000 :=
    hroot.trans (Handlers.toInt_div_second (by omega))
  rw [CreateRoot.maxTTL, if_pos (by omega), maxTTLSeconds]
  omega

/-! ### Agreement -/

/-- A maximum of a quarter of an hour and half a second. -/
def quarterHandlers : Handlers := (Handlers.new none).setMaxTTL 900500000000

def quarterRoot : CreateRoot := ⟨localOrigin, 900, true⟩

/-- What the page sends when nothing has been chosen: a quarter of an hour, the longest of the
custom lifetimes. -/
def quarterRequest : Request :=
  { bareRequest "POST" "/api/keys" (some ⟨[1], [2]⟩) with
    body := ⟨textEncode (ttlBody 900), none⟩ }

end KeyBank
