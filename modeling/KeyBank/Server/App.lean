import KeyBank.Server.Config

/-!
# The whole application

`newAppHandler` puts the handlers behind two levels of multiplexers and the middlewares. What the
asset files hold is a parameter: whether the templates parse and what they render, and the file
server behind `/static/`.

`Serves` lists what a request can do to the shared state: limiter calls, and then at most one
`Save` of its own key pair or one `Load`. `serves_appHandler` is proved once, from the routes and
the middlewares; the results about runs start from it.
-/

namespace KeyBank

open Interleaving ServeMux

/-- The embedded files: the parsed templates, `none` being an error, and
`http.StripPrefix("/static/", http.FileServer(…))`. -/
structure Assets where
  templates : Option Templates
  fileServer : ResponseWriter → Request → Exit

section Routes

variable (assets : Assets) (decode : Decoder) (h : Handlers) (trustXFF : Bool)

/-- `staticMux`: `GET /static/`. -/
def staticMux : List (Pattern × Handler) :=
  [(⟨some "GET", [.lit (lit "static"), .multi]⟩, fun w r => .done (assets.fileServer w r))]

/-- `staticHandler`. -/
def staticHandler : Handler := chain [panicRecover, staticHeaders] (serveMux (staticMux assets))

/-- `dynamicMux`: `POST /api/keys`, `GET /api/keys/{id}`, `GET /{$}`, `GET /share/{id}`,
`GET /`. -/
def dynamicMux : List (Pattern × Handler) :=
  [(⟨some "POST", [.lit (lit "api"), .lit (lit "keys")]⟩,
      chain [maxBodySize (64 * 1024), rateLimit .create trustXFF] (h.createKey decode)),
    (⟨some "GET", [.lit (lit "api"), .lit (lit "keys"), .wild]⟩,
      rateLimit .fetch trustXFF Handlers.fetchKey),
    (⟨some "GET", [.lit slash]⟩, h.homePage),
    (⟨some "GET", [.lit (lit "share"), .wild]⟩, h.sharePage),
    (⟨some "GET", [.multi]⟩, h.notFoundPage)]

/-- `dynamicHandler`. -/
def dynamicHandler : Handler :=
  chain [panicRecover, securityHeaders] (serveMux (dynamicMux decode h trustXFF))

/-- `rootMux`: `/static/` and `/`. -/
def rootMux : List (Pattern × Handler) :=
  [(⟨none, [.lit (lit "static"), .multi]⟩, staticHandler assets),
    (⟨none, [.multi]⟩, dynamicHandler decode h trustXFF)]

/-- The handler `newAppHandler` returns. -/
def appHandler : Handler := serveMux (rootMux assets decode h trustXFF)

end Routes

/-- The `Handlers` value `newAppHandler` builds. -/
def appHandlers (templates : Templates) (autoHideSeconds : ℤ) (maxTTL : Duration) : Handlers :=
  ((Handlers.new (some templates)).setAutoHideSeconds autoHideSeconds).setMaxTTL maxTTL

/-- `newAppHandler`; `none` is an error in the templates. -/
def newAppHandler (assets : Assets) (decode : Decoder) (autoHideSeconds : ℤ) (maxTTL : Duration)
    (trustXFF : Bool) : Option Handler :=
  assets.templates.map fun templates =>
    appHandler assets decode (appHandlers templates autoHideSeconds maxTTL) trustXFF

/-- A server that has just started, with one thread for every request to come. -/
def serverPool (b : Backend) (app : Handler) (requests : ℕ → Request) :
    Pool Api b.State Exit :=
  ⟨b.init, fun i => app .new (requests i)⟩

/-! ### What a request can do -/

/-- A request as the handlers behind `MaxBodySize` read it. -/
def Request.capped (r : Request) : Request :=
  { r with body := ⟨r.body.bytes, some (64 * 1024)⟩ }

/-- The programs that serve a request: after limiter calls, a refusal ending in 429, they end, or
save the key pair of the request with the lifetime its body asks for, or load some id, and then
answer. -/
inductive Serves (decode : Decoder) (h : Handlers) (trustXFF : Bool) (r : Request) :
    Prog Api Exit → Prop
  | done (e : Exit) : Serves decode h trustXFF r (.done e)
  | allow {bucket : Bucket} {next : Bool → Prog Api Exit}
      {w : ResponseWriter} (hw : w.Fresh)
      (hrefused : next false = finish (w.error "too many requests" 429))
      (hnext : Serves decode h trustXFF r (next true)) :
      Serves decode h trustXFF r (.call (.allow bucket (remoteIP r trustXFF)) next)
  | save {w : ResponseWriter} (hw : w.Fresh) {key : KeyPair} (hkey : r.keyPair = some key)
      {seconds : Int64} {ttl : Duration}
      (hbody : Handlers.requestedSeconds (decode r.body) = some seconds)
      (httl : h.requestedTTL seconds = some ttl) :
      Serves decode h trustXFF r
        (.call (.save key.priv ttl) fun saved => finish (Handlers.keySaved w key saved))
  | load {w : ResponseWriter} (hw : w.Fresh) (id : GoString) :
      Serves decode h trustXFF r (.call (.load id) fun loaded => finish (Handlers.keyLoaded w loaded))

variable {assets : Assets} {decode : Decoder} {h : Handlers} {trustXFF : Bool}

/-- Serving goes on as serving, whatever is replied. -/
theorem Serves.of_path {r : Request} {p q : Prog Api Exit} {l : List (Σ c : Cmd, c.Reply)}
    (hp : Serves decode h trustXFF r p) (hpath : Prog.Path p l q) : Serves decode h trustXFF r q := by
  induction hpath with
  | nil => exact hp
  | @cons c next reply l q _ ih =>
    cases hp with
    | allow hw hrefused hnext =>
      cases reply
      · exact ih (by rw [hrefused]; exact .done _)
      · exact ih hnext
    | save => exact ih (.done _)
    | load => exact ih (.done _)

theorem Serves.panicRecover {next : Handler} {w : ResponseWriter} {r r' : Request}
    (hnext : Serves decode h trustXFF r' (next w r)) : Serves decode h trustXFF r' (panicRecover next w r) := by
  unfold KeyBank.panicRecover
  generalize next w r = p at hnext
  induction hnext with
  | done e =>
    rw [Prog.done_bind]
    split <;> exact .done _
  | allow hw hrefused _ ih => exact .allow hw (by rw [hrefused]; rfl) ih
  | save hw hkey hbody httl => exact .save hw hkey hbody httl
  | load hw id => exact .load hw id

theorem serves_createKey {w : ResponseWriter} (hw : w.Fresh) {r r' : Request}
    (hkey : r'.keyPair = r.keyPair) (hbody : r'.body = r.body) :
    Serves decode h trustXFF r (h.createKey decode w r') := by
  rcases Handlers.createKey_cases (h := h) decode hw r' with
    ⟨w', -, heq⟩ | ⟨seconds, hsec, heq⟩
  · rw [heq]
    exact .done _
  · rw [heq, Handlers.createKeyFor]
    split
    · exact .done _
    · next ttl httl =>
      rw [Handlers.generateAndSave]
      split
      · exact .done _
      · next key hk => exact .save hw (hkey ▸ hk) (hbody ▸ hsec) httl

theorem serves_fetchKey {w : ResponseWriter} (hw : w.Fresh) (r r' : Request) :
    Serves decode h trustXFF r (Handlers.fetchKey w r') := .load hw _

theorem serves_rateLimit {bucket : Bucket} {next : Handler} {w : ResponseWriter} (hw : w.Fresh)
    {r r' : Request} (hip : remoteIP r' trustXFF = remoteIP r trustXFF)
    (hnext : Serves decode h trustXFF r (next w r')) :
    Serves decode h trustXFF r (rateLimit bucket trustXFF next w r') := by
  rw [rateLimit, hip]
  exact .allow hw rfl hnext

theorem serves_renderPage (w : ResponseWriter) (r : Request) (data : PageData) :
    Serves decode h trustXFF r (h.renderPage w data) := by
  unfold Handlers.renderPage
  split <;> exact .done _

/-- A multiplexer serves if every handler on it does, whatever its wildcards matched. -/
theorem serves_serveMux {mux : List (Pattern × Handler)} {w : ResponseWriter} {r r' : Request}
    (hmux : ∀ p ∈ mux, ∀ matched, Serves decode h trustXFF r (p.2 w { r' with matched := matched })) :
    Serves decode h trustXFF r (serveMux mux w r') := by
  unfold serveMux
  split
  · next hd matched hfound =>
    obtain ⟨p, hp, -⟩ := mem_of_findHandler hfound
    exact hmux _ hp matched
  all_goals exact .done _

theorem serves_staticHandler (w : ResponseWriter) (r r' : Request) :
    Serves decode h trustXFF r (staticHandler assets w r') := by
  refine .panicRecover (serves_serveMux fun p hp matched => ?_)
  obtain rfl := List.mem_singleton.mp hp
  exact .done _

theorem serves_dynamicHandler {w : ResponseWriter} (hw : w.Fresh) (r : Request)
    (matched : List GoString) :
    Serves decode h trustXFF r.capped (dynamicHandler decode h trustXFF w { r with matched := matched }) := by
  refine .panicRecover (serves_serveMux fun p hp matched => ?_)
  have hw' := (hw.setHeaders hardeningHeaders).setHeader "Cache-Control" (lit "no-store")
  simp only [dynamicMux, List.mem_cons, List.not_mem_nil, or_false] at hp
  rcases hp with rfl | rfl | rfl | rfl | rfl
  · exact serves_rateLimit hw' rfl (serves_createKey hw' rfl rfl)
  · exact serves_rateLimit hw' rfl (serves_fetchKey hw' _ _)
  all_goals exact serves_renderPage _ _ _

/-- **What a request can do.** Whatever is requested, the application serves it, as far as
`MaxBodySize` lets its body be read. -/
theorem serves_appHandler {w : ResponseWriter} (hw : w.Fresh) (r : Request) :
    Serves decode h trustXFF r.capped (appHandler assets decode h trustXFF w r) := by
  refine serves_serveMux fun p hp matched => ?_
  simp only [rootMux, List.mem_cons, List.not_mem_nil, or_false] at hp
  rcases hp with rfl | rfl
  · exact serves_staticHandler _ _ _
  · exact serves_dynamicHandler hw r matched

/-- `POST /api/keys` is served by `CreateKey`, behind the cap on its body and the limiter. -/
theorem appHandler_postKeys {r : Request} (hmethod : r.method = "POST")
    (huri : r.requestURI = lit "/api/keys") (hpath : r.path = lit "/api/keys") :
    ∃ w, w.Fresh ∧ appHandler assets decode h trustXFF .new r =
      KeyBank.panicRecover
        (chain [maxBodySize (64 * 1024), rateLimit .create trustXFF] (h.createKey decode))
        w { r with matched := [] } := by
  obtain ⟨matched, hroot⟩ : ∃ matched, findHandler (rootMux assets decode h trustXFF) "POST"
      (lit "/api/keys") (lit "/api/keys") =
        .handler (dynamicHandler decode h trustXFF) matched := ⟨_, rfl⟩
  have hdynamic : findHandler (dynamicMux decode h trustXFF) "POST" (lit "/api/keys")
      (lit "/api/keys") = .handler (chain [maxBodySize (64 * 1024), rateLimit .create trustXFF]
        (h.createKey decode)) [] := rfl
  refine ⟨(ResponseWriter.new.setHeaders hardeningHeaders).setHeader "Cache-Control"
    (lit "no-store"), (ResponseWriter.fresh_new.setHeaders _).setHeader _ _, ?_⟩
  obtain ⟨method, path, uri, addr, header, body, m, key⟩ := r
  subst hmethod huri hpath
  rw [appHandler, serveMux, hroot]
  simp only [dynamicHandler, chain, List.foldr, KeyBank.panicRecover, securityHeaders, serveMux,
    hdynamic]

/-! ### Small requests to run the server on -/

/-- A request without headers or body. -/
def bareRequest (method path : String) (keyPair : Option KeyPair) : Request :=
  ⟨method, lit path, lit path, lit "203.0.113.7:4711", [], ⟨[], none⟩, [], keyPair⟩

/-- A decoder that knows empty bodies only. -/
def decodeEmpty : Decoder := fun body => ⟨.error (if body.bytes = [] then .eof else .other), none⟩

/-- A step at a given time, drawing sixteen zero bytes if it draws. -/
def stepAt (now : ℤ) : Env := ⟨now, some (Vector.replicate 16 0), true⟩

/-- The id sixteen zero bytes give. -/
def zeroID : GoString := List.replicate 32 48

theorem isID_zeroID : IsID zeroID := ⟨Vector.replicate 16 0, by decide⟩

/-- Templates and files that are empty. -/
def emptyAssets : Assets := ⟨some fun _ => some [], fun w _ => ⟨w.notFound, false⟩⟩

end KeyBank
