import KeyBank.Foundation.ServeMux
import KeyBank.Server.Backend

/-!
# Requests, responses and handlers

The part of `net/http` the handlers are written against. A handler is a sequential program over
the shared state (`Api`): it takes a response writer and a request, and ends with the writer it
leaves behind and whether it panicked.

* The first `WriteHeader` fixes status and headers; later header changes do not reach the client.
* `serveMux` dispatches by `ServeMux.findHandler` and answers by itself where no registered
  handler applies.
* `respond` is what the client receives; a response to `HEAD` has no body.
-/

namespace KeyBank

open Interleaving

/-! ### Messages -/

/-- Header fields under their canonical names, in order. -/
abbrev Header : Type := List (String × GoString)

namespace Header

/-- `Header.Get`: the first value of a field, or the empty string. -/
def get (h : Header) (name : String) : GoString := (h.lookup name).getD []

/-- `Header.Set`: the only value of a field from now on. -/
def set (h : Header) (name : String) (value : GoString) : Header :=
  h.filter (fun f => f.1 ≠ name) ++ [(name, value)]

end Header

/-- A request body, with the cap `http.MaxBytesReader` puts on it. -/
structure Body where
  bytes : Bytes
  limit : Option ℕ
  deriving DecidableEq

/-- What `generateKey` returns: the PEM texts of a fresh pair. -/
structure KeyPair where
  pub : Bytes
  priv : Bytes
  deriving DecidableEq

/-- `http.Request`. The path is the escaped one. `matched` holds the values of the wildcards of
the pattern that matched last. `keyPair` is not part of the Go type: it is what `generateKey`
yields while this request is served, `none` being an error. -/
structure Request where
  method : String
  path : Bytes
  requestURI : Bytes
  remoteAddr : GoString
  header : Header
  body : Body
  matched : List GoString
  keyPair : Option KeyPair

/-- `r.PathValue("id")`: `{id}` is the only wildcard of the patterns that have one. -/
def Request.pathValueId (r : Request) : GoString := r.matched.headD []

/-- What one `Write` sends: bytes, or the JSON text of an object with string members. -/
inductive Content where
  | bytes (b : Bytes)
  | json (members : List (String × GoString))
  deriving DecidableEq

/-- `http.ResponseWriter`: the header map, the status and headers already sent, the body so
far. -/
structure ResponseWriter where
  header : Header
  sent : Option (ℕ × Header)
  body : List Content
  deriving DecidableEq

namespace ResponseWriter

/-- The writer a request starts with. -/
def new : ResponseWriter := ⟨[], none, []⟩

/-- `w.Header().Set`. -/
def setHeader (w : ResponseWriter) (name : String) (value : GoString) : ResponseWriter :=
  { w with header := w.header.set name value }

/-- `w.WriteHeader`; only the first call counts. -/
def writeHeader (w : ResponseWriter) (status : ℕ) : ResponseWriter :=
  match w.sent with
  | some _ => w
  | none => { w with sent := some (status, w.header) }

/-- `w.Write`. -/
def write (w : ResponseWriter) (c : Content) : ResponseWriter :=
  { w.writeHeader 200 with body := w.body ++ [c] }

/-- `http.Error`. -/
def error (w : ResponseWriter) (message : String) (status : ℕ) : ResponseWriter :=
  (((w.setHeader "Content-Type" (lit "text/plain; charset=utf-8")).setHeader
    "X-Content-Type-Options" (lit "nosniff")).writeHeader status).write
    (.bytes (lit message ++ [10]))

/-- `http.NotFound`. -/
def notFound (w : ResponseWriter) : ResponseWriter := w.error "404 page not found" 404

/-- The status the client sees. -/
def status (w : ResponseWriter) : ℕ := (w.sent.map Prod.fst).getD 200

/-- The writer has sent nothing yet. -/
structure Fresh (w : ResponseWriter) : Prop where
  sent : w.sent = none
  body : w.body = []

theorem fresh_new : Fresh new := ⟨rfl, rfl⟩

theorem Fresh.setHeader {w : ResponseWriter} (hw : w.Fresh) (name : String)
    (value : GoString) : (w.setHeader name value).Fresh := ⟨hw.sent, hw.body⟩

/-- A whole answer: the status with the headers set so far, and one piece of body. -/
theorem Fresh.writeHeader_write {w : ResponseWriter} (hw : w.Fresh) (status : ℕ) (c : Content) :
    (w.writeHeader status).write c = ⟨w.header, some (status, w.header), [c]⟩ := by
  simp [writeHeader, write, hw.sent, hw.body]

theorem Fresh.status_writeHeader_write {w : ResponseWriter} (hw : w.Fresh) (status : ℕ)
    (c : Content) : ((w.writeHeader status).write c).status = status := by
  rw [hw.writeHeader_write]
  rfl

theorem Fresh.status_error {w : ResponseWriter} (hw : w.Fresh) (message : String) (status : ℕ) :
    (w.error message status).status = status :=
  ((hw.setHeader _ _).setHeader _ _).status_writeHeader_write status _

end ResponseWriter

/-! ### Handlers -/

/-- How a handler ends. -/
structure Exit where
  w : ResponseWriter
  panicked : Bool
  deriving DecidableEq

/-- `http.Handler`. -/
abbrev Handler : Type := ResponseWriter → Request → Prog Api Exit

/-- A handler that returns. -/
def finish (w : ResponseWriter) : Prog Api Exit := .done ⟨w, false⟩

/-- `ServeMux.ServeHTTP`. -/
def serveMux (mux : List (ServeMux.Pattern × Handler)) : Handler := fun w r =>
  match ServeMux.findHandler mux r.method r.requestURI r.path with
  | .handler h matched => h w { r with matched := matched }
  | .redirect path => finish ((w.setHeader "Location" path).writeHeader 301)
  | .methodNotAllowed allowed =>
    finish ((w.setHeader "Allow" (lit (", ".intercalate allowed))).error "Method Not Allowed" 405)
  | .notFound => finish w.notFound
  | .badRequest => finish ((w.setHeader "Connection" (lit "close")).writeHeader 400)

/-- A response as the client receives it. -/
structure Response where
  status : ℕ
  header : Header
  body : List Content
  deriving DecidableEq

/-- The server's side of a finished handler: a panic that reaches it aborts the response, and no
body goes out on a response to `HEAD`. -/
def respond (method : String) (e : Exit) : Option Response :=
  if e.panicked then none
  else
    let sent := e.w.sent.getD (200, e.w.header)
    some ⟨sent.1, sent.2, if method = "HEAD" then [] else e.w.body⟩

theorem status_of_respond {method : String} {e : Exit} {resp : Response}
    (h : respond method e = some resp) : resp.status = e.w.status := by
  unfold respond at h
  split at h
  · cases h
  · cases h
    cases hsent : e.w.sent <;> simp [ResponseWriter.status, hsent]

/-- A handler that returns is answered. -/
theorem exists_respond (method : String) (w : ResponseWriter) :
    ∃ resp, respond method ⟨w, false⟩ = some resp ∧ resp.status = w.status :=
  ⟨_, rfl, @status_of_respond method ⟨w, false⟩ _ rfl⟩

theorem body_of_respond {method : String} {e : Exit} {resp : Response}
    (h : respond method e = some resp) : resp.body = if method = "HEAD" then [] else e.w.body := by
  unfold respond at h
  split at h
  · cases h
  · cases h
    rfl

end KeyBank
