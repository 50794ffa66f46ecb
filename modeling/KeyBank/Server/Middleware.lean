import KeyBank.Server.RemoteIP

/-!
# Middlewares

The wrappers of `handlers/middleware.go`. A limiter is named by its bucket, since both limiters
are part of the shared state; everything else a middleware does is local to the request.
-/

namespace KeyBank

open Interleaving

/-- `Middleware`. -/
abbrev Middleware : Type := Handler → Handler

/-- `Chain`: the first middleware is the outermost. -/
def chain (mw : List Middleware) : Middleware := fun next => mw.foldr (fun m next => m next) next

/-- `PanicRecover`. -/
def panicRecover : Middleware := fun next w r => do
  let e ← next w r
  if e.panicked then finish (e.w.error "internal server error" 500) else pure e

/-- The fields `SecurityHeaders` and `StaticHeaders` have in common. -/
def hardeningHeaders : Header :=
  [("Strict-Transport-Security", lit "max-age=15552000; includeSubDomains"),
    ("Content-Security-Policy",
      lit "default-src 'self'; script-src 'self'; object-src 'none'; base-uri 'none'; form-action 'self'"),
    ("Referrer-Policy", lit "no-referrer"),
    ("X-Frame-Options", lit "DENY"),
    ("X-Content-Type-Options", lit "nosniff")]

/-- Set several fields. -/
def ResponseWriter.setHeaders (w : ResponseWriter) (fields : Header) : ResponseWriter :=
  fields.foldl (fun w f => w.setHeader f.1 f.2) w

theorem ResponseWriter.Fresh.setHeaders {w : ResponseWriter} (hw : w.Fresh) (fields : Header) :
    (w.setHeaders fields).Fresh := by
  induction fields generalizing w with
  | nil => exact hw
  | cons f fields ih => exact ih (hw.setHeader f.1 f.2)

/-- `SecurityHeaders`. -/
def securityHeaders : Middleware := fun next w r =>
  next ((w.setHeaders hardeningHeaders).setHeader "Cache-Control" (lit "no-store")) r

/-- `StaticHeaders`. -/
def staticHeaders : Middleware := fun next w r => next (w.setHeaders hardeningHeaders) r

/-- `MaxBodySize`. -/
def maxBodySize (limit : ℕ) : Middleware := fun next w r =>
  next w { r with body := ⟨r.body.bytes, some limit⟩ }

/-- `RateLimit`. -/
def rateLimit (limiter : Bucket) (trustXFF : Bool) : Middleware := fun next w r =>
  .call (.allow limiter (remoteIP r trustXFF)) fun allowed =>
    if allowed then next w r else finish (w.error "too many requests" 429)

end KeyBank
