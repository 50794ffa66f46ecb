import KeyBank.Browser.Link

/-!
# Texts on the page

`static/ui.js`, and the parts of the platform a page is run on.
-/

namespace KeyBank

/-- What a page takes from its browser: Web Crypto, and how numbers are written
(`toLocaleString`). -/
structure Platform where
  crypto : SubtleCrypto
  toLocaleString : ℕ → JSString

/-- `element.dataset.state` of a status line. -/
inductive StatusState where
  | idle | working | success | error
  deriving DecidableEq

/-- A status line: what `setStatus` sets. -/
structure Status where
  message : JSString
  state : StatusState
  deriving DecidableEq

variable (env : Platform)

/-- `plural`. -/
def plural (count : ℕ) (unit : String) : JSString :=
  env.toLocaleString count ++ js " " ++ js unit ++ if count = 1 then [] else js "s"

/-- `formatDuration`: the largest unit that divides the seconds evenly. -/
def formatDuration (seconds : ℕ) : JSString :=
  match [("day", 86400), ("hour", 3600), ("minute", 60)].find? fun (_, size) =>
      seconds % size = 0 with
  | some (unit, size) => plural env (seconds / size) unit
  | none => plural env seconds "second"

/-- The link anatomy figure. -/
structure Anatomy where
  path : JSString
  fragment : JSString
  size : JSString

/-- `renderAnatomy`. -/
def renderAnatomy (href : URL) : Anatomy :=
  let (sent, kept) := splitShareURL href
  { path := sent
    fragment := if kept = [] then js "# (missing)" else kept
    size := if kept = [] then [] else js ", " ++ plural env kept.length "character" }

end KeyBank
