import KeyBank.Server.RateLimit
import KeyBank.Server.RedisProto
import Mathlib.Data.Nat.Digits.Defs

/-!
# A connection to Redis

A connection is what it is: bytes that the client has written and the server has not read, and bytes
the other way (`Conn`). The client writes a command and reads one reply for it; the server reads
commands and writes replies as long as whole ones come in. It answers the commands the client sends
as miniredis does, over the key space of `Redis`; what it does for other commands is arbitrary
(`Server.other`).

On an idle connection each command of the client comes to the command of `Redis` it stands for,
whatever bytes the key and the value hold, and leaves the connection idle.
-/

namespace KeyBank

namespace Redis

/-! ### The commands -/

/-- What `Set` adds to its command for the expiry. -/
def expiryArgs (expiration : Duration) : List Arg :=
  if 0 < expiration then
    if usePrecise expiration then [.text (lit "px"), .int (formatMs expiration).toInt]
    else [.text (lit "ex"), .int (formatSec expiration).toInt]
  else if expiration = keepTTL then [.text (lit "keepttl")]
  else []

/-- The command of `Set`. -/
def setArgs (key value : GoString) (expiration : Duration) : List Arg :=
  [.text (lit "set"), .text key, .text value] ++ expiryArgs expiration

/-- The command of `GetDel`. -/
def getDelArgs (key : GoString) : List Arg := [.text (lit "getdel"), .text key]

/-- The commands of `EvalSha` and `Eval`, with one key. -/
def evalShaArgs (sha key : GoString) : List Arg :=
  [.text (lit "evalsha"), .text sha, .int 1, .text key]

def evalArgs (script key : GoString) : List Arg :=
  [.text (lit "eval"), .text script, .int 1, .text key]

/-! ### The server -/

/-- The state of the server: its keys, and whether it has the limiter's script in its cache. -/
structure Store where
  db : DB
  loaded : Bool

/-- What is not in the code of the commands here: the script with its hash, what the interpreter
says of an error, and all other commands. -/
structure Server where
  script : GoString
  sha : GoString
  detail : Error → GoString
  other : ℤ → List GoString → Store → Bytes × Store

/-- `strings.ToUpper` on ASCII text. -/
def toUpper (s : GoString) : GoString :=
  s.map fun b => if 97 ≤ b ∧ b ≤ 122 then b - 32 else b

/-- What the options of `SET` say about the expiry. -/
inductive SetExpiry where
  | never
  | keep
  | after (ttl : Duration)
  deriving DecidableEq

/-- The options of `SET` that the client sends; any others go to `Server.other`. -/
def parseExpiry : List GoString → Option SetExpiry
  | [] => some .never
  | [opt] => if toUpper opt = lit "KEEPTTL" then some .keep else none
  | [opt, n] =>
    match atoi n with
    | none => none
    | some expire =>
      if expire ≤ 0 then none
      else if toUpper opt = lit "PX" then some (.after (Int64.ofInt expire * Duration.millisecond))
      else if toUpper opt = lit "EX" then some (.after (Int64.ofInt expire * Duration.second))
      else none
  | _ => none

/-- The expiry of a key that is set now, `old` being the one it has. -/
def SetExpiry.at (now : ℤ) (old : Option ℤ) : SetExpiry → Option ℤ
  | never => none
  | keep => old
  | after ttl => some (timeAdd now ttl)

/-- `cmdSet`. -/
def cmdSet (now : ℤ) (args : List GoString) (s : Store) : Option (Bytes × Store) :=
  match args with
  | key :: value :: opts =>
    (parseExpiry opts).map fun expiry =>
      let old := (s.db.live now key).bind fun e => e.expiry
      (writeInline (lit "OK"),
        { s with db := TTLMap.set s.db key ⟨value, expiry.at now old⟩ })
  | _ => none

/-- `cmdGetdel`. -/
def cmdGetdel (now : ℤ) (args : List GoString) (s : Store) : Option (Bytes × Store) :=
  match args with
  | [key] =>
    some (match s.db.live now key with
      | none => writeNull
      | some e => writeBytes e.value, { s with db := TTLMap.erase s.db key })
  | _ => none

namespace Server

variable (S : Server)

/-- `runLuaScript` on the limiter's script, which is cached once it has run without an error. -/
def runLuaScript (now : ℤ) (key : GoString) (s : Store) : Bytes × Store :=
  match incrScript now key s.db with
  | (.ok n, db) => (writeInt n, ⟨db, true⟩)
  | (.error e, db) =>
    (writeError (lit "ERR Error compiling script (new function): " ++ S.detail e), ⟨db, s.loaded⟩)

/-- `cmdEvalsha`. -/
def cmdEvalsha (now : ℤ) (args : List GoString) (s : Store) : Option (Bytes × Store) :=
  match args with
  | [sha, keysLen, key] =>
    if sha = S.sha ∧ atoi keysLen = some 1 then
      if s.loaded then some (S.runLuaScript now key s)
      else some (writeError (lit "NOSCRIPT No matching script. Please use EVAL."), s)
    else none
  | _ => none

/-- `cmdEval`. -/
def cmdEval (now : ℤ) (args : List GoString) (s : Store) : Option (Bytes × Store) :=
  match args with
  | [script, keysLen, key] =>
    if script = S.script ∧ atoi keysLen = some 1 then some (S.runLuaScript now key s) else none
  | _ => none

/-- `Dispatch`. -/
def dispatch (now : ℤ) (args : List GoString) (s : Store) : Bytes × Store :=
  let handled :=
    match args with
    | [] => none
    | cmd :: args =>
      if toUpper cmd = lit "SET" then cmdSet now args s
      else if toUpper cmd = lit "GETDEL" then cmdGetdel now args s
      else if toUpper cmd = lit "EVALSHA" then S.cmdEvalsha now args s
      else if toUpper cmd = lit "EVAL" then S.cmdEval now args s
      else none
  handled.getD (S.other now args s)

end Server

/-! ### The connection -/

/-- A connection, with the state of the server at its other end. -/
structure Conn where
  store : Store
  requests : Bytes
  replies : Bytes
  closed : Bool

namespace Conn

/-- `servePeer`: the server answers the commands that have come in whole, and closes on anything
else. -/
def serve (S : Server) (now : ℤ) : ℕ → Conn → Conn
  | 0, c => c
  | n + 1, c =>
    if c.closed then c
    else
      match readArray c.requests with
      | (.ok args, requests) =>
        let (reply, store) := S.dispatch now args c.store
        serve S now n { c with store, requests, replies := c.replies ++ reply }
      | (.error .eof, _) => c
      | (.error _, _) => { c with closed := true }

/-- `process`: the client writes a command and reads the reply. -/
def process {α : Type} (S : Server) (now : ℤ) (args : List Arg) (read : Reader ReadError UInt8 α)
    (c : Conn) : Except ReadError α × Conn :=
  let requests := c.requests ++ writeArgs args
  let c := serve S now requests.length { c with requests }
  let (out, replies) := read c.replies
  (out, { c with replies })

end Conn

/-! ### One command -/

namespace Conn

/-- Nothing is under way on the connection. -/
def idle (store : Store) : Conn := ⟨store, [], [], false⟩

theorem serve_nil (S : Server) (now : ℤ) (n : ℕ) (store : Store) (replies : Bytes) :
    serve S now n ⟨store, [], replies, false⟩ = ⟨store, [], replies, false⟩ := by
  cases n with
  | zero => rfl
  | succ n => rfl

/-- On an idle connection a command has the reply the server gives, and the connection is idle
again. -/
theorem process_idle {α : Type} {S : Server} {now : ℤ} {args : List Arg}
    {read : Reader ReadError UInt8 α} {out : Except ReadError α} {store store' : Store}
    {reply : Bytes} (hlength : args.length ≤ 1000) (hfits : ∀ arg ∈ args, Fits arg.bytes)
    (hdispatch : S.dispatch now (args.map Arg.bytes) store = (reply, store'))
    (hread : Reader.Reads read reply out) :
    process S now args read (idle store) = (out, idle store') := by
  have hmax : Int64.maxValue.toInt = 9223372036854775807 := by decide
  have harray := reads_readArray (by omega) hfits []
  rw [List.append_nil] at harray
  have hreply := hread []
  rw [List.append_nil] at hreply
  have hserve : serve S now (writeArgs args).length ⟨store, writeArgs args, [], false⟩ =
      ⟨store', [], reply, false⟩ := by
    have hpos : (writeArgs args).length = (writeArgs args).tail.length + 1 := rfl
    rw [hpos, serve]
    simp only [harray, hdispatch, Bool.false_eq_true, if_false, List.nil_append]
    exact serve_nil S now _ _ _
  simp only [process, idle, List.nil_append, hserve, hreply]

end Conn

/-! ### The commands of the client -/

namespace Conn

/-- What the callers of the client make of an error: `redis.Nil`, or any other. -/
def toError : ReadError → Error
  | .nil => .nil
  | _ => .unreachable

/-- `Set`. -/
def set (S : Server) (up : Bool) (now : ℤ) (key value : GoString) (expiration : Duration)
    (c : Conn) : Except Error Unit × Conn :=
  if up then
    match c.process S now (setArgs key value expiration) readStringCmd with
    | (.error e, c) => (.error (toError e), c)
    | (.ok _, c) => (.ok (), c)
  else (.error .unreachable, c)

/-- `GetDel`. -/
def getDel (S : Server) (up : Bool) (now : ℤ) (key : GoString) (c : Conn) :
    Except Error GoString × Conn :=
  if up then
    match c.process S now (getDelArgs key) readStringCmd with
    | (.error e, c) => (.error (toError e), c)
    | (.ok val, c) => (.ok val, c)
  else (.error .unreachable, c)

/-- `Script.Run`: by its hash, and in full if the server does not know it. -/
def run (S : Server) (up : Bool) (now : ℤ) (key : GoString) (c : Conn) :
    Except Error ℤ × Conn :=
  if up then
    let out :=
      match c.process S now (evalShaArgs S.sha key) readIntCmd with
      | (.error (.redis text), c) =>
        if lit "NOSCRIPT " <+: text then c.process S now (evalArgs S.script key) readIntCmd
        else (.error (.redis text), c)
      | out => out
    match out with
    | (.error e, c) => (.error (toError e), c)
    | (.ok n, c) => (.ok n, c)
  else (.error .unreachable, c)

/-! ### What they come to -/

end Conn

theorem fits_of_length {s : GoString} (h : s.length ≤ 1000) : Fits s := by
  have hmax : Int64.maxValue.toInt = 9223372036854775807 := by decide
  rw [Fits, hmax]
  omega

/-- A lifetime in whole units, at least one, is positive, and as long again in nanoseconds. -/
theorem toInt_units {d u : Duration} (hd : 0 < d) (hu : 0 < u.toInt) :
    let n := if 0 < d ∧ d < u then 1 else d / u
    0 < n.toInt ∧ (n * u).toInt = n.toInt * u.toInt := by
  have hdpos : 0 < d.toInt := Int64.lt_iff_toInt_lt.mp hd
  have hdmax : d.toInt ≤ 9223372036854775807 := Int64.toInt_le d
  have humax : u.toInt ≤ 9223372036854775807 := Int64.toInt_le u
  have hsize : (Int64.size : ℤ) = 18446744073709551616 := by decide
  intro n
  by_cases hsmall : 0 < d ∧ d < u
  · have hn : n = 1 := if_pos hsmall
    have hone : (1 : Int64).toInt = 1 := by decide
    rw [hn, Int64.toInt_mul, hone, Int.one_mul]
    exact ⟨by decide, Int.bmod_eq_of_le (by omega) (by omega)⟩
  · have hn : n = d / u := if_neg hsmall
    have hle : u.toInt ≤ d.toInt := by
      by_contra hlt
      exact hsmall ⟨hd, Int64.lt_iff_toInt_lt.mpr (by omega)⟩
    have hdiv : n.toInt = d.toInt / u.toInt := by
      have hne : u ≠ -1 := by
        rintro rfl
        exact absurd hu (by decide)
      rw [hn, Int64.toInt_div_of_ne_right _ _ hne, Int.tdiv_eq_ediv_of_nonneg (by omega)]
    have hpos : 1 ≤ n.toInt := by
      rw [hdiv, Int.le_ediv_iff_mul_le hu]
      omega
    have hmul : n.toInt * u.toInt ≤ d.toInt := by
      rw [hdiv]
      exact Int.ediv_mul_le _ (by omega)
    have hnonneg : 0 ≤ n.toInt * u.toInt := Int.mul_nonneg (by omega) (by omega)
    rw [Int64.toInt_mul]
    exact ⟨by omega, Int.bmod_eq_of_le (by omega) (by omega)⟩

theorem parseExpiry_px {n : Duration} (hn : 0 < n.toInt) :
    parseExpiry [lit "px", decimalInt n.toInt] = some (.after (n * Duration.millisecond)) := by
  have hatoi := atoi_decimalInt (Int64.le_toInt n) (Int64.toInt_le n)
  have hpx : toUpper (lit "px") = lit "PX" := by decide
  simp only [parseExpiry, hatoi]
  rw [if_neg (by omega), if_pos hpx, Int64.ofInt_toInt]

theorem parseExpiry_ex {n : Duration} (hn : 0 < n.toInt) :
    parseExpiry [lit "ex", decimalInt n.toInt] = some (.after (n * Duration.second)) := by
  have hatoi := atoi_decimalInt (Int64.le_toInt n) (Int64.toInt_le n)
  have hpx : toUpper (lit "ex") ≠ lit "PX" := by decide
  have hex : toUpper (lit "ex") = lit "EX" := by decide
  simp only [parseExpiry, hatoi]
  rw [if_neg (by omega), if_neg hpx, if_pos hex, Int64.ofInt_toInt]

/-- The server understands the expiry as the client means it. -/
theorem parseExpiry_expiryArgs (expiration : Duration) :
    ∃ expiry, parseExpiry ((expiryArgs expiration).map Arg.bytes) = some expiry ∧
      ∀ now old, expiry.at now old = setExpiry now expiration old := by
  by_cases hpos : 0 < expiration
  · by_cases hprec : usePrecise expiration = true
    · obtain ⟨hn, hmul⟩ := toInt_units hpos (u := Duration.millisecond) (by decide)
      refine ⟨.after (formatMs expiration * Duration.millisecond), ?_, fun now old => ?_⟩
      · rw [expiryArgs, if_pos hpos, if_pos hprec]
        exact parseExpiry_px hn
      · rw [setExpiry_of_pos hpos, expireAfter, if_pos hprec]
        exact congrArg (fun x => some (now + x)) hmul
    · obtain ⟨hn, hmul⟩ := toInt_units hpos (u := Duration.second) (by decide)
      refine ⟨.after (formatSec expiration * Duration.second), ?_, fun now old => ?_⟩
      · rw [expiryArgs, if_pos hpos, if_neg hprec]
        exact parseExpiry_ex hn
      · rw [setExpiry_of_pos hpos, expireAfter, if_neg hprec]
        exact congrArg (fun x => some (now + x)) hmul
  · by_cases hkeep : expiration = keepTTL
    · refine ⟨.keep, ?_, fun now old => ?_⟩
      · rw [expiryArgs, if_neg hpos, if_pos hkeep]
        decide
      · rw [setExpiry, if_neg hpos, if_pos hkeep]
        rfl
    · refine ⟨.never, ?_, fun now old => ?_⟩
      · rw [expiryArgs, if_neg hpos, if_neg hkeep]
        rfl
      · rw [setExpiry, if_neg hpos, if_neg hkeep]
        rfl

theorem length_decimalInt_le (n : ℤ) (hmin : Int64.minValue.toInt ≤ n)
    (hmax : n ≤ Int64.maxValue.toInt) : (decimalInt n).length ≤ 20 := by
  have hmin' : -9223372036854775808 ≤ n := hmin
  have hmax' : n ≤ 9223372036854775807 := hmax
  have hdecimal : (decimal n.natAbs).length ≤ 19 := by
    rw [decimal, List.length_map]
    exact Nat.toDigits_length 10 n.natAbs 19 (by decide) (by omega)
  rw [decimalInt]
  split
  · rw [List.length_cons]
    omega
  · omega

theorem fits_int (n : Duration) : Fits (Arg.int n.toInt).bytes :=
  fits_of_length (Nat.le_trans
    (length_decimalInt_le n.toInt (Int64.le_toInt n) (Int64.toInt_le n)) (by decide))

theorem fits_expiryArgs (expiration : Duration) :
    ∀ arg ∈ expiryArgs expiration, Fits arg.bytes := by
  have hlit : ∀ s : String, (lit s).length ≤ 1000 → Fits (Arg.text (lit s)).bytes :=
    fun s hs => fits_of_length hs
  rw [expiryArgs]
  split
  · split
    · exact List.forall_mem_cons.mpr ⟨hlit "px" (by decide),
        List.forall_mem_singleton.mpr (fits_int _)⟩
    · exact List.forall_mem_cons.mpr ⟨hlit "ex" (by decide),
        List.forall_mem_singleton.mpr (fits_int _)⟩
  · split
    · exact List.forall_mem_singleton.mpr (hlit "keepttl" (by decide))
    · exact List.forall_mem_nil _

theorem length_expiryArgs_le (expiration : Duration) : (expiryArgs expiration).length ≤ 2 := by
  rw [expiryArgs]
  split
  · split
    · exact Nat.le_refl 2
    · exact Nat.le_refl 2
  · split
    · exact Nat.le_succ 1
    · exact Nat.zero_le 2

namespace Conn

/-- `Set` over an idle connection. -/
theorem set_idle (S : Server) (up : Bool) (now : ℤ) {key value : GoString} (expiration : Duration)
    (hkey : Fits key) (hvalue : Fits value) (store : Store) :
    set S up now key value expiration (idle store) =
      ((Redis.set up now key value expiration store.db).1,
        idle { store with db := (Redis.set up now key value expiration store.db).2 }) := by
  cases up with
  | false => rfl
  | true =>
    obtain ⟨expiry, hparse, hexpiry⟩ := parseExpiry_expiryArgs expiration
    have hlength : (setArgs key value expiration).length ≤ 1000 := by
      have hle := length_expiryArgs_le expiration
      rw [setArgs, List.length_append, List.length_cons, List.length_cons, List.length_singleton]
      omega
    have hfits : ∀ arg ∈ setArgs key value expiration, Fits arg.bytes := by
      refine List.forall_mem_append.mpr ⟨?_, fits_expiryArgs expiration⟩
      exact List.forall_mem_cons.mpr ⟨fits_of_length (by decide),
        List.forall_mem_cons.mpr ⟨hkey, List.forall_mem_singleton.mpr hvalue⟩⟩
    have hset : toUpper (lit "set") = lit "SET" := by decide
    have hdispatch : S.dispatch now ((setArgs key value expiration).map Arg.bytes) store =
        (writeInline (lit "OK"),
          { store with db := (Redis.set true now key value expiration store.db).2 }) := by
      rw [setArgs, List.map_append]
      simp only [Server.dispatch, List.map_cons, List.map_nil, List.cons_append, List.nil_append,
        Arg.bytes, hset, if_true, cmdSet, hparse, hexpiry, Option.map_some, Option.getD_some]
      rfl
    rw [set, if_pos rfl, process_idle hlength hfits hdispatch (reads_inline (lit "OK"))]
    rfl

/-- `GetDel` over an idle connection. -/
theorem getDel_idle (S : Server) (up : Bool) (now : ℤ) {key : GoString} (hkey : Fits key)
    {store : Store} (hdb : ∀ e, store.db key = some e → Fits e.value) :
    getDel S up now key (idle store) =
      ((Redis.getDel up now key store.db).1,
        idle { store with db := (Redis.getDel up now key store.db).2 }) := by
  cases up with
  | false => rfl
  | true =>
    have hfits : ∀ arg ∈ getDelArgs key, Fits arg.bytes :=
      List.forall_mem_cons.mpr ⟨fits_of_length (by decide), List.forall_mem_singleton.mpr hkey⟩
    have hlength : (getDelArgs key).length ≤ 1000 := Nat.le_add_left 2 998
    have hgetdel : toUpper (lit "getdel") = lit "GETDEL" := by decide
    have hset : lit "GETDEL" ≠ lit "SET" := by decide
    have hdispatch : S.dispatch now ((getDelArgs key).map Arg.bytes) store =
        (match store.db.live now key with
          | none => writeNull
          | some e => writeBytes e.value, { store with db := TTLMap.erase store.db key }) := by
      simp only [Server.dispatch, getDelArgs, List.map_cons, List.map_nil, Arg.bytes, hset,
        hgetdel, if_false, if_true, cmdGetdel, Option.getD_some]
    rw [getDel, if_pos rfl, Redis.getDel, if_pos rfl]
    cases hlive : store.db.live now key with
    | none =>
      rw [hlive] at hdispatch
      rw [process_idle hlength hfits hdispatch reads_null]
      rfl
    | some e =>
      rw [hlive] at hdispatch
      have hvalue := hdb e (TTLMap.live_eq_some_iff.mp hlive).1
      rw [process_idle hlength hfits hdispatch (reads_bulk hvalue)]

end Conn

/-! ### The script -/

/-- A count is a 64-bit integer. -/
theorem mem_range_of_incr {now : ℤ} {key : GoString} {db : DB} {n : ℤ}
    (h : (incr now key db).1 = .ok n) :
    Int64.minValue.toInt ≤ n ∧ n ≤ Int64.maxValue.toInt := by
  rw [incr] at h
  split at h
  · cases h
    decide
  · next e _ =>
    split at h
    · cases h
    · next m hparse =>
      unfold parseInt64 at hparse
      have hrange := of_decide_eq_true (Option.filter_eq_some_iff.mp hparse).2
      split at h
      · cases h
      · cases h
        omega

theorem fst_incrScript (now : ℤ) (key : GoString) (db : DB) :
    (incrScript now key db).1 = (incr now key db).1 := by
  rw [incrScript]
  split
  · next heq => rw [heq]
  · next heq =>
    rw [heq]
    split
    · rfl
    · rfl

/-- What the client reads of the script. -/
def scriptReply (S : Server) : Except Error ℤ → Except ReadError ℤ
  | .ok n => .ok n
  | .error e =>
    .error (.redis (toInline (lit "ERR Error compiling script (new function): " ++ S.detail e)))

theorem reads_runLuaScript (S : Server) (now : ℤ) (key : GoString) (store : Store) :
    Reader.Reads readIntCmd (S.runLuaScript now key store).1
      (scriptReply S (incrScript now key store.db).1) := by
  cases h : incrScript now key store.db with
  | mk out db =>
    cases out with
    | error e =>
      rw [Server.runLuaScript, h]
      exact reads_error _
    | ok n =>
      have hincr : (incr now key store.db).1 = .ok n := by
        rw [← fst_incrScript, h]
      obtain ⟨hmin, hmax⟩ := mem_range_of_incr hincr
      rw [Server.runLuaScript, h]
      exact reads_int hmin hmax

/-- An error of the script is not one of a missing script. -/
theorem not_noscript (S : Server) (e : Error) :
    ¬ lit "NOSCRIPT " <+:
      toInline (lit "ERR Error compiling script (new function): " ++ S.detail e) := by
  rintro ⟨rest, h⟩
  have hleft : (lit "NOSCRIPT " ++ rest).head? = some 78 := rfl
  have hright : (toInline (lit "ERR Error compiling script (new function): " ++
      S.detail e)).head? = some 69 := rfl
  rw [h, hright] at hleft
  exact absurd hleft (by decide)

theorem runLuaScript_db (S : Server) (now : ℤ) (key : GoString) (store : Store) :
    (S.runLuaScript now key store).2.db = (incrScript now key store.db).2 := by
  rw [Server.runLuaScript]
  split
  · next heq => rw [heq]
  · next heq => rw [heq]

/-- What a caller of `Script.Run` sees: a count, or that there is none. -/
def blur : Except Error ℤ → Except Error ℤ
  | .ok n => .ok n
  | .error _ => .error .unreachable

namespace Conn

/-- `EVAL` over an idle connection runs the script. -/
theorem process_eval (S : Server) (now : ℤ) {key : GoString} (hkey : Fits key)
    (hscript : Fits S.script) (store : Store) :
    process S now (evalArgs S.script key) readIntCmd (idle store) =
      (scriptReply S (incrScript now key store.db).1, idle (S.runLuaScript now key store).2) := by
  have hfits : ∀ arg ∈ evalArgs S.script key, Fits arg.bytes :=
    List.forall_mem_cons.mpr ⟨fits_of_length (by decide), List.forall_mem_cons.mpr ⟨hscript,
      List.forall_mem_cons.mpr ⟨fits_int 1, List.forall_mem_singleton.mpr hkey⟩⟩⟩
  have hlength : (evalArgs S.script key).length ≤ 1000 := Nat.le_add_left 4 996
  have heval : toUpper (lit "eval") = lit "EVAL" := by decide
  have hset : lit "EVAL" ≠ lit "SET" := by decide
  have hgetdel : lit "EVAL" ≠ lit "GETDEL" := by decide
  have hevalsha : lit "EVAL" ≠ lit "EVALSHA" := by decide
  have hone : atoi (decimalInt 1) = some 1 := by decide
  have hdispatch : S.dispatch now ((evalArgs S.script key).map Arg.bytes) store =
      ((S.runLuaScript now key store).1, (S.runLuaScript now key store).2) := by
    simp only [Server.dispatch, evalArgs, List.map_cons, List.map_nil, Arg.bytes, heval, hset,
      hgetdel, hevalsha, if_false, if_true, Server.cmdEval, hone, and_self, Option.getD_some]
  exact process_idle hlength hfits hdispatch (reads_runLuaScript S now key store)

/-- `EVALSHA` runs it too, if the server has it. -/
theorem process_evalSha (S : Server) (now : ℤ) {key : GoString} (hkey : Fits key)
    (hsha : Fits S.sha) (store : Store) :
    process S now (evalShaArgs S.sha key) readIntCmd (idle store) =
      if store.loaded then
        (scriptReply S (incrScript now key store.db).1, idle (S.runLuaScript now key store).2)
      else
        (.error (.redis (toInline (lit "NOSCRIPT No matching script. Please use EVAL."))),
          idle store) := by
  have hfits : ∀ arg ∈ evalShaArgs S.sha key, Fits arg.bytes :=
    List.forall_mem_cons.mpr ⟨fits_of_length (by decide), List.forall_mem_cons.mpr ⟨hsha,
      List.forall_mem_cons.mpr ⟨fits_int 1, List.forall_mem_singleton.mpr hkey⟩⟩⟩
  have hlength : (evalShaArgs S.sha key).length ≤ 1000 := Nat.le_add_left 4 996
  have hevalsha : toUpper (lit "evalsha") = lit "EVALSHA" := by decide
  have hset : lit "EVALSHA" ≠ lit "SET" := by decide
  have hgetdel : lit "EVALSHA" ≠ lit "GETDEL" := by decide
  have hone : atoi (decimalInt 1) = some 1 := by decide
  have hdispatch : S.dispatch now ((evalShaArgs S.sha key).map Arg.bytes) store =
      if store.loaded then ((S.runLuaScript now key store).1, (S.runLuaScript now key store).2)
      else (writeError (lit "NOSCRIPT No matching script. Please use EVAL."), store) := by
    simp only [Server.dispatch, evalShaArgs, List.map_cons, List.map_nil, Arg.bytes, hevalsha,
      hset, hgetdel, if_false, if_true, Server.cmdEvalsha, hone, and_self]
    split
    · rfl
    · rfl
  by_cases hloaded : store.loaded = true
  · rw [if_pos hloaded] at hdispatch ⊢
    exact process_idle hlength hfits hdispatch (reads_runLuaScript S now key store)
  · rw [if_neg hloaded] at hdispatch ⊢
    exact process_idle hlength hfits hdispatch (reads_error _)

/-- `Script.Run` over an idle connection, whether or not the server has the script. -/
theorem run_idle (S : Server) (hsha : Fits S.sha) (hscript : Fits S.script) (env : Env)
    {key : GoString} (hkey : Fits key) (store : Store) :
    ∃ loaded, run S env.up env.now key (idle store) =
      (blur (runScript env key store.db).1, idle ⟨(runScript env key store.db).2, loaded⟩) := by
  rw [run, runScript]
  by_cases hup : env.up = true
  · rw [if_pos hup, if_pos hup, process_evalSha S env.now hkey hsha store,
      ← runLuaScript_db S env.now key store]
    by_cases hloaded : store.loaded = true
    · refine ⟨(S.runLuaScript env.now key store).2.loaded, ?_⟩
      rw [if_pos hloaded]
      cases hout : (incrScript env.now key store.db).1 with
      | ok n => rfl
      | error e =>
        simp only [scriptReply, if_neg (not_noscript S e)]
        rfl
    · have hprefix : lit "NOSCRIPT " <+:
          toInline (lit "NOSCRIPT No matching script. Please use EVAL.") := by decide
      refine ⟨(S.runLuaScript env.now key store).2.loaded, ?_⟩
      rw [if_neg hloaded]
      simp only [if_pos hprefix, process_eval S env.now hkey hscript store]
      cases hout : (incrScript env.now key store.db).1 with
      | ok n => rfl
      | error e => rfl
  · rw [if_neg hup, if_neg hup]
    exact ⟨store.loaded, rfl⟩

end Conn

end Redis

end KeyBank
