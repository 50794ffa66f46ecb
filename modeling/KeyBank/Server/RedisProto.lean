import KeyBank.Foundation.Framing
import KeyBank.Server.Redis

/-!
# The protocol of Redis

A command is written as an array of bulk strings, each with its length before it; a reply is a bulk
string, a line of text, an integer, an error or nothing. The client's side is `internal/proto` of
the vendored go-redis; the server's side, which reads commands and writes replies, is the vendored
miniredis of the tests.

Every text is a frame of the reader at the other end (`Reader.Reads`), whatever bytes it holds.
-/

namespace KeyBank

namespace Redis

/-! ### What the client writes -/

/-- An argument of a command. -/
inductive Arg where
  | text (s : GoString)
  | int (n : ℤ)

/-- `Writer.string` and `Writer.int`: an integer is written as its decimal text. -/
def Arg.bytes : Arg → Bytes
  | text s => s
  | int n => decimalInt n

def crlf : Bytes := [13, 10]

/-- `Writer.writeLen`. -/
def writeLen (n : ℕ) : Bytes := decimal n ++ crlf

/-- `Writer.bytes`: a bulk string. -/
def writeBytes (b : Bytes) : Bytes := 36 :: writeLen b.length ++ (b ++ crlf)

/-- `Writer.WriteArg`. -/
def writeArg (arg : Arg) : Bytes := writeBytes arg.bytes

/-- `Writer.WriteArgs`. -/
def writeArgs (args : List Arg) : Bytes := 42 :: writeLen args.length ++ args.flatMap writeArg

/-! ### Reading -/

/-- What reading can fail with: the end of the stream, something that is not of the protocol, the
client's `redis.Nil`, an error reply. -/
inductive ReadError where
  | eof
  | invalid
  | nil
  | redis (text : GoString)
  deriving DecidableEq

/-- `line[1 : len(line)-2]`. -/
def lineText (line : Bytes) : Bytes := (line.drop 1).take (line.length - 3)

/-- The server's `readString`. -/
def readString : Reader ReadError UInt8 GoString := do
  let line ← Reader.takeThrough .eof 10
  if line.length < 3 then .fail .invalid
  else
    match line.head? with
    | some 43 => pure (lineText line)
    | some 45 => pure (lineText line)
    | some 58 => pure (lineText line)
    | some 36 => do
      let length ← Reader.ofOption .invalid (atoi (lineText line))
      if length < 0 then pure []
      else do
        let buf ← Reader.takeFull .eof (length.toNat + 2)
        pure (buf.take length.toNat)
    | _ => .fail .invalid

/-- The server's `readArray`. -/
def readArray : Reader ReadError UInt8 (List GoString) := do
  let line ← Reader.takeThrough .eof 10
  if line.length < 3 then .fail .invalid
  else
    match line.head? with
    | some 42 => do
      let l ← Reader.ofOption .invalid (atoi (lineText line))
      readString.many l.toNat
    | _ => .fail .invalid

/-- `isNilReply`. -/
def isNilReply (line : Bytes) : Bool := line == [36, 45, 49] || line == [42, 45, 49]

/-- The client's `readLine`. -/
def readLine : Reader ReadError UInt8 Bytes := do
  let b ← Reader.takeThrough .eof 10
  if b.length ≤ 2 ∨ b.dropLast.getLast? ≠ some 13 then .fail .invalid
  else pure (b.take (b.length - 2))

/-- `ReadLine`: a line that says there is nothing is the error `redis.Nil`. -/
def readReplyLine : Reader ReadError UInt8 Bytes := do
  let line ← readLine
  if isNilReply line then .fail .nil else pure line

/-- `readStringReply`. -/
def readStringReply (line : Bytes) : Reader ReadError UInt8 GoString := do
  let replyLen ← Reader.ofOption .invalid (atoi line.tail)
  let b ← Reader.takeFull .eof (replyLen.toNat + 2)
  pure (b.take replyLen.toNat)

/-- `ReadString`, which `StatusCmd` and `StringCmd` read their replies with. -/
def readStringCmd : Reader ReadError UInt8 GoString := do
  let line ← readReplyLine
  match line.head? with
  | some 45 => .fail (.redis line.tail)
  | some 36 => readStringReply line
  | some 43 => pure line.tail
  | some 58 => pure line.tail
  | _ => .fail .invalid

/-- `ReadReply` and `Cmd.Int`. -/
def readIntCmd : Reader ReadError UInt8 ℤ := do
  let line ← readReplyLine
  match line.head? with
  | some 45 => .fail (.redis line.tail)
  | some 43 => .ofOption .invalid (atoi line.tail)
  | some 58 => .ofOption .invalid (atoi line.tail)
  | some 36 => do
    let s ← readStringReply line
    .ofOption .invalid (atoi s)
  | _ => .fail .invalid

/-! ### What the server writes -/

/-- `toInline` on ASCII text: white space becomes a blank. -/
def toInline (s : GoString) : GoString :=
  s.map fun b => if 9 ≤ b ∧ b ≤ 13 then 32 else b

def writeInline (s : GoString) : Bytes := 43 :: toInline s ++ crlf

def writeError (s : GoString) : Bytes := 45 :: toInline s ++ crlf

def writeInt (n : ℤ) : Bytes := 58 :: decimalInt n ++ crlf

def writeNull : Bytes := [36, 45, 49] ++ crlf

/-! ### Numbers and lines -/

/-- The length of `s` fits in an `int`, with the line break that follows it: true of every Go string
that can be sent. -/
def Fits (s : GoString) : Prop := (s.length : ℤ) + 2 ≤ Int64.maxValue.toInt

theorem Fits.atoi {s : GoString} (h : Fits s) :
    KeyBank.atoi (decimal s.length) = some (s.length : ℤ) := by
  have hle : (s.length : ℤ) ≤ Int64.maxValue.toInt := by
    rw [Fits] at h
    omega
  exact atoi_decimal hle

theorem ten_notMem_decimal (n : ℕ) : 10 ∉ decimal n := by
  intro h
  have hdigit := List.all_eq_true.mp (all_isDecDigit_decimal n) 10 h
  exact absurd hdigit (by decide)

theorem ten_notMem_decimalInt (n : ℤ) : 10 ∉ decimalInt n := by
  rw [decimalInt]
  split
  · rw [List.mem_cons, not_or]
    exact ⟨by decide, ten_notMem_decimal n.natAbs⟩
  · exact ten_notMem_decimal n.natAbs

theorem ten_notMem_toInline (s : GoString) : 10 ∉ toInline s := by
  rw [toInline, List.mem_map]
  rintro ⟨b, -, hb⟩
  split at hb
  · exact absurd hb (by decide)
  · next hspace =>
    subst hb
    exact hspace (by decide)

theorem lineText_crlf (b : UInt8) (text : Bytes) : lineText (b :: (text ++ crlf)) = text := by
  have hlength : (b :: (text ++ crlf)).length - 3 = text.length := by
    rw [List.length_cons, List.length_append]
    rfl
  rw [lineText, hlength, List.drop_one, List.tail_cons, List.take_left]

/-- A line ends at its first line feed. -/
theorem reads_line {line : Bytes} (h : 10 ∉ line) :
    Reader.Reads (.takeThrough ReadError.eof 10) (line ++ crlf) (.ok (line ++ crlf)) := by
  have hcr : 10 ∉ line ++ [13] := by
    rw [List.mem_append, not_or]
    exact ⟨h, by decide⟩
  have hread := Reader.reads_takeThrough ReadError.eof hcr
  rwa [List.append_assoc] at hread

/-! ### The server reads what the client writes -/

theorem reads_readString {b : Bytes} (h : Fits b) :
    Reader.Reads readString (writeBytes b) (.ok b) := by
  have hline : 10 ∉ 36 :: decimal b.length := by
    rw [List.mem_cons, not_or]
    exact ⟨by decide, ten_notMem_decimal b.length⟩
  have hlength : ¬ (36 :: (decimal b.length ++ crlf)).length < 3 := by
    simp [crlf]
  have hbuf := Reader.reads_takeFull ReadError.eof (b ++ crlf)
  rw [List.length_append] at hbuf
  refine (reads_line hline).bind ?_
  rw [List.cons_append, if_neg hlength, List.head?_cons, lineText_crlf, h.atoi]
  refine (Reader.Reads.ofOption_some _ _).bind ?_
  rw [if_neg (by omega)]
  refine hbuf.bind_nil ?_
  rw [Int.toNat_natCast, List.take_left]
  exact .pure b

/-- **No argument can be taken for anything but an argument**, whatever bytes it has. -/
theorem reads_readArray {args : List Arg} (hlength : (args.length : ℤ) ≤ Int64.maxValue.toInt)
    (h : ∀ arg ∈ args, Fits arg.bytes) :
    Reader.Reads readArray (writeArgs args) (.ok (args.map Arg.bytes)) := by
  have hline : 10 ∉ 42 :: decimal args.length := by
    rw [List.mem_cons, not_or]
    exact ⟨by decide, ten_notMem_decimal args.length⟩
  have hline' : ¬ (42 :: (decimal args.length ++ crlf)).length < 3 := by
    simp [crlf]
  have hargs : args.flatMap writeArg = (args.map Arg.bytes).flatMap writeBytes := by
    rw [List.flatMap_map]
    rfl
  have hmany : Reader.Reads (readString.many (args.map Arg.bytes).length)
      ((args.map Arg.bytes).flatMap writeBytes) (.ok (args.map Arg.bytes)) := by
    refine Reader.Reads.many fun b hb => ?_
    obtain ⟨arg, harg, rfl⟩ := List.mem_map.mp hb
    exact reads_readString (h arg harg)
  rw [List.length_map] at hmany
  rw [writeArgs, hargs]
  refine (reads_line hline).bind ?_
  rw [List.cons_append, if_neg hline', List.head?_cons, lineText_crlf, atoi_decimal hlength]
  exact (Reader.Reads.ofOption_some _ _).bind hmany

/-! ### The client reads what the server writes -/

theorem reads_readLine {line : Bytes} (hne : line ≠ []) (h : 10 ∉ line) :
    Reader.Reads readLine (line ++ crlf) (.ok line) := by
  have hlength : (line ++ crlf).length - 2 = line.length := by
    rw [List.length_append]
    rfl
  have hlast : (line ++ crlf).dropLast.getLast? = some 13 := by
    have hcrlf : line ++ crlf = (line ++ [13]) ++ [10] := by simp [crlf]
    rw [hcrlf, List.dropLast_concat, List.getLast?_concat]
  have hlong : ¬ ((line ++ crlf).length ≤ 2 ∨ (line ++ crlf).dropLast.getLast? ≠ some 13) := by
    rw [hlast, List.length_append]
    have hpos := List.length_pos_iff.mpr hne
    simp only [crlf, List.length_cons, List.length_nil, ne_eq, not_true_eq_false, or_false]
    omega
  refine (reads_line h).bind_nil ?_
  rw [if_neg hlong, hlength, List.take_left]
  exact .pure line

theorem reads_readReplyLine {line : Bytes} (hne : line ≠ []) (h : 10 ∉ line)
    (hnil : isNilReply line = false) :
    Reader.Reads readReplyLine (line ++ crlf) (.ok line) := by
  refine (reads_readLine hne h).bind_nil ?_
  rw [hnil]
  exact .pure line

/-- A value comes back as it was stored. -/
theorem reads_bulk {b : Bytes} (h : Fits b) :
    Reader.Reads readStringCmd (writeBytes b) (.ok b) := by
  have hline : 10 ∉ 36 :: decimal b.length := by
    rw [List.mem_cons, not_or]
    exact ⟨by decide, ten_notMem_decimal b.length⟩
  have hnil : isNilReply (36 :: decimal b.length) = false := by
    cases hd : decimal b.length with
    | nil => rfl
    | cons d ds =>
      have hdigit := List.all_eq_true.mp (all_isDecDigit_decimal b.length) d (by simp [hd])
      have hd45 : d ≠ 45 := by
        rintro rfl
        exact absurd hdigit (by decide)
      simp [isNilReply, hd45]
  have hbuf := Reader.reads_takeFull ReadError.eof (b ++ crlf)
  rw [List.length_append] at hbuf
  refine (reads_readReplyLine (List.cons_ne_nil _ _) hline hnil).bind ?_
  rw [List.head?_cons]
  show Reader.Reads (readStringReply _) _ _
  rw [readStringReply, List.tail_cons, h.atoi]
  refine (Reader.Reads.ofOption_some _ _).bind (hbuf.bind_nil ?_)
  rw [Int.toNat_natCast, List.take_left]
  exact .pure b

theorem reads_null : Reader.Reads readStringCmd writeNull (.error .nil) := by
  have hline : 10 ∉ ([36, 45, 49] : Bytes) := by decide
  have hnil : Reader.Reads readReplyLine ([36, 45, 49] ++ crlf) (.error .nil) := by
    refine (reads_readLine (List.cons_ne_nil _ _) hline).bind_nil ?_
    rw [if_pos (by decide)]
    exact .fail _
  exact hnil.bind_error

theorem reads_inline (s : GoString) :
    Reader.Reads readStringCmd (writeInline s) (.ok (toInline s)) := by
  have hline : 10 ∉ 43 :: toInline s := by
    rw [List.mem_cons, not_or]
    exact ⟨by decide, ten_notMem_toInline s⟩
  have hnil : isNilReply (43 :: toInline s) = false := by simp [isNilReply]
  exact (reads_readReplyLine (List.cons_ne_nil _ _) hline hnil).bind_nil (.pure _)

theorem reads_int {n : ℤ} (hmin : Int64.minValue.toInt ≤ n) (hmax : n ≤ Int64.maxValue.toInt) :
    Reader.Reads readIntCmd (writeInt n) (.ok n) := by
  have hline : 10 ∉ 58 :: decimalInt n := by
    rw [List.mem_cons, not_or]
    exact ⟨by decide, ten_notMem_decimalInt n⟩
  have hnil : isNilReply (58 :: decimalInt n) = false := by simp [isNilReply]
  refine (reads_readReplyLine (List.cons_ne_nil _ _) hline hnil).bind_nil ?_
  rw [List.head?_cons, List.tail_cons, atoi_decimalInt hmin hmax]
  exact .ofOption_some _ _

theorem reads_error (s : GoString) :
    Reader.Reads readIntCmd (writeError s) (.error (.redis (toInline s))) := by
  have hline : 10 ∉ 45 :: toInline s := by
    rw [List.mem_cons, not_or]
    exact ⟨by decide, ten_notMem_toInline s⟩
  have hnil : isNilReply (45 :: toInline s) = false := by simp [isNilReply]
  exact (reads_readReplyLine (List.cons_ne_nil _ _) hline hnil).bind_nil (.fail _)

end Redis

end KeyBank
