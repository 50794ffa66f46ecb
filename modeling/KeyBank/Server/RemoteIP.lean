import KeyBank.Server.Http

/-!
# The client address

`remoteIP` is the address a request is charged to: the host of its direct peer or, behind a
trusted proxy and with `trustXFF`, the first entry of `X-Forwarded-For`. The pieces of `net` and
`strings` it needs are here: `SplitHostPort`, `ParseIP` with the two predicates on addresses, and
`TrimSpace`. They work on byte strings, since neither a header nor an address need be UTF-8.
-/

namespace KeyBank

/-! ### `net.SplitHostPort` -/

/-- The part of a string before the last occurrence of a byte, and the part after it. -/
def splitLast (c : UInt8) (s : GoString) : Option (GoString × GoString) :=
  if c ∈ s then
    let after := (s.reverse.takeWhile (· ≠ c)).reverse
    some (s.take (s.length - after.length - 1), after)
  else none

/-- The host `net.SplitHostPort` finds; `none` is an error. -/
def splitHost (hostport : GoString) : Option GoString :=
  match splitLast 58 hostport with
  | none => none
  | some (before, port) =>
    if hostport.head? = some 91 then
      -- The first `]` must stand just before the last colon.
      let host := before.tail.dropLast
      if before.length ≥ 2 ∧ before.getLast? = some 93 ∧ 93 ∉ host ∧ 91 ∉ host ∧ 91 ∉ port ∧
          93 ∉ port then some host
      else none
    else if 58 ∈ before ∨ 91 ∈ hostport ∨ 93 ∈ hostport then none
    else some before

/-! ### `net.ParseIP` -/

/-- One field of a dotted address: decimal, at most 255, no leading zero. -/
def parseOctet (f : GoString) : Option ℕ :=
  if f ≠ [] ∧ f.all isDecDigit = true ∧ f.length ≤ 3 ∧ (f.head? = some 48 → f.length = 1) then
    if decValue f ≤ 255 then some (decValue f) else none
  else none

/-- `parseIPv4`. -/
def parseIPv4 (s : GoString) : Option (List ℕ) :=
  match (s.splitOn 46).mapM parseOctet with
  | some [a, b, c, d] => some [a, b, c, d]
  | _ => none

/-- One group of an IPv6 address: one to four hexadecimal digits. -/
def parseGroup (f : GoString) : Option ℕ :=
  if f ≠ [] ∧ f.length ≤ 4 then
    (f.mapM UrlText.hexValue).map fun ds => ds.foldl (fun n d => 16 * n + d) 0
  else none

/-- Groups separated by colons, as bytes; the last may be a dotted address. -/
def parseGroups : List GoString → Option (List ℕ)
  | [] => some []
  | [f] =>
    if 46 ∈ f then parseIPv4 f else (parseGroup f).map fun n => [n / 256, n % 256]
  | f :: fs =>
    match parseGroup f, parseGroups fs with
    | some n, some rest => some (n / 256 :: n % 256 :: rest)
    | _, _ => none

/-- The groups of one side of an address; the empty text has none. -/
def parseSide (s : GoString) : Option (List ℕ) :=
  if s = [] then some [] else parseGroups (s.splitOn 58)

/-- The text before the first `::` and the text after it. -/
def splitEllipsis : GoString → Option (GoString × GoString)
  | 58 :: 58 :: s => some ([], s)
  | [] => none
  | b :: s => (splitEllipsis s).map fun p => (b :: p.1, p.2)

/-- `parseIPv6`, without zones: `net.ParseIP` rejects them. -/
def parseIPv6 (s : GoString) : Option (List ℕ) :=
  match splitEllipsis s with
  | none => (parseSide s).filter fun b => b.length = 16
  | some (left, right) =>
    match parseSide left, parseSide right with
    | some l, some r =>
      -- The ellipsis stands for at least one group, and a dotted part may only end the address.
      if l.length + r.length ≤ 14 ∧ 46 ∉ left then
        some (l ++ List.replicate (16 - l.length - r.length) 0 ++ r)
      else none
    | _, _ => none

/-- `net.ParseIP`: the 16 bytes of an address, those of an IPv4 address in its mapped form. -/
def parseIP (s : GoString) : Option (List ℕ) :=
  match s.find? fun b => b = 46 ∨ b = 58 ∨ b = 37 with
  | some 46 => (parseIPv4 s).map fun b => List.replicate 10 0 ++ [255, 255] ++ b
  | some 58 => if 37 ∈ s then none else parseIPv6 s
  | _ => none

/-- `IP.To4`. -/
def to4 (ip : List ℕ) : Option (List ℕ) :=
  if ip.take 12 = List.replicate 10 0 ++ [255, 255] then some (ip.drop 12) else none

/-- `IP.IsLoopback`. -/
def isLoopback (ip : List ℕ) : Bool :=
  match to4 ip with
  | some b => b.headD 0 = 127
  | none => ip = List.replicate 15 0 ++ [1]

/-- `IP.IsPrivate`. -/
def isPrivate (ip : List ℕ) : Bool :=
  match to4 ip with
  | some b => b.headD 0 = 10 || (b.headD 0 = 172 && b.getD 1 0 / 16 = 1) ||
      (b.headD 0 = 192 && b.getD 1 0 = 168)
  | none => ip.headD 0 / 2 = 126

/-- `isTrustedProxy`. -/
def isTrustedProxy (address : GoString) : Bool :=
  match parseIP address with
  | some ip => isLoopback ip || isPrivate ip
  | none => false

/-! ### `strings.TrimSpace` -/

/-- The UTF-8 text of every character `unicode.IsSpace` holds of. -/
def spaces : List GoString :=
  [[9], [10], [11], [12], [13], [32], [194, 133], [194, 160], [225, 154, 128], [226, 128, 168],
    [226, 128, 169], [226, 128, 175], [226, 129, 159], [227, 128, 128]] ++
  (List.range 11).map fun n => [226, 128, UInt8.ofNat (128 + n)]

/-- Drop the words of a list from the front of a string while one stands there. -/
def dropWords (words : List GoString) : ℕ → GoString → GoString
  | 0, s => s
  | fuel + 1, s =>
    match words.find? fun w => w.isPrefixOf s with
    | some w => dropWords words fuel (s.drop w.length)
    | none => s

/-- `strings.TrimSpace`. -/
def trimSpace (s : GoString) : GoString :=
  let s := dropWords spaces s.length s
  (dropWords (spaces.map List.reverse) s.length s.reverse).reverse

/-! ### The address a request is charged to -/

/-- `remoteIP`. -/
def remoteIP (r : Request) (trustXFF : Bool) : GoString :=
  let directIP := (splitHost r.remoteAddr).getD r.remoteAddr
  let xff := r.header.get "X-Forwarded-For"
  let first := trimSpace ((xff.splitOn 44).headD [])
  if trustXFF && isTrustedProxy directIP && xff != [] && first != [] then first else directIP

example : isTrustedProxy (lit "172.31.0.1") = true ∧ isTrustedProxy (lit "::1") = true ∧
    isTrustedProxy (lit "fd00::8") = true ∧ isTrustedProxy (lit "8.8.8.8") = false ∧
    isTrustedProxy (lit "::ffff:10.0.0.1") = true := by decide +kernel

end KeyBank
