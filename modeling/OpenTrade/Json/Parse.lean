import OpenTrade.Json.Value

/-!
# `json::parse`

The library's lexer reads one byte at a time; its parser is iterative, with a stack of the
containers it is inside. Both are written here the same way, so that each is structurally
recursive on its input and evaluates on closed messages.

## Implementation notes

The lexer runs to the end of the message before the parser starts, where the library
interleaves them. Every failure of either is the same `parse_error` to the session, which
never reads its text, so only acceptance and the value built matter, and these agree.
A NUL byte between tokens reads as the end of the input, as in the library's `scan`.
-/

namespace OpenTrade.Json

/-- A token of the lexer. Literals and numbers arrive as the values they stand for. -/
inductive Token where
  | beginArray | endArray | beginObject | endObject | nameSeparator | valueSeparator
  | value (j : Json)
  | string (s : Bytes)

/-- Where `scan_number` stands: after the sign, a leading zero, integer digits, the point,
fraction digits, the exponent mark, its sign, or exponent digits. -/
inductive NumState where
  | minus | zero | int | dot | frac | exp | expSign | expDigits
  deriving DecidableEq

/-- States in which a number may end. -/
def NumState.final : NumState → Bool
  | .zero | .int | .frac | .expDigits => true
  | _ => false

/-- The lexer between bytes. `acc` holds the bytes of the string read so far. -/
inductive Lexer where
  | between
  | literal (rest : Bytes) (v : Json)
  | number (st : NumState) (text : Bytes)
  | string (acc : Bytes) (q : Utf8State)
  | escape (acc : Bytes)
  | unicode (acc : Bytes) (high : Option Nat) (n digits : Nat)
  | lowBackslash (acc : Bytes) (high : Nat)
  | lowU (acc : Bytes) (high : Nat)

/-- The outcome of one byte: the next state and the tokens completed, the end of the input
(a NUL between tokens), or a parse error. -/
inductive LexStep where
  | next (l : Lexer) (out : List Token)
  | stop (out : List Token)
  | fail

def isDigit (b : UInt8) : Bool := 0x30 ≤ b && b ≤ 0x39

/-- The value of a hexadecimal digit. -/
def hexValue (b : UInt8) : Option Nat :=
  if 0x30 ≤ b ∧ b ≤ 0x39 then some (b.toNat - 0x30)
  else if 0x41 ≤ b ∧ b ≤ 0x46 then some (b.toNat - 0x37)
  else if 0x61 ≤ b ∧ b ≤ 0x66 then some (b.toNat - 0x57)
  else none

/-- The number of a string of decimal digits. -/
def digitsValue (ds : Bytes) : Nat := ds.foldl (fun n d => 10 * n + (d.toNat - 0x30)) 0

/-- The value `scan_number` gives a number's text: `strtoll` or `strtoull` where the text
is an integer that fits, `strtod` otherwise.

An integer text is read exactly, as the code reads it. A text read by `strtod` keeps its exact
decimal value here, where the code rounds it to the nearest `double` and rejects one beyond the
range of `double` (`out_of_range` 406). The two agree exactly on the texts whose value a
`double` holds, integers below `2^53` among them; a result that reads a parsed number assumes
such a value (the shutdown grace is an integer below `2^31`). -/
def numberValue (text : Bytes) : Json :=
  let neg := text.head? = some 0x2D
  let body := if neg then text.tail else text
  let intPart := body.takeWhile isDigit
  let rest := body.dropWhile isDigit
  let fracPart := if rest.head? = some 0x2E then (rest.tail.takeWhile isDigit) else []
  let expText := if rest.head? = some 0x2E then rest.tail.dropWhile isDigit else rest
  let sign : ℚ := if neg then -1 else 1
  if expText.isEmpty ∧ rest.head? ≠ some 0x2E then
    let n := digitsValue intPart
    if neg then (if n ≤ 2 ^ 63 then .numberInteger (-n) else .numberFloat (-n))
    else (if n < 2 ^ 64 then .numberUnsigned n else .numberFloat n)
  else
    let e : Int := match expText.tail with
      | 0x2D :: ds => -(digitsValue ds)
      | 0x2B :: ds => digitsValue ds
      | ds => digitsValue ds
    let m : ℚ := digitsValue (intPart ++ fracPart)
    let d := e - fracPart.length
    .numberFloat (sign * m * (10 : ℚ) ^ d.toNat / (10 : ℚ) ^ (-d).toNat)

/-- A byte between tokens. -/
def scanBetween (b : UInt8) : LexStep :=
  if b = 0x20 ∨ b = 0x09 ∨ b = 0x0A ∨ b = 0x0D then .next .between []
  else if b = 0x00 then .stop []
  else if b = 0x5B then .next .between [.beginArray]
  else if b = 0x5D then .next .between [.endArray]
  else if b = 0x7B then .next .between [.beginObject]
  else if b = 0x7D then .next .between [.endObject]
  else if b = 0x3A then .next .between [.nameSeparator]
  else if b = 0x2C then .next .between [.valueSeparator]
  else if b = 0x22 then .next (.string [] .accept) []
  else if b = 0x74 then .next (.literal (utf8 "rue") (.boolean true)) []
  else if b = 0x66 then .next (.literal (utf8 "alse") (.boolean false)) []
  else if b = 0x6E then .next (.literal (utf8 "ull") .null) []
  else if b = 0x2D then .next (.number .minus [b]) []
  else if b = 0x30 then .next (.number .zero [b]) []
  else if isDigit b then .next (.number .int [b]) []
  else .fail

/-- The state after one more byte of a number, or `none` where the number ends. -/
def numberStep : NumState → UInt8 → Option NumState
  | .minus, b => if b = 0x30 then some .zero else if isDigit b then some .int else none
  | .zero, b => if b = 0x2E then some .dot else if b = 0x65 ∨ b = 0x45 then some .exp else none
  | .int, b =>
    if isDigit b then some .int else if b = 0x2E then some .dot
    else if b = 0x65 ∨ b = 0x45 then some .exp else none
  | .dot, b => if isDigit b then some .frac else none
  | .frac, b => if isDigit b then some .frac else if b = 0x65 ∨ b = 0x45 then some .exp else none
  | .exp, b => if b = 0x2B ∨ b = 0x2D then some .expSign else if isDigit b then some .expDigits else none
  | .expSign, b => if isDigit b then some .expDigits else none
  | .expDigits, b => if isDigit b then some .expDigits else none

/-- The byte an escape stands for, `\u` apart. -/
def escapeValue (b : UInt8) : Option UInt8 :=
  if b = 0x22 then some 0x22 else if b = 0x5C then some 0x5C else if b = 0x2F then some 0x2F
  else if b = 0x62 then some 0x08 else if b = 0x66 then some 0x0C
  else if b = 0x6E then some 0x0A else if b = 0x72 then some 0x0D
  else if b = 0x74 then some 0x09 else none

/-- The string state after a complete `\u` escape of `n`, `high` holding a pending high
surrogate: a pair is joined, a lone or misplaced surrogate is an error. -/
def codepointStep (acc : Bytes) (high : Option Nat) (n : Nat) : LexStep :=
  match high with
  | none =>
    if 0xD800 ≤ n ∧ n ≤ 0xDBFF then .next (.lowBackslash acc n) []
    else if 0xDC00 ≤ n ∧ n ≤ 0xDFFF then .fail
    else .next (.string (acc ++ encodeCodepoint n) .accept) []
  | some h =>
    if 0xDC00 ≤ n ∧ n ≤ 0xDFFF then
      .next (.string (acc ++ encodeCodepoint (0x10000 + (h - 0xD800) * 0x400 + (n - 0xDC00))) .accept) []
    else .fail

/-- One byte of the lexer. -/
def scanStep : Lexer → UInt8 → LexStep
  | .between, b => scanBetween b
  | .literal rest v, b =>
    match rest with
    | [c] => if b = c then .next .between [.value v] else .fail
    | c :: cs => if b = c then .next (.literal cs v) [] else .fail
    | [] => .fail
  | .number st text, b =>
    match numberStep st b with
    | some st' => .next (.number st' (text ++ [b])) []
    | none =>
      if st.final then
        match scanBetween b with
        | .next l out => .next l (.value (numberValue text) :: out)
        | .stop out => .stop (.value (numberValue text) :: out)
        | .fail => .fail
      else .fail
  | .string acc q, b =>
    if q = .accept ∧ b = 0x22 then .next .between [.string acc]
    else if q = .accept ∧ b = 0x5C then .next (.escape acc) []
    else if q = .accept ∧ b < 0x20 then .fail
    else
      match utf8Step q b with
      | some q' => .next (.string (acc ++ [b]) q') []
      | none => .fail
  | .escape acc, b =>
    if b = 0x75 then .next (.unicode acc none 0 0) []
    else
      match escapeValue b with
      | some c => .next (.string (acc ++ [c]) .accept) []
      | none => .fail
  | .unicode acc high n k, b =>
    match hexValue b with
    | none => .fail
    | some d => if k < 3 then .next (.unicode acc high (16 * n + d) (k + 1)) []
      else codepointStep acc high (16 * n + d)
  | .lowBackslash acc h, b => if b = 0x5C then .next (.lowU acc h) [] else .fail
  | .lowU acc h, b => if b = 0x75 then .next (.unicode acc (some h) 0 0) [] else .fail

/-- The tokens a state still owes at the end of the input. -/
def scanEnd : Lexer → Except Exn (List Token)
  | .between => .ok []
  | .number st text => if st.final then .ok [.value (numberValue text)] else .error .parseError
  | _ => .error .parseError

/-- The tokens of a message, from a lexer state. -/
def scan : Lexer → Bytes → Except Exn (List Token)
  | l, [] => scanEnd l
  | l, b :: bs =>
    match scanStep l b with
    | .next l' out => (out ++ ·) <$> scan l' bs
    | .stop out => .ok out
    | .fail => .error .parseError

/-- A container the parser is inside: the elements read so far, or the members read so far
and the key whose value comes next. -/
inductive Open where
  | array (xs : List Json)
  | object (o : Json) (key : Bytes)

/-- What the parser expects next. -/
inductive Expect where
  | value | valueOrEnd | keyOrEnd | key | colon | separatorOrEnd
  | done (j : Json)

/-- A value is complete: it is the result, or joins the container it is in. -/
def complete (v : Json) : List Open → Expect × List Open
  | [] => (.done v, [])
  | .array xs :: st => (.separatorOrEnd, .array (xs ++ [v]) :: st)
  | .object o k :: st => (.separatorOrEnd, .object (o.set k v) [] :: st)

/-- One token of the parser. -/
def parseStep : Expect → List Open → Token → Option (Expect × List Open)
  | .value, st, .value v | .valueOrEnd, st, .value v => some (complete v st)
  | .value, st, .string s | .valueOrEnd, st, .string s => some (complete (.string s) st)
  | .value, st, .beginArray | .valueOrEnd, st, .beginArray => some (.valueOrEnd, .array [] :: st)
  | .value, st, .beginObject | .valueOrEnd, st, .beginObject =>
    some (.keyOrEnd, .object (.object []) [] :: st)
  | .valueOrEnd, .array [] :: st, .endArray => some (complete (.array []) st)
  | .keyOrEnd, .object o _ :: st, .endObject => some (complete o st)
  | .keyOrEnd, .object o _ :: st, .string k | .key, .object o _ :: st, .string k =>
    some (.colon, .object o k :: st)
  | .colon, st, .nameSeparator => some (.value, st)
  | .separatorOrEnd, .array xs :: st, .valueSeparator => some (.value, .array xs :: st)
  | .separatorOrEnd, .object o k :: st, .valueSeparator => some (.key, .object o k :: st)
  | .separatorOrEnd, .array xs :: st, .endArray => some (complete (.array xs) st)
  | .separatorOrEnd, .object o _ :: st, .endObject => some (complete o st)
  | _, _, _ => none

/-- The value a token list spells, with nothing after it. -/
def parseTokens : Expect → List Open → List Token → Except Exn Json
  | .done j, [], [] => .ok j
  | _, _, [] => .error .parseError
  | e, st, t :: ts =>
    match parseStep e st t with
    | some (e', st') => parseTokens e' st' ts
    | none => .error .parseError

/-- `skip_bom`: a leading byte order mark is dropped; a partial one is an error. -/
def skipBom : Bytes → Except Exn Bytes
  | 0xEF :: 0xBB :: 0xBF :: rest => .ok rest
  | 0xEF :: _ => .error .parseError
  | msg => .ok msg

/-- `json::parse` of a message. -/
def parse (msg : Bytes) : Except Exn Json := do
  let ts ← scan .between (← skipBom msg)
  parseTokens .value [] ts

end OpenTrade.Json
