import Mathlib.Data.Rat.Floor
import Mathlib.Tactic.Linarith

/-!
# JSON values as `nlohmann::json` holds them

A `std::string` is a list of bytes with no promise of UTF-8: the session copies raw client
bytes into JSON strings, and only the serializer checks them. Objects are `std::map`s, so
their keys are kept sorted and unique. A `double` is taken as the rational it stands for;
rounding, infinities and NaN are not modelled.

## Implementation notes

`dump` is the serializer with `ensure_ascii = false` and the strict error handler, the
defaults of `json::dump()` and of `operator<<`. The decimal text of a `double` comes from
the library's Grisu2 printer, which is not part of this repository: `dump` takes it as the
argument `fmt`.
-/

namespace OpenTrade

/-- A `std::string`. -/
abbrev Bytes := List UInt8

/-- The UTF-8 bytes of one code point. -/
def encodeCodepoint (n : Nat) : Bytes :=
  if n < 0x80 then [n.toUInt8]
  else if n < 0x800 then [(0xC0 + n / 0x40).toUInt8, (0x80 + n % 0x40).toUInt8]
  else if n < 0x10000 then
    [(0xE0 + n / 0x1000).toUInt8, (0x80 + n / 0x40 % 0x40).toUInt8, (0x80 + n % 0x40).toUInt8]
  else
    [(0xF0 + n / 0x40000).toUInt8, (0x80 + n / 0x1000 % 0x40).toUInt8,
      (0x80 + n / 0x40 % 0x40).toUInt8, (0x80 + n % 0x40).toUInt8]

/-- The bytes of a string literal of the source. -/
def utf8 (s : String) : Bytes := s.toList.flatMap (encodeCodepoint ·.toNat)

/-- `std::to_string` of an integer. -/
def decimal (v : Int) : Bytes := utf8 (toString v)

/-- A hexadecimal digit, in upper or lower case. -/
def hexDigit (upper : Bool) (n : Nat) : UInt8 :=
  if n < 10 then (0x30 + n).toUInt8 else ((if upper then 0x41 else 0x61) + n - 10).toUInt8

/-- `std::string` comparison: lexicographic on unsigned bytes. -/
def bytesLt : Bytes → Bytes → Bool
  | [], [] => false
  | [], _ :: _ => true
  | _ :: _, [] => false
  | a :: as, b :: bs => a < b || (a == b && bytesLt as bs)

/-- The exceptions the session code can raise or catch. -/
inductive Exn where
  /-- `nlohmann::detail::parse_error`, from `json::parse`. -/
  | parseError
  /-- `nlohmann::detail::type_error`, with its `what()`. -/
  | typeError (what : Bytes)
  /-- `std::runtime_error`, with its `what()`. -/
  | runtimeError (what : Bytes)
  /-- `boost::filesystem::filesystem_error`, with its `what()`. -/
  | filesystemError (what : Bytes)
  deriving DecidableEq, Repr

/-- `Exn.what` of an exception, as the handlers print it. -/
def Exn.what : Exn → Bytes
  | .parseError => utf8 "[json.exception.parse_error.101] parse error"
  | .typeError w | .runtimeError w | .filesystemError w => w

/-- Caught by `catch (nlohmann::detail::exception&)`. -/
def Exn.isJsonException : Exn → Bool
  | .parseError | .typeError _ => true
  | _ => false

/-- A `nlohmann::json` value. -/
inductive Json where
  | null
  | boolean (b : Bool)
  | numberInteger (v : Int)
  | numberUnsigned (v : Nat)
  | numberFloat (v : ℚ)
  | string (s : Bytes)
  | array (xs : List Json)
  | object (kvs : List (Bytes × Json))
  deriving Inhabited

instance : Coe String Json := ⟨fun s => .string (utf8 s)⟩

namespace Json

/-! ## Kinds -/

def isNull : Json → Bool
  | .null => true
  | _ => false

def isBoolean : Json → Bool
  | .boolean _ => true
  | _ => false

/-- `is_number_integer`: signed and unsigned integers alike. -/
def isNumberInteger : Json → Bool
  | .numberInteger _ | .numberUnsigned _ => true
  | _ => false

def isNumberFloat : Json → Bool
  | .numberFloat _ => true
  | _ => false

def isNumber (j : Json) : Bool := j.isNumberInteger || j.isNumberFloat

def isString : Json → Bool
  | .string _ => true
  | _ => false

def isArray : Json → Bool
  | .array _ => true
  | _ => false

def isObject : Json → Bool
  | .object _ => true
  | _ => false

/-- `type_name()`, as exception texts name a value's kind. -/
def typeName : Json → Bytes
  | .null => utf8 "null"
  | .boolean _ => utf8 "boolean"
  | .numberInteger _ | .numberUnsigned _ | .numberFloat _ => utf8 "number"
  | .string _ => utf8 "string"
  | .array _ => utf8 "array"
  | .object _ => utf8 "object"

/-- `size()`: zero for null, the element count of a container, one otherwise. -/
def size : Json → Nat
  | .null => 0
  | .array xs => xs.length
  | .object kvs => kvs.length
  | _ => 1

/-! ## Building values -/

/-- `push_back`: null becomes an array first. Only arrays and null are pushed onto here. -/
def push (j v : Json) : Json :=
  match j with
  | .array xs => .array (xs ++ [v])
  | _ => .array [v]

theorem push_foldl_array (l xs : List Json) : l.foldl push (.array xs) = .array (xs ++ l) := by
  induction l generalizing xs with
  | nil => simp
  | cons x l ih => simp [push, ih]

/-- Insert into a sorted member list, replacing the value of an equal key. -/
def insertMember (k : Bytes) (v : Json) : List (Bytes × Json) → List (Bytes × Json)
  | [] => [(k, v)]
  | (k', v') :: rest =>
    if k = k' then (k, v) :: rest
    else if bytesLt k k' then (k, v) :: (k', v') :: rest
    else (k', v') :: insertMember k v rest

/-- `j[key] = v`: null becomes an object first. -/
def set (j : Json) (key : Bytes) (v : Json) : Json :=
  match j with
  | .object kvs => .object (insertMember key v kvs)
  | _ => .object [(key, v)]

/-- An object from an initializer list of key/value pairs. -/
def mkObject (kvs : List (String × Json)) : Json :=
  kvs.foldl (fun j kv => j.set (utf8 kv.1) kv.2) (.object [])

/-- `items()`: the members of an object, the elements of an array under their decimal
index, nothing for null, and the value itself under the empty key otherwise. -/
def items : Json → List (Bytes × Json)
  | .null => []
  | .object kvs => kvs
  | .array xs => (List.range xs.length).zip xs |>.map fun p => (decimal p.1, p.2)
  | j => [([], j)]

/-! ## UTF-8 -/

/-- Where a UTF-8 decoder stands between bytes (RFC 3629 §4): between characters, or
owing continuation bytes, the next one narrowed after `E0`, `ED`, `F0` and `F4`. -/
inductive Utf8State where
  | accept | tail1 | tail2 | tail3 | afterE0 | afterED | afterF0 | afterF4
  deriving DecidableEq, Repr

/-- `next` when `lo ≤ b ≤ hi`. -/
def within (lo hi : UInt8) (next : Utf8State) (b : UInt8) : Option Utf8State :=
  if lo ≤ b ∧ b ≤ hi then some next else none

/-- One byte of the decoder, or `none` where UTF-8 cannot hold it. -/
def utf8Step : Utf8State → UInt8 → Option Utf8State
  | .accept, b =>
    if b < 0x80 then some .accept
    else if b < 0xC2 then none
    else if b < 0xE0 then some .tail1
    else if b = 0xE0 then some .afterE0
    else if b = 0xED then some .afterED
    else if b < 0xF0 then some .tail2
    else if b = 0xF0 then some .afterF0
    else if b < 0xF4 then some .tail3
    else if b = 0xF4 then some .afterF4
    else none
  | .tail1, b => within 0x80 0xBF .accept b
  | .tail2, b => within 0x80 0xBF .tail1 b
  | .tail3, b => within 0x80 0xBF .tail2 b
  | .afterE0, b => within 0xA0 0xBF .tail1 b
  | .afterED, b => within 0x80 0x9F .tail1 b
  | .afterF0, b => within 0x90 0xBF .tail2 b
  | .afterF4, b => within 0x80 0x8F .tail2 b

/-- The decoder's state after a byte string, or `none` once a byte is refused. -/
def utf8Run : Utf8State → Bytes → Option Utf8State
  | q, [] => some q
  | q, b :: bs => (utf8Step q b).bind (utf8Run · bs)

/-- Well-formed UTF-8. -/
def validUtf8 (s : Bytes) : Bool := utf8Run .accept s == some .accept

/-! ## Serialization -/

/-- The escape of one byte of a well-formed string: the short escapes, `\u00xx` for the
other control characters, the byte itself otherwise. -/
def escapeByte (b : UInt8) : Bytes :=
  if b = 0x22 then utf8 "\\\"" else if b = 0x5C then utf8 "\\\\"
  else if b = 0x08 then utf8 "\\b" else if b = 0x0C then utf8 "\\f"
  else if b = 0x0A then utf8 "\\n" else if b = 0x0D then utf8 "\\r"
  else if b = 0x09 then utf8 "\\t"
  else if b < 0x20 then utf8 "\\u00" ++ [hexDigit false (b.toNat / 16), hexDigit false (b.toNat % 16)]
  else [b]

/-- `type_error` 316 of the strict error handler. -/
def utf8Error (what : Bytes) (b : UInt8) : Exn :=
  .typeError (utf8 "[json.exception.type_error.316] " ++ what ++ utf8 "0x" ++
    [hexDigit true (b.toNat / 16), hexDigit true (b.toNat % 16)])

/-- `dump_escaped`: the escaped bytes, or `type_error` 316 at the first byte UTF-8 cannot
hold, or at the end of a string cut inside a character. -/
def escape (s : Bytes) : Except Exn Bytes := go .accept 0 s
where
  go : Utf8State → Nat → Bytes → Except Exn Bytes
    | q, _, [] =>
      if q = .accept then .ok []
      else .error (utf8Error (utf8 "incomplete UTF-8 string; last byte: ") (s.getLastD 0))
    | q, i, b :: bs =>
      match utf8Step q b with
      | some q' => (escapeByte b ++ ·) <$> go q' (i + 1) bs
      | none => .error (utf8Error (utf8 "invalid UTF-8 byte at index " ++ decimal i ++ utf8 ": ") b)

/-- Text of a comma-separated list. -/
def joinComma : List Bytes → Bytes
  | [] => []
  | [x] => x
  | x :: xs => x ++ [0x2C] ++ joinComma xs

mutual
/-- `dump()`: compact text, or the `type_error` of the first string that is not UTF-8. -/
def dump (fmt : ℚ → Bytes) : Json → Except Exn Bytes
  | .null => .ok (utf8 "null")
  | .boolean b => .ok (utf8 (if b then "true" else "false"))
  | .numberInteger v => .ok (decimal v)
  | .numberUnsigned v => .ok (decimal v)
  | .numberFloat v => .ok (fmt v)
  | .string s => (fun e => [0x22] ++ e ++ [0x22]) <$> escape s
  | .array xs => (fun es => [0x5B] ++ joinComma es ++ [0x5D]) <$> dumpElements fmt xs
  | .object kvs => (fun es => [0x7B] ++ joinComma es ++ [0x7D]) <$> dumpMembers fmt kvs

/-- The texts of array elements, in order. -/
def dumpElements (fmt : ℚ → Bytes) : List Json → Except Exn (List Bytes)
  | [] => .ok []
  | x :: xs => do
    let e ← dump fmt x
    let es ← dumpElements fmt xs
    pure (e :: es)

/-- The texts `"key":value` of object members, in order. -/
def dumpMembers (fmt : ℚ → Bytes) : List (Bytes × Json) → Except Exn (List Bytes)
  | [] => .ok []
  | (k, v) :: kvs => do
    let ek ← escape k
    let e ← dump fmt v
    let es ← dumpMembers fmt kvs
    pure (([0x22] ++ ek ++ [0x22, 0x3A] ++ e) :: es)
end

end Json

end OpenTrade
