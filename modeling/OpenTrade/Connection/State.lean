import OpenTrade.Engines
import Mathlib.Data.List.AList

/-!
# A connection's state and the code it runs in

A handler runs in `M`: it reads and writes the connection's fields, the process-wide token
table `kTokens`, the frames sent and the calls made, and it ends normally, with a C++
exception, with undefined behaviour, or in the shutdown countdown. An exception keeps every
write made before it, as in C++.

## Implementation notes

`Connection::Send(const std::string&)` is declared in `connection.h`, which is not in the
repository; `send` follows the spec: after `closed` nothing is emitted. A frame is kept as
the JSON value whose `dump` was sent.
-/

namespace OpenTrade

/-- A `subs_` entry: the snapshot last sent and the reference count. -/
abbrev SubEntry := MarketData × Int

/-- The fields of a `Connection`. -/
structure Session where
  user : Option User := none
  subs : AList (fun _ : Int => SubEntry) := ∅
  ecs : Bytes → Option Bool := fun _ => none
  mds : Bytes → Option Bool := fun _ => none
  singlePnls : Int × Int → ℚ × ℚ := fun _ => (0, 0)
  pnls : Int → ℚ × ℚ := fun _ => (0, 0)
  subPnl : Bool := false
  testAlgoTokens : List Bytes := []
  closed : Bool := false

/-- What goes out on the transport: a raw string, or the text of a JSON value. -/
inductive Frame where
  | text (b : Bytes)
  | json (j : Json)

/-- The state a handler reads and writes. -/
structure St where
  conn : Session
  kTokens : Bytes → Option User
  out : List Frame
  calls : List Call

/-- A connection as its constructor leaves it, in a process whose token table is empty. -/
def St.init : St := ⟨{}, fun _ => none, [], []⟩

/-- How a handler can end other than normally. -/
inductive Abort where
  | throw (e : Exn)
  /-- An out-of-range read, through a `const json&` or past a string literal. -/
  | undefined
  /-- The shutdown countdown starts from `seconds` with this interval; the process is
  killed when it ends. -/
  | shutdown (seconds : Int) (interval : ℚ)

/-- The code of a connection. -/
abbrev M := EStateM Abort St

section Monad

variable {α : Type}

@[simp] theorem M.pure_apply (a : α) (s : St) : (pure a : M α) s = .ok a s := rfl

@[simp] theorem M.get_apply (s : St) : (get : M St) s = .ok s s := rfl

@[simp] theorem M.set_apply (s s' : St) : (set s' : M PUnit) s = .ok ⟨⟩ s' := rfl

@[simp] theorem M.modifyGet_apply (f : St → α × St) (s : St) :
    (modifyGet f : M α) s = .ok (f s).1 (f s).2 := rfl

@[simp] theorem M.throw_apply (e : Abort) (s : St) : (throw e : M α) s = .error e s := rfl

end Monad

/-- `throw` of a C++ exception. -/
def throwExn {α : Type} (e : Exn) : M α := throw (.throw e)

/-- Undefined behaviour. -/
def undefinedBehaviour {α : Type} : M α := throw .undefined

/-- A write to the connection's own fields. -/
def modifyConn (f : Session → Session) : M Unit := modify fun s => { s with conn := f s.conn }

/-- A call into an engine or the filesystem. -/
def call (c : Call) : M Unit := modify fun s => { s with calls := s.calls ++ [c] }

/-- Modelled from the spec: `Connection::Send(const std::string&)` is declared in `connection.h`,
which is not in the repository; once the connection is closed nothing is emitted. -/
def emit (f : Frame) : M Unit :=
  modify fun s => if s.conn.closed then s else { s with out := s.out ++ [f] }

/-- `Send(j.dump())`: `dump` throws on a string that is not UTF-8, before anything is sent. -/
def send (env : Env) (j : Json) : M Unit :=
  match j.dump env.fmt with
  | .ok _ => emit (.json j)
  | .error e => throwExn e

section Effects

variable {α β : Type} {s s' : St}

theorem M.bind_of_ok {x : M α} {f : α → M β} {a : α} (h : x s = .ok a s') :
    (x >>= f) s = f a s' := by
  show EStateM.bind x f s = _
  simp only [EStateM.bind, h]

theorem M.bind_of_error {x : M α} {f : α → M β} {e : Abort} (h : x s = .error e s') :
    (x >>= f) s = .error e s' := by
  show EStateM.bind x f s = _
  simp only [EStateM.bind, h]

@[simp] theorem throwExn_apply (e : Exn) (s : St) : (throwExn e : M α) s = .error (.throw e) s := rfl

@[simp] theorem undefinedBehaviour_apply (s : St) : (undefinedBehaviour : M α) s = .error .undefined s :=
  rfl

@[simp] theorem modifyConn_apply (f : Session → Session) (s : St) :
    modifyConn f s = .ok () { s with conn := f s.conn } := rfl

@[simp] theorem call_apply (c : Call) (s : St) : call c s = .ok () { s with calls := s.calls ++ [c] } :=
  rfl

@[simp] theorem emit_apply (f : Frame) (s : St) :
    emit f s = .ok () (if s.conn.closed then s else { s with out := s.out ++ [f] }) := rfl

theorem send_of_dump_ok {env : Env} {j : Json} {t : Bytes} (h : j.dump env.fmt = .ok t) :
    send env j = emit (.json j) := by
  simp only [send, h]

theorem send_of_dump_error {env : Env} {j : Json} {e : Exn} (h : j.dump env.fmt = .error e) :
    send env j = throwExn e := by
  simp only [send, h]

end Effects

/-! ## Reading JSON -/

/-- `type_error` 305 of `operator[]` on a value that is neither an array nor null. -/
def typeError305 (j : Json) : Exn :=
  .typeError (utf8 "[json.exception.type_error.305] cannot use operator[] with a numeric argument with " ++
    j.typeName)

/-- `operator[](i)` on the dispatcher's own `json`: null and a short array are padded with
nulls, so the read gives null. The padded value is not kept: every padded read is followed
by a getter, which throws on null. -/
def index (i : Nat) : Json → M Json
  | .array xs => pure (xs.getD i .null)
  | .null => pure .null
  | j => throwExn (typeError305 j)

/-- `operator[](i)` through a `const json&`: reading past the end is undefined. -/
def indexConst (i : Nat) : Json → M Json
  | .array xs => match xs.get? i with
    | some x => pure x
    | none => undefinedBehaviour
  | j => throwExn (typeError305 j)

/-- The getters `Get<T>` and `GetNum`: the value when `test` holds, and otherwise a
`runtime_error` that prints the offending value, whose `dump` may itself throw. -/
def getAs {α : Type} (env : Env) (test : Json → Bool) (expect : String) (read : Json → α)
    (j : Json) : M α :=
  if test j then pure (read j)
  else match j.dump env.fmt with
    | .ok t => throwExn (.runtimeError (utf8 "wrong json value : " ++ t ++ utf8 (", expect " ++ expect)))
    | .error e => throwExn e

/-- `get<int64_t>()` of an integer: an unsigned value above `2^63 - 1` wraps. -/
def Json.int64 : Json → Int
  | .numberInteger v => v
  | .numberUnsigned v => if v < 2 ^ 63 then v else v - 2 ^ 64
  | _ => 0

/-- The value of a number as a `double`. -/
def Json.num : Json → ℚ
  | .numberFloat v => v
  | j => j.int64

def Json.str : Json → Bytes
  | .string s => s
  | _ => []

def Json.bool : Json → Bool
  | .boolean b => b
  | _ => false

/-- `Get<int64_t>`. -/
def getInt64 (env : Env) : Json → M Int := getAs env Json.isNumberInteger "integer" Json.int64

/-- `Get<std::string>`. -/
def getString (env : Env) : Json → M Bytes := getAs env Json.isString "string" Json.str

/-- `Get<bool>`. -/
def getBool (env : Env) : Json → M Bool := getAs env Json.isBoolean "bool" Json.bool

/-- `GetNum`: an integer or a float, as a `double`. -/
def getNum (env : Env) : Json → M ℚ := getAs env Json.isNumber "number" Json.num

section Getters

variable {α : Type} (env : Env)

theorem getAs_of_test {test : Json → Bool} {expect : String} {read : Json → α} {j : Json}
    (h : test j = true) : getAs env test expect read j = pure (read j) := by
  simp only [getAs, h, if_true]

@[simp] theorem getString_string (a : Bytes) : getString env (.string a) = pure a := rfl

/-- A getter of the wrong kind throws, from the state it started in. -/
theorem getAs_throw {test : Json → Bool} {expect : String} {read : Json → α} {j : Json} (s : St)
    (h : test j = false) : ∃ e, getAs env test expect read j s = .error (.throw e) s := by
  unfold getAs
  rw [if_neg (by simp [h])]
  cases j.dump env.fmt <;> exact ⟨_, rfl⟩

theorem getInt64_of_isNumberInteger {j : Json} (h : j.isNumberInteger = true) :
    getInt64 env j = pure j.int64 :=
  getAs_of_test env h

@[simp] theorem index_array (i : Nat) (xs : List Json) : index i (.array xs) = pure (xs.getD i .null) :=
  rfl

end Getters

/-- `FindInMap(kTokens, token)`. -/
def findToken (token : Bytes) : M (Option User) := do return (← get).kTokens token

end OpenTrade
