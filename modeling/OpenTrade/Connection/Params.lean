import OpenTrade.Connection.Kept

/-!
# Algorithm parameters

`ParseParams` turns the untyped parameter object of an `algo` request into a parameter map:
scalars keep their JSON kind, an object is a security tuple, and an array is a vector whose
elements are parsed as scalars. `Jsonify` encodes a parameter default for `algo_def`.

## Implementation notes

`ParseParamScalar` is a template over `ValueScalar` and `Value`; both instances return the
same scalar alternatives, so one function serves, and `ParseParamValue` wraps its result.
-/

namespace OpenTrade

/-- The security tuple under construction in the member loop of `ParseParamScalar`. -/
def emptyTuple : SecurityTuple := ⟨[], none, none, none, 0⟩

/-- One member of an object parameter: `qty`, `side`, `src`, `sec` and `acc` are read,
other keys ignored; an unknown side, security or account throws. -/
def tupleMember (env : Env) (w : World) (t : SecurityTuple) (kv : Bytes × Json) :
    M SecurityTuple := do
  let (k, v) := kv
  if k = utf8 "qty" then
    return { t with qty := ← getNum env v }
  else if k = utf8 "side" then
    let sideStr ← getString env v
    match w.securities.getOrderSide sideStr with
    | some side => return { t with side := some side }
    | none => throwExn (.runtimeError (utf8 "Unknown order side: " ++ sideStr))
  else if k = utf8 "src" then
    return { t with src := ← getString env v }
  else if k = utf8 "sec" then
    let id ← getInt64 env v
    match w.securities.get (env.secId id) with
    | some sec => return { t with sec := some sec }
    | none => throwExn (.runtimeError (utf8 "Unknown security id: " ++ decimal id))
  else if k = utf8 "acc" then
    if v.isNumberInteger then
      let id ← getInt64 env v
      match w.accounts.subAccountById id with
      | some acc => return { t with acc := some acc }
      | none => throwExn (.runtimeError (utf8 "Unknown account id: " ++ decimal id))
    else if v.isString then
      let name ← getString env v
      match w.accounts.subAccountByName name with
      | some acc => return { t with acc := some acc }
      | none => throwExn (.runtimeError (utf8 "Unknown account: " ++ name))
    else return t
  else return t

/-- The checks after the member loop, in the source's order. -/
def checkTuple (t : SecurityTuple) : M ParamScalar :=
  if t.qty ≤ 0 then throwExn (.runtimeError (utf8 "Empty quantity"))
  else if t.side.isNone then throwExn (.runtimeError (utf8 "Empty side"))
  else if t.sec.isNone then throwExn (.runtimeError (utf8 "Empty security"))
  else if t.acc.isNone then throwExn (.runtimeError (utf8 "Empty account"))
  else pure (.securityTuple t)

/-- `ParseParamScalar`: the JSON kind decides the alternative; an object is a security
tuple; null and an array give the value-initialised variant. -/
def parseParamScalar (env : Env) (w : World) (j : Json) : M ParamScalar :=
  if j.isNumberFloat then pure (.double j.num)
  else if j.isNumberInteger then pure (.int64 j.int64)
  else if j.isBoolean then pure (.bool j.bool)
  else if j.isString then pure (.string j.str)
  else if j.isObject then do checkTuple (← j.items.foldlM (tupleMember env w) emptyTuple)
  else pure (.bool false)

/-- `ParseParamValue`: an array is a vector of scalars. -/
def parseParamValue (env : Env) (w : World) (j : Json) : M ParamValue :=
  if j.isArray then .vector <$> j.items.mapM (parseParamScalar env w ·.2)
  else .scalar <$> parseParamScalar env w j

/-- `ParseParams`: every item of the parameter value, under its key. -/
def parseParams (env : Env) (w : World) (params : Json) : M ParamMap :=
  params.items.mapM fun kv => return (kv.1, ← parseParamValue env w kv.2)

section Reads

variable {R : St → St → Prop} [IsRefl St R] [IsTrans St R] {env : Env} {w : World}

theorem kept_tupleMember (t : SecurityTuple) (kv : Bytes × Json) : Kept R (tupleMember env w t kv) := by
  unfold tupleMember
  with_reducible repeat' first
    | refine kept_bind ?_ fun _ => ?_
    | exact kept_getString | exact kept_getInt64 | exact kept_getNum
    | refine kept_ite ?_ ?_ | split
    | exact kept_pure _ | exact kept_throwExn _

theorem kept_parseParamScalar (j : Json) : Kept R (parseParamScalar env w j) := by
  unfold parseParamScalar checkTuple
  with_reducible repeat' first
    | refine kept_bind ?_ fun _ => ?_ | refine kept_ite ?_ ?_
    | exact kept_foldlM (fun t kv _ => kept_tupleMember t kv) _
    | exact kept_pure _ | exact kept_throwExn _

/-- `ParseParams` only reads: whatever it returns or throws, the state is as it was. -/
theorem kept_parseParams (params : Json) : Kept R (parseParams env w params) :=
  kept_mapM fun _ _ => kept_bind (kept_ite (kept_map (kept_mapM fun x _ => kept_parseParamScalar x.2))
    (kept_map (kept_parseParamScalar _))) fun _ => kept_pure _

end Reads

/-- `JsonifyScala`: the kind and the value pushed onto `j`; a tuple pushes its kind only. -/
def jsonifyScala (v : ParamScalar) (j : Json) : Json :=
  match v with
  | .bool b => (j.push "bool").push (.boolean b)
  | .int64 n | .int32 n => (j.push "int").push (.numberInteger n)
  | .double x => (j.push "float").push (.numberFloat x)
  | .string s | .cstr s => (j.push "string").push (.string s)
  | .securityTuple _ => j.push "security"

/-- `Jsonify`: a vector pushes `"vector"` and the list of its encoded elements, which stays
null when the vector is empty. -/
def jsonify (v : ParamValue) (j : Json) : Json :=
  match v with
  | .scalar s => jsonifyScala s j
  | .vector vs => (j.push "vector").push (vs.foldl (fun j2 v2 => j2.push (jsonifyScala v2 .null)) .null)

end OpenTrade
