import OpenTrade.Connection.MarketData
import OpenTrade.Connection.Params
import OpenTrade.Connection.Kept

/-!
# The request handlers with a function of their own

`OnLogin`, `OnPosition`, `OnOrder`, `OnAlgo` and `OnSecurities` take the request through a
`const json&`: an index past the end is undefined behaviour, not a null.

## Implementation notes

`"Invalid security id: " + security_id` adds an integer to a string literal, so the error
text is the literal from that offset on, and undefined outside its 22 bytes.
`OnPosition` builds a position object and never sends it; it sends the request back.
-/

namespace OpenTrade

/-! ## Login -/

/-- Eight lower-case hex digits, `"%08x"`. -/
def hex8 (w : UInt32) : Bytes :=
  (List.range 8).reverse.map fun k => hexDigit false (w.toNat / 16 ^ k % 16)

/-- `sha1`: the five digest words as hex. -/
def sha1 (env : Env) (s : Bytes) : Bytes := (List.finRange 5).flatMap fun i => hex8 (env.sha1Digest s i)

/-- The login state of `OnLogin`, and the user when it is `"ok"`. -/
def loginState (env : Env) (w : World) (name pwd : Bytes) : Bytes × Option User :=
  match w.accounts.getUser name with
  | none => (utf8 "unknown user", none)
  | some u =>
    if sha1 env pwd ≠ u.password then (utf8 "wrong password", none)
    else if u.isDisabled then (utf8 "disabled", none)
    else (utf8 "ok", some u)

/-- An `"algo_def"` frame: each parameter's name, encoded default, required flag, bounds and
precision. -/
def algoDef (a : Bytes × List ParamDef) : Json :=
  .array (.string (utf8 "algo_def") :: .string a.1 :: a.2.map fun p =>
    ((jsonify p.defaultValue (.array [.string p.name])).push (.boolean p.required)
      |>.push (.numberFloat p.minValue) |>.push (.numberFloat p.maxValue)
      |>.push (.numberInteger p.precision)))

/-- The file names `OnLogin` lists: those not starting with `_` or `.`. -/
def listedFile (fn : Bytes) : Bool := fn.head? ≠ some 0x5F ∧ fn.head? ≠ some 0x2E

/-- The reference data a stateful login streams. -/
def streamCatalog (env : Env) (w : World) (u : User) : M Unit := do
  u.subAccounts.forM fun p => send env (.array ["sub_account", .numberInteger p.1, .string p.2.name])
  if u.isAdmin then
    w.accounts.users.forM fun p => p.2.subAccounts.forM fun q =>
      send env (.array ["user_sub_account", .numberInteger p.1, .numberInteger q.1, .string q.2.name])
  w.accounts.brokerAccounts.forM fun p => send env (.array ["broker_account", .numberInteger p.1, .string p.2])
  w.algos.adapters.forM fun a => send env (algoDef a)
  let files := ((w.files.algoDir.getD []).filter listedFile).foldl (fun fs fn => fs.push (.string fn)) .null
  if files.size > 0 then send env (.array ["algoFiles", files]) else pure ()

/-- `OnLogin(action, j)`. A successful login mints a token; a stateful connection with no
user binds it, starts the publisher and streams the catalog. -/
def onLogin (env : Env) (w : World) (action : Bytes) (j : Json) : M Unit := do
  let name ← getString env (← indexConst 1 j)
  let pwd ← getString env (← indexConst 2 j)
  let (state, user) := loginState env w name pwd
  if action = utf8 "validate_user" then
    let token ← getInt64 env (← indexConst 3 j)
    send env (.array ["user_validation", .numberInteger ((user.map User.id).getD 0), .numberInteger token])
  else
    match user with
    | none => send env (.array ["connection", .string state])
    | some u =>
      let token := w.uuid.toString
      modify fun s => { s with kTokens := Function.update s.kTokens token (some u) }
      send env (.array ["connection", .string state, Json.mkObject [("session", .string w.positions.session),
        ("userId", .numberInteger u.id), ("startTime", .numberInteger env.startTime),
        ("sessionToken", .string token), ("securitiesCheckSum", .string w.securities.checkSum)]])
      if (← get).conn.user.isNone ∧ !env.stateless then
        modifyConn fun c => { c with user := some u }
        publishMarketdata
        streamCatalog env w u
      else pure ()

/-! ## Position and order -/

/-- `"literal" + n`: the pointer moves `n` bytes into the literal; reading is defined up to
its closing NUL. -/
def literalOffset (lit : String) (n : Int) : M Bytes :=
  if 0 ≤ n ∧ n ≤ (utf8 lit).length then pure ((utf8 lit).drop n.toNat) else undefinedBehaviour

/-- `OnPosition(j, msg)`. -/
def onPosition (env : Env) (w : World) (j : Json) : M Unit := do
  let securityId ← getInt64 env (← indexConst 1 j)
  match w.securities.get (env.secId securityId) with
  | none =>
    let text ← literalOffset "Invalid security id: " securityId
    send env (.array ["error", "position", "security id", .string text])
  | some sec =>
    let accName ← getString env (← indexConst 2 j)
    match w.accounts.subAccountByName accName with
    | none => send env (.array ["error", "position", "account name",
        .string (utf8 "Invalid account name: " ++ accName)])
    | some acc =>
      let broker ← if j.size > 3 then do getBool env (← indexConst 3 j) else pure false
      if broker ∧ (w.accounts.getBroker acc.id sec.id).isNone then
        send env (.array ["error", "position", "account name",
          "Can not find broker for this account and security pair"])
      else send env j

/-- ASCII lower case, as `strcasecmp` folds bytes. -/
def lowerAscii (b : UInt8) : UInt8 := if 0x41 ≤ b ∧ b ≤ 0x5A then b + 0x20 else b

/-- `!strcasecmp(s.c_str(), lit)`: the C string stops at the first NUL. -/
def strcaseeq (s : Bytes) (lit : String) : Bool :=
  (s.takeWhile (· ≠ 0)).map lowerAscii = (utf8 lit).map lowerAscii

/-- The order type `OnOrder` reads; anything else keeps the default. -/
def parseOrderType (s : Bytes) : OrderType :=
  if strcaseeq s "market" then .market else if strcaseeq s "stop" then .stop
  else if strcaseeq s "stop limit" then .stopLimit else if strcaseeq s "otc" then .otc
  else .limit

/-- The time in force `OnOrder` reads; anything else keeps the default. -/
def parseTif (s : Bytes) : TimeInForce :=
  if strcaseeq s "GTC" then .goodTillCancel else if strcaseeq s "OPG" then .atTheOpening
  else if strcaseeq s "IOC" then .immediateOrCancel else if strcaseeq s "FOK" then .fillOrKill
  else if strcaseeq s "GTX" then .goodTillCrossing else .day

/-- `OnOrder(j, msg)`: every field is read before the security is looked up. -/
def onOrder (env : Env) (w : World) (u : User) (j : Json) : M Unit := do
  let securityId ← getInt64 env (← indexConst 1 j)
  let subAccount ← getString env (← indexConst 2 j)
  match w.accounts.subAccountByName subAccount with
  | none => send env (.array ["error", "order", "sub_account",
      .string (utf8 "Invalid sub_account: " ++ subAccount)])
  | some acc =>
    let sideStr ← getString env (← indexConst 3 j)
    let typeStr ← getString env (← indexConst 4 j)
    let tifStr ← getString env (← indexConst 5 j)
    let qty ← getNum env (← indexConst 6 j)
    let px ← getNum env (← indexConst 7 j)
    let stopPrice ← getNum env (← indexConst 8 j)
    match w.securities.get (env.secId securityId) with
    | none =>
      let text ← literalOffset "Invalid security id: " securityId
      send env (.array ["error", "order", "security id", .string text])
    | some sec =>
      match w.securities.getOrderSide sideStr with
      | none => send env (.array ["error", "order", "side", .string (utf8 "Invalid side: " ++ sideStr)])
      | some side =>
        let ty := parseOrderType typeStr
        if stopPrice ≤ 0 ∧ (ty = .stop ∨ ty = .stopLimit) then
          send env (.array ["error", "order", "stop price", "Miss stop price for stop order"])
        else
          let c : Contract :=
            { secId := sec.id, subAccountId := acc.id, side := side, «type» := ty,
              tif := parseTif tifStr, qty := qty, price := px, stopPrice := stopPrice }
          call (.place c u.id)

/-! ## Algorithms -/

/-- The ownership loop of a `new` request: every top-level security tuple must be on one of
the user's sub-accounts. -/
def checkOwnership (u : User) (params : ParamMap) : M Unit :=
  params.forM fun p =>
    match p.2 with
    | .scalar (.securityTuple t) =>
      match t.acc with
      | some acc => if u.owns acc.id then pure ()
        else throwExn (.runtimeError (utf8 "No permission to trade with account: " ++ acc.name))
      | none => undefinedBehaviour
    | _ => pure ()

/-- The `try` block of a `new` or `test` request. -/
def spawnAlgo (env : Env) (w : World) (u : User) (action algoName token : Bytes) (j : Json) :
    M Unit := do
  let params ← if action = utf8 "new" then do
      let params ← parseParams env w (← indexConst 4 j)
      checkOwnership u params
      pure (some params)
    else do
      if token.isEmpty then pure () else modifyConn fun c => { c with testAlgoTokens := c.testAlgoTokens.insert token }
      pure none
  let text ← match (← indexConst 4 j).dump env.fmt with
    | .ok t => pure t
    | .error e => throwExn e
  call (.spawn params algoName u.id text token)
  if !w.algos.knows algoName ∧ params.isSome then
    throwExn (.runtimeError (utf8 "Unknown algo name: " ++ algoName))
  else pure ()

/-- `catch (const std::runtime_error&)`: other exceptions go on up. -/
def catchRuntime (body : M Unit) (handler : Bytes → M Unit) : M Unit := fun s =>
  match body s with
  | .error (.throw (.runtimeError what)) s' => handler what s'
  | r => r

theorem kept_catchRuntime {R : St → St → Prop} [IsTrans St R] {body : M Unit} {handler : Bytes → M Unit}
    (hb : Kept R body) (hh : ∀ what, Kept R (handler what)) : Kept R (catchRuntime body handler) := by
  intro s
  have h1 := hb s
  unfold catchRuntime
  split
  · rename_i what s' h
    rw [h] at h1
    exact IsTrans.trans _ _ _ h1 (hh what s')
  · exact h1

/-- `OnAlgo(j, msg)`. -/
def onAlgo (env : Env) (w : World) (u : User) (j : Json) : M Unit := do
  let action ← getString env (← indexConst 1 j)
  if action = utf8 "cancel" then
    let key ← indexConst 2 j
    if key.isString then call (.stopToken (← getString env key))
    else call (.stopId (← getInt64 env key))
  else if action = utf8 "modify" then
    let params ← parseParams env w (← indexConst 3 j)
    let key ← indexConst 2 j
    if key.isString then call (.modifyToken (← getString env key) params)
    else call (.modifyId (← getInt64 env key) params)
  else if action = utf8 "new" ∨ action = utf8 "test" then
    let algoName ← getString env (← indexConst 2 j)
    let token ← getString env (← indexConst 3 j)
    if w.algos.running token then
      send env (.array ["error", "algo", "duplicate token", .string token])
    else
      catchRuntime (spawnAlgo env w u action algoName token j) fun what =>
        send env (.array ["error", "algo", "invalid params", .string token, .string what])
  else send env (.array ["error", "algo", "invalid action", .string action])

/-! ## Securities -/

/-- One security record: the extended one for an admin. -/
def securityRecord (admin : Bool) (s : Security) : Json :=
  if admin then
    .array ["security", .numberInteger s.id, .string s.symbol, .string s.exchangeName, .string s.type,
      .numberFloat s.multiplier, .numberFloat s.closePrice, .numberFloat s.rate, .string s.currency,
      .numberFloat s.adv20, .numberFloat s.marketCap, .string (decimal s.sector),
      .string (decimal s.industryGroup), .string (decimal s.industry), .string (decimal s.subIndustry),
      .string s.localSymbol, .string s.bbgid, .string s.cusip, .string s.sedol, .string s.isin]
  else
    .array ["security", .numberInteger s.id, .string s.symbol, .string s.exchangeName, .string s.type,
      .numberInteger s.lotSize, .numberFloat s.multiplier]

/-- `OnSecurities(j)`: one frame per security and a terminator, or, on a stateless
transport, one array of them all, null when there are none. -/
def onSecurities (env : Env) (w : World) (u : User) : M Unit := do
  let recs := w.securities.securities.map (securityRecord u.isAdmin)
  if env.stateless then send env (recs.foldl Json.push .null)
  else
    recs.forM (send env)
    send env (.array ["securities", "complete"])

end OpenTrade
