import OpenTrade.Connection.Handlers
import OpenTrade.Connection.Send
import OpenTrade.Json.Parse

/-!
# `Connection::OnMessageSync`

The heartbeat is echoed; anything else is parsed, its first element read as the action,
the login gate applied, and the action dispatched. Three `catch` clauses turn a parse error,
another JSON error and any other `std::exception` into an error frame that quotes the raw
message.

## Implementation notes

The branches of the action chain are written as definitions of their own. `login` is taken
before the gate, which it skips; after the gate every other action has a user, so the
dispatcher receives it. `shutdown` ends the handler with the countdown's start, and
`countdown` runs the loop that follows it for a bounded number of passes.
-/

namespace OpenTrade

/-- The arguments of a request: its elements after the action. -/
def args : Json → List Json
  | .array xs => xs.drop 1
  | _ => []

/-- One beginning-of-day position of `bod`: sent when the user owns its sub-account or is an
admin. -/
def sendBod (env : Env) (u : User) (p : (Int × Int) × Position) : M Unit :=
  if !u.isAdmin ∧ !u.owns p.1.1 then pure ()
  else send env (.array ["bod", .numberInteger p.1.1, .numberInteger p.1.2, .numberFloat p.2.qty,
    .numberFloat p.2.avgPx, .numberFloat p.2.realizedPnl, .numberInteger p.2.brokerAccountId,
    .numberInteger p.2.tm])

/-- `bod`: one frame per beginning-of-day position the user may see. -/
def onBod (env : Env) (w : World) (u : User) : M Unit := w.positions.bods.forM (sendBod env u)

/-- `reconnect`: the market-data adapter of that name, else the exchange adapter. -/
def onReconnect (env : Env) (w : World) (j : Json) : M Unit := do
  let name ← getString env (← index 1 j)
  if (w.marketData.mdAdapters.lookup name).isSome then call (.mdReconnect name)
  else if (w.marketData.ecAdapters.lookup name).isSome then call (.ecReconnect name)
  else pure ()

/-- `offline`: the algorithm events after the optional second sequence number, then the
confirmations after the first, each replayed through the offline encoders. -/
def onOffline (env : Env) (w : World) (j : Json) : M Unit := do
  if j.size > 2 then
    let seqAlgo ← getInt64 env (← index 2 j)
    call (.loadAlgoStore seqAlgo)
    (w.algos.store seqAlgo).forM fun a => sendAlgoEvent env a a.tm true
    send env (.array ["offline_algos", "complete"])
  let seqConfirmation ← getInt64 env (← index 1 j)
  call (.loadOrderStore seqConfirmation)
  (w.orderBook.store seqConfirmation).forM fun cm => sendConfirmation env cm true
  send env (.array ["offline_orders", "complete"])
  send env (.array ["offline", "complete"])

/-- `int = double`: truncation toward zero, undefined outside `int`. -/
def toInt (x : ℚ) : M Int :=
  let t : Int := if 0 ≤ x then x.floor else -(-x).floor
  if -2 ^ 31 ≤ t ∧ t < 2 ^ 31 then pure t else undefinedBehaviour

/-- `shutdown`: for an admin, stop the server and the algorithm engine, then count down. -/
def onShutdown (env : Env) (u : User) (j : Json) : M Unit := do
  if !u.isAdmin then pure ()
  else
    let seconds ← if j.size > 1 then do
        let n ← getNum env (← index 1 j)
        if n > 3 then toInt n else pure 3
      else pure 3
    let interval ← if j.size > 2 then do
        let n ← getNum env (← index 2 j)
        pure (if n > 1 ∧ n < seconds then n else 1)
      else pure 1
    call .serverStop
    call .stopAll
    throw (.shutdown seconds interval)

/-- The countdown loop of `shutdown`, for at most `fuel` passes: while `seconds` is not zero,
`seconds -= interval` converts the difference back to `int`, the sleep converts
`interval * 1000` to `int` milliseconds, and every order is cancelled. `true` when the loop
ended within the passes. -/
def countdown (interval : ℚ) : Nat → Int → M Bool
  | 0, seconds => pure (seconds = 0)
  | fuel + 1, seconds =>
    if seconds = 0 then pure true
    else do
      let seconds ← toInt (seconds - interval)
      let _ ← toInt (interval * 1000)
      call .cancelAll
      countdown interval fuel seconds

/-- `cancel`: route a cancel for a known order, else an error frame. -/
def onCancel (env : Env) (w : World) (j : Json) : M Unit := do
  let id ← getInt64 env (← index 1 j)
  match w.orderBook.get id with
  | none => send env (.array ["error", "cancel", "order id", .string (utf8 "Invalid order id: " ++ decimal id)])
  | some o => call (.cancel o.id)

/-- `path / name` of Boost.Filesystem v3: a separator goes between them unless one is
already there; an absolute `name` is appended all the same. -/
def appendPath (p q : Bytes) : Bytes :=
  if q.isEmpty then p
  else if q.head? = some 0x2F ∨ p.isEmpty ∨ p.getLast? = some 0x2F then p ++ q
  else p ++ [0x2F] ++ q

/-- `c_str()` of a path: the C library sees the bytes before the first NUL. -/
def cString (p : Bytes) : Bytes := p.takeWhile (· ≠ 0)

/-- One aggregate PnL of `pnl`: for an owned sub-account, the rows of its `pnl-<id>` file
after `tm0`, sent when there is one. -/
def sendPnlHistory (env : Env) (w : World) (u : User) (tm0 : Int) (p : Int × Pnl) : M Unit :=
  if !u.owns p.1 then pure ()
  else do
    call (.readFile (cString (appendPath env.storePath (utf8 "pnl-" ++ decimal p.1))))
    let rows := ((w.positions.pnlLines p.1).filterMap env.scanPnl).filter fun r => tm0 < r.1
    let j2 := rows.foldl (fun (j2 : Json) r => j2.push (.array [.numberInteger r.1, .numberFloat r.2.1,
      .numberFloat r.2.2])) .null
    if j2.size > 0 then send env (.array ["Pnl", .numberInteger p.1, j2]) else pure ()

/-- The loop of `pnl`: the PnL history of each owned sub-account since the later of a day
ago and the argument. -/
def pnlHistory (env : Env) (w : World) (u : User) (j : Json) : M Unit := do
  let tm0 ← if j.size ≥ 2 then do getInt64 env (← index 1 j) else pure 0
  let tm0 := max (w.now - 24 * 3600) tm0
  w.positions.pnls.forM (sendPnlHistory env w u tm0)

/-- `pnl`: the history, then PnL diffing switched on. -/
def onPnl (env : Env) (w : World) (u : User) (j : Json) : M Unit := do
  pnlHistory env w u j
  modifyConn fun c => { c with subPnl := true }

/-- One id of `sub`: `subs_[id]` creates the entry before the security is checked; for a
known security the current snapshot is diffed into `jout`, recorded, and counted. -/
def subOne (env : Env) (w : World) (jout : Json) (id : Int) : M Json := do
  let key := env.secId id
  modifyConn fun c => { c with subs := if key ∈ c.subs then c.subs else c.subs.insert key ({}, 0) }
  match w.securities.get key with
  | none => pure jout
  | some sec =>
    let e := ((← get).conn.subs.lookup key).getD ({}, 0)
    let md := w.marketData.get sec.id
    modifyConn fun c => { c with subs := c.subs.insert key (md, e.2 + 1) }
    pure (getMarketData md e.1 key jout)

/-- `sub`: every id in turn, then one `"md"` frame when any diff was made. -/
def onSub (env : Env) (w : World) (j : Json) : M Unit := do
  let jout ← (args j).foldlM (fun jout x => do subOne env w jout (← getInt64 env x)) (.array ["md"])
  if jout.size > 1 then send env jout else pure ()

/-- The loop of `unsub`: an absent id returns from the whole handler. -/
def unsubLoop (env : Env) : List Json → M Unit
  | [] => pure ()
  | x :: xs => do
    let key := env.secId (← getInt64 env x)
    match (← get).conn.subs.lookup key with
    | none => pure ()
    | some e =>
      modifyConn fun c =>
        { c with subs := if e.2 - 1 ≤ 0 then c.subs.erase key else c.subs.insert key (e.1, e.2 - 1) }
      unsubLoop env xs

/-- `unsub`. -/
def onUnsub (env : Env) (j : Json) : M Unit := unsubLoop env (args j)

section Subs

variable {env : Env} {w : World} {s : St}

/-- An unknown security leaves an entry behind, with the zero snapshot and count zero when it
was not there. -/
theorem subOne_unknown (jout : Json) {id : Int} (hs : w.securities.get (env.secId id) = none) :
    subOne env w jout id s =
      .ok jout { s with conn := { s.conn with subs := (if env.secId id ∈ s.conn.subs then s.conn.subs
        else s.conn.subs.insert (env.secId id) ({}, 0)) } } := by
  simp [subOne, hs, bind, EStateM.bind]

/-- An absent id ends the loop with nothing changed. -/
theorem unsubLoop_absent {x : Json} {id : Int} (xs : List Json) (hx : getInt64 env x = pure id)
    (hk : env.secId id ∉ s.conn.subs) : unsubLoop env (x :: xs) s = .ok () s := by
  simp [unsubLoop, hx, bind, EStateM.bind, AList.lookup_eq_none.mpr hk]

end Subs

/-- `algoFile`: the contents of `kAlgoPath / name`, or null and `"Not found"`. The stream
opens the path's C string. -/
def onAlgoFile (env : Env) (w : World) (action : Bytes) (j : Json) : M Unit := do
  let fn ← getString env (← index 1 j)
  let path := cString (appendPath env.algoPath fn)
  call (.readFile path)
  match w.files.read path with
  | some text => send env (.array [.string action, .string fn, .string text])
  | none => send env (.array [.string action, .string fn, .null, "Not found"])

/-- `deleteAlgoFile`: remove `kAlgoPath / name`, appending the error text when it throws. -/
def onDeleteAlgoFile (env : Env) (w : World) (action : Bytes) (j : Json) : M Unit := do
  let fn ← getString env (← index 1 j)
  let path := cString (appendPath env.algoPath fn)
  call (.removeFile path)
  match w.files.removeError path with
  | none => send env (.array [.string action, .string fn])
  | some err => send env (.array [.string action, .string fn, .string err])

/-- `saveAlgoFile`: write the text to `kAlgoPath / name`, or append `"Can not write"`. -/
def onSaveAlgoFile (env : Env) (w : World) (action : Bytes) (j : Json) : M Unit := do
  let fn ← getString env (← index 1 j)
  let text ← getString env (← index 2 j)
  let path := cString (appendPath env.algoPath fn)
  if w.files.writable path then
    call (.writeFile path text)
    send env (.array [.string action, .string fn])
  else send env (.array [.string action, .string fn, "Can not write"])

/-- The action chain after the gate, for a connection with a user. Unknown actions do
nothing. -/
def dispatch (env : Env) (w : World) (u : User) (action : Bytes) (j : Json) : M Unit :=
  if action = utf8 "validate_user" then onLogin env w action j
  else if action = utf8 "bod" then onBod env w u
  else if action = utf8 "reconnect" then onReconnect env w j
  else if action = utf8 "securities" then onSecurities env w u
  else if action = utf8 "position" then onPosition env w j
  else if action = utf8 "offline" then onOffline env w j
  else if action = utf8 "shutdown" then onShutdown env u j
  else if action = utf8 "cancel" then onCancel env w j
  else if action = utf8 "order" then onOrder env w u j
  else if action = utf8 "algo" then onAlgo env w u j
  else if action = utf8 "pnl" then onPnl env w u j
  else if action = utf8 "sub" then onSub env w j
  else if action = utf8 "unsub" then onUnsub env j
  else if action = utf8 "algoFile" then onAlgoFile env w action j
  else if action = utf8 "deleteAlgoFile" then onDeleteAlgoFile env w action j
  else if action = utf8 "saveAlgoFile" then onSaveAlgoFile env w action j
  else pure ()

theorem dispatch_bod (env : Env) (w : World) (u : User) (j : Json) :
    dispatch env w u (utf8 "bod") j = onBod env w u := rfl

theorem dispatch_position (env : Env) (w : World) (u : User) (j : Json) :
    dispatch env w u (utf8 "position") j = onPosition env w j := rfl

theorem dispatch_algo (env : Env) (w : World) (u : User) (j : Json) :
    dispatch env w u (utf8 "algo") j = onAlgo env w u j := rfl

theorem dispatch_pnl (env : Env) (w : World) (u : User) (j : Json) :
    dispatch env w u (utf8 "pnl") j = onPnl env w u j := rfl

theorem dispatch_sub (env : Env) (w : World) (u : User) (j : Json) :
    dispatch env w u (utf8 "sub") j = onSub env w j := rfl

theorem dispatch_unsub (env : Env) (w : World) (u : User) (j : Json) :
    dispatch env w u (utf8 "unsub") j = onUnsub env j := rfl

theorem dispatch_algoFile (env : Env) (w : World) (u : User) (j : Json) :
    dispatch env w u (utf8 "algoFile") j = onAlgoFile env w (utf8 "algoFile") j := rfl

theorem dispatch_deleteAlgoFile (env : Env) (w : World) (u : User) (j : Json) :
    dispatch env w u (utf8 "deleteAlgoFile") j = onDeleteAlgoFile env w (utf8 "deleteAlgoFile") j := rfl

theorem dispatch_saveAlgoFile (env : Env) (w : World) (u : User) (j : Json) :
    dispatch env w u (utf8 "saveAlgoFile") j = onSaveAlgoFile env w (utf8 "saveAlgoFile") j := rfl

/-- The error frame of the empty action. -/
def emptyActionFrame : Json := .array ["error", "msg", "action", "empty action"]

/-- The error frame of the login gate. -/
def loginFirstFrame : Json := .array ["error", "msg", "action", "you must login first"]

@[simp] theorem send_emptyActionFrame (env : Env) : send env emptyActionFrame = emit (.json emptyActionFrame) :=
  send_of_dump_ok rfl

@[simp] theorem send_loginFirstFrame (env : Env) : send env loginFirstFrame = emit (.json loginFirstFrame) :=
  send_of_dump_ok rfl

/-- What the `try` block of `OnMessageSync` does with a parsed request once its action is
read. The gate: an action other than `login` on a connection with no user takes the user of
the message's token, and stops if there is none. -/
def onAction (env : Env) (w : World) (token action : Bytes) (j : Json) : M Unit := do
  if action.isEmpty then send env emptyActionFrame
  else if action = utf8 "login" then onLogin env w action j
  else
    let user ← match (← get).conn.user with
      | some u => pure (some u)
      | none => do
        let u := (← get).kTokens token
        modifyConn fun c => { c with user := u }
        pure u
    match user with
    | none => send env loginFirstFrame
    | some u => dispatch env w u action j

/-- The `try` block of `OnMessageSync`: the heartbeat is echoed; anything else is parsed and
its first element read as the action. -/
def onMessageBody (env : Env) (w : World) (msg token : Bytes) : M Unit := do
  if msg = utf8 "h" then emit (.text (utf8 "h"))
  else
    let j ← match Json.parse msg with
      | .ok j => pure j
      | .error e => throwExn e
    onAction env w token (← getString env (← index 0 j)) j

/-- Past the gate, a connection with a user dispatches every action but `login`. -/
theorem onAction_of_user {env : Env} {w : World} {token : Bytes} (a : Bytes) {j : Json} {s : St} {u : User}
    (hu : s.conn.user = some u) (ha : a.isEmpty = false) (hl : a ≠ utf8 "login") :
    onAction env w token a j s = dispatch env w u a j s := by
  simp [onAction, ha, hl, hu, bind, EStateM.bind]

/-- With no user, the gate takes the user of the message's token: with none it answers with
its error frame, and one it binds to the connection before the action is dispatched. -/
theorem onAction_of_no_user {env : Env} {w : World} {token : Bytes} (a : Bytes) {j : Json} {s : St}
    (hu : s.conn.user = none) (ha : a.isEmpty = false) (hl : a ≠ utf8 "login") :
    onAction env w token a j s = match s.kTokens token with
      | none => send env loginFirstFrame s
      | some u => dispatch env w u a j { s with conn := { s.conn with user := some u } } := by
  have hs : { s with conn := { s.conn with user := none } } = s := by rw [← hu]
  cases ht : s.kTokens token <;> simp [onAction, ha, hl, hu, ht, hs, bind, EStateM.bind]

theorem parse_heartbeat : Json.parse (utf8 "h") = .error .parseError := rfl

/-- A request that parses to an array led by a string goes to `onAction` with that string. -/
theorem onMessageBody_of_parse {env : Env} {w : World} {msg token a : Bytes} {rest : List Json}
    (hp : Json.parse msg = .ok (.array (.string a :: rest))) :
    onMessageBody env w msg token = onAction env w token a (.array (.string a :: rest)) := by
  have hh : msg ≠ utf8 "h" := by rintro rfl; simp [parse_heartbeat] at hp
  simp only [onMessageBody, hh, if_false, hp]
  rfl

/-- The `catch` clauses of `OnMessageSync`, in order: `parse_error`, any other JSON
exception, any `std::exception`. Each quotes the raw message. -/
def errorFrame (msg : Bytes) : Exn → Json
  | .parseError => .array ["error", "json", .string msg, "invalid json string"]
  | .typeError what => .array ["error", "json", .string msg, .string (utf8 "json error: " ++ what)]
  | e => .array ["error", "Connection::OnMessage", .string msg, .string e.what]

/-- `Connection::OnMessageSync(msg, token)`: an exception of the body becomes an error frame;
one raised while sending that frame is not caught. -/
def onMessageSync (env : Env) (w : World) (msg token : Bytes) : M Unit := fun s =>
  match onMessageBody env w msg token s with
  | .error (.throw e) s' => send env (errorFrame msg e) s'
  | r => r

section Sync

variable {env : Env} {w : World} {msg token : Bytes} {s s' : St}

theorem onMessageSync_of_body_ok (h : onMessageBody env w msg token s = .ok () s') :
    onMessageSync env w msg token s = .ok () s' := by
  simp only [onMessageSync, h]

theorem onMessageSync_of_body_throw {e : Exn} (h : onMessageBody env w msg token s = .error (.throw e) s') :
    onMessageSync env w msg token s = send env (errorFrame msg e) s' := by
  simp only [onMessageSync, h]

end Sync

/-- A relation the body keeps from `s`, and every error frame keeps, `OnMessageSync` keeps
from `s`. -/
theorem onMessageSync_rel {R : St → St → Prop} [IsTrans St R]
    (hb : R s (M.final (onMessageBody env w msg token s))) (hs : ∀ e, Kept R (send env (errorFrame msg e))) :
    R s (M.final (onMessageSync env w msg token s)) := by
  unfold onMessageSync
  split
  · rename_i e s' h
    rw [h] at hb
    exact IsTrans.trans _ _ _ hb (hs e s')
  · exact hb

/-- Every error frame quotes the raw message: when its bytes are not UTF-8, the frame's
`dump` fails with the escaper's error. -/
theorem errorFrame_dump_of_escape {fmt : ℚ → Bytes} {msg : Bytes} {e : Exn}
    (he : Json.escape msg = .error e) (e' : Exn) : (errorFrame msg e').dump fmt = .error e := by
  cases e' <;> simp only [errorFrame, Json.dump, Json.dumpElements, he] <;> rfl

/-- `Connection::OnMessageAsync(msg)`: dropped once closed; the token is empty. -/
def onMessageAsync (env : Env) (w : World) (msg : Bytes) : M Unit := do
  if (← get).conn.closed then pure () else onMessageSync env w msg []

end OpenTrade
