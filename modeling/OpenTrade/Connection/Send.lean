import OpenTrade.Connection.State

/-!
# Outbound pushes

The order book and the algorithm engine push confirmations and algorithm events to every
connection. `Send(Confirmation::Ptr)` and `Send(const Algo&, ...)` check ownership on the
caller's thread and post the encoding to the strand; `SendTestMsg` checks the test tokens.

## Implementation notes

A push is one step here: its check and the posted task run together. The confirmation
encoder is a switch whose cases fall through; `fallStatus` runs that fall-through.
-/

namespace OpenTrade

/-- `GetSide`. -/
def getSide : OrderSide → Bytes
  | .buy => utf8 "buy"
  | .sell => utf8 "sell"
  | .short => utf8 "short"

/-- `GetType`. -/
def getType : OrderType → Bytes
  | .limit => utf8 "limit"
  | .market => utf8 "market"
  | .stop => utf8 "stop"
  | .stopLimit => utf8 "stop_limit"
  | .otc => utf8 "otc"

/-- `GetTif`. -/
def getTif : TimeInForce → Bytes
  | .day => utf8 "Day"
  | .immediateOrCancel => utf8 "IOC"
  | .goodTillCancel => utf8 "GTC"
  | .atTheOpening => utf8 "OPG"
  | .fillOrKill => utf8 "FOK"
  | .goodTillCrossing => utf8 "GTX"

/-- A group of cases falling through: the case entered at `k` and every later one set
`status` unless it is already set. -/
def fallStatus (k : Nat) (names : List String) : Bytes :=
  ((names.drop k).foldl (fun st n => st <|> some (utf8 n)) none).getD []

/-- The order snapshot of `unconfirmed_new` and `risk_rejected`; the broker account only in
the former. -/
def orderFields (o : Order) (broker : Bool) : List Json :=
  [.numberInteger o.secId, .numberInteger o.algoId, .numberInteger o.userId,
    .numberInteger o.subAccountId] ++ (if broker then [.numberInteger o.brokerAccountId] else []) ++
  [.numberFloat o.qty, .numberFloat o.price, .string (getSide o.side), .string (getType o.type),
    .string (getTif o.tif)]

/-- The fields after the header, by execution type, or `none` where nothing is sent. -/
def confirmationTail (cm : Confirmation) : Option (List Json) :=
  let pending k := (Json.string (fallStatus k ["pending", "pending_cancel", "new", "cancelled"]) ::
    (if cm.execType = .new then [.string cm.orderId] else []) ++
    (if cm.text.isEmpty then [] else [.string cm.text]))
  let fill k :=
    let head := [Json.string (fallStatus k ["filled", "partial"]), .numberFloat cm.lastShares,
      .numberFloat cm.lastPx, .string cm.execId]
    match cm.execTransType with
    | .new => some (head ++ [Json.string (utf8 "new")])
    | .cancel => some (head ++ [Json.string (utf8 "cancel")])
    | .other _ => none
  let rejected k := Json.string (fallStatus k ["new_rejected", "cancel_rejected", "risk_rejected"]) ::
    .string cm.text :: (if cm.execType = .riskRejected then
      orderFields cm.order false ++ (if cm.order.origId ≠ 0 then [.numberInteger cm.order.origId] else [])
      else [])
  match cm.execType with
  | .unconfirmedNew => some ("unconfirmed" :: orderFields cm.order true)
  | .pendingNew => some (pending 0)
  | .pendingCancel => some (pending 1)
  | .new => some (pending 2)
  | .canceled => some (pending 3)
  | .filled => fill 0
  | .partiallyFilled => fill 1
  | .rejected => some (rejected 0)
  | .cancelRejected => some (rejected 1)
  | .riskRejected => some (rejected 2)
  | .other _ => none

/-- `Send(const Confirmation&, bool offline)`. -/
def sendConfirmation (env : Env) (cm : Confirmation) (offline : Bool) : M Unit :=
  match confirmationTail cm with
  | some tail => send env (.array ((if offline then "Order" else "order" : Json) ::
      .numberInteger cm.order.id :: .numberInteger (cm.transactionTime.tdiv 1000000) ::
      .numberInteger cm.seq :: tail))
  | none => pure ()

/-- `Send(Confirmation::Ptr)`: only to an open connection whose user owns the order's
sub-account. -/
def sendConfirmationPtr (env : Env) (cm : Confirmation) : M Unit := do
  let s ← get
  if s.conn.closed then pure ()
  else match s.conn.user with
    | none => pure ()
    | some u => if u.owns cm.order.subAccountId then sendConfirmation env cm false else pure ()

/-- `Send(Algo::IdType, tm, token, name, status, body, seq, offline)`. -/
def sendAlgoEvent (env : Env) (a : AlgoEvent) (tm : Int) (offline : Bool) : M Unit :=
  send env (.array [if offline then "Algo" else "algo", .numberInteger a.seq, .numberInteger a.id,
    .numberInteger tm, .string a.token, .string a.name, .string a.status, .string a.body])

/-- `Send(const Algo&, status, body, seq)`: only to an open connection of the algorithm's
user, stamped with the time the posted task runs. -/
def sendAlgo (env : Env) (now : Int) (a : AlgoEvent) : M Unit := do
  let s ← get
  if s.conn.closed then pure ()
  else match s.conn.user with
    | none => pure ()
    | some u => if u.id = a.userId then sendAlgoEvent env a now false else pure ()

/-- `SendTestMsg(token, msg, stopped)`: only for a token this connection started a test
with. -/
def sendTestMsg (env : Env) (token msg : Bytes) (stopped : Bool) : M Unit := do
  let s ← get
  if s.conn.closed ∨ token ∉ s.conn.testAlgoTokens then pure ()
  else
    send env (.array ["test_msg", .string msg])
    if stopped then send env (.array ["test_done", .string token]) else pure ()

end OpenTrade
