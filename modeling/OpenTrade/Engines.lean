import OpenTrade.Json.Value
import Mathlib.Data.Fintype.Basic

/-!
# The engines a connection talks to

Reference data, market data, positions, the algorithm engine, the order book and the
filesystem are process-wide singletons outside `connection.cc`. A connection only reads
them, apart from the calls it makes into them, which `Call` records. `World` is what they
hold at the moment one handler runs; `Env` is what never changes for a connection.

## Implementation notes

The records keep only the fields the connection reads. Their headers are not in the
repository: a `double` is `ℚ`, an id is `Int`, and the conversion of an `int64_t` id to
`Security::IdType` is the parameter `Env.secId`.
-/

namespace OpenTrade

/-- `OrderSide`, as `GetSide` names it. -/
inductive OrderSide where
  | buy | sell | short
  deriving DecidableEq, Repr

/-- `OrderType`; `limit` is the default of a `Contract`. -/
inductive OrderType where
  | limit | market | stop | stopLimit | otc
  deriving DecidableEq, Repr

/-- `TimeInForce`; `day` is the default of a `Contract`. -/
inductive TimeInForce where
  | day | immediateOrCancel | goodTillCancel | atTheOpening | fillOrKill | goodTillCrossing
  deriving DecidableEq, Repr

/-- `Security`: the fields the connection sends. -/
structure Security where
  id : Int
  symbol : Bytes
  exchangeName : Bytes
  type : Bytes
  lotSize : Int
  multiplier : ℚ
  closePrice : ℚ
  rate : ℚ
  currency : Bytes
  adv20 : ℚ
  marketCap : ℚ
  sector : Int
  industryGroup : Int
  industry : Int
  subIndustry : Int
  localSymbol : Bytes
  bbgid : Bytes
  cusip : Bytes
  sedol : Bytes
  isin : Bytes
  deriving DecidableEq

/-- `SubAccount`. -/
structure SubAccount where
  id : Int
  name : Bytes
  deriving DecidableEq

/-- `User`: `password` is the stored SHA-1 digest, `subAccounts` the map it owns. -/
structure User where
  id : Int
  password : Bytes
  isAdmin : Bool
  isDisabled : Bool
  subAccounts : List (Int × SubAccount)
  deriving DecidableEq

/-- `sub_accounts->find(id) != end()`. -/
def User.owns (u : User) (acc : Int) : Bool := u.subAccounts.any (·.1 == acc)

/-- The trade fields of a `MarketData` snapshot. -/
structure Trade where
  «open» : ℚ := 0
  high : ℚ := 0
  low : ℚ := 0
  close : ℚ := 0
  qty : ℚ := 0
  volume : ℚ := 0
  vwap : ℚ := 0
  deriving DecidableEq

/-- One depth level of a snapshot. -/
structure Quote where
  askPrice : ℚ := 0
  askSize : ℚ := 0
  bidPrice : ℚ := 0
  bidSize : ℚ := 0
  deriving DecidableEq

/-- `MarketData`: a timestamp in seconds, trade fields and five depth levels. The default
value is the zero snapshot a new subscription starts from. -/
structure MarketData where
  tm : Int := 0
  trade : Trade := {}
  depth : Fin 5 → Quote := fun _ => {}
  deriving DecidableEq

/-- A `Position`, as `bods_` and `sub_positions_` hold it. -/
structure Position where
  qty : ℚ
  avgPx : ℚ
  realizedPnl : ℚ
  unrealizedPnl : ℚ
  brokerAccountId : Int
  tm : Int
  deriving DecidableEq

/-- An aggregate PnL of `pnls_`. -/
structure Pnl where
  realized : ℚ
  unrealized : ℚ
  deriving DecidableEq

/-- A security tuple parameter: data source, security, account, side and quantity. -/
structure SecurityTuple where
  src : Bytes
  sec : Option Security
  acc : Option SubAccount
  side : Option OrderSide
  qty : ℚ
  deriving DecidableEq

/-- `ParamDef::ValueScalar`, its alternatives in the order `JsonifyScala` tests them; the
first one, `bool`, is the value-initialised variant. -/
inductive ParamScalar where
  | bool (b : Bool)
  | int64 (v : Int)
  | int32 (v : Int)
  | double (v : ℚ)
  | string (s : Bytes)
  | cstr (s : Bytes)
  | securityTuple (t : SecurityTuple)
  deriving DecidableEq

/-- `ParamDef::Value`: a scalar or a vector of scalars. -/
inductive ParamValue where
  | scalar (v : ParamScalar)
  | vector (vs : List ParamScalar)
  deriving DecidableEq

/-- `Algo::ParamMap`, in iteration order. -/
abbrev ParamMap := List (Bytes × ParamValue)

/-- A `ParamDef` of an algorithm adapter. -/
structure ParamDef where
  name : Bytes
  defaultValue : ParamValue
  required : Bool
  minValue : ℚ
  maxValue : ℚ
  precision : Int

/-- An `Order`, with the ids of what it points to. -/
structure Order where
  id : Int
  secId : Int
  algoId : Int
  userId : Int
  subAccountId : Int
  brokerAccountId : Int
  qty : ℚ
  price : ℚ
  side : OrderSide
  type : OrderType
  tif : TimeInForce
  origId : Int

/-- A `Contract` as `OnOrder` builds it; `type` and `tif` default to `limit` and `day`. -/
structure Contract where
  secId : Int
  subAccountId : Int
  side : OrderSide
  type : OrderType := .limit
  tif : TimeInForce := .day
  qty : ℚ
  price : ℚ
  stopPrice : ℚ

/-- `OrderStatus` values a confirmation carries; `other` stands for the rest. -/
inductive ExecType where
  | unconfirmedNew | pendingNew | pendingCancel | new | canceled | filled | partiallyFilled
  | rejected | cancelRejected | riskRejected
  | other (code : Nat)
  deriving DecidableEq

/-- `ExecTransType`. -/
inductive ExecTransType where
  | new | cancel
  | other (code : Nat)
  deriving DecidableEq

/-- A `Confirmation` of the order book. -/
structure Confirmation where
  order : Order
  execType : ExecType
  transactionTime : Int
  seq : Int
  orderId : Bytes
  text : Bytes
  lastShares : ℚ
  lastPx : ℚ
  execId : Bytes
  execTransType : ExecTransType

/-- The arguments of `Connection::Send(Algo::IdType, time_t, token, name, status, body,
seq, offline)`, as the algorithm engine passes them. -/
structure AlgoEvent where
  id : Int
  userId : Int
  tm : Int
  token : Bytes
  name : Bytes
  status : Bytes
  body : Bytes
  seq : Int

/-- A random UUID, sixteen bytes. -/
abbrev Uuid := Fin 16 → UInt8

/-- `boost::uuids::to_string`: lower-case hex, dashes after bytes 4, 6, 8 and 10. -/
def Uuid.toString (u : Uuid) : Bytes :=
  (List.finRange 16).flatMap fun i =>
    (if i.val = 4 ∨ i.val = 6 ∨ i.val = 8 ∨ i.val = 10 then [0x2D] else []) ++
      [hexDigit false ((u i).toNat / 16), hexDigit false ((u i).toNat % 16)]

/-- A call the connection makes into an engine or the filesystem. -/
inductive Call where
  | mdReconnect (name : Bytes)
  | ecReconnect (name : Bytes)
  | place (c : Contract) (userId : Int)
  | cancel (orderId : Int)
  | cancelAll
  | spawn (params : Option ParamMap) (algoName : Bytes) (userId : Int) (paramsText : Bytes)
      (token : Bytes)
  | stopToken (token : Bytes)
  | stopId (id : Int)
  | stopAll
  | modifyToken (token : Bytes) (params : ParamMap)
  | modifyId (id : Int) (params : ParamMap)
  | loadAlgoStore (seq : Int)
  | loadOrderStore (seq : Int)
  | serverStop
  | readFile (path : Bytes)
  | writeFile (path : Bytes) (text : Bytes)
  | removeFile (path : Bytes)
  | startTimer

/-- `SecurityManager`. -/
structure SecurityManager where
  securities : List Security
  get : Int → Option Security
  checkSum : Bytes
  getOrderSide : Bytes → Option OrderSide

/-- `AccountManager`. -/
structure AccountManager where
  getUser : Bytes → Option User
  subAccountByName : Bytes → Option SubAccount
  subAccountById : Int → Option SubAccount
  /-- `SubAccount::GetBroker`: the broker account of a sub-account for a security. -/
  getBroker : Int → Int → Option Int
  users : List (Int × User)
  brokerAccounts : List (Int × Bytes)

/-- The market-data and exchange-connectivity managers: snapshots and adapters. -/
structure MarketDataManager where
  /-- `Get(id)`, and `Get(sec)` at `sec.id`. -/
  get : Int → MarketData
  mdAdapters : List (Bytes × Bool)
  ecAdapters : List (Bytes × Bool)

/-- `PositionManager`, and the `pnl-<id>` files it writes. -/
structure PositionManager where
  session : Bytes
  bods : List ((Int × Int) × Position)
  subPositions : List ((Int × Int) × Position)
  pnls : List (Int × Pnl)
  /-- The lines `getline` reads from `pnl-<id>`. -/
  pnlLines : Int → List Bytes

/-- `AlgoManager`. -/
structure AlgoManager where
  /-- `Get(token) != nullptr`. -/
  running : Bytes → Bool
  /-- `Spawn` returns an algorithm for this name. -/
  knows : Bytes → Bool
  adapters : List (Bytes × List ParamDef)
  /-- The events `LoadStore(seq, this)` replays. -/
  store : Int → List AlgoEvent

/-- `GlobalOrderBook`. -/
structure GlobalOrderBook where
  get : Int → Option Order
  /-- The confirmations `LoadStore(seq, this)` replays. -/
  store : Int → List Confirmation

/-- The files of the algorithm directory, as the handlers see them. -/
structure FileSystem where
  /-- The contents of a file `std::ifstream` opens. -/
  read : Bytes → Option Bytes
  /-- `std::ofstream` opens the file for writing. -/
  writable : Bytes → Bool
  /-- The error of `fs::remove`, if it throws. -/
  removeError : Bytes → Option Bytes
  /-- The file names of `kAlgoPath`, if it is a directory. -/
  algoDir : Option (List Bytes)

/-- What the engines hold while one handler runs. -/
structure World where
  securities : SecurityManager
  accounts : AccountManager
  marketData : MarketDataManager
  positions : PositionManager
  algos : AlgoManager
  orderBook : GlobalOrderBook
  files : FileSystem
  /-- `GetTime()`. -/
  now : Int
  /-- The next value of `kUuidGen()`. -/
  uuid : Uuid

/-- What never changes for a connection: its transport, the process constants, and the
library functions the connection calls. -/
structure Env where
  /-- `transport_->stateless`. -/
  stateless : Bool
  /-- `kAlgoPath`. -/
  algoPath : Bytes
  /-- `kStorePath`. -/
  storePath : Bytes
  /-- `kStartTime`. -/
  startTime : Int
  /-- The conversion of an `int64_t` to `Security::IdType`. -/
  secId : Int → Int
  /-- The digest words of `boost::uuids::detail::sha1`. -/
  sha1Digest : Bytes → Fin 5 → UInt32
  /-- `sscanf(line, "%d %lf %lf", ...)`, when it reads three values. -/
  scanPnl : Bytes → Option (Int × ℚ × ℚ)
  /-- The text `dump` gives a `double`. -/
  fmt : ℚ → Bytes

end OpenTrade
