import OpenTrade.Connection.State

/-!
# The periodic publisher

`GetMarketData` diffs a snapshot against the one last sent; `PublishMarketStatus` reports
adapters whose connectivity changed; the timer callback runs both, then the PnL diffs once
`sub_pnl_` is set.

## Implementation notes

The loop over `subs_` diffs and overwrites each entry in turn, and nothing in it throws, so
the model computes every diff first and then overwrites every snapshot. The iteration order
of `subs_`, an `std::unordered_map`, is unspecified; the model uses the order of its
association list.
-/

namespace OpenTrade

/-- `j3[key] = v` when the field changed. -/
def setIfChanged (changed : Bool) (key : String) (v : ℚ) (j3 : Json) : Json :=
  if changed then j3.set (utf8 key) (.numberFloat v) else j3

/-- The trade fields of `GetMarketData`, in the order it compares them. -/
def tradeDiff (t t0 : Trade) (j3 : Json) : Json :=
  j3 |> setIfChanged (t.open != t0.open) "o" t.open
    |> setIfChanged (t.high != t0.high) "h" t.high
    |> setIfChanged (t.low != t0.low) "l" t.low
    |> setIfChanged (t.close != t0.close) "c" t.close
    |> setIfChanged (t.qty != t0.qty) "q" t.qty
    |> setIfChanged (t.volume != t0.volume) "v" t.volume
    |> setIfChanged (t.vwap != t0.vwap) "V" t.vwap

/-- The key a `char name[3]` buffer spells: its first byte, then its second unless NUL. -/
def cName (n0 n1 : UInt8) : Bytes := if n1 = 0 then [n0] else [n0, n1]

/-- One comparison of the depth loop, threading the buffer's second byte: when the field
changed, `name[1] = '0' + i; j3[name] = v`. -/
def depthField (n0 : UInt8) (i : Fin 5) (changed : Bool) (v : ℚ) (buf : UInt8 × Json) :
    UInt8 × Json :=
  if changed then
    let n1 := (0x30 + i.val).toUInt8
    (n1, buf.2.set (cName n0 n1) (.numberFloat v))
  else buf

/-- One pass of the depth loop: `name` starts as `"a"`, and its first byte becomes `'A'`,
`'b'` and `'B'` before the later comparisons. -/
def depthLevel (md md0 : MarketData) (j3 : Json) (i : Fin 5) : Json :=
  let d := md.depth i
  let d0 := md0.depth i
  let buf := depthField 0x61 i (d.askPrice != d0.askPrice) d.askPrice (0, j3)
  let buf := depthField 0x41 i (d.askSize != d0.askSize) d.askSize buf
  let buf := depthField 0x62 i (d.bidPrice != d0.bidPrice) d.bidPrice buf
  let buf := depthField 0x42 i (d.bidSize != d0.bidSize) d.bidSize buf
  buf.2

/-- `GetMarketData(md, md0, id, &j)`: nothing when the timestamps agree; otherwise
`[id, j3]` is appended, `j3` holding `t` and every changed field, unless `j3` is empty. -/
def getMarketData (md md0 : MarketData) (id : Int) (j : Json) : Json :=
  if md.tm = md0.tm then j
  else
    let j3 := Json.null.set (utf8 "t") (.numberInteger md.tm)
    let j3 := tradeDiff md.trade md0.trade j3
    let j3 := (List.finRange 5).foldl (depthLevel md md0) j3
    if j3.size = 0 then j else j.push (.array [.numberInteger id, j3])

/-- One adapter of `PublishMarketStatus`: when its flag is new or changed, record it, then
send `["market", kind, name, connected]`. -/
def publishAdapter (env : Env) (kind : String) (seen : Session → Bytes → Option Bool)
    (record : Bytes → Bool → Session → Session) (a : Bytes × Bool) : M Unit := do
  if seen (← get).conn a.1 = some a.2 then pure ()
  else
    modifyConn (record a.1 a.2)
    send env (.array ["market", kind, .string a.1, .boolean a.2])

/-- `PublishMarketStatus`: exchange adapters against `ecs_`, then market-data adapters
against `mds_`. -/
def publishMarketStatus (env : Env) (w : World) : M Unit := do
  w.marketData.ecAdapters.forM (publishAdapter env "exchange" Session.ecs
    fun n v c => { c with ecs := Function.update c.ecs n (some v) })
  w.marketData.mdAdapters.forM (publishAdapter env "data" Session.mds
    fun n v c => { c with mds := Function.update c.mds n (some v) })

/-- Every snapshot of `subs_` replaced, the counts and the order kept. -/
def refreshSubs (snap : Int → MarketData) (subs : AList (fun _ : Int => SubEntry)) :
    AList (fun _ : Int => SubEntry) :=
  ⟨subs.entries.map fun e => ⟨e.1, (snap e.1, e.2.2)⟩, by
    simpa [List.NodupKeys, List.keys, Function.comp_def] using subs.nodupKeys⟩

/-- The `"md"` frame of a tick: one `GetMarketData` per subscription. -/
def mdFrame (snap : Int → MarketData) (subs : AList (fun _ : Int => SubEntry)) : Json :=
  subs.entries.foldl (fun j e => getMarketData (snap e.1) e.2.1 e.1 j) (.array ["md"])

/-- The market-data part of a tick: diff every subscription, record every new snapshot,
and send the frame when it holds an entry. -/
def publishSubs (env : Env) (w : World) : M Unit := do
  let subs := (← get).conn.subs
  modifyConn fun c => { c with subs := refreshSubs w.marketData.get c.subs }
  let j := mdFrame w.marketData.get subs
  if j.size > 1 then send env j else pure ()

/-- One position of the PnL diff: for an owned sub-account, `["pnl", acc, sec, unrealized]`,
with realized appended when it changed, whenever either changed. -/
def publishPosition (env : Env) (u : User) (p : (Int × Int) × Position) : M Unit := do
  if !u.owns p.1.1 then pure ()
  else
    let pnl0 := (← get).conn.singlePnls p.1
    let x := p.2.realizedPnl != pnl0.1
    if x || p.2.unrealizedPnl != pnl0.2 then
      modifyConn fun c =>
        { c with singlePnls := Function.update c.singlePnls p.1 (p.2.realizedPnl, p.2.unrealizedPnl) }
      send env (.array (("pnl" : Json) :: .numberInteger p.1.1 :: .numberInteger p.1.2 ::
        .numberFloat p.2.unrealizedPnl :: if x then [.numberFloat p.2.realizedPnl] else []))
    else pure ()

/-- One aggregate PnL: for an owned sub-account whose PnL changed,
`["Pnl", acc, now, realized, unrealized]`. -/
def publishPnl (env : Env) (now : Int) (u : User) (p : Int × Pnl) : M Unit := do
  if !u.owns p.1 then pure ()
  else
    let pnl0 := (← get).conn.pnls p.1
    if p.2.realized != pnl0.1 || p.2.unrealized != pnl0.2 then
      modifyConn fun c => { c with pnls := Function.update c.pnls p.1 (p.2.realized, p.2.unrealized) }
      send env (.array ["Pnl", .numberInteger p.1, .numberInteger now,
        .numberFloat p.2.realized, .numberFloat p.2.unrealized])
    else pure ()

/-- `PublishMarketdata()`: unless closed, arm the timer for the next tick. -/
def publishMarketdata : M Unit := do
  if (← get).conn.closed then pure () else call .startTimer

/-- The PnL part of a tick, once `sub_pnl_` is set: it reads `user_->sub_accounts`. -/
def publishPnls (env : Env) (w : World) : M Unit := do
  let s ← get
  if !s.conn.subPnl then pure ()
  else
    match s.conn.user with
    | none => undefinedBehaviour
    | some u =>
      w.positions.subPositions.forM (publishPosition env u)
      w.positions.pnls.forM (publishPnl env w.now u)

/-- The timer callback: re-arm first, then market status, market data and PnL. -/
def onTimer (env : Env) (w : World) : M Unit := do
  publishMarketdata
  publishMarketStatus env w
  publishSubs env w
  publishPnls env w

end OpenTrade
