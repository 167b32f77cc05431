import OpenTrade.Props.AlgoOwnership
import OpenTrade.Props.ClientView

/-!
# Orders in and confirmations out

`OnOrder` reads the type and the time in force of an order from strings compared with
`strcasecmp`, and a confirmation prints them with `GetType` and `GetTif`. Every time in force
comes back as it was; every type does too except `stop_limit`, which `OnOrder` spells
`stop limit` and so reads as the default `limit`.

`Send(const Confirmation&, offline)` sends, on an open connection and when its strings are
UTF-8, the one frame `specFrame` that the spec lists for the execution type, and nothing for
the others. The status is the one named for the case entered, the fall-through
notwithstanding (`fallStatus_eq`).
-/

namespace OpenTrade

/-! ## Type and time in force -/

/-- `OnOrder` reads back every type `GetType` prints but `stop_limit`. -/
theorem parseOrderType_getType (t : OrderType) :
    parseOrderType (getType t) = if t = .stopLimit then .limit else t := by
  cases t <;> decide

/-- `OnOrder` reads back every time in force `GetTif` prints. -/
theorem parseTif_getTif (f : TimeInForce) : parseTif (getTif f) = f := by
  cases f <;> decide

section Request

variable {env : Env} {w : World} {u : User}

/-- An order request whose fields have the right kinds and name a known sub-account, security
and side, with a positive stop price, places the one contract built from them. -/
theorem onOrder_places {sid : Int} {accName sideStr typeStr tifStr : Bytes} {qty px stop : ℚ}
    {acc : SubAccount} {sec : Security} {side : OrderSide} (hacc : w.accounts.subAccountByName accName = some acc)
    (hsec : w.securities.get (env.secId sid) = some sec) (hside : w.securities.getOrderSide sideStr = some side)
    (hstop : 0 < stop) (x : Json) (s : St) :
    onOrder env w u (.array [x, .numberInteger sid, .string accName, .string sideStr, .string typeStr,
        .string tifStr, .numberFloat qty, .numberFloat px, .numberFloat stop]) s =
      .ok () { s with calls := s.calls ++ [.place
        { secId := sec.id, subAccountId := acc.id, side := side, «type» := parseOrderType typeStr,
          tif := parseTif tifStr, qty := qty, price := px, stopPrice := stop } u.id] } := by
  have hs : ¬stop ≤ 0 := not_le.2 hstop
  simp [onOrder, indexConst, getInt64, getString, getNum, getAs, Json.int64, Json.str, Json.num, Json.isNumber,
    Json.isNumberInteger, Json.isNumberFloat, Json.isString, hacc, hsec, hside, hs, bind, EStateM.bind, pure,
    EStateM.pure]

end Request

/-- Re-submitting the type and time in force a confirmation carries places a contract with the
same time in force, and with the same type unless that type is `stop_limit`, which becomes
`limit`. -/
theorem resubmitted_type_tif (env : Env) (w : World) (u : User) {sid : Int} {accName sideStr : Bytes}
    {qty px stop : ℚ} {acc : SubAccount} {sec : Security} {side : OrderSide}
    (hacc : w.accounts.subAccountByName accName = some acc) (hsec : w.securities.get (env.secId sid) = some sec)
    (hside : w.securities.getOrderSide sideStr = some side) (hstop : 0 < stop) (t : OrderType) (f : TimeInForce)
    (s : St) :
    ∃ c, onOrder env w u (.array ["order", .numberInteger sid, .string accName, .string sideStr,
        .string (getType t), .string (getTif f), .numberFloat qty, .numberFloat px, .numberFloat stop]) s =
        .ok () { s with calls := s.calls ++ [.place c u.id] } ∧
      c.type = (if t = .stopLimit then .limit else t) ∧ c.tif = f :=
  ⟨_, onOrder_places hacc hsec hside hstop _ s, parseOrderType_getType t, parseTif_getTif f⟩

/-- `alice` re-submits the `stop_limit` and `GTC` of a confirmation: the order placed is a
`limit` order, good till cancel. -/
theorem stop_limit_resubmitted_as_limit :
    ∃ c, onOrder plainEnv algoWorld alice (.array ["order", .numberInteger 7, .string (utf8 "A"),
        .string (utf8 "buy"), .string (getType .stopLimit), .string (getTif .goodTillCancel), .numberFloat 1,
        .numberFloat 10, .numberFloat 9]) St.init = .ok () { St.init with calls := [.place c 1] } ∧
      c.type = .limit ∧ c.tif = .goodTillCancel :=
  @resubmitted_type_tif plainEnv algoWorld alice 7 (utf8 "A") (utf8 "buy") 1 10 9 ⟨1, utf8 "A"⟩ (plainSecurity 7)
    .buy (by decide) (by decide) (by decide) (by decide) .stopLimit .goodTillCancel St.init

/-! ## The status of a confirmation -/

theorem foldl_orElse_some (x : Bytes) (l : List String) :
    l.foldl (fun st n => st <|> some (utf8 n)) (some x) = some x := by
  induction l with
  | nil => rfl
  | cons n l ih => exact ih

/-- The fall-through sets the status once, in the case it enters. -/
theorem fallStatus_eq (names : List String) {k : Nat} (h : k < names.length) :
    fallStatus k names = utf8 names[k] := by
  rw [fallStatus, List.drop_eq_getElem_cons h, List.foldl_cons]
  exact congrArg (Option.getD · []) (foldl_orElse_some _ _)

/-- The status and the fields after it that the spec lists for a confirmation that is sent;
`none` for the execution types, and the fill transaction types, for which nothing is sent. -/
def specConfirmation (cm : Confirmation) : Option (String × List Json) :=
  let text := if cm.text.isEmpty then [] else [Json.string cm.text]
  let fill (status : String) : Option (String × List Json) :=
    let head := [Json.numberFloat cm.lastShares, .numberFloat cm.lastPx, .string cm.execId]
    match cm.execTransType with
    | .new => some (status, head ++ [Json.string (utf8 "new")])
    | .cancel => some (status, head ++ [Json.string (utf8 "cancel")])
    | .other _ => none
  match cm.execType with
  | .unconfirmedNew => some ("unconfirmed", orderFields cm.order true)
  | .pendingNew => some ("pending", text)
  | .pendingCancel => some ("pending_cancel", text)
  | .new => some ("new", .string cm.orderId :: text)
  | .canceled => some ("cancelled", text)
  | .filled => fill "filled"
  | .partiallyFilled => fill "partial"
  | .rejected => some ("new_rejected", [.string cm.text])
  | .cancelRejected => some ("cancel_rejected", [.string cm.text])
  | .riskRejected => some ("risk_rejected", .string cm.text :: orderFields cm.order false ++
      if cm.order.origId ≠ 0 then [.numberInteger cm.order.origId] else [])
  | .other _ => none

/-- The frame the spec describes: command, order id, time in seconds, sequence number, the
status and the fields after it. -/
def specFrame (cm : Confirmation) (offline : Bool) (p : String × List Json) : Json :=
  .array ((if offline then "Order" else "order" : Json) :: .numberInteger cm.order.id ::
    .numberInteger (cm.transactionTime.tdiv 1000000) :: .numberInteger cm.seq :: .string (utf8 p.1) :: p.2)

/-- The encoder's switch computes the spec's status and fields. -/
theorem confirmationTail_eq_spec (cm : Confirmation) :
    confirmationTail cm = (specConfirmation cm).map fun p => .string (utf8 p.1) :: p.2 := by
  obtain ⟨o, et, tt, seq, oid, text, ls, lp, eid, ett⟩ := cm
  cases et
  case filled | partiallyFilled => cases ett <;> simp [confirmationTail, specConfirmation, fallStatus_eq]
  all_goals simp [confirmationTail, specConfirmation, fallStatus_eq]

/-! ## Sending a confirmation -/

theorem Json.WellFormed.utf8 (str : String) : Json.WellFormed (.string (utf8 str)) := .string (utf8Run_utf8 str)

theorem Json.WellFormed.of_valid {b : Bytes} (h : Json.validUtf8 b = true) : Json.WellFormed (.string b) :=
  .string (beq_iff_eq.1 h)

/-- Every field of the order snapshot serializes: numbers, and the names `GetSide`, `GetType`
and `GetTif` print. -/
theorem wellFormed_orderFields (o : Order) (broker : Bool) : ∀ x ∈ orderFields o broker, Json.WellFormed x := by
  have hside : Json.WellFormed (.string (getSide o.side)) := by cases o.side <;> exact .utf8 _
  have htype : Json.WellFormed (.string (getType o.type)) := by cases o.type <;> exact .utf8 _
  have htif : Json.WellFormed (.string (getTif o.tif)) := by cases o.tif <;> exact .utf8 _
  cases broker <;>
    simp [orderFields, hside, htype, htif, Json.WellFormed.numberInteger, Json.WellFormed.numberFloat]

/-- When the order id, the text and the execution id are UTF-8, every field the spec lists
serializes. -/
theorem wellFormed_specConfirmation {cm : Confirmation} (hid : Json.validUtf8 cm.orderId = true)
    (ht : Json.validUtf8 cm.text = true) (he : Json.validUtf8 cm.execId = true) {p : String × List Json}
    (h : specConfirmation cm = some p) : ∀ x ∈ p.2, Json.WellFormed x := by
  obtain ⟨o, et, tt, seq, oid, text, ls, lp, eid, ett⟩ := cm
  dsimp only at hid ht he
  have htext : ∀ x ∈ (if text.isEmpty then [] else [Json.string text]), Json.WellFormed x := by
    split <;> simp [Json.WellFormed.of_valid ht]
  cases et <;> simp only [specConfirmation] at h
  case filled | partiallyFilled =>
    cases ett <;> cases h <;> simp [Json.WellFormed.of_valid he, Json.WellFormed.utf8, Json.WellFormed.numberFloat]
  case unconfirmedNew => cases h; exact wellFormed_orderFields o true
  case pendingNew | pendingCancel | canceled => cases h; exact htext
  case new => cases h; exact List.forall_mem_cons.2 ⟨.of_valid hid, htext⟩
  case rejected | cancelRejected => cases h; simp [Json.WellFormed.of_valid ht]
  case riskRejected =>
    cases h
    refine List.forall_mem_cons.2 ⟨.of_valid ht, List.forall_mem_append.2 ⟨wellFormed_orderFields o false, ?_⟩⟩
    split <;> simp [Json.WellFormed.numberInteger]
  case other => cases h

/-- On an open connection, and when its order id, text and execution id are UTF-8, a
confirmation appends exactly the frame the spec lists for its execution type, and nothing
when the spec lists none. -/
theorem confirmation_frame_as_listed (env : Env) (cm : Confirmation) (offline : Bool) (s : St)
    (hc : s.conn.closed = false) (hid : Json.validUtf8 cm.orderId = true) (ht : Json.validUtf8 cm.text = true)
    (he : Json.validUtf8 cm.execId = true) :
    sendConfirmation env cm offline s = .ok () (match specConfirmation cm with
      | some p => { s with out := s.out ++ [.json (specFrame cm offline p)] }
      | none => s) := by
  unfold sendConfirmation
  rw [confirmationTail_eq_spec]
  cases h : specConfirmation cm with
  | none => rfl
  | some p =>
    have hcmd : Json.WellFormed (if offline then "Order" else "order") := by cases offline <;> exact .utf8 _
    have hwf : Json.WellFormed (specFrame cm offline p) :=
      .array_cons hcmd <| .array_cons (.numberInteger _) <| .array_cons (.numberInteger _) <|
        .array_cons (.numberInteger _) <| .array_cons (.utf8 _) <| .array (wellFormed_specConfirmation hid ht he h)
    change send env (specFrame cm offline p) s = .ok () { s with out := s.out ++ [.json (specFrame cm offline p)] }
    rw [send_of_wellFormed hwf, emit_apply, if_neg (by simp [hc])]

/-- An order of one share of security 7 at 10, on sub-account 1. -/
def sampleOrder : Order := ⟨1, 7, 0, 1, 1, 0, 1, 10, .buy, .limit, .day, 0⟩

/-- A `new` confirmation with order id `A1` is sent as `["order", 1, 0, 1, "new", "A1"]`. -/
theorem new_confirmation_sent :
    sendConfirmation plainEnv ⟨sampleOrder, .new, 0, 1, utf8 "A1", [], 0, 0, [], .new⟩ false St.init =
      .ok () { St.init with out := [.json (.array ["order", .numberInteger 1, .numberInteger 0, .numberInteger 1,
        "new", .string (utf8 "A1")])] } :=
  confirmation_frame_as_listed plainEnv _ false St.init rfl (by decide) (by decide) (by decide)

/-- A `new` confirmation whose order id is not UTF-8: `dump` throws, and nothing is sent. -/
theorem unsendable_order_id_not_sent :
    ∃ e, sendConfirmation plainEnv ⟨sampleOrder, .new, 0, 1, [0xFF], [], 0, 0, [], .new⟩ false St.init =
        .error e St.init ∧ specConfirmation ⟨sampleOrder, .new, 0, 1, [0xFF], [], 0, 0, [], .new⟩ ≠ none :=
  ⟨_, rfl, by simp [specConfirmation]⟩

end OpenTrade
