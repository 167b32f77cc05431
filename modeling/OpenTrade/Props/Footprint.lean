import OpenTrade.Connection.Events

/-!
# What each handler writes

Most handlers only read the request and the engines, send frames and call into the engines:
they keep the connection's fields and the token table, and none of their frames is a
market-data frame. `pnl` also sets `sub_pnl_`, after a loop whose frames are neither market
data nor error replies, and an algorithm test records its token. The lemmas here say so once
per handler; the properties of sessions are derived from them.

## Implementation notes

Each handler is walked once, for any relation that sends of frames other than market data
and engine calls other than arming the timer keep: the proof walks the handler's `do` block
with the combinators of `Kept`, at reducible transparency so that a step that does not apply
fails at once. `Quiet` and the relations of the other session properties are instances.
-/

namespace OpenTrade

/-- A frame of the market-data publisher: an array led by `"md"`. -/
def Frame.isMd : Frame → Bool
  | .json (.array (.string a :: _)) => a == utf8 "md"
  | _ => false

theorem Frame.isMd_string_cons {a : Bytes} (rest : List Json) (h : (a == utf8 "md") = false) :
    (Frame.json (.array (.string a :: rest))).isMd = false := h

/-- An error reply: an array led by `"error"`. -/
def Frame.isError : Frame → Bool
  | .json (.array (.string a :: _)) => a == utf8 "error"
  | _ => false

theorem Frame.isError_string_cons {a : Bytes} (rest : List Json) (h : (a == utf8 "error") = false) :
    (Frame.json (.array (.string a :: rest))).isError = false := h

/-- A frame the client's market-data view does not read. -/
abbrev Frame.NotMd (f : Frame) : Prop := f.isMd = false

/-- A frame that is neither market data nor an error reply. -/
abbrev Frame.Plain (f : Frame) : Prop := f.isMd = false ∧ f.isError = false

/-- A handler writes the connection's fields at most as `keep` allows, keeps the token
table, and sends only frames that satisfy `sent`. -/
def Footprint (keep : Session → Session → Prop) (sent : Frame → Prop) (s s' : St) : Prop :=
  keep s.conn s'.conn ∧ s'.kTokens = s.kTokens ∧ ∃ fs, s'.out = s.out ++ fs ∧ ∀ f ∈ fs, sent f

instance {keep : Session → Session → Prop} [IsRefl Session keep] {sent : Frame → Prop} :
    IsRefl St (Footprint keep sent) :=
  ⟨fun _ => ⟨refl _, rfl, [], by simp, by simp⟩⟩

instance {keep : Session → Session → Prop} [IsTrans Session keep] {sent : Frame → Prop} :
    IsTrans St (Footprint keep sent) :=
  ⟨fun _ _ _ ⟨hc, hk, fs, ho, hf⟩ ⟨hc', hk', fs', ho', hf'⟩ => ⟨IsTrans.trans _ _ _ hc hc', hk'.trans hk,
    fs ++ fs', by rw [ho', ho, List.append_assoc], fun f hm => (List.mem_append.mp hm).elim (hf f) (hf' f)⟩⟩

theorem Footprint.mono {keep keep' : Session → Session → Prop} {sent sent' : Frame → Prop}
    (hk : ∀ c c', keep c c' → keep' c c') (hs : ∀ f, sent f → sent' f) {s s' : St}
    (h : Footprint keep sent s s') : Footprint keep' sent' s s' :=
  let ⟨hc, ht, fs, ho, hf⟩ := h
  ⟨hk _ _ hc, ht, fs, ho, fun f hm => hs f (hf f hm)⟩

/-- A handler that only reads, replies and calls. -/
abbrev Quiet : St → St → Prop := Footprint Eq Frame.NotMd

instance : IsRefl St Quiet := inferInstance

instance : IsTrans St Quiet := inferInstance

/-- The session is the same but for `sub_pnl_`. -/
def Session.OnlySubPnl (c c' : Session) : Prop := c' = { c with subPnl := c'.subPnl }

/-- The session is the same but for what the publisher records it last reported: `ecs_`,
`mds_`, `single_pnls_` and `pnls_`. -/
def Session.OnlyReported (c c' : Session) : Prop :=
  c' = { c with ecs := c'.ecs, mds := c'.mds, singlePnls := c'.singlePnls, pnls := c'.pnls }

/-- The session is the same but for `test_algo_tokens_`. -/
def Session.OnlyTestTokens (c c' : Session) : Prop := c' = { c with testAlgoTokens := c'.testAlgoTokens }

instance : IsRefl Session Session.OnlySubPnl := ⟨fun _ => rfl⟩

instance : IsTrans Session Session.OnlySubPnl := ⟨fun _ _ _ h h2 => h2.trans (by rw [h])⟩

instance : IsRefl Session Session.OnlyTestTokens := ⟨fun _ => rfl⟩

instance : IsTrans Session Session.OnlyTestTokens := ⟨fun _ _ _ h h2 => h2.trans (by rw [h])⟩

theorem Session.onlySubPnl_update (c : Session) (b : Bool) : Session.OnlySubPnl c { c with subPnl := b } := rfl

theorem Session.onlyReported_update (c : Session) (ecs mds : Bytes → Option Bool)
    (singlePnls : Int × Int → ℚ × ℚ) (pnls : Int → ℚ × ℚ) :
    Session.OnlyReported c { c with ecs := ecs, mds := mds, singlePnls := singlePnls, pnls := pnls } := rfl

theorem Session.OnlyReported.user_eq {c c' : Session} (h : Session.OnlyReported c c') : c'.user = c.user := by
  rw [h]

theorem Session.OnlyReported.subs_eq {c c' : Session} (h : Session.OnlyReported c c') : c'.subs = c.subs := by
  rw [h]

theorem Session.OnlyReported.closed_eq {c c' : Session} (h : Session.OnlyReported c c') : c'.closed = c.closed := by
  rw [h]

theorem Session.onlyTestTokens_update (c : Session) (ts : List Bytes) :
    Session.OnlyTestTokens c { c with testAlgoTokens := ts } := rfl

theorem kept_modifyConn_footprint {keep : Session → Session → Prop} {sent : Frame → Prop}
    {f : Session → Session} (h : ∀ c, keep c (f c)) : Kept (Footprint keep sent) (modifyConn f) :=
  kept_modifyConn fun s => ⟨h s.conn, rfl, [], by simp, by simp⟩

section Primitives

variable {keep : Session → Session → Prop} [IsRefl Session keep] {sent : Frame → Prop} {env : Env}

theorem kept_send_footprint {j : Json} (h : sent (.json j)) : Kept (Footprint keep sent) (send env j) :=
  kept_send fun _ _ => ⟨refl _, rfl, [.json j], rfl, by simpa using h⟩

theorem kept_call_footprint (c : Call) : Kept (Footprint keep sent) (call c) :=
  kept_call fun _ => ⟨refl _, rfl, [], by simp, by simp⟩

end Primitives

/-- A parameter map that `ParseParams` returns for some request. -/
def ParsedParams (env : Env) (w : World) (m : ParamMap) : Prop :=
  ∃ params s s', parseParams env w params s = .ok m s'

theorem returns_parsedParams {env : Env} {w : World} (params : Json) :
    Returns (ParsedParams env w) (parseParams env w params) :=
  fun s _ s' h => ⟨params, s, s', h⟩

/-- What `OnOrder` checked of an order before placing it: the sub-account and the security are
ones the reference data gave, the side is one `GetOrderSide` read, and a stop or stop-limit
order carries a positive stop price. -/
structure Contract.Checked (w : World) (c : Contract) : Prop where
  acc : ∃ name acc, w.accounts.subAccountByName name = some acc ∧ c.subAccountId = acc.id
  sec : ∃ id sec, w.securities.get id = some sec ∧ c.secId = sec.id
  side : ∃ name, w.securities.getOrderSide name = some c.side
  stop : c.type = .stop ∨ c.type = .stopLimit → 0 < c.stopPrice

theorem Contract.checked_mk {w : World} {accName sideName : Bytes} {id : Int} {acc : SubAccount} {sec : Security}
    {side : OrderSide} {ty : OrderType} {stop : ℚ} (hacc : w.accounts.subAccountByName accName = some acc)
    (hsec : w.securities.get id = some sec) (hside : w.securities.getOrderSide sideName = some side)
    (hstop : ¬(stop ≤ 0 ∧ (ty = .stop ∨ ty = .stopLimit))) (tif : TimeInForce) (qty px : ℚ) :
    Contract.Checked w
      { secId := sec.id, subAccountId := acc.id, side := side, «type» := ty, tif := tif, qty := qty, price := px,
        stopPrice := stop } :=
  ⟨⟨_, _, hacc, rfl⟩, ⟨_, _, hsec, rfl⟩, ⟨_, hside⟩,
    fun ht => lt_of_not_le fun hle => hstop ⟨hle, ht⟩⟩

/-- What the connection checked of a call's arguments before making it: a parameter map is one
`ParseParams` returned, and an order is checked. -/
abbrev Call.Checked (env : Env) (w : World) : Call → Prop
  | .spawn params .. => ∀ m, params = some m → ParsedParams env w m
  | .modifyToken _ params | .modifyId _ params => ParsedParams env w params
  | .place c _ => c.Checked w
  | _ => True

/-! ## The handlers, walked once

A relation that every send of a frame other than market data keeps, and every engine call but
arming the timer made with what its handler checked (`Call.Checked`), is kept by each handler
below. The handlers that write the connection take what their writes keep as a hypothesis of
their own. -/

section Walk

variable {R : St → St → Prop} [IsRefl St R] [IsTrans St R] {env : Env} {w : World}
  (hsend : ∀ j, (Frame.json j).isMd = false → Kept R (send env j))
  (hcall : ∀ c : Call, c ≠ .startTimer → c.Checked env w → Kept R (call c))
include hsend

omit [IsTrans St R] in
theorem kept_sendConfirmation_of (cm : Confirmation) (offline : Bool) : Kept R (sendConfirmation env cm offline) := by
  unfold sendConfirmation
  split
  · cases offline <;> exact hsend _ rfl
  · exact kept_pure _

omit [IsRefl St R] [IsTrans St R] in
theorem kept_sendAlgoEvent_of (a : AlgoEvent) (tm : Int) (offline : Bool) : Kept R (sendAlgoEvent env a tm offline) := by
  cases offline <;> exact hsend _ rfl

/-- The pushes of the order book and the algorithm engine only send. -/
theorem kept_pushes_of : (∀ cm, Kept R (sendConfirmationPtr env cm)) ∧ (∀ now a, Kept R (sendAlgo env now a)) ∧
    ∀ token msg stopped, Kept R (sendTestMsg env token msg stopped) := by
  unfold sendConfirmationPtr sendAlgo sendTestMsg
  refine ⟨fun _ => ?_, fun _ _ => ?_, fun _ _ _ => ?_⟩
  all_goals with_reducible repeat' first
    | refine kept_bind ?_ fun _ => ?_ | exact kept_get | refine kept_ite ?_ ?_ | split | exact kept_pure _
    | exact kept_sendConfirmation_of hsend _ _ | exact kept_sendAlgoEvent_of hsend _ _ _
    | exact hsend _ (Frame.isMd_string_cons _ (by decide))

theorem kept_onBod_of (u : User) : Kept R (onBod env w u) :=
  kept_forM fun _ _ => kept_ite (kept_pure _) (hsend _ rfl)

/-- A security frame, or on a stateless transport the array of them all, is no market-data
frame. -/
theorem kept_onSecurities_of (u : User) : Kept R (onSecurities env w u) := by
  have hrec : ∀ s rest, (Frame.json (.array (securityRecord u.isAdmin s :: rest))).isMd = false :=
    fun s _ => by
      unfold securityRecord
      split <;> rfl
  unfold onSecurities
  refine kept_ite (hsend _ ?_) (kept_bind (kept_forM fun r hr => hsend _ ?_) fun _ => hsend _ rfl)
  · cases w.securities.securities with
    | nil => rfl
    | cons s ss =>
      simp only [List.map_cons, List.foldl_cons, Json.push, Json.push_foldl_array, List.singleton_append]
      exact hrec s _
  · obtain ⟨s, -, rfl⟩ := List.mem_map.mp hr
    unfold securityRecord
    split <;> rfl

theorem kept_onLogin_validate_of (j : Json) : Kept R (onLogin env w (utf8 "validate_user") j) := by
  unfold onLogin
  simp only [↓reduceIte]
  with_reducible repeat' first
    | refine kept_bind ?_ fun _ => ?_
    | exact kept_getString | exact kept_getInt64 | exact kept_indexConst
    | exact hsend _ (Frame.isMd_string_cons _ (by decide))

/-- `position` forwards the request itself, which `hfwd` keeps. -/
theorem kept_onPosition_of (j : Json) (hfwd : Kept R (send env j)) : Kept R (onPosition env w j) := by
  unfold onPosition literalOffset
  with_reducible repeat' first
    | refine kept_bind ?_ fun _ => ?_ | refine kept_ite ?_ ?_ | split
    | exact kept_getInt64 | exact kept_getString | exact kept_getBool | exact kept_indexConst
    | exact kept_pure _ | exact kept_undefinedBehaviour
    | exact hsend _ (Frame.isMd_string_cons _ (by decide)) | exact hfwd

include hcall

omit hsend in
theorem kept_onReconnect_of (j : Json) : Kept R (onReconnect env w j) := by
  unfold onReconnect
  with_reducible repeat' first
    | refine kept_bind ?_ fun _ => ?_ | refine kept_ite ?_ ?_
    | exact kept_getString | exact kept_index | exact kept_pure _
    | exact hcall _ (fun h => Call.noConfusion h) trivial

omit hsend in
theorem kept_onShutdown_of (u : User) (j : Json) : Kept R (onShutdown env u j) := by
  unfold onShutdown toInt
  with_reducible repeat' first
    | refine kept_bind ?_ fun _ => ?_ | refine kept_ite ?_ ?_
    | exact kept_getNum | exact kept_index | exact kept_pure _ | exact kept_undefinedBehaviour
    | exact kept_throw _ | exact hcall _ (fun h => Call.noConfusion h) trivial

theorem kept_onOffline_of (j : Json) : Kept R (onOffline env w j) := by
  unfold onOffline
  with_reducible repeat' first
    | refine kept_bind ?_ fun _ => ?_ | refine kept_ite ?_ ?_ | refine kept_forM fun _ _ => ?_
    | exact kept_getInt64 | exact kept_index | exact kept_pure _
    | exact hcall _ (fun h => Call.noConfusion h) trivial
    | exact kept_sendAlgoEvent_of hsend _ _ _ | exact kept_sendConfirmation_of hsend _ _
    | exact hsend _ (Frame.isMd_string_cons _ (by decide))

theorem kept_onCancel_of (j : Json) : Kept R (onCancel env w j) := by
  unfold onCancel
  with_reducible repeat' first
    | refine kept_bind ?_ fun _ => ?_ | split
    | exact kept_getInt64 | exact kept_index | exact hcall _ (fun h => Call.noConfusion h) trivial
    | exact hsend _ (Frame.isMd_string_cons _ (by decide))

theorem kept_onOrder_of (u : User) (j : Json) : Kept R (onOrder env w u j) := by
  unfold onOrder literalOffset
  with_reducible repeat' first
    | refine kept_bind ?_ fun _ => ?_ | refine kept_ite_of (fun _ => ?_) fun _ => ?_ | split
    | exact kept_getInt64 | exact kept_getString | exact kept_getNum | exact kept_indexConst
    | exact kept_pure _ | exact kept_undefinedBehaviour
    | exact hcall _ (fun h => Call.noConfusion h) (Contract.checked_mk ‹_› ‹_› ‹_› ‹_› _ _ _)
    | exact hsend _ (Frame.isMd_string_cons _ (by decide))

/-- The three file actions read, write or remove through an engine call and reply under
their own names. -/
theorem kept_fileActions_of (j : Json) :
    Kept R (onAlgoFile env w (utf8 "algoFile") j) ∧ Kept R (onDeleteAlgoFile env w (utf8 "deleteAlgoFile") j) ∧
      Kept R (onSaveAlgoFile env w (utf8 "saveAlgoFile") j) := by
  unfold onAlgoFile onDeleteAlgoFile onSaveAlgoFile
  refine ⟨?_, ?_, ?_⟩
  all_goals with_reducible repeat' first
    | refine kept_bind ?_ fun _ => ?_ | refine kept_ite ?_ ?_ | split
    | exact kept_getString | exact kept_index | exact hcall _ (fun h => Call.noConfusion h) trivial
    | exact hsend _ (Frame.isMd_string_cons _ (by decide))

theorem kept_pnlHistory_of (u : User) (j : Json) : Kept R (pnlHistory env w u j) := by
  unfold pnlHistory sendPnlHistory
  with_reducible repeat' first
    | refine kept_bind ?_ fun _ => ?_ | refine kept_ite ?_ ?_ | refine kept_forM fun _ _ => ?_
    | exact kept_getInt64 | exact kept_index | exact kept_pure _
    | exact hcall _ (fun h => Call.noConfusion h) trivial
    | exact hsend _ (Frame.isMd_string_cons _ (by decide))

omit hsend hcall in
theorem kept_checkOwnership_of (u : User) (params : ParamMap) : Kept R (checkOwnership u params) := by
  unfold checkOwnership
  refine kept_forM fun _ _ => ?_
  with_reducible repeat' first
    | refine kept_ite ?_ ?_ | split | exact kept_pure _ | exact kept_throwExn _ | exact kept_undefinedBehaviour

omit hsend in
/-- The `try` block of `algo` records a test token by `htok`, for an action other than `new`
and a token that is not empty; every other step reads or calls. -/
theorem kept_spawnAlgo_of (u : User) (action algoName token : Bytes) (j : Json)
    (htok : action ≠ utf8 "new" → token ≠ [] →
      Kept R (modifyConn fun c => { c with testAlgoTokens := c.testAlgoTokens.insert token })) :
    Kept R (spawnAlgo env w u action algoName token j) := by
  unfold spawnAlgo
  with_reducible repeat' first
    | refine kept_bind_returns (kept_parseParams _) (returns_parsedParams _) fun _ _ => ?_
    | simp only [pure_bind]
    | refine kept_bind ?_ fun _ => ?_
    | exact kept_indexConst | exact kept_checkOwnership_of _ _ | exact kept_pure _
    | exact kept_throwExn _ | exact hcall _ (fun h => Call.noConfusion h) fun _ => Option.noConfusion
    | exact hcall _ (fun h => Call.noConfusion h) fun _ h => Option.some.inj h ▸ ‹ParsedParams env w _›
    | exact htok ‹_› (mt List.isEmpty_iff.mpr ‹_›)
    | refine kept_ite_of (fun _ => ?_) fun _ => ?_ | split

/-- `algo` records a test token by `htok`, for a request `[_, "test", name, token, ...]` whose
token is not empty; every other step reads, replies or calls. -/
theorem kept_onAlgo_of (u : User) (j : Json)
    (htok : ∀ a name token rest, j = .array (a :: .string (utf8 "test") :: .string name :: .string token :: rest) →
      token ≠ [] → Kept R (modifyConn fun c => { c with testAlgoTokens := c.testAlgoTokens.insert token })) :
    Kept R (onAlgo env w u j) := by
  unfold onAlgo
  refine kept_bind_returns kept_indexConst returns_indexConst fun _ ⟨xs, hj, h1⟩ =>
    kept_bind_returns kept_getString returns_getString fun action ha =>
    kept_ite ?_ (kept_ite ?_ (kept_ite_of (fun hnt => ?spawn) fun _ => hsend _ (Frame.isMd_string_cons _ (by decide))))
  case spawn =>
    refine kept_bind_returns kept_indexConst returns_indexConst fun _ ⟨_, hj₂, h2⟩ =>
      kept_bind_returns kept_getString returns_getString fun name hn =>
      kept_bind_returns kept_indexConst returns_indexConst fun _ ⟨_, hj₃, h3⟩ =>
      kept_bind_returns kept_getString returns_getString fun token ht =>
      kept_ite (hsend _ (Frame.isMd_string_cons _ (by decide))) (kept_catchRuntime
        (kept_spawnAlgo_of hcall u action name token j fun hnew hne => ?_)
        fun _ => hsend _ (Frame.isMd_string_cons _ (by decide)))
    obtain rfl := Json.array.inj (hj₂.symm.trans hj)
    obtain rfl := Json.array.inj (hj₃.symm.trans hj)
    subst ha hn ht
    obtain rfl : action = utf8 "test" := hnt.resolve_left hnew
    obtain ⟨a, rest, rfl⟩ := List.exists_eq_cons_of_get h1 h2 h3
    exact htok a name token rest hj hne
  all_goals with_reducible repeat' first
    | refine kept_bind_returns (kept_parseParams _) (returns_parsedParams _) fun _ _ => ?_
    | refine kept_bind ?_ fun _ => ?_ | refine kept_ite ?_ ?_
    | exact kept_getString | exact kept_getInt64 | exact kept_indexConst
    | exact hcall _ (fun h => Call.noConfusion h) trivial
    | exact hcall _ (fun h => Call.noConfusion h) ‹ParsedParams env w _›

omit hcall in
/-- A login mints its token by `hmint`, binds the user by `hbind` and arms the timer by
`hstart`; every other step reads or replies. -/
theorem kept_onLogin_of (hstart : Kept R (call .startTimer))
    (hmint : ∀ token u, Kept R (modify fun s => { s with kTokens := Function.update s.kTokens token (some u) }))
    (hbind : ∀ u, Kept R (modifyConn fun c => { c with user := some u })) (a : Bytes) (j : Json) :
    Kept R (onLogin env w a j) := by
  unfold onLogin streamCatalog publishMarketdata algoDef
  with_reducible repeat' first
    | refine kept_bind ?_ fun _ => ?_ | refine kept_ite ?_ ?_ | split | refine kept_forM fun _ _ => ?_
    | exact kept_getString | exact kept_getInt64 | exact kept_indexConst | exact kept_get | exact kept_pure _
    | exact hsend _ (Frame.isMd_string_cons _ (by decide)) | exact hstart | exact hmint _ _ | exact hbind _

/-- The dispatcher keeps what its handlers keep: those that only read, reply and call by the
lemmas above, the request `position` forwards by `hfwd`, and the four that write the
connection by a hypothesis for their own action. -/
theorem kept_dispatch_of_handlers (u : User) (a : Bytes) (j : Json) (hfwd : Kept R (send env j))
    (hpnl : a = utf8 "pnl" → Kept R (onPnl env w u j)) (halgo : a = utf8 "algo" → Kept R (onAlgo env w u j))
    (hsub : a = utf8 "sub" → Kept R (onSub env w j)) (hunsub : a = utf8 "unsub" → Kept R (onUnsub env j)) :
    Kept R (dispatch env w u a j) := by
  have ⟨hfile, hdelete, hsave⟩ := kept_fileActions_of (w := w) hsend hcall j
  unfold dispatch
  exact kept_ite_of (fun h => h ▸ kept_onLogin_validate_of hsend j) fun _ =>
    kept_ite (kept_onBod_of hsend u) <| kept_ite (kept_onReconnect_of hcall j) <|
    kept_ite (kept_onSecurities_of hsend u) <| kept_ite (kept_onPosition_of hsend j hfwd) <|
    kept_ite (kept_onOffline_of hsend hcall j) <| kept_ite (kept_onShutdown_of hcall u j) <|
    kept_ite (kept_onCancel_of hsend hcall j) <| kept_ite (kept_onOrder_of hsend hcall u j) <|
    kept_ite_of halgo fun _ => kept_ite_of hpnl fun _ => kept_ite_of hsub fun _ => kept_ite_of hunsub fun _ =>
    kept_ite_of (fun h => h ▸ hfile) fun _ => kept_ite_of (fun h => h ▸ hdelete) fun _ =>
    kept_ite_of (fun h => h ▸ hsave) fun _ => kept_pure _

end Walk

/-! ## `sub` and `unsub`, walked once

A relation that every write of the subscription table alone keeps is kept by the loops of
`sub` and `unsub`, and by `sub` when its `"md"` frame is. -/

section Subs

variable {R : St → St → Prop} [IsRefl St R] [IsTrans St R] {env : Env} {w : World}
  (hsubs : ∀ f : Session → Session, (∀ c, f c = { c with subs := (f c).subs }) → Kept R (modifyConn f))
include hsubs

theorem kept_unsubLoop_of (xs : List Json) : Kept R (unsubLoop env xs) := by
  induction xs with
  | nil => exact kept_pure _
  | cons x xs ih =>
    refine kept_bind kept_getInt64 fun id => kept_bind kept_get fun s => ?_
    split
    · exact kept_pure _
    · exact kept_bind (hsubs _ fun _ => rfl) fun _ => ih

/-- `sub` writes only the subscription table, and sends its `"md"` frame by `hmd`. -/
theorem kept_onSub_of (hmd : ∀ j, Kept R (send env j)) (j : Json) : Kept R (onSub env w j) := by
  unfold onSub subOne
  with_reducible repeat' first
    | refine kept_bind ?_ fun _ => ?_ | refine kept_foldlM (fun _ _ _ => ?_) _ | refine kept_ite ?_ ?_ | split
    | exact kept_getInt64 | exact kept_get | exact kept_pure _ | exact hmd _ | exact hsubs _ fun _ => rfl

end Subs

/-! ## The publisher, walked once

A relation that every send of a frame other than market data keeps, and every write of what
the publisher last reported, is kept by the market-status and PnL parts of a tick; a whole
tick also re-arms the timer, refreshes `subs_` and sends the `"md"` frame. -/

section Timer

variable {R : St → St → Prop} [IsRefl St R] [IsTrans St R] {env : Env} {w : World}
  (hsend : ∀ j, (Frame.json j).isMd = false → Kept R (send env j))
  (hconn : ∀ f : Session → Session, (∀ c, Session.OnlyReported c (f c)) → Kept R (modifyConn f))
include hsend hconn

theorem kept_publishMarketStatus_of : Kept R (publishMarketStatus env w) := by
  unfold publishMarketStatus publishAdapter
  with_reducible repeat' first
    | refine kept_bind ?_ fun _ => ?_ | exact kept_get | refine kept_forM fun _ _ => ?_
    | refine kept_ite ?_ ?_ | exact kept_pure _
    | exact hconn _ fun c => Session.onlyReported_update c _ _ _ _
    | exact hsend _ (Frame.isMd_string_cons _ (by decide))

theorem kept_publishPnls_of : Kept R (publishPnls env w) := by
  unfold publishPnls publishPosition publishPnl
  with_reducible repeat' first
    | refine kept_bind ?_ fun _ => ?_ | exact kept_get | refine kept_ite ?_ ?_ | split
    | refine kept_forM fun _ _ => ?_ | exact kept_pure _ | exact kept_undefinedBehaviour
    | exact hconn _ fun c => Session.onlyReported_update c _ _ _ _
    | exact hsend _ (Frame.isMd_string_cons _ (by decide))

/-- A tick keeps what the publisher's own sends and writes keep, when the re-arming of the
timer, the refresh of `subs_` and the `"md"` frame keep it too. -/
theorem kept_onTimer_of (hmd : ∀ j, Kept R (send env j)) (hstart : Kept R (call .startTimer))
    (hrefresh : Kept R (modifyConn fun c => { c with subs := refreshSubs w.marketData.get c.subs })) :
    Kept R (onTimer env w) :=
  kept_bind (kept_bind kept_get fun _ => kept_ite (kept_pure _) hstart) fun _ =>
    kept_bind (kept_publishMarketStatus_of hsend hconn) fun _ =>
    kept_bind (kept_bind kept_get fun _ => kept_bind hrefresh fun _ => kept_ite (hmd _) (kept_pure _)) fun _ =>
    kept_publishPnls_of hsend hconn

end Timer

section Handlers

variable {env : Env} {w : World}

theorem quiet_send {j : Json} (h : (Frame.json j).isMd = false) : Kept Quiet (send env j) := kept_send_footprint h

theorem quiet_call (c : Call) : Kept Quiet (call c) := kept_call_footprint c

theorem kept_sendBod (u : User) (p : (Int × Int) × Position) : Kept Quiet (sendBod env u p) :=
  kept_ite (kept_pure _) (kept_send_footprint rfl)

/-- Every action but `pnl`, `algo`, `sub` and `unsub` only reads, replies and calls, when the
request itself is not a market-data frame. -/
theorem kept_dispatch_quiet {u : User} {a : Bytes} {j : Json} (hj : (Frame.json j).isMd = false)
    (ha : a ≠ utf8 "pnl" ∧ a ≠ utf8 "algo" ∧ a ≠ utf8 "sub" ∧ a ≠ utf8 "unsub") :
    Kept Quiet (dispatch env w u a j) :=
  kept_dispatch_of_handlers (fun _ => quiet_send) (fun c _ _ => quiet_call c) u a j (quiet_send hj)
    (absurd · ha.1) (absurd · ha.2.1) (absurd · ha.2.2.1) (absurd · ha.2.2.2)

/-- The loop of `pnl` only reads and calls, and sends PnL histories. -/
theorem kept_pnlHistory (u : User) (j : Json) : Kept (Footprint Eq Frame.Plain) (pnlHistory env w u j) := by
  unfold pnlHistory sendPnlHistory
  with_reducible repeat' first
    | refine kept_bind ?_ fun _ => ?_
    | exact kept_getInt64 | exact kept_index | exact kept_call_footprint _
    | exact kept_send_footprint ⟨Frame.isMd_string_cons _ (by decide), Frame.isError_string_cons _ (by decide)⟩
    | refine kept_ite ?_ ?_ | refine kept_forM fun _ _ => ?_ | exact kept_pure _

/-- `pnl` writes `sub_pnl_` and nothing else of the connection. -/
theorem kept_onPnl (u : User) (j : Json) :
    Kept (Footprint Session.OnlySubPnl Frame.NotMd) (onPnl env w u j) :=
  kept_bind ((kept_pnlHistory u j).mono fun _ _ => Footprint.mono (fun _ _ h => by rw [← h]; rfl) fun _ h => h.1)
    fun _ => kept_modifyConn_footprint fun c => Session.onlySubPnl_update c _

/-- `algo` writes `test_algo_tokens_` and nothing else of the connection. -/
theorem kept_onAlgo (u : User) (j : Json) :
    Kept (Footprint Session.OnlyTestTokens Frame.NotMd) (onAlgo env w u j) :=
  kept_onAlgo_of (fun _ h => kept_send_footprint h) (fun c _ _ => kept_call_footprint c) u j
    fun _ _ _ _ _ _ => kept_modifyConn_footprint fun c => Session.onlyTestTokens_update c _

theorem kept_sendConfirmationPtr (cm : Confirmation) : Kept Quiet (sendConfirmationPtr env cm) :=
  (kept_pushes_of fun _ => quiet_send).1 cm

theorem kept_sendAlgo (now : Int) (a : AlgoEvent) : Kept Quiet (sendAlgo env now a) :=
  (kept_pushes_of fun _ => quiet_send).2.1 now a

end Handlers

end OpenTrade
