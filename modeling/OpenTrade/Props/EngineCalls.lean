import OpenTrade.Props.Authentication
import OpenTrade.Props.ParamEncoding
import OpenTrade.Props.AlgoOwnership

/-!
# What the engines are handed

Every call a connection makes into an engine carries what its handler checked first
(`Call.Checked`). `OnAlgo` hands the algorithm engine, at a `new` and at a `modify`, only a
parameter map that `ParseParams` returned; so every security tuple that reaches it, a value or
an element of a vector, has a positive quantity and a side, a security and a sub-account that
the reference data gave. Whether the user owns the sub-account is another matter: only a
top-level tuple of a `new` is checked. `OnOrder` places an order only on a sub-account, a
security and a side the reference data gave, and a stop or stop-limit order only with a
positive stop price; the quantity it does not check. Otherwise it places nothing and replies
with one frame `["error", "order", field, text]`. Both hold at every step of the server, on
whichever connection, against the world of the event that makes the call.

## Implementation notes

`CallsWithin P` says that every call a handler adds satisfies `P`. The handler walks of
`Footprint` give it for `P := Call.Checked env w` at once, and `Process.step_checked` lifts it
to a step of the process. `OrderReply` is not transitive, so `OnOrder`'s reply is walked with
`kept_eq_bind`: every step before the last only reads.
-/

namespace OpenTrade

/-- The parameter map a call hands to the algorithm engine. -/
abbrev Call.params : Call → Option ParamMap
  | .spawn params .. => params
  | .modifyToken _ params | .modifyId _ params => some params
  | _ => none

/-- Every security tuple of the call's parameter map is tradable. -/
def Call.TradableParams (env : Env) (w : World) (c : Call) : Prop :=
  ∀ m, c.params = some m → ∀ q ∈ m, ∀ t ∈ q.2.tuples, t.Tradable env w

theorem ParsedParams.tradable {env : Env} {w : World} {m : ParamMap} (h : ParsedParams env w m) :
    ∀ q ∈ m, ∀ t ∈ q.2.tuples, t.Tradable env w :=
  let ⟨x, s, s', hp⟩ := h; parsed_tuples_tradable env w x s m s' hp

theorem Call.tradableParams_of_checked {env : Env} {w : World} (c : Call) (h : c.Checked env w) :
    c.TradableParams env w := by
  intro m hm
  cases c with
  | spawn => exact (h m hm).tradable
  | modifyToken _ params | modifyId _ params => exact (Option.some.inj hm ▸ h : ParsedParams env w m).tradable
  | _ => nomatch hm

/-- Every call the handler adds satisfies `P`. -/
def CallsWithin (P : Call → Prop) (s s' : St) : Prop := ∃ cs, s'.calls = s.calls ++ cs ∧ ∀ c ∈ cs, P c

/-- A step that leaves the calls as they were adds none. -/
theorem CallsWithin.of_calls_eq {P : Call → Prop} {s s' : St} (h : s'.calls = s.calls) : CallsWithin P s s' :=
  ⟨[], by rw [h, List.append_nil], fun c hc => absurd hc (List.not_mem_nil c)⟩

instance {P : Call → Prop} : IsRefl St (CallsWithin P) := ⟨fun _ => CallsWithin.of_calls_eq rfl⟩

instance {P : Call → Prop} : IsTrans St (CallsWithin P) :=
  ⟨fun _ _ _ ⟨cs, h, hc⟩ ⟨cs', h', hc'⟩ => ⟨cs ++ cs', by rw [h', h, List.append_assoc],
    fun c hm => (List.mem_append.mp hm).elim (hc c) (hc' c)⟩⟩

section Primitives

variable {P : Call → Prop} {env : Env}

theorem callsWithin_send (j : Json) : Kept (CallsWithin P) (send env j) :=
  kept_send fun _ _ => CallsWithin.of_calls_eq rfl

theorem callsWithin_emit (f : Frame) : Kept (CallsWithin P) (emit f) := kept_emit fun _ _ => CallsWithin.of_calls_eq rfl

theorem callsWithin_call {c : Call} (h : P c) : Kept (CallsWithin P) (call c) :=
  kept_call fun _ => ⟨[c], rfl, fun _ hc => List.mem_singleton.mp hc ▸ h⟩

theorem callsWithin_modifyConn (f : Session → Session) : Kept (CallsWithin P) (modifyConn f) :=
  kept_modifyConn fun _ => CallsWithin.of_calls_eq rfl

theorem callsWithin_modify {f : St → St} (h : ∀ s, (f s).calls = s.calls) : Kept (CallsWithin P) (modify f) :=
  kept_modify fun s => CallsWithin.of_calls_eq (h s)

end Primitives

/-! ## The handlers -/

section Handlers

variable {env : Env} {w : World}

/-- Past the gate, every handler calls the engines only with what it checked. -/
theorem callsWithin_dispatch (u : User) (a : Bytes) (j : Json) :
    Kept (CallsWithin (Call.Checked env w)) (dispatch env w u a j) :=
  have hcall : ∀ c : Call, c ≠ .startTimer → c.Checked env w →
      Kept (CallsWithin (Call.Checked env w)) (call c) :=
    fun _ _ => callsWithin_call
  kept_dispatch_of_handlers (fun j _ => callsWithin_send j) hcall u a j (callsWithin_send j)
    (fun _ => kept_bind (kept_pnlHistory_of (fun j _ => callsWithin_send j) hcall u j) fun _ =>
      callsWithin_modifyConn _)
    (fun _ => kept_onAlgo_of (fun j _ => callsWithin_send j) hcall u j fun _ _ _ _ _ _ => callsWithin_modifyConn _)
    (fun _ => kept_onSub_of (fun _ _ => callsWithin_modifyConn _) callsWithin_send j)
    (fun _ => kept_unsubLoop_of (fun _ _ => callsWithin_modifyConn _) _)

/-- A login calls the engines only to arm the timer. -/
theorem callsWithin_onLogin (a : Bytes) (j : Json) : Kept (CallsWithin (Call.Checked env w)) (onLogin env w a j) :=
  kept_onLogin_of (fun j _ => callsWithin_send j) (callsWithin_call trivial)
    (fun _ _ => callsWithin_modify fun _ => rfl) (fun _ => callsWithin_modifyConn _) a j

theorem callsWithin_onMessageSync (msg token : Bytes) :
    Kept (CallsWithin (Call.Checked env w)) (onMessageSync env w msg token) := by
  have hb : Kept (CallsWithin (Call.Checked env w)) (onMessageBody env w msg token) := by
    unfold onMessageBody onAction
    with_reducible repeat' first
      | refine kept_bind ?_ fun _ => ?_ | refine kept_ite ?_ ?_ | split | (beta_reduce; split)
      | exact kept_get | exact kept_pure _ | exact kept_index | exact kept_getString | exact kept_throwExn _
      | exact callsWithin_emit _ | exact callsWithin_send _ | exact callsWithin_modifyConn _
      | exact callsWithin_dispatch _ _ _ | exact callsWithin_onLogin _ _
  exact fun s => onMessageSync_rel (hb s) fun _ => callsWithin_send _

/-- Every event calls the engines only with what its handler checked. -/
theorem callsWithin_handle (e : Event) : Kept (CallsWithin (Call.Checked env w)) (e.handle env w) := by
  obtain ⟨hc, ha, hm⟩ :=
    kept_pushes_of (fun j _ => (callsWithin_send j : Kept (CallsWithin (Call.Checked env w)) _))
  cases e with
  | message msg token => exact callsWithin_onMessageSync msg token
  | tick =>
    exact kept_onTimer_of (fun j _ => callsWithin_send j) (fun _ _ => callsWithin_modifyConn _) callsWithin_send
      (callsWithin_call trivial) (callsWithin_modifyConn _)
  | confirmation cm => exact hc cm
  | algo a => exact ha _ a
  | testMsg t m stopped => exact hm t m stopped

end Handlers

/-! ## The reply of `OnOrder` -/

/-- What one `OnOrder` leaves: the state as it was (a getter threw, the reply could not be
dumped, or the connection is closed), one checked order placed for the user and nothing sent,
or nothing placed and one frame `["error", "order", field, text]` sent. -/
def OrderReply (w : World) (u : User) (s s' : St) : Prop :=
  s' = s ∨ (∃ c : Contract, c.Checked w ∧ s' = { s with calls := s.calls ++ [.place c u.id] }) ∨
    ∃ field text : Bytes, s' = { s with out := s.out ++ [.json (.array ["error", "order", .string field, .string text])] }

section OrderReply

variable {w : World} {u : User}

instance : IsRefl St (OrderReply w u) := ⟨fun _ => .inl rfl⟩

theorem OrderReply.placed {c : Contract} (hc : c.Checked w) (s : St) :
    OrderReply w u s { s with calls := s.calls ++ [.place c u.id] } :=
  .inr (.inl ⟨c, hc, rfl⟩)

theorem OrderReply.replied (field text : Bytes) (s : St) :
    OrderReply w u s { s with out := s.out ++ [.json (.array ["error", "order", .string field, .string text])] } :=
  .inr (.inr ⟨field, text, rfl⟩)

end OrderReply

theorem orderReply_onOrder (env : Env) (w : World) (u : User) (j : Json) : Kept (OrderReply w u) (onOrder env w u j) := by
  unfold onOrder literalOffset
  with_reducible repeat' first
    | refine kept_eq_bind ?_ fun _ => ?_ | refine kept_ite_of (fun _ => ?_) fun _ => ?_ | split
    | exact kept_getInt64 | exact kept_getString | exact kept_getNum | exact kept_indexConst
    | exact kept_pure _ | exact kept_undefinedBehaviour
    | exact kept_call (OrderReply.placed (Contract.checked_mk ‹_› ‹_› ‹_› ‹_› _ _ _))
    | exact kept_send fun s _ => OrderReply.replied _ _ s

/-! ## Steps of the process -/

section Process

variable {env : Nat → Env} {p p' : Process}

theorem Process.step_checked {i : Nat} {w : World} {e : Event} (h : p.step (env i) i w e = some p') :
    ∃ cs, p'.calls = p.calls ++ cs ∧ ∀ c ∈ cs, c.Checked (env i) w := by
  rw [Process.step_eq h]
  exact callsWithin_handle e (p.view i)

/-- At every step of the process, on whichever connection, every parameter map the step hands
the algorithm engine, at a `new` or a `modify`, holds only security tuples with a positive
quantity and a side, a security and a sub-account that the reference data gave, as it stands
at that step's event. -/
theorem engine_params_tradable (env : Nat → Env) (p p' : Process) (i : Nat) (w : World) (e : Event)
    (h : p.step (env i) i w e = some p') : ∃ cs, p'.calls = p.calls ++ cs ∧ ∀ c ∈ cs, c.TradableParams (env i) w :=
  let ⟨cs, hcs, hck⟩ := Process.step_checked h
  ⟨cs, hcs, fun c hc => c.tradableParams_of_checked (hck c hc)⟩

/-- `["algo","new","TWAP","tok",{"p":{"acc":"A","qty":1,"sec":42,"side":"buy"}}]`: a tuple on
the sub-account `A` of `alice`. -/
def aliceNewRequest : Bytes :=
  utf8 "[\"algo\",\"new\",\"TWAP\",\"tok\",\x7b\"p\":\x7b\"acc\":\"A\",\"qty\":1,\"sec\":42,\"side\":\"buy\"\x7d\x7d]"

/-- After `alice`'s login, the step of connection 0 that starts `TWAP`. -/
theorem aliceAlgoStep_isSome :
    (aliceProcess.step (plainEnvs 0) 0 algoWorld (.message aliceNewRequest [])).isSome = true := by decide

/-- The tuple of `aliceNewRequest`. -/
def aliceTuple : SecurityTuple := ⟨[], some (plainSecurity 42), some ⟨1, utf8 "A"⟩, some .buy, 1⟩

/-- The spawn of `TWAP` that the step makes. -/
def aliceSpawn : Call :=
  .spawn (some [(utf8 "p", .scalar (.securityTuple aliceTuple))]) (utf8 "TWAP") 1
    (utf8 "\x7b\"p\":\x7b\"acc\":\"A\",\"qty\":1,\"sec\":42,\"side\":\"buy\"\x7d\x7d") (utf8 "tok")

/-- The tuple `alice` hands the algorithm engine is tradable in the world of the request. -/
theorem alice_spawn_tradable : aliceSpawn.TradableParams (plainEnvs 0) algoWorld := by
  obtain ⟨cs, hcs, hck⟩ := engine_params_tradable plainEnvs aliceProcess _ 0 algoWorld _
    (Option.some_get aliceAlgoStep_isSome).symm
  have h : [Call.startTimer] ++ [aliceSpawn] = [Call.startTimer] ++ cs := hcs
  exact hck _ (List.append_cancel_left h ▸ List.mem_singleton_self _)

/-- `["order",42,"A","buy","stop","GTC",1,10,9]`: a stop order on the sub-account `A`. -/
def aliceOrderRequest : Bytes := utf8 "[\"order\",42,\"A\",\"buy\",\"stop\",\"GTC\",1,10,9]"

/-- After `alice`'s login, the step of connection 0 that places the stop order. -/
theorem aliceOrderStep_isSome :
    (aliceProcess.step (plainEnvs 0) 0 algoWorld (.message aliceOrderRequest [])).isSome = true := by decide

/-- The contract the step places. -/
def aliceStopOrder : Contract :=
  { secId := 42, subAccountId := 1, side := .buy, «type» := .stop, tif := .goodTillCancel, qty := 1, price := 10,
    stopPrice := 9 }

end Process

end OpenTrade
