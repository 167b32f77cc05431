import OpenTrade.Props.Authentication

/-!
# The pushes reach only their owners

The order book, the algorithm engine and an algorithm under test push to every connection,
and each push checks the connection first. `Send(Confirmation::Ptr)` goes on only when the
connection's user owns the order's sub-account, `Send(const Algo&, ...)` only when the user
is the algorithm's, and `SendTestMsg` only under a token of the connection's
`test_algo_tokens_`, which `OnAlgo` fills only from a request
`["algo", "test", name, token, ...]` of the connection's own client. So over any interleaving
of the server's connections, each push reaches a connection only on behalf of a user some
login of the run accepted, or of a test the connection itself started.

## Implementation notes

`TokensWithin A` says where the test tokens a handler ends with come from: those it started
with, or a token satisfying `A`. The handler walks of `Footprint` give it for every handler
but `algo`; there `Returns` ties the recorded token to the request the dispatcher read.
-/

namespace OpenTrade

/-- The token a request `["algo", "test", name, token, ...]` asks to record, when it is not
empty. -/
def Json.testToken : Json → Option Bytes
  | .array (.string a :: .string b :: .string _ :: .string t :: _) =>
    if a = utf8 "algo" ∧ b = utf8 "test" ∧ t ≠ [] then some t else none
  | _ => none

theorem Json.testToken_algoTest (name t : Bytes) (more : List Json) (ht : t ≠ []) :
    (Json.array (.string (utf8 "algo") :: .string (utf8 "test") :: .string name :: .string t :: more)).testToken =
      some t :=
  if_pos ⟨rfl, rfl, ht⟩

/-- The test token a raw message asks to record. -/
def requestTestToken (msg : Bytes) : Option Bytes :=
  match Json.parse msg with
  | .ok j => j.testToken
  | .error _ => none

/-- The test token an event asks to record: only a message can. -/
def Event.testToken : Event → Option Bytes
  | .message msg _ => requestTestToken msg
  | _ => none

/-- Every test token at the end was there at the start, or satisfies `A`. -/
def TokensWithin (A : Bytes → Prop) (s s' : St) : Prop :=
  ∀ t ∈ s'.conn.testAlgoTokens, t ∈ s.conn.testAlgoTokens ∨ A t

instance {A : Bytes → Prop} : IsRefl St (TokensWithin A) := ⟨fun _ _ h => .inl h⟩

instance {A : Bytes → Prop} : IsTrans St (TokensWithin A) :=
  ⟨fun _ _ _ h h' t ht => (h' t ht).elim (h t) .inr⟩

theorem TokensWithin.mono {A B : Bytes → Prop} (hAB : ∀ t, A t → B t) {s s' : St} (h : TokensWithin A s s') :
    TokensWithin B s s' :=
  fun t ht => (h t ht).imp_right (hAB t)

section Primitives

variable {A : Bytes → Prop} {env : Env}

theorem tokensWithin_send (j : Json) : Kept (TokensWithin A) (send env j) := kept_send fun _ _ _ h => .inl h

theorem tokensWithin_call (c : Call) : Kept (TokensWithin A) (call c) := kept_call fun _ _ h => .inl h

theorem tokensWithin_modifyConn {f : Session → Session} (h : ∀ c, (f c).testAlgoTokens = c.testAlgoTokens) :
    Kept (TokensWithin A) (modifyConn f) :=
  kept_modifyConn fun s _ ht => .inl (h s.conn ▸ ht)

theorem tokensWithin_modify {f : St → St} (h : ∀ s, (f s).conn = s.conn) : Kept (TokensWithin A) (modify f) :=
  kept_modify fun s _ ht => .inl (h s ▸ ht)

theorem tokensWithin_subs {f : Session → Session} (h : ∀ c, f c = { c with subs := (f c).subs }) :
    Kept (TokensWithin A) (modifyConn f) :=
  tokensWithin_modifyConn fun c => by rw [h c]

/-- Recording a token that `A` accounts for. -/
theorem tokensWithin_insert {t : Bytes} (h : A t) :
    Kept (TokensWithin A) (modifyConn fun c => { c with testAlgoTokens := c.testAlgoTokens.insert t }) :=
  kept_modifyConn fun _ _ ht => (List.mem_insert_iff.mp ht).elim (fun e => .inr (e ▸ h)) .inl

end Primitives

/-! ## The handlers -/

section Handlers

variable {env : Env} {w : World}

/-- Past the gate, only `algo` records a token, and only the one its request names. -/
theorem tokensWithin_dispatch (u : User) (a : Bytes) (rest : List Json) :
    Kept (TokensWithin ((Json.array (.string a :: rest)).testToken = some ·))
      (dispatch env w u a (.array (.string a :: rest))) := by
  refine kept_dispatch_of_handlers (fun j _ => tokensWithin_send j) (fun c _ _ => tokensWithin_call c) u a _
    (tokensWithin_send _) (fun _ => kept_bind (kept_pnlHistory_of (fun j _ => tokensWithin_send j)
      (fun c _ _ => tokensWithin_call c) u _) fun _ => tokensWithin_modifyConn fun _ => rfl)
    (fun ha => kept_onAlgo_of (fun j _ => tokensWithin_send j) (fun c _ _ => tokensWithin_call c) u _
      fun x name t more hj ht => tokensWithin_insert ?_)
    (fun _ => kept_onSub_of (fun _ => tokensWithin_subs) tokensWithin_send _)
    (fun _ => kept_unsubLoop_of (fun _ => tokensWithin_subs) _)
  obtain ⟨rfl, rfl⟩ := List.cons.inj (Json.array.inj hj)
  subst ha
  exact Json.testToken_algoTest name t more ht

/-- The gate writes only the user, and a login records no token. -/
theorem tokensWithin_onAction (token a : Bytes) (rest : List Json) :
    Kept (TokensWithin ((Json.array (.string a :: rest)).testToken = some ·))
      (onAction env w token a (.array (.string a :: rest))) := by
  unfold onAction
  with_reducible repeat' first
    | refine kept_bind ?_ fun _ => ?_ | refine kept_ite ?_ ?_ | split | (beta_reduce; split)
    | exact kept_get | exact kept_pure _ | exact tokensWithin_send _ | exact tokensWithin_modifyConn fun _ => rfl
    | exact tokensWithin_dispatch _ _ _
    | exact kept_onLogin_of (fun j _ => tokensWithin_send j) (tokensWithin_call _)
        (fun _ _ => tokensWithin_modify fun _ => rfl) (fun _ => tokensWithin_modifyConn fun _ => rfl) _ _

/-- A message records only the token its own request names. -/
theorem tokensWithin_onMessageBody (msg token : Bytes) :
    Kept (TokensWithin (requestTestToken msg = some ·)) (onMessageBody env w msg token) := by
  intro s
  by_cases hh : msg = utf8 "h"
  · subst hh
    exact kept_emit (fun _ _ _ ht => .inl ht) s
  cases hr : requestAction msg with
  | none =>
    have ⟨e, hb⟩ : ∃ e, onMessageBody env w msg token s = .error (.throw e) s :=
      onMessageBody_throw_of_no_action s hh hr
    rw [hb]
    exact refl s
  | some a =>
    obtain ⟨rest, hp⟩ := parse_of_requestAction hr
    rw [onMessageBody_of_parse hp]
    refine TokensWithin.mono (fun t ht => ?_) (tokensWithin_onAction token a rest s)
    rwa [requestTestToken, hp]

/-- Every event records only the token its own request names: a tick, a push of the order
book or of the algorithm engine, and a test message record none. -/
theorem tokensWithin_handle (e : Event) : Kept (TokensWithin (e.testToken = some ·)) (e.handle env w) := by
  obtain ⟨hc, ha, hm⟩ :=
    kept_pushes_of (fun j _ => (tokensWithin_send j : Kept (TokensWithin (e.testToken = some ·)) _))
  cases e with
  | message msg token =>
    exact fun s => onMessageSync_rel (tokensWithin_onMessageBody msg token s) fun _ => tokensWithin_send _
  | tick =>
    exact kept_onTimer_of (fun j _ => tokensWithin_send j) (fun _ h => tokensWithin_modifyConn fun c => by rw [h c])
      tokensWithin_send
      (tokensWithin_call _) (tokensWithin_modifyConn fun _ => rfl)
  | confirmation cm => exact hc cm
  | algo a => exact ha _ a
  | testMsg t m stopped => exact hm t m stopped

/-- A test message changes what the connection sent only under one of its test tokens. -/
theorem mem_testAlgoTokens_of_sendTestMsg {t m : Bytes} {stopped : Bool} {s : St}
    (h : (M.final (sendTestMsg env t m stopped s)).out ≠ s.out) : t ∈ s.conn.testAlgoTokens := by
  by_contra ht
  refine h ?_
  unfold sendTestMsg
  rw [M.bind_of_ok (show (get : M St) s = .ok s s from rfl), if_pos (Or.inr ht)]
  rfl

end Handlers

/-- A confirmation changes what the connection sent only when its user owns the order's
sub-account. -/
theorem owns_of_sendConfirmationPtr {cm : Confirmation} {s : St}
    (h : (M.final (sendConfirmationPtr env cm s)).out ≠ s.out) :
    ∃ u, s.conn.user = some u ∧ u.owns cm.order.subAccountId := by
  by_contra hn
  refine h ?_
  unfold sendConfirmationPtr
  rw [M.bind_of_ok (show (get : M St) s = .ok s s from rfl)]
  by_cases hc : s.conn.closed = true
  · rw [if_pos hc]
    rfl
  · rw [if_neg hc]
    cases hu : s.conn.user with
    | none => rfl
    | some u =>
      show (M.final ((if u.owns cm.order.subAccountId then _ else pure () : M Unit) s)).out = s.out
      rw [if_neg fun ho => hn ⟨u, hu, ho⟩]
      rfl

/-- An algorithm event changes what the connection sent only when its user is the
algorithm's. -/
theorem user_of_sendAlgo {now : Int} {a : AlgoEvent} {s : St} (h : (M.final (sendAlgo env now a s)).out ≠ s.out) :
    ∃ u, s.conn.user = some u ∧ u.id = a.userId := by
  by_contra hn
  refine h ?_
  unfold sendAlgo
  rw [M.bind_of_ok (show (get : M St) s = .ok s s from rfl)]
  by_cases hc : s.conn.closed = true
  · rw [if_pos hc]
    rfl
  · rw [if_neg hc]
    cases hu : s.conn.user with
    | none => rfl
    | some u =>
      show (M.final ((if u.id = a.userId then _ else pure () : M Unit) s)).out = s.out
      rw [if_neg fun ho => hn ⟨u, hu, ho⟩]
      rfl

/-! ## Runs of the process -/

section Process

variable {env : Nat → Env} {p p' : Process}

theorem Process.out_step {i : Nat} {w : World} {e : Event} (h : p.step (env i) i w e = some p') :
    p'.out i = (M.final (e.handle (env i) w (p.view i))).out := by
  rw [Process.step_eq h]
  exact Function.update_same _ _ _

/-- After one event of connection `i`, a test token of connection `j` was there before, or the
event is `j`'s own and asked to record it. -/
theorem Process.step_testTokens {i j : Nat} {w : World} {e : Event} {t : Bytes} (h : p.step (env i) i w e = some p')
    (ht : t ∈ (p'.conns j).testAlgoTokens) : t ∈ (p.conns j).testAlgoTokens ∨ j = i ∧ e.testToken = some t := by
  by_cases hj : j = i
  · subst hj
    rw [Process.step_eq h, Process.commit_conns, if_pos rfl] at ht
    exact (tokensWithin_handle e (p.view j) t ht).imp_right fun he => ⟨rfl, he⟩
  · rw [Process.step_other hj h] at ht
    exact .inl ht

/-- Over any interleaving, a test token a connection gained was asked for by an event of that
connection. -/
theorem Process.testTokens_run {evs : List (Nat × World × Event)} (h : p.run env evs = some p') {i : Nat}
    {t : Bytes} (ht : t ∈ (p'.conns i).testAlgoTokens) :
    t ∈ (p.conns i).testAlgoTokens ∨ ∃ w e, (i, w, e) ∈ evs ∧ e.testToken = some t := by
  refine Process.run_rec (P := fun p evs p' => t ∈ (p'.conns i).testAlgoTokens →
      t ∈ (p.conns i).testAlgoTokens ∨ ∃ w e, (i, w, e) ∈ evs ∧ e.testToken = some t) (fun _ => .inl)
    (fun p _ _ j w e _ hs ih ht => ?_) h ht
  rcases ih ht with h1 | ⟨w', e', hm, he⟩
  · rcases Process.step_testTokens hs h1 with h2 | ⟨rfl, he⟩
    · exact .inl h2
    · exact .inr ⟨w, e, List.mem_cons_self _ _, he⟩
  · exact .inr ⟨w', e', List.mem_cons_of_mem _ hm, he⟩

/-- `SendTestMsg` reaches a connection only under a token that its own client named in an
earlier request `["algo", "test", name, token, ...]`. From the start of the process, over any
interleaving of the connections' events, a test message that changes what connection `i` has
sent was preceded by such a request on connection `i`, whatever the other connections asked
for. -/
theorem test_output_needs_own_request {evs : List (Nat × World × Event)} {i : Nat} {w : World} {t m : Bytes}
    {stopped : Bool} (hrun : Process.init.run env evs = some p)
    (hstep : p.step (env i) i w (.testMsg t m stopped) = some p') (hout : p'.out i ≠ p.out i) :
    ∃ w' msg tok, (i, w', .message msg tok) ∈ evs ∧ requestTestToken msg = some t := by
  have hsent : (M.final (sendTestMsg (env i) t m stopped (p.view i))).out ≠ (p.view i).out :=
    (Process.out_step hstep).symm.trans_ne hout
  rcases Process.testTokens_run hrun (mem_testAlgoTokens_of_sendTestMsg hsent) with h0 | ⟨w', e, hm, he⟩
  · exact absurd h0 (List.not_mem_nil t)
  · cases e with
    | message msg tok => exact ⟨w', msg, tok, hm, he⟩
    | _ => cases he

/-- `["algo","test","demo","T",null]`: a test of `demo` under the token `T`. -/
def aliceTestRequest : Bytes := utf8 "[\"algo\",\"test\",\"demo\",\"T\",null]"

/-- `alice` logs in on connection 0 and starts a test there. -/
def aliceTestRun : List (Nat × World × Event) := aliceRun ++ [(0, loginWorld, .message aliceTestRequest [])]

theorem aliceTestRun_isSome : (Process.init.run plainEnvs aliceTestRun).isSome = true := by decide

/-- The process after `aliceTestRun`. -/
def aliceTestProcess : Process := (Process.init.run plainEnvs aliceTestRun).get aliceTestRun_isSome

theorem aliceTest_output_isSome :
    (aliceTestProcess.step plainEnv 0 loginWorld (.testMsg (utf8 "T") (utf8 "m") false)).isSome = true := by
  decide

/-- The output of the test `alice` started reaches connection 0, which asked for it. -/
theorem alice_test_output_asked :
    ∃ w' msg tok, (0, w', .message msg tok) ∈ aliceTestRun ∧ requestTestToken msg = some (utf8 "T") :=
  test_output_needs_own_request (Option.some_get aliceTestRun_isSome).symm
    (Option.some_get aliceTest_output_isSome).symm
    fun h => absurd (congrArg List.length h) (by decide)

/-- Invariant 5 of the specification, over the whole process: from its start, over any
interleaving of the connections' events, a confirmation the order book pushes changes what
connection `i` has sent only when the connection is bound to a user who owns the order's
sub-account, and an algorithm event only when it is bound to the algorithm's user; that user
was accepted by a login of the run. -/
theorem pushes_reach_owners {evs : List (Nat × World × Event)} (hrun : Process.init.run env evs = some p)
    (i : Nat) (w : World) :
    (∀ cm p', p.step (env i) i w (.confirmation cm) = some p' → p'.out i ≠ p.out i →
      ∃ u, (p.conns i).user = some u ∧ u.owns cm.order.subAccountId ∧ ∃ ev ∈ evs, Accepts env u ev) ∧
    (∀ a p', p.step (env i) i w (.algo a) = some p' → p'.out i ≠ p.out i →
      ∃ u, (p.conns i).user = some u ∧ u.id = a.userId ∧ ∃ ev ∈ evs, Accepts env u ev) := by
  have hv := Vouched.of_run hrun
  refine ⟨fun cm _ hs ho => ?_, fun a _ hs ho => ?_⟩
  · obtain ⟨u, hu, hown⟩ := owns_of_sendConfirmationPtr ((Process.out_step hs).symm.trans_ne ho)
    exact ⟨u, hu, hown, hv.conns i u hu⟩
  · obtain ⟨u, hu, hid⟩ := user_of_sendAlgo ((Process.out_step hs).symm.trans_ne ho)
    exact ⟨u, hu, hid, hv.conns i u hu⟩

/-- A `new` confirmation of an order on sub-account 1, which `alice` owns. -/
def aliceConfirmation : Confirmation :=
  ⟨⟨1, 7, 0, 1, 1, 0, 1, 10, .buy, .limit, .day, 0⟩, .new, 0, 1, utf8 "A1", [], 0, 0, [], .new⟩

theorem aliceConfirmation_isSome :
    (aliceProcess.step (plainEnvs 0) 0 loginWorld (.confirmation aliceConfirmation)).isSome = true := by
  decide

/-- The confirmation reaches connection 0 on behalf of the login of `alice`, who owns the
order's sub-account. -/
theorem alice_confirmation_owned :
    ∃ u, (aliceProcess.conns 0).user = some u ∧ u.owns 1 ∧ ∃ ev ∈ aliceRun, Accepts plainEnvs u ev :=
  (pushes_reach_owners aliceProcess_eq 0 loginWorld).1 aliceConfirmation _
    (Option.some_get aliceConfirmation_isSome).symm fun h => absurd (congrArg List.length h) (by decide)

end Process

end OpenTrade
