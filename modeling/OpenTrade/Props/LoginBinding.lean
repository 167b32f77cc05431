import OpenTrade.Props.ErrorReplies
import OpenTrade.Props.MarketDataView

/-!
# A stateful session binds its user once

On a stateful transport every message carries the empty token, and no key of `kTokens` is
empty: the keys are the strings of generated UUIDs. So the login gate never finds a user,
and `user_` is written only by `OnLogin`: at the first `login` with good credentials it
becomes that user and `PublishMarketdata` arms the timer, and no later event changes it.

## Implementation notes

The reply of a successful login is sent before the user is bound, and `dump` throws on a
session name or securities check sum that is not UTF-8: such a login mints a token and
leaves the session unbound. `KeepsLogin` is what every handler but `OnLogin` keeps: the
handler walks of `Footprint` give it for every relation that sends, calls other than the
timer, and writes of the connection that keep its user leave alone.
-/

namespace OpenTrade

/-- `PublishMarketdata` arming the timer. -/
def Call.isStartTimer : Call → Bool
  | .startTimer => true
  | _ => false

@[simp] theorem Call.isStartTimer_startTimer : Call.startTimer.isStartTimer = true := rfl

theorem Call.isStartTimer_of_ne {c : Call} (h : c ≠ .startTimer) : c.isStartTimer = false := by
  cases c <;> first | rfl | exact absurd rfl h

/-- How many of the calls arm the timer. -/
def timerStarts (cs : List Call) : Nat := cs.countP Call.isStartTimer

@[simp] theorem timerStarts_nil : timerStarts [] = 0 := rfl

@[simp] theorem timerStarts_append (cs cs' : List Call) :
    timerStarts (cs ++ cs') = timerStarts cs + timerStarts cs' :=
  List.countP_append _ _ _

@[simp] theorem timerStarts_singleton (c : Call) : timerStarts [c] = if c.isStartTimer then 1 else 0 := by
  cases h : c.isStartTimer <;> simp [timerStarts, h]

/-- The login state is left alone: the same user, the same entry of the token table under the
empty token, the connection as open as it was, and no timer armed. -/
def KeepsLogin (s s' : St) : Prop :=
  s'.conn.user = s.conn.user ∧ s'.kTokens [] = s.kTokens [] ∧ s'.conn.closed = s.conn.closed ∧
    ∃ cs, s'.calls = s.calls ++ cs ∧ timerStarts cs = 0

instance : IsRefl St KeepsLogin := ⟨fun _ => ⟨rfl, rfl, rfl, [], by simp⟩⟩

instance : IsTrans St KeepsLogin :=
  ⟨fun _ _ _ ⟨hu, hk, hc, cs, hs, ht⟩ ⟨hu', hk', hc', cs', hs', ht'⟩ =>
    ⟨hu'.trans hu, hk'.trans hk, hc'.trans hc, cs ++ cs', by rw [hs', hs, List.append_assoc], by simp [ht, ht']⟩⟩

/-! ## The handlers that do not log in -/

section Walk

variable {R : St → St → Prop} [IsRefl St R] [IsTrans St R] {env : Env} {w : World}
  (hsend : ∀ j, Kept R (send env j)) (hcall : ∀ c : Call, c.isStartTimer = false → Kept R (call c))
  (hconn : ∀ f : Session → Session, (∀ c, (f c).user = c.user ∧ (f c).closed = c.closed) → Kept R (modifyConn f))
include hsend

/-- The catalog a login streams is only sent. -/
theorem kept_streamCatalog_of (u : User) : Kept R (streamCatalog env w u) := by
  unfold streamCatalog
  with_reducible repeat' first
    | refine kept_bind ?_ fun _ => ?_ | refine kept_ite ?_ ?_ | refine kept_forM fun _ _ => ?_
    | exact kept_pure _ | exact hsend _

include hcall hconn

/-- Every action past the gate keeps what sends, calls other than the timer and writes that
keep the user keep: `validate_user` only replies. -/
theorem kept_dispatch_of (u : User) (a : Bytes) (j : Json) : Kept R (dispatch env w u a j) :=
  have hsend' : ∀ j, (Frame.json j).isMd = false → Kept R (send env j) := fun j _ => hsend j
  have hcall' : ∀ c : Call, c ≠ .startTimer → c.Checked env w → Kept R (call c) :=
    fun c hc _ => hcall c (Call.isStartTimer_of_ne hc)
  have hsubs : ∀ f : Session → Session, (∀ c, f c = { c with subs := (f c).subs }) → Kept R (modifyConn f) :=
    fun f hf => hconn f fun c => by rw [hf c]; exact ⟨rfl, rfl⟩
  kept_dispatch_of_handlers hsend' hcall' u a j (hsend j)
    (fun _ => kept_bind (kept_pnlHistory_of hsend' hcall' u j) fun _ => hconn _ fun _ => ⟨rfl, rfl⟩)
    (fun _ => kept_onAlgo_of hsend' hcall' u j fun _ _ _ _ _ _ => hconn _ fun _ => ⟨rfl, rfl⟩)
    (fun _ => kept_onSub_of hsubs hsend j) (fun _ => kept_unsubLoop_of hsubs _)

end Walk

/-! ## Logging in -/

/-- The strings a successful login's reply carries besides its literals and its token are
UTF-8: the session name and the securities check sum. -/
def World.RepliesLogin (w : World) : Prop :=
  Json.validUtf8 w.positions.session = true ∧ Json.validUtf8 w.securities.checkSum = true

/-- The user the arguments of a `login` request log in as: a name and a password that are
strings, naming a user that exists, whose digest matches and who is not disabled. -/
def loginArgsUser (env : Env) (w : World) : List Json → Option User
  | name :: pwd :: _ => if name.isString ∧ pwd.isString then (loginState env w name.str pwd.str).2 else none
  | _ => none

/-- The user a message logs in as: a request `["login", name, password, ...]` with good
credentials. -/
def loginUser (env : Env) (w : World) (msg : Bytes) : Option User :=
  match Json.parse msg with
  | .ok (.array (.string a :: rest)) => if a = utf8 "login" then loginArgsUser env w rest else none
  | _ => none

/-- One message of a login run: the user becomes `b` when there was none, the token table keeps
its empty key, and the timer is armed exactly when the user is bound on an open connection. -/
def LoginStep (b : Option User) (s s' : St) : Prop :=
  s'.conn.user = s.conn.user.or b ∧ s'.kTokens [] = s.kTokens [] ∧
    ∃ cs, s'.calls = s.calls ++ cs ∧
      timerStarts cs = if s.conn.user = none ∧ b ≠ none ∧ s.conn.closed = false then 1 else 0

section Login

variable {env : Env} {w : World}

theorem keepsLogin_send (j : Json) : Kept KeepsLogin (send env j) :=
  kept_send fun _ _ => ⟨rfl, rfl, rfl, [], by simp⟩

theorem keepsLogin_call {c : Call} (h : c.isStartTimer = false) : Kept KeepsLogin (call c) :=
  kept_call fun _ => ⟨rfl, rfl, rfl, [c], rfl, by simp [h]⟩

theorem keepsLogin_modifyConn {f : Session → Session} (h : ∀ c, (f c).user = c.user ∧ (f c).closed = c.closed) :
    Kept KeepsLogin (modifyConn f) :=
  kept_modifyConn fun s => ⟨(h s.conn).1, rfl, (h s.conn).2, [], by simp⟩

theorem keepsLogin_dispatch (u : User) (a : Bytes) (j : Json) : Kept KeepsLogin (dispatch env w u a j) :=
  kept_dispatch_of keepsLogin_send (fun _ => keepsLogin_call) (fun _ => keepsLogin_modifyConn) u a j

theorem LoginStep.of_keepsLogin {s s' : St} (h : KeepsLogin s s') : LoginStep none s s' :=
  let ⟨hu, hk, _, cs, hs, ht⟩ := h
  ⟨by rw [hu, Option.or_none], hk, cs, hs, by simp [ht]⟩

theorem LoginStep.keepsLogin {b : Option User} {s s₁ s₂ : St} (h : LoginStep b s s₁) (h' : KeepsLogin s₁ s₂) :
    LoginStep b s s₂ :=
  let ⟨hu, hk, cs, hs, ht⟩ := h
  let ⟨hu', hk', _, cs', hs', ht'⟩ := h'
  ⟨hu'.trans hu, hk'.trans hk, cs ++ cs', by rw [hs', hs, List.append_assoc], by simp [ht, ht']⟩

theorem Uuid.toString_ascii (u : Uuid) : ∀ b ∈ u.toString, b.toNat < 0x80 := by
  have hd : ∀ n, n < 16 → (hexDigit false n).toNat < 0x80 := fun n hn => by
    unfold hexDigit
    split <;> (try simp only [Bool.false_eq_true, ↓reduceIte]) <;> rw [Json.toNat_toUInt8 (by omega)] <;> omega
  intro b hb
  simp only [Uuid.toString, List.mem_flatMap, List.mem_append, List.mem_cons, List.mem_singleton,
    List.not_mem_nil, or_false] at hb
  obtain ⟨i, -, hb⟩ := hb
  have : (u i).toNat < 256 := (u i).val.isLt
  rcases hb with hb | rfl | rfl
  · split at hb
    · rw [List.mem_singleton.1 hb]
      decide
    · cases hb
  · exact hd _ (by omega)
  · exact hd _ (by omega)

theorem Uuid.toString_ne_nil (u : Uuid) : u.toString ≠ [] := by
  simp [Uuid.toString, List.flatMap_eq_nil_iff]

theorem wellFormed_loginReply (hw : w.RepliesLogin) (u : User) (startTime : Int) :
    Json.WellFormed (.array [.string (utf8 "connection"), .string (utf8 "ok"), Json.mkObject
      [("session", .string w.positions.session), ("userId", .numberInteger u.id),
        ("startTime", .numberInteger startTime), ("sessionToken", .string w.uuid.toString),
        ("securitiesCheckSum", .string w.securities.checkSum)]]) := by
  have hv : ∀ {s : Bytes}, Json.validUtf8 s = true → Json.utf8Run .accept s = some .accept :=
    fun h => beq_iff_eq.1 h
  refine .array fun x hx => ?_
  simp only [List.mem_cons, List.mem_singleton, List.not_mem_nil, or_false] at hx
  rcases hx with rfl | rfl | rfl
  · exact .string (by decide)
  · exact .string (by decide)
  · simp only [Json.mkObject, List.foldl]
    exact Json.set_wellFormed (Json.set_wellFormed (Json.set_wellFormed (Json.set_wellFormed
        (Json.set_wellFormed (.object (by simp) (by simp)) (by decide) (.string (hv hw.1))) (by decide)
        (.numberInteger _)) (by decide) (.numberInteger _)) (by decide)
        (.string (utf8Run_ascii (Uuid.toString_ascii _)))) (by decide) (.string (hv hw.2))

theorem loginState_eq_of_snd {name pwd : Bytes} {u : User} (h : (loginState env w name pwd).2 = some u) :
    loginState env w name pwd = (utf8 "ok", some u) := by
  unfold loginState at h ⊢
  cases hg : w.accounts.getUser name with
  | none => simp [hg] at h
  | some u' =>
    simp only [hg] at h ⊢
    split_ifs at h ⊢
    all_goals simp_all

@[simp] theorem M.modify_apply (f : St → St) (s : St) : (modify f : M PUnit) s = .ok ⟨⟩ (f s) := rfl

theorem emit_eq (f : Frame) (s : St) :
    emit f s = .ok () { s with out := if s.conn.closed then s.out else s.out ++ [f] } := by
  rw [emit_apply]
  split <;> rfl

theorem publishMarketdata_eq (s : St) :
    publishMarketdata s = .ok () { s with calls := if s.conn.closed then s.calls else s.calls ++ [.startTimer] } := by
  simp only [publishMarketdata, bind, EStateM.bind, M.get_apply]
  split <;> rfl

/-- A successful login on a stateful transport: the token is minted under a key that is not
empty, the reply is sent, and when the connection had no user it gets this one and the timer
is armed. -/
theorem loginStep_onLogin_ok {x0 : Json} {name pwd : Bytes} {rest : List Json} {u : User} (t : St)
    (hls : (loginState env w name pwd).2 = some u) (hw : w.RepliesLogin) (hst : env.stateless = false) :
    LoginStep (some u) t
      (M.final (onLogin env w (utf8 "login") (.array (x0 :: .string name :: .string pwd :: rest)) t)) := by
  obtain ⟨txt, hd⟩ := Json.dump_ok_of_wellFormed env.fmt (wellFormed_loginReply hw u env.startTime)
  simp only [onLogin, indexConst, List.get?_cons_succ, List.get?_cons_zero, pure_bind, getString_string,
    loginState_eq_of_snd hls, if_neg (show utf8 "login" ≠ utf8 "validate_user" by decide), send_of_dump_ok hd]
  rw [M.bind_of_ok (M.modify_apply _ t), M.bind_of_ok (emit_eq _ _), M.bind_of_ok (M.get_apply _)]
  have hk : Function.update t.kTokens w.uuid.toString (some u) [] = t.kTokens [] :=
    Function.update_noteq (Uuid.toString_ne_nil _).symm _ _
  dsimp only
  cases hu : t.conn.user with
  | some u' =>
    simp only [hu, Option.isNone_some, Bool.false_eq_true, false_and, ↓reduceIte, M.pure_apply, M.final_ok]
    exact ⟨by simp [hu], hk, [], by simp, by simp [hu]⟩
  | none =>
    simp only [hu, hst, Option.isNone_none, Bool.not_false, and_self, ↓reduceIte]
    rw [M.bind_of_ok (modifyConn_apply _ _), M.bind_of_ok (publishMarketdata_eq _)]
    have h3 : Kept KeepsLogin (streamCatalog env w u) := kept_streamCatalog_of keepsLogin_send u
    refine LoginStep.keepsLogin ?_ (h3 _)
    cases hc : t.conn.closed <;> simp [LoginStep, hu, hc, hk]

theorem Json.isString_iff {x : Json} : x.isString = true ↔ ∃ s, x = .string s := by
  cases x <;> simp [Json.isString]

theorem getString_throw_bind {α : Type} {x : Json} (hx : x.isString = false) (f : Bytes → M α) (t : St) :
    ∃ e, (getString env x >>= f) t = .error e t :=
  let ⟨e, he⟩ := getAs_throw env t hx
  ⟨_, M.bind_of_error (show getString env x t = .error (.throw e) t from he)⟩

/-- A `login` request: the user is bound, with the timer armed, exactly when the connection had
none and the arguments are good credentials; otherwise the login state is as it was. -/
theorem loginStep_onLogin (x0 : Json) (rest : List Json) (t : St) (hw : w.RepliesLogin)
    (hst : env.stateless = false) :
    LoginStep (loginArgsUser env w rest) t (M.final (onLogin env w (utf8 "login") (.array (x0 :: rest)) t)) := by
  have hfail : ∀ {x : EStateM.Result Abort St Unit}, (∃ e, x = .error e t) → LoginStep none t (M.final x) :=
    fun ⟨_, h⟩ => h ▸ LoginStep.of_keepsLogin (refl t)
  match rest with
  | [] => exact hfail ⟨.undefined, rfl⟩
  | [name] =>
    refine hfail ?_
    simp only [onLogin, indexConst, List.get?_cons_succ, List.get?_cons_zero, List.get?_nil, pure_bind]
    cases hn : name.isString
    · exact getString_throw_bind hn _ t
    · rw [show getString env name = pure name.str from getAs_of_test env hn, pure_bind]
      exact ⟨.undefined, rfl⟩
  | name :: pwd :: rest =>
    by_cases hs : name.isString ∧ pwd.isString
    · obtain ⟨⟨n, rfl⟩, ⟨p, rfl⟩⟩ := And.imp Json.isString_iff.1 Json.isString_iff.1 hs
      rw [show loginArgsUser env w (.string n :: .string p :: rest) = (loginState env w n p).2 from rfl]
      cases hls : (loginState env w n p).2 with
      | none =>
        simp only [onLogin, indexConst, List.get?_cons_succ, List.get?_cons_zero, pure_bind, getString_string,
          if_neg (show utf8 "login" ≠ utf8 "validate_user" by decide), hls]
        exact LoginStep.of_keepsLogin (keepsLogin_send _ t)
      | some u => exact loginStep_onLogin_ok t hls hw hst
    · simp only [loginArgsUser, hs, ↓reduceIte]
      refine hfail ?_
      simp only [onLogin, indexConst, List.get?_cons_succ, List.get?_cons_zero, pure_bind]
      cases hn : name.isString
      · exact getString_throw_bind hn _ t
      · rw [show getString env name = pure name.str from getAs_of_test env hn, pure_bind]
        exact getString_throw_bind (by simpa [hn] using hs) _ t

theorem loginUser_of_requestAction {msg : Bytes} (h : requestAction msg = none) : loginUser env w msg = none := by
  unfold requestAction at h
  unfold loginUser
  split
  · rename_i hp
    simp [hp] at h
  · rfl

/-- The body of one message with the empty token, on a stateful transport whose token table
has no empty key. -/
theorem loginStep_onMessageBody (msg : Bytes) (t : St) (hk : t.kTokens [] = none) (hw : w.RepliesLogin)
    (hst : env.stateless = false) :
    LoginStep (loginUser env w msg) t (M.final (onMessageBody env w msg [] t)) := by
  by_cases hh : msg = utf8 "h"
  · subst hh
    rw [show loginUser env w (utf8 "h") = none by simp only [loginUser, parse_heartbeat]]
    simp only [onMessageBody, ↓reduceIte]
    exact LoginStep.of_keepsLogin (kept_emit (fun _ _ => ⟨rfl, rfl, rfl, [], by simp⟩) t)
  cases ha : requestAction msg with
  | none =>
    obtain ⟨e, he⟩ : ∃ e, onMessageBody env w msg [] t = .error (.throw e) t :=
      onMessageBody_throw_of_no_action t hh ha
    rw [he, loginUser_of_requestAction ha]
    exact LoginStep.of_keepsLogin (refl t)
  | some a =>
    obtain ⟨rest, hp⟩ := parse_of_requestAction ha
    rw [onMessageBody_of_parse hp, show loginUser env w msg = if a = utf8 "login" then loginArgsUser env w rest
      else none by simp only [loginUser, hp]]
    by_cases hl : a = utf8 "login"
    · subst hl
      simp only [onAction, show (utf8 "login").isEmpty = false by decide, Bool.false_eq_true, ↓reduceIte]
      exact loginStep_onLogin _ rest t hw hst
    rw [if_neg hl]
    refine LoginStep.of_keepsLogin ?_
    unfold onAction
    split
    · exact keepsLogin_send _ t
    cases hu : t.conn.user with
    | some u =>
      simp only [bind, EStateM.bind, M.get_apply, hu, M.pure_apply]
      exact keepsLogin_dispatch u a _ t
    | none =>
      simp only [bind, EStateM.bind, M.get_apply, hu, modifyConn_apply, M.pure_apply, hk]
      exact IsTrans.trans _ { t with conn := { t.conn with user := none } } _ ⟨hu.symm, rfl, rfl, [], by simp⟩
        (keepsLogin_send _ _)

/-- One message with the empty token, on a stateful transport whose token table has no empty
key: an exception of the body is answered by an error frame, which changes nothing of the
login state. -/
theorem loginStep_onMessageSync (msg : Bytes) (t : St) (hk : t.kTokens [] = none) (hw : w.RepliesLogin)
    (hst : env.stateless = false) :
    LoginStep (loginUser env w msg) t (M.final (onMessageSync env w msg [] t)) := by
  have hb := loginStep_onMessageBody msg t hk hw hst
  unfold onMessageSync
  split
  · rename_i e s' h
    rw [h] at hb
    exact hb.keepsLogin (keepsLogin_send _ s')
  · exact hb

end Login

/-! ## Runs -/

/-- The user an event logs in as: only a message can. -/
def Event.loginUser (env : Env) (w : World) : Event → Option User
  | .message msg _ => OpenTrade.loginUser env w msg
  | _ => none

/-- A message carries the empty token, as on a stateful transport. -/
def Event.Untokened : Event → Prop
  | .message _ token => token = []
  | _ => True

/-- The timer callback. -/
def Event.isTick : Event → Bool
  | .tick => true
  | _ => false

/-- The user a session has after a run of logins: the user it had, else the first login with
good credentials. -/
def boundUser (env : Env) (b : Option User) : List (World × Event) → Option User
  | [] => b
  | (w, e) :: rest => boundUser env (b.or (e.loginUser env w)) rest

theorem boundUser_append (env : Env) (b : Option User) (pre : List (World × Event)) (w : World) (e : Event) :
    boundUser env b (pre ++ [(w, e)]) = (boundUser env b pre).or (e.loginUser env w) := by
  induction pre generalizing b with
  | nil => rfl
  | cons p pre ih => exact ih _

/-- The user is the same. -/
def Session.SameUser (c c' : Session) : Prop := c'.user = c.user

instance : IsRefl Session Session.SameUser := ⟨fun _ => rfl⟩

instance : IsTrans Session Session.SameUser := ⟨fun _ _ _ h h' => h'.trans h⟩

theorem kept_modifyConn_keepUser {sent : Frame → Prop} {f : Session → Session} (h : ∀ c, (f c).user = c.user) :
    Kept (Footprint Session.SameUser sent) (modifyConn f) :=
  kept_modifyConn_footprint h

section Step

variable {env : Env} {w : World}

/-- A tick keeps the user and the token table. -/
theorem kept_onTimer_sameUser : Kept (Footprint Session.SameUser fun _ => True) (onTimer env w) :=
  kept_onTimer_of (fun _ _ => kept_send_footprint trivial)
    (fun _ h => kept_modifyConn_keepUser fun c => (h c).user_eq) (fun _ => kept_send_footprint trivial)
    (kept_call_footprint _) (kept_modifyConn_keepUser fun _ => rfl)

/-- Every event but a tick takes one `LoginStep`. -/
theorem loginStep_handle {e : Event} (t : St) (hk : t.kTokens [] = none) (hw : w.RepliesLogin)
    (hst : env.stateless = false) (he : e.Untokened) (ht : e.isTick = false) :
    LoginStep (e.loginUser env w) t (M.final (e.handle env w t)) := by
  obtain ⟨hc, ha, hm⟩ := kept_pushes_of (fun j _ => (keepsLogin_send j : Kept KeepsLogin (send env j)))
  cases e with
  | message msg token =>
    cases he
    exact loginStep_onMessageSync msg t hk hw hst
  | tick => cases ht
  | confirmation cm => exact LoginStep.of_keepsLogin (hc cm t)
  | algo a => exact LoginStep.of_keepsLogin (ha _ a t)
  | testMsg token msg stopped => exact LoginStep.of_keepsLogin (hm token msg stopped t)

/-- Every event keeps the token table's empty key, and binds the user only when there was none,
to the user of a login with good credentials. -/
theorem handle_login {e : Event} (t : St) (hk : t.kTokens [] = none) (hw : w.RepliesLogin)
    (hst : env.stateless = false) (he : e.Untokened) :
    (M.final (e.handle env w t)).conn.user = t.conn.user.or (e.loginUser env w) ∧
      (M.final (e.handle env w t)).kTokens [] = none := by
  cases ht : e.isTick
  · obtain ⟨hu, hk', -⟩ := loginStep_handle t hk hw hst he ht
    exact ⟨hu, hk'.trans hk⟩
  · cases e <;> cases ht
    obtain ⟨hu, hk', -⟩ := (kept_onTimer_sameUser : Kept _ (onTimer env w)) t
    exact ⟨(hu : _ = _).trans Option.or_none.symm, (congrFun hk' []).trans hk⟩

/-- Along a run that completes, the user is the one `boundUser` names. -/
theorem run_login {pre : List (World × Event)} {s t : St} (hk : s.kTokens [] = none)
    (hr : ∀ p ∈ pre, p.2.Untokened ∧ p.1.RepliesLogin) (hst : env.stateless = false)
    (ht : run env pre s = .ok () t) : t.conn.user = boundUser env s.conn.user pre ∧ t.kTokens [] = none := by
  induction pre generalizing s with
  | nil => cases ht; exact ⟨rfl, hk⟩
  | cons p pre ih =>
    obtain ⟨w', e'⟩ := p
    obtain ⟨he, hw⟩ := hr _ (List.mem_cons_self _ _)
    have hstep := handle_login s hk hw hst he
    cases h : e'.handle env w' s with
    | ok _ s₁ =>
      rw [h, M.final_ok] at hstep
      rw [run_cons_of_ok h] at ht
      obtain ⟨hu, hk₁⟩ := ih hstep.2 (fun q hq => hr q (List.mem_cons_of_mem _ hq)) ht
      exact ⟨hu.trans (by rw [hstep.1]; rfl), hk₁⟩
    | error x s₁ => rw [run_cons_of_error h] at ht; cases ht

end Step

/-! ## The law of a stateful session -/

/-- On a stateful transport, whose messages carry the empty token and whose token table has no
empty key: after every completed prefix of a run the user is the one the session had, else the
user of the first login with good credentials; the next event keeps that law however it ends;
and every event but the timer callback arms the timer exactly when it binds the user on an
open connection. -/
theorem session_binds_first_login (env : Env) (hst : env.stateless = false) (s : St)
    (hk : s.kTokens [] = none) (pre : List (World × Event)) (w : World) (e : Event)
    (hr : ∀ p ∈ pre ++ [(w, e)], p.2.Untokened ∧ p.1.RepliesLogin) (t : St) (ht : run env pre s = .ok () t) :
    t.conn.user = boundUser env s.conn.user pre ∧
      (M.final (e.handle env w t)).conn.user = boundUser env s.conn.user (pre ++ [(w, e)]) ∧
      (e.isTick = false → timerStarts ((M.final (e.handle env w t)).calls.drop t.calls.length) =
        if boundUser env s.conn.user pre = none ∧ e.loginUser env w ≠ none ∧ t.conn.closed = false then 1
        else 0) := by
  obtain ⟨hu, hkt⟩ := run_login hk (fun p hp => hr p (List.mem_append_left _ hp)) hst ht
  obtain ⟨he, hw⟩ := hr _ (List.mem_append_right _ (List.mem_singleton_self _))
  refine ⟨hu, by rw [boundUser_append, ← hu]; exact (handle_login t hkt hw hst he).1, fun hnt => ?_⟩
  obtain ⟨-, -, cs, hcs, htm⟩ := loginStep_handle t hkt hw hst he hnt
  rw [hcs, List.drop_left, htm, hu]

/-- `alice` with the password `pw`, as `plainEnv` digests it. -/
def aliceAccount : User := { alice with password := sha1 plainEnv (utf8 "pw") }

/-- `quietWorld` where `alice` has an account. -/
def loginWorld : World :=
  { quietWorld with
    accounts := { quietWorld.accounts with getUser := fun n => if n = utf8 "alice" then some aliceAccount else none } }

/-- `["login","alice","pw"]`. -/
def aliceLogin : Bytes := utf8 "[\"login\",\"alice\",\"pw\"]"

/-- A fresh stateful session binds `alice` at the login and arms the timer once. -/
theorem alice_binds_at_login :
    (M.final ((Event.message aliceLogin []).handle plainEnv loginWorld St.init)).conn.user = some aliceAccount ∧
      timerStarts ((M.final ((Event.message aliceLogin []).handle plainEnv loginWorld St.init)).calls.drop 0) = 1 := by
  have h := session_binds_first_login plainEnv rfl St.init rfl [] loginWorld (.message aliceLogin [])
    (fun p hp => by rw [List.mem_singleton.1 hp]; exact ⟨rfl, rfl, rfl⟩) St.init rfl
  have hl : Event.loginUser plainEnv loginWorld (.message aliceLogin []) = some aliceAccount := by decide
  refine ⟨h.2.1.trans (by rw [boundUser_append, hl]; rfl), (h.2.2 rfl).trans ?_⟩
  rw [hl]
  decide

/-- `loginWorld` whose session name is the byte `FF`, which is not UTF-8. -/
def badSessionWorld : World :=
  { loginWorld with positions := { loginWorld.positions with session := [0xFF] } }

/-- There the login of `alice` mints a token, but its reply fails to serialize before the user is
bound: the session stays without a user. -/
theorem unsendable_reply_leaves_unbound :
    loginUser plainEnv badSessionWorld aliceLogin = some aliceAccount ∧
      (M.final (onMessageSync plainEnv badSessionWorld aliceLogin [] St.init)).conn.user = none ∧
      (M.final (onMessageSync plainEnv badSessionWorld aliceLogin [] St.init)).kTokens
        badSessionWorld.uuid.toString = some aliceAccount := by
  decide

end OpenTrade
