import OpenTrade.Props.LoginBinding

/-!
# Authentication across a process

`kTokens` is shared by every connection of the server. A `login` with good credentials, on
any connection, gives its user the string of a fresh UUID, and nothing else writes the table;
the login gate of a connection without a user reads it under the message's token. So over any
interleaving of the connections' events the table is exactly what the run's logins issued, a
connection's user once bound stays, and it is a user that some login of the run accepted. No
call into the engines but arming the timer comes from a connection without such a user. No
token is ever revoked: it binds its user on any connection for the rest of the process,
whatever the account manager says by then.

## Implementation notes

`AuthStep` is what one event may do to the login state and the calls. The handlers past the
gate keep the user and the table (`SameAuth`), and the others besides call nothing but the
timer (`Replies`), by the handler walks of `Footprint`; `OnLogin` and the gate are walked here,
and the process's runs follow by induction on the events.
-/

namespace OpenTrade

/-- The table after a login that accepted `b`: `b` under the token `token`. -/
def issue (b : Option User) (token : Bytes) (k : Bytes → Option User) : Bytes → Option User :=
  match b with
  | some u => Function.update k token (some u)
  | none => k

theorem issue_eq_some {b : Option User} {token t : Bytes} {k : Bytes → Option User} {u : User}
    (h : issue b token k t = some u) : k t = some u ∨ b = some u ∧ t = token := by
  cases b with
  | none => exact .inl h
  | some v =>
    by_cases ht : t = token
    · subst ht
      simp only [issue, Function.update_same] at h
      exact .inr ⟨h, rfl⟩
    · exact .inl (by simpa only [issue, Function.update_noteq ht] using h)

theorem issue_of_ne {b : Option User} {token t : Bytes} {k : Bytes → Option User}
    (h : b = none ∨ token ≠ t) : issue b token k t = k t := by
  rcases h with rfl | h
  · rfl
  · cases b
    · rfl
    · exact Function.update_noteq (Ne.symm h) _ _

/-- The token a message carries; the other events carry none. -/
def Event.token : Event → Bytes
  | .message _ token => token
  | _ => []

/-- The table the logins of a run issue over `k`: each login with good credentials gives its
user the string of the UUID its event meets, a later login replacing an earlier one under the
same string. -/
def issued (env : Nat → Env) (k : Bytes → Option User) : List (Nat × World × Event) → Bytes → Option User
  | [] => k
  | (i, w, e) :: rest => issued env (issue (e.loginUser (env i) w) w.uuid.toString k) rest

/-- Whether an event of a run accepts a login as `u`. -/
def Accepts (env : Nat → Env) (u : User) (ev : Nat × World × Event) : Prop :=
  ev.2.2.loginUser (env ev.1) ev.2.1 = some u

/-! ## One handler -/

/-- What one event with the token `tok`, logging in as `b` under the token `uuid`, may do: the
table gains `b` under `uuid` and nothing else; only a connection without a user takes one, the
user the table held under `tok` or `b`; and a call other than arming the timer leaves the
connection with a user. -/
structure AuthStep (tok : Bytes) (b : Option User) (uuid : Bytes) (s s' : St) : Prop where
  tokens : s'.kTokens = issue b uuid s.kTokens
  user : s'.conn.user = s.conn.user ∨ s.conn.user = none ∧ (s'.conn.user = s.kTokens tok ∨ s'.conn.user = b)
  calls : ∃ cs, s'.calls = s.calls ++ cs ∧ ∀ c ∈ cs, c ≠ .startTimer → s'.conn.user ≠ none

/-- The user and the token table are as they were; calls are appended. -/
def SameAuth (s s' : St) : Prop := s'.conn.user = s.conn.user ∧ s'.kTokens = s.kTokens ∧ ∃ cs, s'.calls = s.calls ++ cs

/-- The user and the token table are as they were, and the only call arms the timer. -/
def Replies (s s' : St) : Prop :=
  s'.conn.user = s.conn.user ∧ s'.kTokens = s.kTokens ∧ ∃ cs, s'.calls = s.calls ++ cs ∧ ∀ c ∈ cs, c = .startTimer

instance : IsRefl St SameAuth := ⟨fun _ => ⟨rfl, rfl, [], by simp⟩⟩

instance : IsTrans St SameAuth :=
  ⟨fun _ _ _ ⟨hu, hk, cs, hc⟩ ⟨hu', hk', cs', hc'⟩ => ⟨hu'.trans hu, hk'.trans hk, cs ++ cs', by simp [hc', hc]⟩⟩

instance : IsRefl St Replies := ⟨fun _ => ⟨rfl, rfl, [], by simp, by simp⟩⟩

instance : IsTrans St Replies :=
  ⟨fun _ _ _ ⟨hu, hk, cs, hc, ht⟩ ⟨hu', hk', cs', hc', ht'⟩ =>
    ⟨hu'.trans hu, hk'.trans hk, cs ++ cs', by simp [hc', hc], fun c hm => (List.mem_append.1 hm).elim (ht c) (ht' c)⟩⟩

section Handler

variable {env : Env} {w : World} {tok uuid : Bytes} {b : Option User} {s s₁ s₂ : St}

theorem AuthStep.of_replies (h : Replies s s') : AuthStep tok none uuid s s' :=
  let ⟨hu, hk, cs, hc, ht⟩ := h
  ⟨hk, .inl hu, cs, hc, fun c hm hne => absurd (ht c hm) hne⟩

/-- A handler that ends with a user may call anything. -/
theorem AuthStep.of_user (h : SameAuth s s') (hu : s'.conn.user ≠ none) : AuthStep tok none uuid s s' :=
  let ⟨hu', hk, cs, hc⟩ := h
  ⟨hk, .inl hu', cs, hc, fun _ _ _ => hu⟩

theorem AuthStep.replies (h : AuthStep tok b uuid s s₁) (h' : Replies s₁ s₂) : AuthStep tok b uuid s s₂ :=
  let ⟨hu, hk, cs, hc, ht⟩ := h'
  let ⟨cs₁, hc₁, ht₁⟩ := h.calls
  ⟨hk.trans h.tokens, hu ▸ h.user, cs₁ ++ cs, by rw [hc, hc₁, List.append_assoc], fun c hm hne => by
    rw [hu]
    rcases List.mem_append.1 hm with hm | hm
    exacts [ht₁ c hm hne, absurd (ht c hm) hne]⟩

theorem replies_send (j : Json) : Kept Replies (send env j) := kept_send fun _ _ => ⟨rfl, rfl, [], by simp, by simp⟩

theorem replies_modifyConn {f : Session → Session} (h : ∀ c, (f c).user = c.user) : Kept Replies (modifyConn f) :=
  kept_modifyConn fun s => ⟨h s.conn, rfl, [], by simp, by simp⟩

theorem replies_publishMarketdata : Kept Replies publishMarketdata :=
  kept_bind kept_get fun _ => kept_ite (kept_pure _) (kept_call fun _ => ⟨rfl, rfl, [_], rfl, by simp⟩)

/-- A tick only re-arms the timer, records what it sends and sends. -/
theorem replies_onTimer : Kept Replies (onTimer env w) :=
  kept_onTimer_of (fun j _ => replies_send j) (fun _ h => replies_modifyConn fun c => (h c).user_eq)
    replies_send (kept_call fun _ => ⟨rfl, rfl, [_], rfl, by simp⟩) (replies_modifyConn fun _ => rfl)

theorem sameAuth_dispatch (u : User) (a : Bytes) (j : Json) : Kept SameAuth (dispatch env w u a j) :=
  kept_dispatch_of (fun _ => kept_send fun _ _ => refl _) (fun c _ => kept_call fun _ => ⟨rfl, rfl, [c], rfl⟩)
    (fun _ h => kept_modifyConn fun s => ⟨(h s.conn).1, rfl, [], by simp⟩) u a j

/-- Whatever follows a send sees the connection, the table and the calls as they were, and a
send that throws leaves the state it started in. -/
theorem final_send_bind {α : Type} {P : St → Prop} (j : Json) (k : PUnit → M α) (s : St) (herr : P s)
    (hok : ∀ s', s'.conn = s.conn → s'.kTokens = s.kTokens → s'.calls = s.calls → P (M.final (k ⟨⟩ s'))) :
    P (M.final ((send env j >>= k) s)) := by
  unfold send
  split
  · rw [M.bind_of_ok (emit_apply _ _)]
    exact hok _ (by split <;> rfl) (by split <;> rfl) (by split <;> rfl)
  · rw [M.bind_of_error (throwExn_apply _ _)]
    exact herr

/-- A login with good credentials issues the user a token before its reply; once the reply is
sent, a connection that has no user, on a stateful transport, takes this one and arms the
timer. -/
theorem authStep_onLogin_ok {x0 : Json} {name pwd : Bytes} {rest : List Json} {u : User} (t : St)
    (hls : (loginState env w name pwd).2 = some u) :
    AuthStep tok (some u) w.uuid.toString t
      (M.final (onLogin env w (utf8 "login") (.array (x0 :: .string name :: .string pwd :: rest)) t)) := by
  simp only [onLogin, indexConst, List.get?_cons_succ, List.get?_cons_zero, pure_bind, getString_string,
    loginState_eq_of_snd hls, if_neg (show utf8 "login" ≠ utf8 "validate_user" by decide)]
  rw [M.bind_of_ok (M.modify_apply _ t)]
  refine final_send_bind (P := AuthStep tok (some u) w.uuid.toString t) _ _ _ ⟨rfl, .inl rfl, [], by simp, by simp⟩
    fun s hc hk hcs => ?_
  have hs : AuthStep tok (some u) w.uuid.toString t s := ⟨hk, .inl (by rw [hc]), [], by simp [hcs], by simp⟩
  rw [M.bind_of_ok (M.get_apply _)]
  cases hu : t.conn.user with
  | some v =>
    simp only [hc, hu, Option.isNone_some, Bool.false_eq_true, false_and, ↓reduceIte, M.pure_apply, M.final_ok]
    exact hs
  | none =>
    cases hst : env.stateless
    · simp only [hc, hu, hst, Option.isNone_none, Bool.not_false, and_self, ↓reduceIte]
      rw [M.bind_of_ok (modifyConn_apply _ _)]
      have hb : AuthStep tok (some u) w.uuid.toString t { s with conn := { s.conn with user := some u } } :=
        ⟨hk, .inr ⟨hu, .inr rfl⟩, [], by simp [hcs], by simp⟩
      exact hb.replies (kept_bind replies_publishMarketdata (fun _ => kept_streamCatalog_of replies_send u) _)
    · simp only [hc, hu, hst, Option.isNone_none, Bool.not_true, Bool.false_eq_true, and_false, ↓reduceIte,
        M.pure_apply, M.final_ok]
      exact hs

/-- A `login` request issues a token to the user its arguments log in as, and otherwise only
replies or throws. -/
theorem authStep_onLogin (x0 : Json) (rest : List Json) (t : St) :
    AuthStep tok (loginArgsUser env w rest) w.uuid.toString t
      (M.final (onLogin env w (utf8 "login") (.array (x0 :: rest)) t)) := by
  have hfail : ∀ {x : EStateM.Result Abort St Unit}, (∃ e, x = .error e t) →
      AuthStep tok none w.uuid.toString t (M.final x) :=
    fun ⟨_, h⟩ => h ▸ .of_replies (refl t)
  match rest with
  | [] => exact hfail ⟨.undefined, rfl⟩
  | [name] =>
    refine hfail ?_
    simp only [onLogin, indexConst, List.get?_cons_succ, List.get?_cons_zero, List.get?_nil, pure_bind]
    cases hn : name.isString
    · exact getString_throw_bind hn _ t
    · rw [show getString env name = pure name.str from getAs_of_test env hn, pure_bind]
      exact ⟨.undefined, rfl⟩
  | name :: pwd :: rest =>
    by_cases hs : name.isString ∧ pwd.isString
    · obtain ⟨⟨n, rfl⟩, ⟨p, rfl⟩⟩ := And.imp Json.isString_iff.1 Json.isString_iff.1 hs
      rw [show loginArgsUser env w (.string n :: .string p :: rest) = (loginState env w n p).2 from rfl]
      cases hls : (loginState env w n p).2 with
      | none =>
        simp only [onLogin, indexConst, List.get?_cons_succ, List.get?_cons_zero, pure_bind, getString_string,
          if_neg (show utf8 "login" ≠ utf8 "validate_user" by decide), hls]
        exact .of_replies (replies_send _ t)
      | some u => exact authStep_onLogin_ok t hls
    · simp only [loginArgsUser, hs, ↓reduceIte]
      refine hfail ?_
      simp only [onLogin, indexConst, List.get?_cons_succ, List.get?_cons_zero, pure_bind]
      cases hn : name.isString
      · exact getString_throw_bind hn _ t
      · rw [show getString env name = pure name.str from getAs_of_test env hn, pure_bind]
        exact getString_throw_bind (by simpa [hn] using hs) _ t

/-- Past `login`, the gate gives a connection without a user the user its token names, and
only a connection with a user is dispatched. -/
theorem authStep_onAction (a : Bytes) (j : Json) (hl : a ≠ utf8 "login") (t : St) :
    AuthStep tok none uuid t (M.final (onAction env w tok a j t)) := by
  cases he : a.isEmpty
  · cases hu : t.conn.user with
    | some u =>
      rw [onAction_of_user a hu he hl]
      have hd : SameAuth t (M.final (dispatch env w u a j t)) := sameAuth_dispatch u a j t
      exact .of_user hd (by rw [hd.1, hu]; simp)
    | none =>
      rw [onAction_of_no_user a hu he hl]
      cases hk : t.kTokens tok with
      | none => exact .of_replies (replies_send _ t)
      | some u =>
        let t' := { t with conn := { t.conn with user := some u } }
        obtain ⟨h1, h2, cs, hc⟩ : SameAuth t' (M.final (dispatch env w u a j t')) := sameAuth_dispatch u a j t'
        exact ⟨h2, .inr ⟨hu, .inl (h1.trans hk.symm)⟩, cs, hc, fun _ _ _ => by rw [h1]; simp⟩
  · simp only [onAction, he, ↓reduceIte]
    exact .of_replies (replies_send _ t)

theorem authStep_onMessageBody (msg : Bytes) (t : St) :
    AuthStep tok (loginUser env w msg) w.uuid.toString t (M.final (onMessageBody env w msg tok t)) := by
  by_cases hh : msg = utf8 "h"
  · subst hh
    rw [show loginUser env w (utf8 "h") = none by simp only [loginUser, parse_heartbeat]]
    simp only [onMessageBody, ↓reduceIte]
    exact .of_replies (kept_emit (fun _ _ => ⟨rfl, rfl, [], by simp, by simp⟩) t)
  cases ha : requestAction msg with
  | none =>
    obtain ⟨e, he⟩ : ∃ e, onMessageBody env w msg tok t = .error (.throw e) t :=
      onMessageBody_throw_of_no_action t hh ha
    rw [he, loginUser_of_requestAction ha]
    exact .of_replies (refl t)
  | some a =>
    obtain ⟨rest, hp⟩ := parse_of_requestAction ha
    rw [onMessageBody_of_parse hp, show loginUser env w msg = if a = utf8 "login" then loginArgsUser env w rest
      else none by simp only [loginUser, hp]]
    by_cases hl : a = utf8 "login"
    · subst hl
      simp only [onAction, show (utf8 "login").isEmpty = false by decide, Bool.false_eq_true, ↓reduceIte]
      exact authStep_onLogin _ rest t
    · rw [if_neg hl]
      exact authStep_onAction a _ hl t

/-- The error frame `OnMessageSync` sends for an exception of the body only replies. -/
theorem replies_onMessageSync (msg tok : Bytes) (t : St) :
    Replies (M.final (onMessageBody env w msg tok t)) (M.final (onMessageSync env w msg tok t)) := by
  unfold onMessageSync
  split
  · rename_i e s' h
    rw [h]
    exact replies_send _ s'
  · exact refl _

/-- Every event: a message by its gate and its login, the other events only replying. -/
theorem authStep_handle (e : Event) (t : St) :
    AuthStep e.token (e.loginUser env w) w.uuid.toString t (M.final (e.handle env w t)) := by
  have hsend : ∀ j, (Frame.json j).isMd = false → Kept Replies (send env j) := fun j _ => replies_send j
  cases e with
  | message msg tok => exact (authStep_onMessageBody msg t).replies (replies_onMessageSync msg tok t)
  | tick => exact .of_replies (replies_onTimer t)
  | confirmation cm => exact .of_replies ((kept_pushes_of hsend).1 cm t)
  | algo a => exact .of_replies ((kept_pushes_of hsend).2.1 _ a t)
  | testMsg token msg stopped => exact .of_replies ((kept_pushes_of hsend).2.2 token msg stopped t)

/-- A user, once bound, stays through every event. -/
theorem user_ne_none_handle (e : Event) (t : St) (hu : t.conn.user ≠ none) :
    (M.final (e.handle env w t)).conn.user ≠ none := by
  rcases (authStep_handle e t).user with h | ⟨h, -⟩
  · rw [h]
    exact hu
  · exact absurd h hu

end Handler

/-! ## Runs of the process -/

section Process

variable {env : Nat → Env} {p p' : Process} {i : Nat} {w : World} {e : Event}

theorem Process.step_kTokens (h : p.step (env i) i w e = some p') :
    p'.kTokens = issue (e.loginUser (env i) w) w.uuid.toString p.kTokens := by
  rw [Process.step_eq h]
  exact (authStep_handle e (p.view i)).tokens

theorem Process.step_user (h : p.step (env i) i w e = some p') :
    (p'.conns i).user = (p.conns i).user ∨
      (p.conns i).user = none ∧ ((p'.conns i).user = p.kTokens e.token ∨ (p'.conns i).user = e.loginUser (env i) w) := by
  rw [Process.step_eq h]
  simpa using (authStep_handle e (p.view i)).user

theorem Process.step_calls (h : p.step (env i) i w e = some p') :
    ∃ cs, p'.calls = p.calls ++ cs ∧ ∀ c ∈ cs, c ≠ .startTimer → (p'.conns i).user ≠ none := by
  rw [Process.step_eq h]
  simpa using (authStep_handle e (p.view i)).calls

theorem Process.step_other {j : Nat} (hj : j ≠ i) (h : p.step (env i) i w e = some p') : p'.conns j = p.conns j := by
  rw [Process.step_eq h, Process.commit_conns, if_neg hj]

theorem Process.kTokens_run {evs : List (Nat × World × Event)} (h : p.run env evs = some p') :
    p'.kTokens = issued env p.kTokens evs :=
  Process.run_rec (P := fun p evs p' => p'.kTokens = issued env p.kTokens evs) (fun _ => rfl)
    (fun _ _ _ _ _ _ _ hs ih => by dsimp only at ih ⊢; rw [ih, Process.step_kTokens hs]; rfl) h

/-- Over any interleaving of the connections' events, the token table is exactly what the
run's logins issued over the table it started with: each login with good credentials, on any
connection, under the string of the UUID its event meets. -/
theorem process_tokens_issued (env : Nat → Env) (evs : List (Nat × World × Event)) (p p' : Process)
    (h : p.run env evs = some p') : p'.kTokens = issued env p.kTokens evs :=
  Process.kTokens_run h

/-- Connections on the stateful transport of `plainEnv`. -/
def plainEnvs : Nat → Env := fun _ => plainEnv

/-- `alice` logs in on connection 0. -/
def aliceRun : List (Nat × World × Event) := [(0, loginWorld, .message aliceLogin [])]

theorem aliceRun_isSome : (Process.init.run plainEnvs aliceRun).isSome = true := by decide

/-- The process after `aliceRun`. -/
def aliceProcess : Process := (Process.init.run plainEnvs aliceRun).get aliceRun_isSome

theorem aliceProcess_eq : Process.init.run plainEnvs aliceRun = some aliceProcess := (Option.some_get _).symm

/-- The login of `alice` issues the account the string of the UUID it meets. -/
theorem alice_login_issues_token : aliceProcess.kTokens loginWorld.uuid.toString = some aliceAccount := by
  rw [process_tokens_issued plainEnvs aliceRun Process.init aliceProcess aliceProcess_eq]
  decide

/-- Every user a connection is bound to, and every user the table holds, satisfies `A`. -/
structure Vouched (A : User → Prop) (p : Process) : Prop where
  conns : ∀ i u, (p.conns i).user = some u → A u
  tokens : ∀ t u, p.kTokens t = some u → A u

theorem Vouched.step {A : User → Prop} (hv : Vouched A p) (hA : ∀ u, e.loginUser (env i) w = some u → A u)
    (h : p.step (env i) i w e = some p') : Vouched A p' := by
  refine ⟨fun j u hu => ?_, fun t u ht => ?_⟩
  · by_cases hj : j = i
    · subst hj
      rcases Process.step_user h with h1 | ⟨-, h1 | h1⟩ <;> rw [h1] at hu
      exacts [hv.conns j u hu, hv.tokens _ u hu, hA u hu]
    · exact hv.conns j u (Process.step_other hj h ▸ hu)
  · rw [Process.step_kTokens h] at ht
    rcases issue_eq_some ht with h1 | ⟨h1, -⟩
    exacts [hv.tokens t u h1, hA u h1]

theorem Vouched.run {A : User → Prop} {evs : List (Nat × World × Event)} (hv : Vouched A p)
    (hA : ∀ ev ∈ evs, ∀ u, Accepts env u ev → A u) (h : p.run env evs = some p') : Vouched A p' :=
  Process.run_rec (P := fun p evs p' => Vouched A p → (∀ ev ∈ evs, ∀ u, Accepts env u ev → A u) → Vouched A p')
    (fun _ hv _ => hv) (fun _ _ _ _ _ _ _ hs ih hv hA => ih (hv.step (hA _ (List.mem_cons_self _ _)) hs)
      fun ev hev => hA ev (List.mem_cons_of_mem _ hev)) h hv hA

/-- At the start of a run every user the process holds is one that a login of the run
accepted. -/
theorem Vouched.init (evs : List (Nat × World × Event)) : Vouched (fun u => ∃ ev ∈ evs, Accepts env u ev) Process.init :=
  ⟨fun _ _ h => Option.noConfusion h, fun _ _ h => Option.noConfusion h⟩

theorem Vouched.of_run {evs : List (Nat × World × Event)} (h : Process.init.run env evs = some p') :
    Vouched (fun u => ∃ ev ∈ evs, Accepts env u ev) p' :=
  (Vouched.init evs).run (fun ev hev _ hu => ⟨ev, hev, hu⟩) h

/-- From the start of the process, over any interleaving of the connections' events, every
connection is bound only to a user that some login of the run accepted, on this connection or
another: a user that existed, whose password digest matched, and who was not disabled at that
login. -/
theorem bound_user_logged_in (env : Nat → Env) (evs : List (Nat × World × Event)) (p : Process)
    (h : Process.init.run env evs = some p) (i : Nat) (u : User) (hu : (p.conns i).user = some u) :
    ∃ ev ∈ evs, Accepts env u ev :=
  (Vouched.of_run h).conns i u hu

/-- `alice` is bound to connection 0 by its own login. -/
theorem alice_bound_by_login : ∃ ev ∈ aliceRun, Accepts plainEnvs aliceAccount ev :=
  bound_user_logged_in plainEnvs aliceRun aliceProcess aliceProcess_eq 0 aliceAccount (by decide)

/-- Once a connection has a user, no event of any connection changes it. -/
theorem bound_user_stays (env : Nat → Env) (evs : List (Nat × World × Event)) (p p' : Process)
    (h : p.run env evs = some p') (i : Nat) (u : User) (hu : (p.conns i).user = some u) :
    (p'.conns i).user = some u := by
  refine Process.run_rec (P := fun p _ p' => (p.conns i).user = some u → (p'.conns i).user = some u) (fun _ h => h)
    (fun p _ _ j _ _ _ hs ih hu => ih ?_) h hu
  by_cases hj : i = j
  · subst hj
    rcases Process.step_user hs with h1 | ⟨h1, -⟩
    · rw [h1, hu]
    · rw [hu] at h1
      cases h1
  · rw [Process.step_other hj hs, hu]

/-- A second login of `alice`, on connection 0 where the account is bound, leaves it bound. -/
theorem alice_stays_after_second_login :
    (((aliceProcess.run plainEnvs aliceRun).get (by decide)).conns 0).user = some aliceAccount :=
  bound_user_stays plainEnvs aliceRun aliceProcess _ (Option.some_get _).symm 0 aliceAccount (by decide)

/-- From the start of the process, over any interleaving of the connections' events, every
call a handler makes into the engines or the filesystem, arming the timer apart, is made on
behalf of a user that some login of the run accepted: the handler's connection ends bound to
that user. -/
theorem engine_calls_need_login (env : Nat → Env) (pre : List (Nat × World × Event)) (i : Nat) (w : World)
    (e : Event) (p p' : Process) (h : Process.init.run env pre = some p) (hs : p.step (env i) i w e = some p')
    (c : Call) (hc : c ∈ p'.calls.drop p.calls.length) (ht : c ≠ .startTimer) :
    ∃ u, (p'.conns i).user = some u ∧ ∃ ev ∈ pre ++ [(i, w, e)], Accepts env u ev := by
  obtain ⟨cs, hcs, hcu⟩ := Process.step_calls hs
  rw [hcs, List.drop_left] at hc
  obtain ⟨u, hu⟩ := Option.ne_none_iff_exists'.1 (hcu c hc ht)
  have hrun : Process.init.run env (pre ++ [(i, w, e)]) = some p' := by
    rw [Process.run_append, h, Option.some_bind, Process.run_cons_of_step hs]
    rfl
  exact ⟨u, hu, (Vouched.of_run hrun).conns i u hu⟩

/-- `["offline",0]`. -/
def offlineRequest : Bytes := utf8 "[\"offline\",0]"

theorem offline_step_isSome : (aliceProcess.step plainEnv 0 loginWorld (.message offlineRequest [])).isSome = true := by
  decide

/-- The replay of the order store on the connection `alice` logged in on is made for that account. -/
theorem alice_offline_call_logged_in :
    ∃ u, (((aliceProcess.step plainEnv 0 loginWorld (.message offlineRequest [])).get offline_step_isSome).conns 0).user =
      some u ∧ ∃ ev ∈ aliceRun ++ [(0, loginWorld, .message offlineRequest [])], Accepts plainEnvs u ev :=
  engine_calls_need_login plainEnvs aliceRun 0 loginWorld (.message offlineRequest []) aliceProcess _ aliceProcess_eq
    (Option.some_get _).symm (.loadOrderStore 0) (by
      rw [show ((aliceProcess.step plainEnv 0 loginWorld (.message offlineRequest [])).get offline_step_isSome).calls.drop
        aliceProcess.calls.length = [.loadOrderStore 0] from rfl]
      exact List.mem_singleton_self _) fun h => Call.noConfusion h

theorem issued_of_not_reissued {k : Bytes → Option User} {t : Bytes} {evs : List (Nat × World × Event)}
    (hfresh : ∀ ev ∈ evs, ev.2.2.loginUser (env ev.1) ev.2.1 = none ∨ ev.2.1.uuid.toString ≠ t) :
    issued env k evs t = k t := by
  induction evs generalizing k with
  | nil => rfl
  | cons ev evs ih =>
    obtain ⟨i, w, e⟩ := ev
    rw [issued, ih fun ev hev => hfresh ev (List.mem_cons_of_mem _ hev)]
    exact issue_of_ne (hfresh _ (List.mem_cons_self _ _))

/-- A token is never revoked. Once the table holds `u` under `t`, after any later events of
any connections in which no login is issued the same string, a request with the token `t` and
an action other than `login` binds `u` to a connection without a user, against any state of
the engines: whether `u` still exists, has the same password or is disabled is not read. -/
theorem token_never_expires (env : Nat → Env) (evs : List (Nat × World × Event)) (p p' : Process)
    (h : p.run env evs = some p') (t : Bytes) (u : User) (ht : p.kTokens t = some u)
    (hfresh : ∀ ev ∈ evs, ev.2.2.loginUser (env ev.1) ev.2.1 = none ∨ ev.2.1.uuid.toString ≠ t)
    (i : Nat) (hi : (p'.conns i).user = none) (w : World) (msg a : Bytes) (rest : List Json)
    (hp : Json.parse msg = .ok (.array (.string a :: rest))) (ha : a.isEmpty = false) (hl : a ≠ utf8 "login") :
    (M.final ((Event.message msg t).handle (env i) w (p'.view i))).conn.user = some u := by
  have hk : p'.kTokens t = some u := by rw [Process.kTokens_run h, issued_of_not_reissued hfresh, ht]
  have hb : (M.final (onMessageBody (env i) w msg t (p'.view i))).conn.user = some u := by
    rw [onMessageBody_of_parse hp, onAction_of_no_user (s := p'.view i) a hi ha hl]
    simp only [Process.view_kTokens, hk]
    exact (sameAuth_dispatch u a _ _).1
  exact (replies_onMessageSync msg t _).1.trans hb

/-- `["bod"]`. -/
def bodRequest : Bytes := utf8 "[\"bod\"]"

/-- `loginWorld` drawing the UUID whose bytes are all 1. -/
def relogWorld : World := { loginWorld with uuid := fun _ => 1 }

/-- `alice` logs in again, on connection 2, and is issued another token. -/
def aliceRelogRun : List (Nat × World × Event) := [(2, relogWorld, .message aliceLogin [])]

theorem aliceRelog_isSome : (aliceProcess.run plainEnvs aliceRelogRun).isSome = true := by decide

/-- After the login of `alice` on connection 0 and a second login under another UUID, the first
token binds the account on connection 1 against engines that no longer know any user. -/
theorem alice_token_outlives_account :
    (M.final ((Event.message bodRequest loginWorld.uuid.toString).handle plainEnv quietWorld
      (((aliceProcess.run plainEnvs aliceRelogRun).get aliceRelog_isSome).view 1))).conn.user = some aliceAccount :=
  token_never_expires plainEnvs aliceRelogRun aliceProcess _ (Option.some_get aliceRelog_isSome).symm
    loginWorld.uuid.toString aliceAccount (by rw [Process.kTokens_run aliceProcess_eq]; decide)
    (fun _ hev => by rw [List.mem_singleton.mp hev]; exact .inr (by decide)) 1 (by decide)
    quietWorld bodRequest (utf8 "bod") [] rfl (by decide) (by decide)

end Process

end OpenTrade
