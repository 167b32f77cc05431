import OpenTrade.Props.Footprint
import OpenTrade.Props.Subscriptions
import OpenTrade.Json.WellFormed
import OpenTrade.Json.RoundTrip

/-!
# What a request that ends in an error reply leaves behind

A session's own state is its subscription table `subs_`, `sub_pnl_`, its test tokens and the
process's token table `kTokens`. A request whose processing ends with an error frame leaves
all of them as they were, unless its action is `sub` or `unsub`, whose loops change the
table id by id before a later id can fail, or `login`, which records its token before frames
whose serialization can fail. Those paths are stated where their loops are: a `sub` throws in
exactly the state its loop over the earlier ids left (`MarketDataSync`), and at any ending a
`login` adds to the token table exactly the token of a login with good credentials
(`authStep_onLogin`).

## Implementation notes

`Atomic x` is what the body of `OnMessageSync` must satisfy: an exception leaves the own
state as it was (the catch clause then sends the error frame), and any other ending leaves
it as it was or does not end with an error frame. It goes through a prefix that only reads
(`Silent`), which covers the parse, the action getter and the login gate. `pnl` sets
`sub_pnl_` after its last frame, and an algorithm test records its token after the last
point where it can throw; the latter needs `dump` to succeed on the request, which
`Json.dump_ok_of_wellFormed` gives for the well-formed values `Json.parse_wellFormed` returns.
-/

namespace OpenTrade

/-- `subs_`, `sub_pnl_`, `test_algo_tokens_` and `kTokens`. -/
def St.own (s : St) : AList (fun _ : Int => SubEntry) × Bool × List Bytes × (Bytes → Option User) :=
  (s.conn.subs, s.conn.subPnl, s.conn.testAlgoTokens, s.kTokens)

/-- The frames sent from `s` to `s'` end with an error reply. -/
def EndsWithError (s s' : St) : Prop := ∃ fs f, s'.out = s.out ++ fs ++ [f] ∧ f.isError = true

/-- Frames of which none is an error reply do not end with one. -/
theorem not_endsWithError {s s' : St} {fs : List Frame} (hout : s'.out = s.out ++ fs)
    (hfs : ∀ f ∈ fs, f.isError = false) : ¬ EndsWithError s s' := by
  rintro ⟨fs', f, hout', hf⟩
  rw [hout, List.append_assoc, List.append_cancel_left_eq] at hout'
  rw [hfs f (hout' ▸ List.mem_append_right _ (List.mem_singleton_self f))] at hf
  cases hf

theorem not_endsWithError_of_out {s s' : St} (h : s'.out = s.out) : ¬ EndsWithError s s' :=
  not_endsWithError (show s'.out = s.out ++ [] by simp [h]) (List.forall_mem_nil _)

/-- The action of a request: the string its array starts with. -/
def requestAction (msg : Bytes) : Option Bytes :=
  match Json.parse msg with
  | .ok (.array (.string a :: _)) => some a
  | _ => none

theorem parse_of_requestAction {msg a : Bytes} (h : requestAction msg = some a) :
    ∃ rest, Json.parse msg = .ok (.array (.string a :: rest)) := by
  unfold requestAction at h
  split at h
  · cases h
    exact ⟨_, ‹_›⟩
  · cases h

/-! ## Relations -/

/-- The own state is the same. -/
def KeepsOwn (s s' : St) : Prop := s'.own = s.own

instance : IsRefl St KeepsOwn := ⟨fun _ => rfl⟩

instance : IsTrans St KeepsOwn := ⟨fun _ _ _ h h' => h'.trans h⟩

/-- The own state and the frames are the same. -/
def Silent (s s' : St) : Prop := s'.own = s.own ∧ s'.out = s.out

instance : IsRefl St Silent := ⟨fun _ => ⟨rfl, rfl⟩⟩

instance : IsTrans St Silent := ⟨fun _ _ _ h h' => ⟨h'.1.trans h.1, h'.2.trans h.2⟩⟩

theorem Footprint.own_eq {sent : Frame → Prop} {s s' : St} (h : Footprint Eq sent s s') : s'.own = s.own := by
  simp only [St.own, ← h.1, h.2.1]

theorem Kept.keepsOwn_of_footprint {α : Type} {sent : Frame → Prop} {x : M α}
    (h : Kept (Footprint Eq sent) x) : Kept KeepsOwn x :=
  h.mono fun _ _ => Footprint.own_eq

theorem kept_send_keepsOwn {env : Env} {j : Json} : Kept KeepsOwn (send env j) := kept_send fun _ _ => rfl

theorem kept_call_keepsOwn {c : Call} : Kept KeepsOwn (call c) := kept_call fun _ => rfl

/-! ## Atomic computations -/

/-- What a computation leaves from `s`: after an exception the own state as it was, and
otherwise the own state as it was or frames that do not end with an error reply. -/
def AtomicResult {α : Type} (s : St) : EStateM.Result Abort St α → Prop
  | .error (.throw _) s' => s'.own = s.own
  | r => (M.final r).own = s.own ∨ ¬ EndsWithError s (M.final r)

/-- From every state, the computation's result is atomic. -/
def Atomic {α : Type} (x : M α) : Prop := ∀ s, AtomicResult s (x s)

section Atomic

variable {α β : Type} {s : St}

theorem AtomicResult.of_own {r : EStateM.Result Abort St α} (h : (M.final r).own = s.own) : AtomicResult s r := by
  rcases r with _ | ⟨_ | _ | _, _⟩
  exacts [.inl h, h, .inl h, .inl h]

theorem AtomicResult.of_silent {s₁ : St} {r : EStateM.Result Abort St α} (h : Silent s s₁) (hr : AtomicResult s₁ r) :
    AtomicResult s r := by
  have he : ∀ s', EndsWithError s₁ s' ↔ EndsWithError s s' := fun s' => by simp only [EndsWithError, h.2]
  rcases r with _ | ⟨_ | _ | _, _⟩
  all_goals first
    | exact hr.trans h.1
    | exact hr.imp (fun h' => h'.trans h.1) fun h' => (he _).not.mp h'

theorem Atomic.of_kept {x : M α} (h : Kept KeepsOwn x) : Atomic x := fun s => AtomicResult.of_own (h s)

/-- A prefix that only reads keeps the result of what follows atomic. -/
theorem Atomic.bind_silent {x : M α} {f : α → M β} (hx : Kept Silent x) (hf : ∀ a, Atomic (f a)) :
    Atomic (x >>= f) := by
  intro s
  have h1 := hx s
  cases hr : x s with
  | ok a s₁ =>
    rw [hr] at h1
    rw [M.bind_of_ok hr]
    exact (hf a s₁).of_silent h1
  | error e s₁ =>
    rw [hr] at h1
    rw [M.bind_of_error hr]
    exact AtomicResult.of_own h1.1

theorem Atomic.ite {c : Prop} [Decidable c] {x y : M α} (hx : c → Atomic x) (hy : ¬c → Atomic y) :
    Atomic (if c then x else y) := by
  split
  · exact hx ‹_›
  · exact hy ‹_›

end Atomic

/-- An atomic body leaves the own state as it was whenever `OnMessageSync` ends with an error
frame: either the body threw and the catch clause sent the frame, or the body's own frames
end with it. -/
theorem own_of_atomic_body {env : Env} {w : World} {msg token : Bytes} {s : St}
    (hb : AtomicResult s (onMessageBody env w msg token s))
    (he : EndsWithError s (M.final (onMessageSync env w msg token s))) :
    (M.final (onMessageSync env w msg token s)).own = s.own := by
  unfold onMessageSync at he ⊢
  revert hb he
  rcases onMessageBody env w msg token s with ⟨_, s'⟩ | ⟨_ | _ | _, s'⟩
  all_goals first
    | exact fun hb _ => (kept_send_keepsOwn s').trans hb
    | exact fun hb he => hb.resolve_right (not_not.mpr he)

/-! ## The handlers -/

section Handlers

variable {env : Env} {w : World}

/-- A request that is not an array led by a string throws before it writes anything. -/
theorem onMessageBody_throw_of_no_action {msg token : Bytes} (s : St) (hh : msg ≠ utf8 "h")
    (ha : requestAction msg = none) : ∃ e, onMessageBody env w msg token s = .error (.throw e) s := by
  have hget : ∀ {x : Json} {k : Bytes → M Unit}, x.isString = false →
      ∃ e, (getString env x >>= k) s = .error (.throw e) s :=
    fun hx => let ⟨e, he⟩ := getAs_throw env s hx; ⟨e, M.bind_of_error he⟩
  unfold onMessageBody
  rw [if_neg hh]
  unfold requestAction at ha
  cases hp : Json.parse msg with
  | error e => exact ⟨e, by simp only [hp]; rfl⟩
  | ok j =>
    rw [hp] at ha
    simp only [hp]
    rw [M.bind_of_ok (M.pure_apply j s)]
    have hnull : index 0 .null s = .ok .null s := rfl
    cases j with
    | null => exact (M.bind_of_ok hnull).symm ▸ hget rfl
    | array xs =>
      cases xs with
      | nil => exact (M.bind_of_ok (show index 0 (.array []) s = .ok .null s from rfl)).symm ▸ hget rfl
      | cons x rest =>
        rw [M.bind_of_ok (show index 0 (.array (x :: rest)) s = .ok x s from rfl)]
        cases x
        case string a => cases ha
        all_goals exact hget rfl
    | _ => exact ⟨_, M.bind_of_error rfl⟩

/-- `pnl` sets `sub_pnl_` after its last frame, and none of its frames is an error reply. -/
theorem atomic_onPnl (u : User) (j : Json) : Atomic (onPnl env w u j) := by
  intro s
  have h : Footprint Eq Frame.Plain s (M.final (pnlHistory env w u j s)) := kept_pnlHistory u j s
  unfold onPnl
  cases hr : pnlHistory env w u j s with
  | ok a s₁ =>
    rw [hr] at h
    rw [M.bind_of_ok hr]
    obtain ⟨-, -, fs, hout, hfs⟩ := h
    exact .inr (not_endsWithError hout fun f hf => (hfs f hf).2)
  | error e s₁ =>
    rw [hr] at h
    rw [M.bind_of_error hr]
    exact AtomicResult.of_own h.own_eq

/-! ### An algorithm test -/

/-- `x` throws no C++ exception and sends nothing. -/
def Tame {α : Type} (x : M α) : Prop := ∀ s, (∀ e s', x s ≠ .error (.throw e) s') ∧ (M.final (x s)).out = s.out

section Tame

variable {α β : Type}

theorem Tame.bind {x : M α} {f : α → M β} (hx : Tame x) (hf : ∀ a, Tame (f a)) : Tame (x >>= f) := by
  intro s
  obtain ⟨h1, h2⟩ := hx s
  cases hr : x s with
  | ok a s₁ =>
    rw [hr] at h2
    rw [M.bind_of_ok hr]
    exact ⟨(hf a s₁).1, (hf a s₁).2.trans h2⟩
  | error e s₁ =>
    rw [hr] at h1 h2
    rw [M.bind_of_error hr]
    exact ⟨fun e' s' h => h1 e' s' (by cases h; rfl), h2⟩

theorem Tame.ite {c : Prop} [Decidable c] {x y : M α} (hx : Tame x) (hy : Tame y) : Tame (if c then x else y) := by
  split <;> assumption

theorem tame_pure (a : α) : Tame (pure a : M α) := fun _ => ⟨fun _ _ h => (nomatch h), rfl⟩

theorem tame_modifyConn {f : Session → Session} : Tame (modifyConn f) := fun _ => ⟨fun _ _ h => (nomatch h), rfl⟩

theorem tame_call {c : Call} : Tame (call c) := fun _ => ⟨fun _ _ h => (nomatch h), rfl⟩

theorem tame_undefinedBehaviour : Tame (undefinedBehaviour : M α) := fun _ => ⟨fun _ _ h => (nomatch h), rfl⟩

/-- A tame body passes through `catch (const std::runtime_error&)` and sends nothing, so its
result is atomic. -/
theorem Atomic.catchRuntime_of_tame {x : M Unit} {handler : Bytes → M Unit} (hx : Tame x) :
    Atomic (catchRuntime x handler) := by
  intro s
  obtain ⟨h1, h2⟩ := hx s
  unfold catchRuntime
  revert h1 h2
  rcases x s with ⟨_, s'⟩ | ⟨_ | _ | _, s'⟩
  all_goals first
    | exact fun h1 _ => absurd rfl (h1 _ s')
    | exact fun _ h2 => .inr (not_endsWithError_of_out h2)

end Tame

theorem undefinedBehaviour_bind {α β : Type} (f : α → M β) : (undefinedBehaviour >>= f) = undefinedBehaviour := rfl

/-- The test branch of the `try` block records the token, then reads the parameters, which
`dump` serializes since they came from `json::parse`, and calls the engine: it throws
nothing and sends nothing. -/
theorem tame_spawnAlgo_test {u : User} {action algoName token : Bytes} {xs : List Json}
    (hnew : action ≠ utf8 "new") (hj : ∀ x ∈ xs, Json.WellFormed x) :
    Tame (spawnAlgo env w u action algoName token (.array xs)) := by
  unfold spawnAlgo
  rw [if_neg hnew]
  rcases h4 : xs.get? 4 with _ | v
  · simp only [show indexConst 4 (.array xs) = undefinedBehaviour by simp only [indexConst, h4], undefinedBehaviour_bind]
    repeat' first
      | refine Tame.ite ?_ ?_ | refine Tame.bind ?_ fun _ => ?_
      | exact tame_pure _ | exact tame_modifyConn | exact tame_undefinedBehaviour
  · obtain ⟨t, ht⟩ := Json.dump_ok_of_wellFormed env.fmt (hj v (List.get?_mem h4))
    simp only [show indexConst 4 (.array xs) = pure v by simp only [indexConst, h4], pure_bind, ht,
      Option.isSome_none, Bool.false_eq_true, and_false, if_false]
    repeat' first
      | refine Tame.ite ?_ ?_ | refine Tame.bind ?_ fun _ => ?_
      | exact tame_pure _ | exact tame_call | exact tame_modifyConn

/-- A `new` request writes nothing of the session: no test token is recorded. -/
theorem kept_spawnAlgo_new {u : User} {algoName token : Bytes} {j : Json} :
    Kept KeepsOwn (spawnAlgo env w u (utf8 "new") algoName token j) := by
  unfold spawnAlgo checkOwnership
  simp only [if_true]
  with_reducible repeat' first
    | refine kept_bind ?_ fun _ => ?_
    | exact kept_indexConst | exact kept_parseParams _ | exact kept_call_keepsOwn
    | refine kept_ite ?_ ?_ | split | refine kept_forM fun _ _ => ?_
    | exact kept_pure _ | exact kept_throwExn _ | exact kept_undefinedBehaviour

/-- `algo` on a request whose elements are well-formed: every branch but the test only reads,
replies and calls, and the test is tame once its token is recorded. -/
theorem atomic_onAlgo (u : User) {xs : List Json} (hj : ∀ x ∈ xs, Json.WellFormed x) :
    Atomic (onAlgo env w u (.array xs)) := by
  unfold onAlgo
  refine Atomic.bind_silent kept_indexConst fun _ => Atomic.bind_silent kept_getString fun action => ?_
  refine Atomic.ite (fun _ => Atomic.of_kept ?_) fun _ => Atomic.ite (fun _ => Atomic.of_kept ?_) fun _ =>
    Atomic.ite (fun _ => ?_) fun _ => Atomic.of_kept kept_send_keepsOwn
  rotate_left 2
  · refine Atomic.bind_silent kept_indexConst fun _ => Atomic.bind_silent kept_getString fun _ =>
      Atomic.bind_silent kept_indexConst fun _ => Atomic.bind_silent kept_getString fun _ =>
      Atomic.ite (fun _ => Atomic.of_kept kept_send_keepsOwn) fun _ => ?_
    by_cases hnew : action = utf8 "new"
    · subst hnew
      exact Atomic.of_kept (kept_catchRuntime kept_spawnAlgo_new fun _ => kept_send_keepsOwn)
    · exact Atomic.catchRuntime_of_tame (tame_spawnAlgo_test hnew hj)
  all_goals with_reducible repeat' first
    | refine kept_bind ?_ fun _ => ?_
    | exact kept_indexConst | exact kept_getString | exact kept_getInt64 | exact kept_parseParams _
    | exact kept_call_keepsOwn | refine kept_ite ?_ ?_

/-- `md` is no action: the chain ends without doing anything. -/
theorem dispatch_md (u : User) (j : Json) : dispatch env w u (utf8 "md") j = pure () := rfl

/-- Past the gate, every action but `sub` and `unsub` is atomic on a well-formed request. -/
theorem atomic_dispatch (u : User) {a : Bytes} {rest : List Json} (ha : a ≠ utf8 "sub" ∧ a ≠ utf8 "unsub")
    (hj : ∀ x ∈ Json.string a :: rest, Json.WellFormed x) : Atomic (dispatch env w u a (.array (.string a :: rest))) := by
  by_cases hpnl : a = utf8 "pnl"
  · subst hpnl
    rw [dispatch_pnl]
    exact atomic_onPnl u _
  by_cases halgo : a = utf8 "algo"
  · subst halgo
    rw [dispatch_algo]
    exact atomic_onAlgo u hj
  by_cases hmd : a = utf8 "md"
  · subst hmd
    rw [dispatch_md]
    exact Atomic.of_kept (kept_pure _)
  exact Atomic.of_kept (kept_dispatch_quiet (Frame.isMd_string_cons _ (beq_false_of_ne hmd))
    ⟨hpnl, halgo, ha.1, ha.2⟩).keepsOwn_of_footprint

/-- The login gate writes only the connection's user. -/
theorem atomic_onAction (token : Bytes) {a : Bytes} {rest : List Json}
    (ha : a ≠ utf8 "sub" ∧ a ≠ utf8 "unsub" ∧ a ≠ utf8 "login")
    (hj : ∀ x ∈ Json.string a :: rest, Json.WellFormed x) :
    Atomic (onAction env w token a (.array (.string a :: rest))) := by
  have hjp : ∀ user : Option User,
      Atomic (match user with | none => send env loginFirstFrame | some u => dispatch env w u a (.array (.string a :: rest)))
    | none => Atomic.of_kept kept_send_keepsOwn
    | some u => atomic_dispatch u ⟨ha.1, ha.2.1⟩ hj
  unfold onAction
  refine Atomic.ite (fun _ => Atomic.of_kept kept_send_keepsOwn) fun _ =>
    Atomic.ite (fun h => absurd h ha.2.2) fun _ => Atomic.bind_silent kept_get fun st => ?_
  dsimp only
  split
  · exact Atomic.bind_silent (kept_pure _) hjp
  · exact Atomic.bind_silent kept_get fun st => Atomic.bind_silent (kept_modifyConn fun _ => ⟨rfl, rfl⟩) fun _ =>
      Atomic.bind_silent (kept_pure _) hjp

end Handlers

/-- Whenever the processing of a request other than `sub`, `unsub` and `login` ends with an
error frame, the subscription table, `sub_pnl_`, the test tokens and the token table are as
they were before it. -/
theorem error_reply_keeps_own_state (env : Env) (w : World) (msg token : Bytes) (s : St)
    (ha : requestAction msg ≠ some (utf8 "sub") ∧ requestAction msg ≠ some (utf8 "unsub") ∧
      requestAction msg ≠ some (utf8 "login"))
    (he : EndsWithError s (M.final (onMessageSync env w msg token s))) :
    (M.final (onMessageSync env w msg token s)).own = s.own := by
  refine own_of_atomic_body ?_ he
  by_cases hh : msg = utf8 "h"
  · subst hh
    exact Atomic.of_kept (kept_emit fun _ _ => rfl) s
  cases hr : requestAction msg with
  | none =>
    obtain ⟨e, hb⟩ : ∃ e, onMessageBody env w msg token s = .error (.throw e) s :=
      onMessageBody_throw_of_no_action s hh hr
    rw [hb]
    rfl
  | some a =>
    obtain ⟨rest, hp⟩ : ∃ rest, Json.parse msg = .ok (.array (.string a :: rest)) := by
      unfold requestAction at hr
      split at hr <;> cases hr
      exact ⟨_, ‹_›⟩
    rw [onMessageBody_of_parse hp]
    cases Json.parse_wellFormed hp with
    | array hxs =>
      refine atomic_onAction token ⟨?_, ?_, ?_⟩ hxs s <;> rintro rfl
      exacts [ha.1 hr, ha.2.1 hr, ha.2.2 hr]

/-- A `pnl` whose start time is not an integer is answered with an error frame, and
`sub_pnl_` stays unset. -/
theorem bad_pnl_keeps_own_state :
    EndsWithError aliceSt (M.final (onMessageSync plainEnv quietWorld (utf8 "[\"pnl\",\"x\"]") [] aliceSt)) ∧
      (M.final (onMessageSync plainEnv quietWorld (utf8 "[\"pnl\",\"x\"]") [] aliceSt)).own = aliceSt.own :=
  have he : EndsWithError aliceSt (M.final (onMessageSync plainEnv quietWorld (utf8 "[\"pnl\",\"x\"]") [] aliceSt)) :=
    ⟨[], _, rfl, rfl⟩
  ⟨he, error_reply_keeps_own_state plainEnv quietWorld _ [] aliceSt ⟨by decide, by decide, by decide⟩ he⟩

/-- `["sub",42,"x"]` subscribes to 42, then fails on `"x"`: the error frame is sent and the
entry of 42 stays. -/
theorem sub_error_changes_table :
    EndsWithError aliceSt (M.final (onMessageSync plainEnv twoSecurityWorld (utf8 "[\"sub\",42,\"x\"]") [] aliceSt)) ∧
      (M.final (onMessageSync plainEnv twoSecurityWorld (utf8 "[\"sub\",42,\"x\"]") [] aliceSt)).own ≠
        aliceSt.own :=
  ⟨⟨[], _, rfl, rfl⟩, fun h => absurd (congrArg (fun o => o.1.lookup 42) h) (by decide)⟩

/-! ## What the client reads of an error reply -/

/-- The error reply to a UTF-8 message, for an exception whose text is UTF-8, reads back at the
client as itself: the frame hands the client the exact bytes of the message it sent. -/
theorem error_reply_reads_back (fmt : ℚ → Bytes) {msg : Bytes} (hm : Json.utf8Run .accept msg = some .accept) (e : Exn)
    (he : Json.utf8Run .accept e.what = some .accept) :
    ∃ t, (errorFrame msg e).dump fmt = .ok t ∧ Json.parse t = .ok (errorFrame msg e) := by
  have hs : ∀ {xs : List Json}, (∀ x ∈ xs, ∃ b, x = .string b ∧ Json.utf8Run .accept b = some .accept) →
      Json.Canonical fmt (.array xs) := fun h => .array fun x hx => by
    obtain ⟨b, rfl, hb⟩ := h x hx
    exact .string hb
  have hc : Json.Canonical fmt (errorFrame msg e) := by
    cases e
    all_goals
      refine hs fun x hx => ?_
      simp only [errorFrame, List.mem_cons, List.mem_singleton, List.not_mem_nil, or_false] at hx
      rcases hx with rfl | rfl | rfl | rfl
    all_goals first
      | exact ⟨_, rfl, by decide⟩
      | exact ⟨_, rfl, hm⟩
      | exact ⟨_, rfl, he⟩
  obtain ⟨t, ht⟩ := Json.dump_ok_of_wellFormed fmt hc.wellFormed
  exact ⟨t, ht, (Json.parse_of_dump hc ht).trans (by cases e <;> rfl)⟩

/-- The reply to the malformed request `["sub",42` quotes it, and reads back as itself. -/
theorem malformed_request_quoted_back :
    Json.utf8Run .accept (utf8 "[\"sub\",42") = some .accept ∧ Json.utf8Run .accept Exn.parseError.what = some .accept ∧
      ∃ t, (errorFrame (utf8 "[\"sub\",42") .parseError).dump plainEnv.fmt = .ok t ∧
        Json.parse t = .ok (errorFrame (utf8 "[\"sub\",42") .parseError) :=
  ⟨by decide, by decide, error_reply_reads_back plainEnv.fmt (by decide) .parseError (by decide)⟩

end OpenTrade
