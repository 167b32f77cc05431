import OpenTrade.Props.Footprint
import OpenTrade.Props.Subscriptions

/-!
# What one user's session can learn of other accounts

For a user who is not an admin, every frame a session sends in answer to `bod`, `pnl` and
`position` requests, at a tick, and for the pushes of the order book and the algorithm engine
depends only on what belongs to the user's sub-accounts and algorithms and on the reference
data. Two runs against engines that differ elsewhere, and that receive any number of pushes
for other accounts, end in the same state: the same frames, the same calls, the same session.

## Implementation notes

`Agree u w₁ w₂` asks for `w₂` to be `w₁` with other positions, PnL, PnL histories and
stores, which is how a handler that reads none of them is seen to give the same result: by
`rfl`. The offline replay is left out: its filter is in `GlobalOrderBook::LoadStore`, which
is not in the repository.
-/

namespace OpenTrade

section Loops

variable {α : Type} {l : List α} {f g : α → M PUnit}

theorem forM_filter (p : α → Bool) (h : ∀ a ∈ l, p a = false → f a = pure ()) :
    l.forM f = (l.filter p).forM f := by
  induction l with
  | nil => rfl
  | cons a l ih =>
    simp only [List.mem_cons, forall_eq_or_imp] at h
    have ih := ih h.2
    cases ha : p a
    · simp [List.filter_cons, ha, h.1 ha, ih]
    · simp [List.filter_cons, ha, ih]

theorem forM_congr_mem (h : ∀ a ∈ l, f a = g a) : l.forM f = l.forM g := by
  induction l with
  | nil => rfl
  | cons a l ih =>
    simp only [List.mem_cons, forall_eq_or_imp] at h
    simp [h.1, ih h.2]

end Loops

/-- For a user who is not an admin, `bod` walks the positions of owned sub-accounts only. -/
theorem onBod_owned {env : Env} {w : World} {u : User} (hadmin : u.isAdmin = false) :
    onBod env w u = (w.positions.bods.filter (u.owns ·.1.1)).forM (sendBod env u) :=
  forM_filter _ fun p _ hp => by simp [sendBod, hadmin, hp]

theorem onPnl_owned {env : Env} {w : World} {u : User} (tm0 : Int) :
    w.positions.pnls.forM (sendPnlHistory env w u tm0) =
      (w.positions.pnls.filter (u.owns ·.1)).forM (sendPnlHistory env w u tm0) :=
  forM_filter _ fun p _ hp => by simp [sendPnlHistory, hp]

theorem subPositions_owned {env : Env} {w : World} {u : User} :
    w.positions.subPositions.forM (publishPosition env u) =
      (w.positions.subPositions.filter (u.owns ·.1.1)).forM (publishPosition env u) :=
  forM_filter _ fun p _ hp => by simp [publishPosition, hp]

theorem pnls_owned {env : Env} {w : World} {u : User} (now : Int) :
    w.positions.pnls.forM (publishPnl env now u) =
      (w.positions.pnls.filter (u.owns ·.1)).forM (publishPnl env now u) :=
  forM_filter _ fun p _ hp => by simp [publishPnl, hp]

/-- What a non-admin user's session can read of the engines is the same in `w₁` and `w₂`:
they differ at most in the positions, PnL and PnL histories of other sub-accounts and in the
stores the offline replay reads. -/
structure Agree (u : User) (w₁ w₂ : World) : Prop where
  others : w₂ = { w₁ with
    positions := { w₁.positions with bods := w₂.positions.bods, subPositions := w₂.positions.subPositions,
                                     pnls := w₂.positions.pnls, pnlLines := w₂.positions.pnlLines }
    algos := { w₁.algos with store := w₂.algos.store }
    orderBook := w₂.orderBook }
  bods : w₁.positions.bods.filter (u.owns ·.1.1) = w₂.positions.bods.filter (u.owns ·.1.1)
  subPositions :
    w₁.positions.subPositions.filter (u.owns ·.1.1) = w₂.positions.subPositions.filter (u.owns ·.1.1)
  pnls : w₁.positions.pnls.filter (u.owns ·.1) = w₂.positions.pnls.filter (u.owns ·.1)
  pnlLines : ∀ acc, u.owns acc = true → w₁.positions.pnlLines acc = w₂.positions.pnlLines acc

section Agree

variable {env : Env} {u : User} {w₁ w₂ : World} (hw : Agree u w₁ w₂)
include hw

theorem Agree.now : w₁.now = w₂.now := by rw [hw.others]

theorem onPosition_agree (j : Json) : onPosition env w₁ j = onPosition env w₂ j := by
  rw [hw.others]
  rfl

theorem onBod_agree (hadmin : u.isAdmin = false) : onBod env w₁ u = onBod env w₂ u := by
  rw [onBod_owned hadmin, onBod_owned hadmin, hw.bods]

theorem onPnl_agree (j : Json) : onPnl env w₁ u j = onPnl env w₂ u j := by
  have hpnl : ∀ tm0, w₁.positions.pnls.forM (sendPnlHistory env w₁ u tm0) =
      w₂.positions.pnls.forM (sendPnlHistory env w₂ u tm0) := fun tm0 => by
    rw [onPnl_owned, onPnl_owned, hw.pnls]
    refine forM_congr_mem fun p hp => ?_
    simp only [sendPnlHistory, hw.pnlLines p.1 (List.mem_filter.mp hp).2]
  simp only [onPnl, pnlHistory, hw.now, hpnl]

theorem publishPnls_agree {s : St} (hs : s.conn.user = some u) :
    publishPnls env w₁ s = publishPnls env w₂ s := by
  unfold publishPnls
  rw [M.bind_of_ok (M.get_apply s), M.bind_of_ok (M.get_apply s)]
  simp only [hs, subPositions_owned, pnls_owned, hw.subPositions, hw.pnls, hw.now]

theorem publishMarketStatus_agree : publishMarketStatus env w₁ = publishMarketStatus env w₂ := by
  rw [hw.others]
  rfl

theorem publishSubs_agree : publishSubs env w₁ = publishSubs env w₂ := by
  rw [hw.others]
  rfl

end Agree

/-! ## The user stays -/

/-- The connection's user is the same. -/
def SameUser (s s' : St) : Prop := s'.conn.user = s.conn.user

instance : IsRefl St SameUser := ⟨fun _ => rfl⟩

instance : IsTrans St SameUser := ⟨fun _ _ _ h h' => h'.trans h⟩

theorem Kept.sameUser {α : Type} {keep : Session → Session → Prop} {sent : Frame → Prop}
    (hk : ∀ c c', keep c c' → c'.user = c.user) {x : M α} (h : Kept (Footprint keep sent) x) : Kept SameUser x :=
  h.mono fun _ _ h' => hk _ _ h'.1

theorem Session.OnlySubPnl.user_eq {c c' : Session} (h : Session.OnlySubPnl c c') : c'.user = c.user := by
  rw [h]

theorem Kept.quiet_sameUser {α : Type} {x : M α} (h : Kept Quiet x) : Kept SameUser x :=
  h.sameUser fun _ _ h' => congrArg Session.user h'.symm

theorem kept_send_sameUser {env : Env} {j : Json} : Kept SameUser (send env j) := kept_send fun _ _ => rfl

theorem kept_modifyConn_sameUser {f : Session → Session} (h : ∀ c, (f c).user = c.user) :
    Kept SameUser (modifyConn f) :=
  kept_modifyConn fun s => h s.conn

/-- A computation that keeps the user runs its continuation from a state with the same user. -/
theorem bind_congr_sameUser {α β : Type} {x : M α} {f g : α → M β} {s : St} {u : User}
    (hx : Kept SameUser x) (hs : s.conn.user = some u)
    (h : ∀ a s', s'.conn.user = some u → f a s' = g a s') : (x >>= f) s = (x >>= g) s := by
  have h1 := hx s
  cases hr : x s with
  | ok a s' =>
    rw [M.bind_of_ok hr, M.bind_of_ok hr]
    rw [hr] at h1
    exact h a s' (h1.trans hs)
  | error e s' => rw [M.bind_of_error hr, M.bind_of_error hr]

section Timer

variable {env : Env} {w : World}

theorem kept_publishMarketStatus : Kept SameUser (publishMarketStatus env w) :=
  kept_publishMarketStatus_of (fun _ _ => kept_send_sameUser) fun _ h => kept_modifyConn_sameUser fun c => (h c).user_eq

theorem kept_publishSubs : Kept SameUser (publishSubs env w) := by
  unfold publishSubs
  with_reducible repeat' first
    | refine kept_bind ?_ fun _ => ?_ | exact kept_get | refine kept_ite ?_ ?_ | exact kept_pure _
    | exact kept_modifyConn_sameUser fun _ => rfl | exact kept_send_sameUser

theorem kept_publishMarketdata : Kept SameUser publishMarketdata :=
  kept_bind kept_get fun _ => kept_ite (kept_pure _) (kept_call fun _ => rfl)

theorem kept_publishPnls : Kept SameUser (publishPnls env w) :=
  kept_publishPnls_of (fun _ _ => kept_send_sameUser) fun _ h => kept_modifyConn_sameUser fun c => (h c).user_eq

theorem kept_onPosition_sameUser (j : Json) : Kept SameUser (onPosition env w j) :=
  kept_onPosition_of (fun _ _ => kept_send_sameUser) j kept_send_sameUser

end Timer

/-! ## Runs -/

/-- A `bod`, `pnl` or `position` request. -/
def ReadsPositions (msg : Bytes) : Prop :=
  ∃ a rest, Json.parse msg = .ok (.array (.string a :: rest)) ∧
    (a = utf8 "bod" ∨ a = utf8 "pnl" ∨ a = utf8 "position")

/-- The events whose effects on another connection are compared: position requests, ticks
and pushes. -/
def Event.Observed : Event → Prop
  | .message msg _ => ReadsPositions msg
  | .tick | .confirmation _ | .algo _ => True
  | .testMsg .. => False

/-- A push that is not for `u`: a confirmation of an order on another sub-account, or an
event of another user's algorithm. -/
def Event.Foreign (u : User) : Event → Prop
  | .confirmation cm => u.owns cm.order.subAccountId = false
  | .algo a => a.userId ≠ u.id
  | _ => False

instance (u : User) : (e : Event) → Decidable (e.Foreign u)
  | .confirmation cm => inferInstanceAs (Decidable (u.owns cm.order.subAccountId = false))
  | .algo a => inferInstanceAs (Decidable (a.userId ≠ u.id))
  | .message .. | .tick | .testMsg .. => isFalse id

/-- Two runs that `u`'s session cannot tell apart: the same observed events in the same order
against agreeing engines, and foreign pushes anywhere on either side. -/
inductive RunAgree (u : User) : List (World × Event) → List (World × Event) → Prop
  | nil : RunAgree u [] []
  | step {w₁ w₂ : World} {e : Event} {r₁ r₂ : List (World × Event)} :
      Agree u w₁ w₂ → e.Observed → RunAgree u r₁ r₂ → RunAgree u ((w₁, e) :: r₁) ((w₂, e) :: r₂)
  | foreignLeft {w : World} {e : Event} {r₁ r₂ : List (World × Event)} :
      e.Foreign u → RunAgree u r₁ r₂ → RunAgree u ((w, e) :: r₁) r₂
  | foreignRight {w : World} {e : Event} {r₁ r₂ : List (World × Event)} :
      e.Foreign u → RunAgree u r₁ r₂ → RunAgree u r₁ ((w, e) :: r₂)

section Step

variable {env : Env} {u : User} {s : St} (hs : s.conn.user = some u)
include hs

/-- A foreign push does nothing. -/
theorem handle_foreign (w : World) {e : Event} (he : e.Foreign u) : e.handle env w s = .ok () s := by
  cases e with
  | confirmation cm =>
    simp only [Event.Foreign] at he
    simp [Event.handle, sendConfirmationPtr, hs, he, bind, EStateM.bind]
  | algo a =>
    simp only [Event.Foreign] at he
    simp [Event.handle, sendAlgo, hs, Ne.symm he, bind, EStateM.bind]
  | _ => exact he.elim

/-- An observed event keeps the session's user. -/
theorem handle_sameUser (w : World) {e : Event} (he : e.Observed) :
    SameUser s (M.final (e.handle env w s)) := by
  cases e with
  | message msg token =>
    obtain ⟨a, rest, hp, ha⟩ := he
    refine onMessageSync_rel ?_ fun _ => kept_send_sameUser
    rw [onMessageBody_of_parse hp]
    rcases ha with rfl | rfl | rfl
    · rw [onAction_of_user (utf8 "bod") hs rfl (by decide), dispatch_bod]
      exact (kept_forM fun p _ => kept_sendBod u p).quiet_sameUser s
    · rw [onAction_of_user (utf8 "pnl") hs rfl (by decide), dispatch_pnl]
      exact (kept_onPnl u _).sameUser (fun _ _ h => Session.OnlySubPnl.user_eq h) s
    · rw [onAction_of_user (utf8 "position") hs rfl (by decide), dispatch_position]
      exact kept_onPosition_sameUser _ s
  | tick =>
    exact kept_bind kept_publishMarketdata (fun _ => kept_bind kept_publishMarketStatus fun _ =>
      kept_bind kept_publishSubs fun _ => kept_publishPnls) s
  | confirmation cm => exact (kept_sendConfirmationPtr cm).quiet_sameUser s
  | algo a => exact (kept_sendAlgo _ a).quiet_sameUser s
  | testMsg => exact he.elim

/-- An observed event gives the same result against agreeing engines. -/
theorem handle_agree {w₁ w₂ : World} (hadmin : u.isAdmin = false) (hw : Agree u w₁ w₂) {e : Event}
    (he : e.Observed) : e.handle env w₁ s = e.handle env w₂ s := by
  cases e with
  | message msg token =>
    obtain ⟨a, rest, hp, ha⟩ := he
    have hb : onMessageBody env w₁ msg token s = onMessageBody env w₂ msg token s := by
      rw [onMessageBody_of_parse hp, onMessageBody_of_parse hp]
      rcases ha with rfl | rfl | rfl
      · rw [onAction_of_user (utf8 "bod") hs rfl (by decide), onAction_of_user (utf8 "bod") hs rfl (by decide),
          dispatch_bod, dispatch_bod, onBod_agree hw hadmin]
      · rw [onAction_of_user (utf8 "pnl") hs rfl (by decide), onAction_of_user (utf8 "pnl") hs rfl (by decide),
          dispatch_pnl, dispatch_pnl, onPnl_agree hw]
      · rw [onAction_of_user (utf8 "position") hs rfl (by decide),
          onAction_of_user (utf8 "position") hs rfl (by decide), dispatch_position, dispatch_position,
          onPosition_agree hw]
    simp only [Event.handle, onMessageSync, hb]
  | tick =>
    show onTimer env w₁ s = onTimer env w₂ s
    unfold onTimer
    rw [publishMarketStatus_agree hw, publishSubs_agree hw]
    refine bind_congr_sameUser kept_publishMarketdata hs fun _ s₁ h₁ => ?_
    refine bind_congr_sameUser kept_publishMarketStatus h₁ fun _ s₂ h₂ => ?_
    refine bind_congr_sameUser kept_publishSubs h₂ fun _ s₃ h₃ => ?_
    exact publishPnls_agree hw h₃
  | confirmation cm => rfl
  | algo a => simp only [Event.handle, hw.now]
  | testMsg => exact he.elim

end Step

/-- A non-admin user's session ends two indistinguishable runs in the same state: the same
frames, calls and session, or the same abort. -/
theorem observed_runs_agree (env : Env) (u : User) (hadmin : u.isAdmin = false)
    {r₁ r₂ : List (World × Event)} (h : RunAgree u r₁ r₂) (s : St) (hs : s.conn.user = some u) :
    run env r₁ s = run env r₂ s := by
  induction h generalizing s with
  | nil => rfl
  | @step w₁ w₂ e _ _ hw he _ ih =>
    have hsame : SameUser s (M.final (e.handle env w₁ s)) := handle_sameUser hs w₁ he
    cases hr : e.handle env w₁ s with
    | ok a s' =>
      rw [hr] at hsame
      rw [run_cons_of_ok hr, run_cons_of_ok ((handle_agree hs hadmin hw he).symm.trans hr)]
      exact ih s' (hsame.trans hs)
    | error x s' => rw [run_cons_of_error hr, run_cons_of_error ((handle_agree hs hadmin hw he).symm.trans hr)]
  | foreignLeft he _ ih => rw [run_cons_of_ok (handle_foreign hs _ he)]; exact ih s hs
  | foreignRight he _ ih => rw [run_cons_of_ok (handle_foreign hs _ he)]; exact ih s hs

/-- `quietWorld` where sub-account 2, which `alice` does not own, holds a position. -/
def bobWorld : World :=
  { quietWorld with positions := { quietWorld.positions with bods := [((2, 7), ⟨100, 5, 0, 0, 0, 0⟩)] } }

/-- An event of user 2's algorithm. -/
def bobAlgoEvent : AlgoEvent := ⟨1, 2, 0, utf8 "t", utf8 "a", utf8 "started", [], 0⟩

theorem alice_sees_neither_position_nor_algo :
    run plainEnv [(quietWorld, .tick), (quietWorld, .algo bobAlgoEvent)] aliceSt =
      run plainEnv [(bobWorld, .tick)] aliceSt :=
  observed_runs_agree plainEnv alice rfl
    (.step ⟨rfl, rfl, rfl, rfl, fun _ _ => rfl⟩ (show Event.tick.Observed from trivial)
      (.foreignLeft (show (Event.algo bobAlgoEvent).Foreign alice by decide) .nil)) aliceSt rfl

end OpenTrade
