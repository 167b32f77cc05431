import OpenTrade.Props.Authentication
import OpenTrade.Props.MarketDataSync

/-!
# `subs_` is a reference count

Each entry of `subs_` counts the subscriptions its key holds: `sub` adds one per id, and
`unsub` takes one away, erasing the entry at zero. Stated against an abstract table of counts,
on a connection with a user: after any completed run in which every `sub` names securities the
engines know, `subs_` holds exactly the keys with subscriptions, each under its count. The
abstract `sub` stops at the first id that is not an integer, where the getter throws; the
abstract `unsub` stops there too, and at the first id that holds no subscription, where the
loop returns.

## Implementation notes

`Session.count` is the abstraction of a session's table. Every handler but `sub` and `unsub`
keeps it (`SameCounts`), by the handler walks of `Footprint`: a tick rewrites snapshots only.
-/

namespace OpenTrade

/-- How many subscriptions each key holds. -/
abbrev Refs := Int → Nat

/-- One more subscription of `k`. -/
def Refs.add (r : Refs) (k : Int) : Refs := Function.update r k (r k + 1)

/-- One subscription of `k` fewer. -/
def Refs.drop (r : Refs) (k : Int) : Refs := Function.update r k (r k - 1)

/-- The table the counts stand for: the keys with subscriptions, under their counts. -/
def Refs.table (r : Refs) (k : Int) : Option Int := if r k = 0 then none else some (r k)

/-- The count of each key of `subs_`. -/
def Session.count (c : Session) (k : Int) : Option Int := (c.subs.lookup k).map Prod.snd

/-- The subscriptions a `sub` request's ids add: one each, up to the first id that is not an
integer. -/
def subRefs (env : Env) : List Json → Refs → Refs
  | [], r => r
  | x :: xs, r => if x.isNumberInteger then subRefs env xs (r.add (env.secId x.int64)) else r

/-- The subscriptions an `unsub` request's ids take away: one each, up to the first id that is
not an integer or holds none. -/
def unsubRefs (env : Env) : List Json → Refs → Refs
  | [], r => r
  | x :: xs, r =>
    if x.isNumberInteger ∧ r (env.secId x.int64) ≠ 0 then unsubRefs env xs (r.drop (env.secId x.int64)) else r

/-- The subscriptions one event changes: those of a `sub` or an `unsub` request. -/
def Event.refs (env : Env) : Event → Refs → Refs
  | .message msg _ =>
    if requestAction msg = some (utf8 "sub") then subRefs env (requestArgs msg)
    else if requestAction msg = some (utf8 "unsub") then unsubRefs env (requestArgs msg) else id
  | _ => id

/-- The subscriptions after a run. -/
def refsRun (env : Env) : List (World × Event) → Refs → Refs
  | [], r => r
  | (_, e) :: rest, r => refsRun env rest (e.refs env r)

/-- Every integer id of a `sub` request names a security the engines know. -/
def Event.SubsKnown (env : Env) (w : World) : Event → Prop
  | .message msg _ => requestAction msg = some (utf8 "sub") →
    ∀ x ∈ requestArgs msg, x.isNumberInteger = true → (w.securities.get (env.secId x.int64)).isSome = true
  | _ => True

instance (env : Env) (w : World) (e : Event) : Decidable (e.SubsKnown env w) := by
  cases e <;> unfold Event.SubsKnown <;> infer_instance

/-! ## The table, entry by entry -/

section Table

variable {c : Session} {r : Refs} {k : Int}

theorem Refs.table_add (r : Refs) (k : Int) : (r.add k).table = Function.update r.table k (some (r k + 1)) := by
  funext k'
  by_cases h : k' = k
  · subst h
    simp [Refs.table, Refs.add]
  · simp [Refs.table, Refs.add, h]

theorem Session.count_insert (c : Session) (k : Int) (e : SubEntry) :
    Session.count { c with subs := c.subs.insert k e } = Function.update c.count k (some e.2) := by
  funext k'
  by_cases h : k' = k
  · subst h
    simp [Session.count, AList.lookup_insert]
  · simp [Session.count, AList.lookup_insert_ne h, h]

theorem Session.count_erase (c : Session) (k : Int) :
    Session.count { c with subs := c.subs.erase k } = Function.update c.count k none := by
  funext k'
  by_cases h : k' = k
  · subst h
    simp [Session.count, AList.lookup_erase]
  · simp [Session.count, AList.lookup_erase_ne h, h]

@[simp] theorem Refs.table_eq_none : r.table k = none ↔ r k = 0 := by
  unfold Refs.table
  split_ifs <;> simp_all

/-- The count `subs_[k]` reads after it has made sure of an entry: that of the entry there was,
or zero. -/
theorem count_touch (hc : c.count = r.table) :
    (((if k ∈ c.subs then c.subs else c.subs.insert k ({}, 0)).lookup k).getD ({}, 0)).2 = r k := by
  have h := congrFun hc k
  split_ifs with hm
  · obtain ⟨e, he⟩ := Option.isSome_iff_exists.1 (AList.lookup_isSome.2 hm)
    simp only [Session.count, he, Option.map_some', Refs.table] at h
    split_ifs at h
    simp_all
  · rw [AList.lookup_insert, Option.getD_some]
    simp only [Session.count, AList.lookup_eq_none.2 hm, Option.map_none'] at h
    show (0 : Int) = r k
    rw [Refs.table_eq_none.1 h.symm]
    rfl

end Table

/-! ## Handlers that keep the counts -/

/-- Every key of `subs_` keeps its count. -/
def SameCounts (s s' : St) : Prop := s'.conn.count = s.conn.count

instance : IsRefl St SameCounts := ⟨fun _ => rfl⟩

instance : IsTrans St SameCounts := ⟨fun _ _ _ h h' => h'.trans h⟩

section Same

variable {env : Env} {w : World}

theorem sameCounts_send (j : Json) : Kept SameCounts (send env j) := kept_send fun _ _ => rfl

theorem sameCounts_call (c : Call) : Kept SameCounts (call c) := kept_call fun _ => rfl

theorem sameCounts_modifyConn {f : Session → Session} (h : ∀ c, (f c).subs = c.subs) : Kept SameCounts (modifyConn f) :=
  kept_modifyConn fun s => funext fun k => by simp only [Session.count, h]

theorem sameCounts_modify {f : St → St} (h : ∀ s, (f s).conn = s.conn) : Kept SameCounts (modify f) :=
  kept_modify fun s => by simp only [SameCounts, h]

/-- A tick rewrites every snapshot of `subs_` and keeps every count. -/
theorem sameCounts_onTimer : Kept SameCounts (onTimer env w) :=
  kept_onTimer_of (fun j _ => sameCounts_send j) (fun _ h => sameCounts_modifyConn fun c => (h c).subs_eq)
    sameCounts_send (sameCounts_call _) <| kept_modifyConn fun s => funext fun k => by
      simp only [Session.count, lookup_refreshSubs, Option.map_map]
      rfl

/-- A login writes the user, the token table, the calls and the frames. -/
theorem sameCounts_onLogin (a : Bytes) (j : Json) : Kept SameCounts (onLogin env w a j) :=
  kept_onLogin_of (fun j _ => sameCounts_send j) (sameCounts_call _) (fun _ _ => sameCounts_modify fun _ => rfl)
    (fun _ => sameCounts_modifyConn fun _ => rfl) a j

/-- Every action but `sub` and `unsub` keeps the counts. -/
theorem sameCounts_dispatch (u : User) {a : Bytes} (j : Json) (hs : a ≠ utf8 "sub") (hu : a ≠ utf8 "unsub") :
    Kept SameCounts (dispatch env w u a j) := by
  have hsend : ∀ j, (Frame.json j).isMd = false → Kept SameCounts (send env j) := fun j _ => sameCounts_send j
  have hcall : ∀ c : Call, c ≠ .startTimer → c.Checked env w →
      Kept SameCounts (call c) := fun c _ _ => sameCounts_call c
  exact kept_dispatch_of_handlers hsend hcall u a j (sameCounts_send j)
    (fun _ => kept_bind (kept_pnlHistory_of hsend hcall u j) fun _ => sameCounts_modifyConn fun _ => rfl)
    (fun _ => kept_onAlgo_of hsend hcall u j fun _ _ _ _ _ _ => sameCounts_modifyConn fun _ => rfl) (absurd · hs) (absurd · hu)

end Same

/-! ## `sub` and `unsub` -/

section Loops

variable {env : Env} {w : World} {r : Refs}

/-- What follows a step sees the state the step ends in. -/
theorem M.final_bind {α β : Type} {x : M α} {k : α → M β} {t : St} (P : St → Prop) (hx : P (M.final (x t)))
    (hk : ∀ a t', P t' → P (M.final (k a t'))) : P (M.final ((x >>= k) t)) := by
  cases h : x t with
  | ok a t' =>
    rw [h] at hx
    rw [M.bind_of_ok h]
    exact hk a t' hx
  | error e t' =>
    rw [h] at hx
    rw [M.bind_of_error h]
    exact hx

/-- One id of `sub` on a known security counts one more subscription of its key. -/
theorem subOne_count (jout : Json) {id : Int} {sec : Security} (t : St)
    (hs : w.securities.get (env.secId id) = some sec) (hr : t.conn.count = r.table) :
    ∃ jout' t', subOne env w jout id t = .ok jout' t' ∧ t'.conn.count = (r.add (env.secId id)).table := by
  refine ⟨_, _, by simp only [subOne, hs]; rfl, ?_⟩
  rw [Session.count_insert, Refs.table_add, count_touch hr]
  funext k
  by_cases hk : k = env.secId id
  · subst hk
    simp
  · simp only [Function.update_noteq hk, ← hr, Session.count]
    split_ifs
    · rfl
    · rw [AList.lookup_insert_ne hk]

/-- The loop of `sub`: each integer id, up to the first id that is not one, counts one more
subscription. -/
theorem subLoop_count {xs : List Json}
    (hk : ∀ x ∈ xs, x.isNumberInteger = true → (w.securities.get (env.secId x.int64)).isSome = true) (jout : Json)
    (t : St) (hr : t.conn.count = r.table) :
    (M.final ((xs.foldlM (fun jout x => do subOne env w jout (← getInt64 env x)) jout : M Json) t)).conn.count =
      (subRefs env xs r).table := by
  induction xs generalizing jout t r with
  | nil => exact hr
  | cons x xs ih =>
    rw [List.forall_mem_cons] at hk
    rw [List.foldlM_cons]
    cases hx : x.isNumberInteger
    · obtain ⟨e, he⟩ : ∃ e, getInt64 env x t = .error (.throw e) t := getAs_throw env t hx
      rw [M.bind_of_error (M.bind_of_error he)]
      simpa [subRefs, hx] using hr
    · obtain ⟨sec, hsec⟩ := Option.isSome_iff_exists.1 (hk.1 hx)
      obtain ⟨jout', t', h1, h2⟩ := subOne_count jout t hsec hr
      rw [getInt64_of_isNumberInteger env hx, pure_bind, M.bind_of_ok h1]
      simp only [subRefs, hx, if_true]
      exact ih hk.2 jout' t' h2

theorem onSub_count {j : Json}
    (hk : ∀ x ∈ args j, x.isNumberInteger = true → (w.securities.get (env.secId x.int64)).isSome = true) (t : St)
    (hr : t.conn.count = r.table) : (M.final (onSub env w j t)).conn.count = (subRefs env (args j) r).table :=
  M.final_bind (fun s => s.conn.count = _) (subLoop_count hk _ t hr) fun _ t' h =>
    (kept_ite (sameCounts_send _) (kept_pure _) t').trans h

/-- An entry `unsub` finds, decremented or erased at zero: one subscription fewer. -/
theorem count_unsubStep {c : Session} {k : Int} {e : SubEntry} (hr : c.count = r.table) (hl : c.subs.lookup k = some e) :
    r k ≠ 0 ∧ Session.count { c with subs := if e.2 - 1 ≤ 0 then c.subs.erase k else c.subs.insert k (e.1, e.2 - 1) } =
      (r.drop k).table := by
  obtain ⟨md, n⟩ := e
  have hc := congrFun hr k
  simp only [Session.count, hl, Option.map_some', Refs.table] at hc
  split_ifs at hc with h0
  obtain rfl : (r k : Int) = n := (Option.some.inj hc).symm
  refine ⟨h0, funext fun k' => ?_⟩
  split_ifs with hle
  · rw [Session.count_erase]
    by_cases hk : k' = k
    · subst hk
      simp only [Function.update_same, Refs.drop, Refs.table, Refs.table]
      rw [if_pos (by omega)]
    · simp only [Function.update_noteq hk, hr, Refs.drop, Refs.table]
  · rw [Session.count_insert]
    by_cases hk : k' = k
    · subst hk
      simp only [Function.update_same, Refs.drop, Refs.table]
      rw [if_neg (by omega)]
      push_cast [Nat.one_le_iff_ne_zero.2 h0]
      rfl
    · simp only [Function.update_noteq hk, hr, Refs.drop, Refs.table]

/-- The loop of `unsub`: each integer id that holds a subscription counts one fewer, up to the
first id that is not an integer or holds none. -/
theorem unsubLoop_count (xs : List Json) (t : St) (hr : t.conn.count = r.table) :
    (M.final (unsubLoop env xs t)).conn.count = (unsubRefs env xs r).table := by
  induction xs generalizing t r with
  | nil => exact hr
  | cons x xs ih =>
    cases hx : x.isNumberInteger
    · obtain ⟨e, he⟩ : ∃ e, getInt64 env x t = .error (.throw e) t := getAs_throw env t hx
      rw [unsubLoop, M.bind_of_error he]
      simpa [unsubRefs, hx] using hr
    · rw [unsubLoop, getInt64_of_isNumberInteger env hx, pure_bind, M.bind_of_ok (M.get_apply t)]
      cases hl : t.conn.subs.lookup (env.secId x.int64) with
      | none =>
        have h0 : r (env.secId x.int64) = 0 := Refs.table_eq_none.1 (by rw [← hr, Session.count, hl]; rfl)
        simpa [unsubRefs, hx, h0] using hr
      | some e =>
        obtain ⟨h0, hc⟩ := count_unsubStep hr hl
        dsimp only
        rw [M.bind_of_ok (modifyConn_apply _ t)]
        simp only [unsubRefs, hx, h0, ne_eq, not_false_eq_true, and_self, if_true]
        exact ih _ hc

end Loops

/-! ## Events and runs -/

section Runs

variable {env : Env} {w : World} {r : Refs}

theorem requestArgs_of_parse {msg a : Bytes} {rest : List Json}
    (hp : Json.parse msg = .ok (.array (.string a :: rest))) : requestArgs msg = rest := by
  simp only [requestArgs, hp, args, List.drop_one, List.tail_cons]

/-- The body of a message, on a connection with a user. -/
theorem onMessageBody_count (msg tok : Bytes) (t : St) (hu : t.conn.user ≠ none)
    (hk : (Event.message msg tok).SubsKnown env w) (hr : t.conn.count = r.table) :
    (M.final (onMessageBody env w msg tok t)).conn.count = ((Event.message msg tok).refs env r).table := by
  by_cases hh : msg = utf8 "h"
  · subst hh
    have hn : requestAction (utf8 "h") = none := by simp only [requestAction, parse_heartbeat]
    simp only [onMessageBody, ↓reduceIte, Event.refs, hn, reduceCtorEq, id]
    exact (kept_emit (R := SameCounts) (fun _ _ => rfl) t).trans hr
  cases ha : requestAction msg with
  | none =>
    obtain ⟨e, he⟩ : ∃ e, onMessageBody env w msg tok t = .error (.throw e) t :=
      onMessageBody_throw_of_no_action t hh ha
    rw [he]
    simpa [Event.refs, ha] using hr
  | some a =>
    obtain ⟨rest, hp⟩ := parse_of_requestAction ha
    rw [onMessageBody_of_parse hp]
    obtain ⟨u, hu⟩ := Option.ne_none_iff_exists'.1 hu
    by_cases hs : a = utf8 "sub"
    · subst hs
      rw [onAction_of_user (utf8 "sub") hu rfl (by decide), dispatch_sub]
      simp only [Event.refs, ha, if_true, requestArgs_of_parse hp]
      exact onSub_count (by simpa [Event.SubsKnown, ha, requestArgs_of_parse hp] using hk) t hr
    by_cases hn : a = utf8 "unsub"
    · subst hn
      rw [onAction_of_user (utf8 "unsub") hu rfl (by decide), dispatch_unsub]
      simp only [Event.refs, ha, requestArgs_of_parse hp, Option.some.injEq, if_true]
      rw [if_neg (by decide)]
      exact unsubLoop_count _ t hr
    rw [show (Event.message msg tok).refs env r = r by simp [Event.refs, ha, hs, hn]]
    refine (?_ : SameCounts t _).trans hr
    by_cases hl : a = utf8 "login"
    · subst hl
      simp only [onAction, show (utf8 "login").isEmpty = false by decide, Bool.false_eq_true, ↓reduceIte]
      exact sameCounts_onLogin _ _ t
    cases he : a.isEmpty
    · rw [onAction_of_user a hu he hl]
      exact sameCounts_dispatch u _ hs hn t
    · simp only [onAction, he, ↓reduceIte]
      exact sameCounts_send _ t

/-- Every event, on a connection with a user. -/
theorem handle_count (e : Event) (t : St) (hu : t.conn.user ≠ none) (hk : e.SubsKnown env w)
    (hr : t.conn.count = r.table) : (M.final (e.handle env w t)).conn.count = (e.refs env r).table := by
  have hsend : ∀ j, (Frame.json j).isMd = false → Kept SameCounts (send env j) := fun j _ => sameCounts_send j
  cases e with
  | message msg tok =>
    have hb := onMessageBody_count msg tok t hu hk hr
    show (M.final (onMessageSync env w msg tok t)).conn.count = _
    unfold onMessageSync
    split
    · rename_i e s' h
      rw [h] at hb
      exact (sameCounts_send _ s').trans hb
    · exact hb
  | tick => exact (sameCounts_onTimer t).trans hr
  | confirmation cm => exact ((kept_pushes_of hsend).1 cm t).trans hr
  | algo a => exact ((kept_pushes_of hsend).2.1 _ a t).trans hr
  | testMsg token msg stopped => exact ((kept_pushes_of hsend).2.2 token msg stopped t).trans hr

/-- On a connection with a user, after any completed run in which every integer id of a `sub`
names a security the engines know, `subs_` holds exactly the keys with subscriptions, each
under its count: a `sub` adds one per id, up to the first id that is not an integer, and an
`unsub` takes one away per id, up to the first id that is not an integer or holds none, the
entry going at zero. -/
theorem subs_count_references (env : Env) (r : List (World × Event)) (s t : St) (hu : s.conn.user ≠ none)
    (hk : ∀ p ∈ r, p.2.SubsKnown env p.1) (refs : Refs) (hc : s.conn.count = refs.table)
    (ht : run env r s = .ok () t) : t.conn.count = (refsRun env r refs).table := by
  induction r generalizing s refs with
  | nil =>
    cases ht
    exact hc
  | cons p r ih =>
    obtain ⟨w, e⟩ := p
    rw [List.forall_mem_cons] at hk
    have hc₁ := handle_count e s hu hk.1 hc
    have hu₁ : (M.final (e.handle env w s)).conn.user ≠ none := user_ne_none_handle e s hu
    cases h : e.handle env w s with
    | ok _ s₁ =>
      rw [h, M.final_ok] at hc₁ hu₁
      rw [run_cons_of_ok h] at ht
      exact ih s₁ hu₁ hk.2 _ hc₁ ht
    | error x s₁ =>
      rw [run_cons_of_error h] at ht
      cases ht

/-- `["sub",42,42,7]` then `["unsub",42]`, against `twoSecurityWorld`. -/
def subUnsubRun : List (World × Event) :=
  [(twoSecurityWorld, .message (utf8 "[\"sub\",42,42,7]") []), (twoSecurityWorld, .message (utf8 "[\"unsub\",42]") [])]

/-- There `alice`'s table holds 42 and 7 once each. -/
theorem alice_counts_42_and_7 :
    (M.final (run plainEnv subUnsubRun aliceSt)).conn.count = (refsRun plainEnv subUnsubRun fun _ => 0).table :=
  subs_count_references plainEnv subUnsubRun aliceSt _ (by decide) (by decide) _ (funext fun _ => rfl) rfl

end Runs

end OpenTrade
