import OpenTrade.Props.MarketDataView
import OpenTrade.Props.ErrorReplies

/-!
# A client's market data stays in step with `subs_`

`subs_[id].first` is the snapshot the session records as last sent for security `id`. A
client that reads every `"md"` frame, starting from the zero snapshot when the entry is
inserted, holds that snapshot after every `sub`, `unsub` and tick, provided the market-data
feed never changes a snapshot without moving its timestamp, and every `sub` reads all its ids.
Neither proviso can go: `GetMarketData` sends nothing when the timestamps agree while the
tick records the new snapshot all the same, and a `sub` that throws on a later id has
recorded the earlier ids without sending their diffs.

## Implementation notes

`clientStep` is the client: it watches one event and reads the frames it sent, from the
zero snapshot for an entry the event inserted. `Synced` is the invariant, and `SyncStep` says
that one step keeps it. It is not transitive (an entry dropped and inserted again would have
to restart from zero), so steps are composed only with a step that keeps `subs_` before
(`SyncStep.quiet_left`) or one that only drops entries after (`SyncStep.shrink_right`).
-/

namespace OpenTrade

/-! ## The feed and the client -/

/-- A market-data feed that stamps every change of a snapshot with a new second: the snapshot
of a security is a function of its timestamp, and the zero snapshot at time zero. -/
structure Feed where
  snap : Int → Int → MarketData
  snap_zero : ∀ id, snap id 0 = {}

/-- The engines follow the feed: every snapshot is the feed's at its timestamp, and
`SecurityManager::Get(id)` returns a security of that id. -/
structure World.Follows (F : Feed) (w : World) : Prop where
  snap : ∀ id, w.marketData.get id = F.snap id (w.marketData.get id).tm
  secId : ∀ id sec, w.securities.get id = some sec → sec.id = id

/-- `subs_[id].first`, and the zero snapshot when `subs_` has no entry for `id`. -/
def Session.lastSent (c : Session) (id : Int) : MarketData := ((c.subs.lookup id).map Prod.fst).getD {}

/-- The picture a client starts an event with: its own for a subscribed security, the zero
snapshot for one whose entry the event inserts. -/
def clientStart (v : Int → MarketData) (s : St) (id : Int) : MarketData :=
  if id ∈ s.conn.subs then v id else {}

/-- A client's pictures after an event took the session from `s` to `s'`: the entries of the
`"md"` frames the event sent, read over the pictures it started with. -/
def clientStep (v : Int → MarketData) (s s' : St) (id : Int) : MarketData :=
  replay id (clientStart v s id) (s'.out.drop s.out.length)

/-- The pictures of a client that watched a run from `s`, event by event. -/
def clientRun (env : Env) (v : Int → MarketData) : List (World × Event) → St → Int → MarketData
  | [], _ => v
  | (w, e) :: rest, s =>
    match e.handle env w s with
    | .ok () s' => clientRun env (clientStep v s s') rest s'
    | .error _ s' => clientStep v s s'

/-- The client is in step with the session: the transport is open, the picture of every
subscribed security is its last-sent snapshot, and every last-sent snapshot is the feed's. -/
structure Synced (F : Feed) (v : Int → MarketData) (s : St) : Prop where
  isOpen : s.conn.closed = false
  view : ∀ id ∈ s.conn.subs, v id = s.conn.lastSent id
  stamped : ∀ id, s.conn.lastSent id = F.snap id (s.conn.lastSent id).tm

/-- A step keeps a client in step: from a state it is in step with, frames are only added,
and the client that read them is in step with the state reached. -/
def SyncStep (F : Feed) (s s' : St) : Prop :=
  ∀ v, Synced F v s → (∃ fs, s'.out = s.out ++ fs) ∧ Synced F (clientStep v s s') s'

/-- Every step of `x` keeps a client in step. -/
def KeepsSync (F : Feed) {α : Type} (x : M α) : Prop := ∀ s, SyncStep F s (M.final (x s))

section LastSent

variable {c : Session} {id : Int}

theorem Session.lastSent_of_lookup {e : SubEntry} (h : c.subs.lookup id = some e) : c.lastSent id = e.1 := by
  simp [Session.lastSent, h]

theorem Session.lastSent_of_not_mem (h : id ∉ c.subs) : c.lastSent id = {} := by
  simp [Session.lastSent, AList.lookup_eq_none.2 h]

/-- The first of the entry `subs_[id]` creates. -/
theorem Session.getD_lookup_fst : ((c.subs.lookup id).getD ({}, 0)).1 = c.lastSent id := by
  cases h : c.subs.lookup id <;> simp [Session.lastSent, h]

end LastSent

/-! ## Steps that keep `subs_` or only drop from it -/

/-- `subs_` and the transport are as they were. -/
def Session.SameSubs (c c' : Session) : Prop := c'.subs = c.subs ∧ c'.closed = c.closed

/-- Entries may go, an entry that stays keeps its snapshot, and the transport is as it was. -/
def Session.Shrinks (c c' : Session) : Prop :=
  c'.closed = c.closed ∧ ∀ id ∈ c'.subs, id ∈ c.subs ∧ c'.lastSent id = c.lastSent id

instance : IsRefl Session Session.SameSubs := ⟨fun _ => ⟨rfl, rfl⟩⟩

instance : IsTrans Session Session.SameSubs := ⟨fun _ _ _ h h' => ⟨h'.1.trans h.1, h'.2.trans h.2⟩⟩

instance : IsRefl Session Session.Shrinks := ⟨fun _ => ⟨rfl, fun _ h => ⟨h, rfl⟩⟩⟩

instance : IsTrans Session Session.Shrinks :=
  ⟨fun _ _ _ h h' => ⟨h'.1.trans h.1, fun id hm =>
    ⟨(h.2 id (h'.2 id hm).1).1, (h'.2 id hm).2.trans (h.2 id (h'.2 id hm).1).2⟩⟩⟩

theorem Session.SameSubs.shrinks {c c' : Session} (h : c.SameSubs c') : c.Shrinks c' :=
  ⟨h.2, fun _ hm => ⟨h.1 ▸ hm, by rw [Session.lastSent, Session.lastSent, h.1]⟩⟩

/-- A handler that keeps `subs_` and sends no market data. -/
abbrev SubsQuiet : St → St → Prop := Footprint Session.SameSubs Frame.NotMd

/-- A handler that only drops entries of `subs_` and sends no market data. -/
abbrev SubsShrink : St → St → Prop := Footprint Session.Shrinks Frame.NotMd

theorem SubsQuiet.shrink {s s' : St} (h : SubsQuiet s s') : SubsShrink s s' :=
  h.mono (fun _ _ => Session.SameSubs.shrinks) fun _ => id

section Steps

variable {F : Feed} {s t s' : St}

/-- Dropping entries keeps every last-sent snapshot the feed's. -/
theorem Session.Shrinks.stamped {c c' : Session} (h : c.Shrinks c')
    (hs : ∀ id, c.lastSent id = F.snap id (c.lastSent id).tm) :
    ∀ id, c'.lastSent id = F.snap id (c'.lastSent id).tm := fun id => by
  by_cases hm : id ∈ c'.subs
  · rw [(h.2 id hm).2]
    exact hs id
  · rw [Session.lastSent_of_not_mem hm]
    exact (F.snap_zero id).symm

theorem syncStep_refl : SyncStep F s s := fun v hv =>
  ⟨⟨[], (List.append_nil _).symm⟩, hv.isOpen, fun id hm => by
    simp only [clientStep, List.drop_length, replay, List.foldl_nil, clientStart, if_pos hm, hv.view id hm],
    hv.stamped⟩

/-- A step that only drops entries, after one that keeps a client in step. -/
theorem SyncStep.shrink_right (h₁ : SyncStep F s t) (h₂ : SubsShrink t s') : SyncStep F s s' := fun v hv => by
  obtain ⟨⟨fs, hout⟩, ht⟩ := h₁ v hv
  obtain ⟨hsh, -, fs', hout', hfs'⟩ := h₂
  have hstep : ∀ id, clientStep v s s' id = clientStep v s t id := fun id => by
    simp only [clientStep, hout', hout, List.append_assoc, List.drop_left, replay_append, replay_of_notMd hfs']
  refine ⟨⟨fs ++ fs', by rw [hout', hout, List.append_assoc]⟩, hsh.1.trans ht.isOpen, fun id hm => ?_,
    hsh.stamped ht.stamped⟩
  rw [hstep, ht.view id (hsh.2 id hm).1, (hsh.2 id hm).2]

theorem syncStep_of_shrink (h : SubsShrink s s') : SyncStep F s s' := syncStep_refl.shrink_right h

/-- A step that keeps `subs_`, before one that keeps a client in step. -/
theorem SyncStep.quiet_left (h₁ : SubsQuiet s t) (h₂ : SyncStep F t s') : SyncStep F s s' := fun v hv => by
  obtain ⟨⟨hsubs, hc⟩, -, fs, hout, hfs⟩ := h₁
  have hvt : Synced F v t :=
    ⟨hc.trans hv.isOpen, fun id hm => by rw [hv.view id (hsubs ▸ hm), Session.lastSent, Session.lastSent, hsubs],
      fun id => by rw [Session.lastSent, hsubs]; exact hv.stamped id⟩
  obtain ⟨⟨fs', hout'⟩, hs'⟩ := h₂ v hvt
  have h₁ : s'.out.drop t.out.length = fs' := by rw [hout', List.drop_left]
  have h₂ : s'.out.drop s.out.length = fs ++ fs' := by rw [hout', hout, List.append_assoc, List.drop_left]
  have hstep : clientStep v s s' = clientStep v t s' := funext fun id => by
    simp only [clientStep, clientStart, h₁, h₂, hsubs, replay_append, replay_of_notMd hfs]
  exact ⟨⟨fs ++ fs', by rw [hout', hout, List.append_assoc]⟩, hstep ▸ hs'⟩

end Steps

section Keeps

variable {F : Feed} {α β : Type} {x : M α} {f : α → M β}

theorem KeepsSync.of_shrink (h : Kept SubsShrink x) : KeepsSync F x := fun s => syncStep_of_shrink (h s)

theorem KeepsSync.quiet_bind (hx : Kept SubsQuiet x) (hf : ∀ a, KeepsSync F (f a)) : KeepsSync F (x >>= f) := by
  intro s
  have h₁ := hx s
  cases h : x s with
  | ok a t =>
    rw [h] at h₁
    rw [M.bind_of_ok h]
    exact SyncStep.quiet_left h₁ (hf a t)
  | error e t =>
    rw [h] at h₁
    rw [M.bind_of_error h]
    exact syncStep_of_shrink h₁.shrink

theorem KeepsSync.bind_shrink (hx : KeepsSync F x) (hf : ∀ a, Kept SubsShrink (f a)) : KeepsSync F (x >>= f) := by
  intro s
  have h₁ := hx s
  cases h : x s with
  | ok a t =>
    rw [h] at h₁
    rw [M.bind_of_ok h]
    exact h₁.shrink_right (hf a t)
  | error e t =>
    rw [h] at h₁
    rwa [M.bind_of_error h]

end Keeps

/-! ## Sending the collected entries -/

/-- What `if (jout.size() > 1) Send(jout.dump())` sends for the entries `es`. -/
def mdOut : List Json → List Frame
  | [] => []
  | es => [.json (.array (.string (utf8 "md") :: es))]

theorem replay_mdOut (id : Int) (x : MarketData) (es : List Json) : replay id x (mdOut es) = es.foldl (applyEntry id) x := by
  cases es with
  | nil => rfl
  | cons e es => simp [mdOut, replay, Frame.mdEntries]

/-- A frame of well-formed entries serializes, so it is sent when it holds one. -/
theorem sendMd_apply {env : Env} {es : List Json} (hwf : ∀ e ∈ es, Json.WellFormed e) {s : St}
    (hc : s.conn.closed = false) :
    (if (Json.array (.string (utf8 "md") :: es)).size > 1 then send env (.array (.string (utf8 "md") :: es))
      else pure ()) s = .ok () { s with out := s.out ++ mdOut es } := by
  have hj : Json.WellFormed (.array (.string (utf8 "md") :: es)) :=
    .array (List.forall_mem_cons.2 ⟨.string (by decide), hwf⟩)
  obtain ⟨_, ht⟩ := Json.dump_ok_of_wellFormed env.fmt hj
  cases es with
  | nil => simp [Json.size, mdOut]
  | cons e es => simp [Json.size, mdOut, send_of_dump_ok ht, hc]

/-- With a feed that stamps every change, a snapshot of the engines with the timestamp of one
the feed gave is that one. -/
theorem World.Follows.eq_of_tm {F : Feed} {w : World} (hw : w.Follows F) {id : Int} {x : MarketData}
    (hx : x = F.snap id x.tm) (h : (w.marketData.get id).tm = x.tm) : w.marketData.get id = x :=
  calc w.marketData.get id
    _ = F.snap id (w.marketData.get id).tm := hw.snap id
    _ = F.snap id x.tm := by rw [h]
    _ = x := hx.symm

/-! ## A tick -/

section Tick

variable {F : Feed} {env : Env} {w : World}

/-- The `"md"` frame of a tick holds the entry of every subscription, in table order. -/
theorem mdFrame_eq (snap : Int → MarketData) (subs : AList fun _ : Int => SubEntry) :
    mdFrame snap subs =
      .array (.string (utf8 "md") :: subs.entries.flatMap fun e => mdEntry (snap e.1) e.2.1 e.1) := by
  suffices h : ∀ (l : List (Sigma fun _ : Int => SubEntry)) xs,
      l.foldl (fun j e => getMarketData (snap e.1) e.2.1 e.1 j) (.array xs) =
        .array (xs ++ l.flatMap fun e => mdEntry (snap e.1) e.2.1 e.1) from h _ _
  intro l
  induction l with
  | nil => simp
  | cons e l ih => intro xs; simp [getMarketData_array, ih]

/-- Reading a tick's entries, a client's picture of `id` changes by the entry of `id` only. -/
theorem foldl_flatMap_mdEntry (snap : Int → MarketData) {id : Int} {l : List (Sigma fun _ : Int => SubEntry)}
    (hl : l.NodupKeys) (x : MarketData) :
    (l.flatMap fun e => mdEntry (snap e.1) e.2.1 e.1).foldl (applyEntry id) x =
      ((l.dlookup id).map fun e => (mdEntry (snap id) e.1 id).foldl (applyEntry id) x).getD x := by
  induction l generalizing x with
  | nil => rfl
  | cons e l ih =>
    obtain ⟨k, e⟩ := e
    obtain ⟨hk, hl⟩ := List.nodupKeys_cons.1 hl
    rw [List.flatMap_cons, List.foldl_append]
    by_cases h : k = id
    · subst h
      rw [ih hl, List.dlookup_eq_none.2 hk, List.dlookup_cons_eq]
      rfl
    · rw [foldl_mdEntry_of_ne x h, ih hl, List.dlookup_cons_ne _ _ (Ne.symm h)]

theorem lookup_refreshSubs (snap : Int → MarketData) (subs : AList fun _ : Int => SubEntry) (id : Int) :
    (refreshSubs snap subs).lookup id = (subs.lookup id).map fun e => (snap id, e.2) := by
  obtain ⟨l, hl⟩ := subs
  show List.dlookup id (l.map _) = (List.dlookup id l).map _
  clear hl
  induction l with
  | nil => rfl
  | cons e l ih =>
    obtain ⟨k, e⟩ := e
    by_cases h : k = id
    · subst h
      simp only [List.map_cons, List.dlookup_cons_eq, Option.map_some']
    · have h' : id ≠ k := Ne.symm h
      simp (disch := exact h') only [List.map_cons, List.dlookup_cons_ne, ih]

theorem wellFormed_flatMap_mdEntry (snap : Int → MarketData) (l : List (Sigma fun _ : Int => SubEntry)) :
    ∀ e ∈ l.flatMap (fun e => mdEntry (snap e.1) e.2.1 e.1), Json.WellFormed e := fun _ he => by
  obtain ⟨_, -, he⟩ := List.mem_flatMap.1 he
  exact wellFormed_mdEntry _ he

/-- The market-data part of a tick on an open connection: every snapshot recorded, the entries
sent. -/
theorem publishSubs_apply {s : St} (hc : s.conn.closed = false) :
    publishSubs env w s = .ok () { s with
      conn := { s.conn with subs := refreshSubs w.marketData.get s.conn.subs },
      out := s.out ++ mdOut (s.conn.subs.entries.flatMap fun e => mdEntry (w.marketData.get e.1) e.2.1 e.1) } := by
  simp only [publishSubs, mdFrame_eq]
  rw [M.bind_of_ok (M.get_apply s), M.bind_of_ok (modifyConn_apply _ s)]
  exact sendMd_apply (wellFormed_flatMap_mdEntry _ _) hc

theorem keepsSync_publishSubs (hw : w.Follows F) : KeepsSync F (publishSubs env w) := fun s v hv => by
  rw [publishSubs_apply hv.isOpen, M.final_ok]
  have hlast : ∀ id, Session.lastSent { s.conn with subs := refreshSubs w.marketData.get s.conn.subs } id =
      ((s.conn.subs.lookup id).map fun _ => w.marketData.get id).getD {} := fun id => by
    simp only [Session.lastSent, lookup_refreshSubs, Option.map_map]
    rfl
  refine ⟨⟨_, rfl⟩, hv.isOpen, fun id hm => ?_, fun id => ?_⟩
  · obtain ⟨e, he⟩ := Option.isSome_iff_exists.1 (AList.lookup_isSome.2 hm)
    simp only [lookup_refreshSubs, Option.map_eq_some'] at he
    obtain ⟨e, he, -⟩ := he
    have hm' : id ∈ s.conn.subs := AList.lookup_isSome.1 (by rw [he]; rfl)
    have hv' : v id = e.1 := (hv.view id hm').trans (Session.lastSent_of_lookup he)
    simp only [clientStep, clientStart, List.drop_left, replay_mdOut, if_pos hm',
      foldl_flatMap_mdEntry _ s.conn.subs.nodupKeys, hlast, hv']
    show ((s.conn.subs.lookup id).map _).getD _ = ((s.conn.subs.lookup id).map _).getD _
    rw [he, Option.map_some', Option.map_some', Option.getD_some, Option.getD_some]
    refine foldl_mdEntry_self fun h => hw.eq_of_tm ?_ h
    rw [← Session.lastSent_of_lookup he]
    exact hv.stamped id
  · rw [hlast]
    cases s.conn.subs.lookup id with
    | none => exact (F.snap_zero id).symm
    | some e => exact hw.snap id

theorem kept_modifyConn_sameSubs {f : Session → Session} (h : ∀ c, (f c).subs = c.subs ∧ (f c).closed = c.closed) :
    Kept SubsQuiet (modifyConn f) :=
  kept_modifyConn_footprint h

theorem subsQuiet_publishMarketdata : Kept SubsQuiet publishMarketdata :=
  kept_bind kept_get fun _ => kept_ite (kept_pure _) (kept_call_footprint _)

theorem subsQuiet_publishMarketStatus : Kept SubsQuiet (publishMarketStatus env w) :=
  kept_publishMarketStatus_of (fun _ h => kept_send_footprint h) fun _ h => kept_modifyConn_sameSubs fun c =>
    ⟨(h c).subs_eq, (h c).closed_eq⟩

theorem subsQuiet_publishPnls : Kept SubsQuiet (publishPnls env w) :=
  kept_publishPnls_of (fun _ h => kept_send_footprint h) fun _ h => kept_modifyConn_sameSubs fun c =>
    ⟨(h c).subs_eq, (h c).closed_eq⟩

/-- A tick: re-arming, market status and PnL keep `subs_` and send no market data, and the
market-data part keeps the client in step. -/
theorem keepsSync_onTimer (hw : w.Follows F) : KeepsSync F (onTimer env w) :=
  .quiet_bind subsQuiet_publishMarketdata fun _ => .quiet_bind subsQuiet_publishMarketStatus fun _ =>
    .bind_shrink (keepsSync_publishSubs hw) fun _ => subsQuiet_publishPnls.mono fun _ _ => SubsQuiet.shrink

end Tick

/-! ## `sub` -/

section LastSentUpdate

variable {c : Session} {key : Int}

/-- `subs_[key]` on an absent key creates the entry of the zero snapshot, so no last-sent
snapshot changes. -/
theorem Session.lastSent_insert_zero :
    Session.lastSent { c with subs := if key ∈ c.subs then c.subs else c.subs.insert key ({}, 0) } = c.lastSent := by
  funext id
  split_ifs with hk
  · rfl
  · by_cases h : id = key
    · subst h
      rw [Session.lastSent_of_not_mem hk]
      simp [Session.lastSent, AList.lookup_insert]
    · simp [Session.lastSent, AList.lookup_insert_ne h]

theorem Session.lastSent_insert {x : SubEntry} :
    Session.lastSent { c with subs := c.subs.insert key x } = Function.update c.lastSent key x.1 := by
  funext id
  by_cases h : id = key
  · subst h
    simp [Session.lastSent, AList.lookup_insert]
  · simp [Session.lastSent, AList.lookup_insert_ne h, h]

end LastSentUpdate

section Sub

variable {F : Feed} {env : Env} {w : World} {v : Int → MarketData} {s : St}

theorem subOne_none (jout : Json) {id : Int} (t : St) (hs : w.securities.get (env.secId id) = none) :
    ∃ t', subOne env w jout id t = .ok jout t' ∧ t'.out = t.out ∧ t'.conn.closed = t.conn.closed ∧
      t'.conn.lastSent = t.conn.lastSent := by
  apply Exists.intro
  refine ⟨?_, ?_, ?_, ?_⟩
  · simp only [subOne, hs]
    rfl
  exacts [rfl, rfl, Session.lastSent_insert_zero]

/-- One id of `sub` on a known security: the engines' snapshot is recorded for the key, and
its diff against the snapshot last sent appended. -/
theorem subOne_some (jout : Json) {id : Int} {sec : Security} (t : St) (hs : w.securities.get (env.secId id) = some sec) :
    ∃ t' md0, subOne env w jout id t =
        .ok (getMarketData (w.marketData.get sec.id) md0 (env.secId id) jout) t' ∧ md0 = t.conn.lastSent (env.secId id) ∧
      t'.out = t.out ∧ t'.conn.closed = t.conn.closed ∧
      t'.conn.lastSent = Function.update t.conn.lastSent (env.secId id) (w.marketData.get sec.id) := by
  apply Exists.intro
  apply Exists.intro
  refine ⟨?_, ?_, ?_, ?_, ?_⟩
  · simp only [subOne, hs]
    rfl
  exacts [Session.getD_lookup_fst.trans (congrFun Session.lastSent_insert_zero _), rfl, rfl,
    Session.lastSent_insert.trans (by rw [Session.lastSent_insert_zero])]

/-- Midway through `sub` from `s`: nothing is sent yet, the entries `es` collected so far bring
the client's starting pictures to the recorded snapshots, and every recorded snapshot is the
feed's. -/
structure SubLoop (F : Feed) (v : Int → MarketData) (s t : St) (es : List Json) : Prop where
  out : t.out = s.out
  closed : t.conn.closed = s.conn.closed
  wf : ∀ e ∈ es, Json.WellFormed e
  view : ∀ id, es.foldl (applyEntry id) (clientStart v s id) = t.conn.lastSent id
  stamped : ∀ id, t.conn.lastSent id = F.snap id (t.conn.lastSent id).tm

theorem SubLoop.init (hv : Synced F v s) : SubLoop F v s s [] := by
  refine ⟨rfl, rfl, List.forall_mem_nil _, fun id => ?_, hv.stamped⟩
  by_cases hm : id ∈ s.conn.subs
  · simp only [List.foldl_nil, clientStart, if_pos hm, hv.view id hm]
  · simp only [List.foldl_nil, clientStart, if_neg hm, Session.lastSent_of_not_mem hm]

/-- One id of `sub` keeps the loop invariant: a recorded snapshot is either the one last sent,
when the timestamps agree, or the diff that brings the client to it is appended. -/
theorem SubLoop.step (hw : w.Follows F) {t : St} {es : List Json} (h : SubLoop F v s t es) (id : Int) :
    ∃ t' es', subOne env w (.array (.string (utf8 "md") :: es)) id t = .ok (.array (.string (utf8 "md") :: es')) t' ∧
      SubLoop F v s t' es' := by
  cases hs : w.securities.get (env.secId id) with
  | none =>
    obtain ⟨t', ht, hout, hc, hl⟩ := subOne_none (.array (.string (utf8 "md") :: es)) t hs
    exact ⟨t', es, ht, hout.trans h.out, hc.trans h.closed, h.wf, hl ▸ h.view, hl ▸ h.stamped⟩
  | some sec =>
    obtain ⟨t', md0, ht, hmd0, hout, hc, hl⟩ := subOne_some (.array (.string (utf8 "md") :: es)) t hs
    rw [hw.secId _ _ hs] at ht hl
    set key := env.secId id
    refine ⟨t', es ++ mdEntry (w.marketData.get key) md0 key, by rw [ht, getMarketData_array]; rfl,
      hout.trans h.out, hc.trans h.closed, ?_, fun id' => ?_, fun id' => ?_⟩
    · exact fun e he => (List.mem_append.1 he).elim (h.wf e) (wellFormed_mdEntry e)
    · rw [List.foldl_append, h.view, hl]
      by_cases hk : id' = key
      · subst hk
        rw [Function.update_same, ← hmd0]
        exact foldl_mdEntry_self fun htm => hw.eq_of_tm (hmd0 ▸ h.stamped _) htm
      · rw [Function.update_noteq hk, foldl_mdEntry_of_ne _ (Ne.symm hk)]
    · rw [hl]
      by_cases hk : id' = key
      · subst hk
        rw [Function.update_same]
        exact hw.snap _
      · rw [Function.update_noteq hk]
        exact h.stamped id'

/-- The loop of a `sub` whose ids are all integers runs to its end, keeping the invariant. -/
theorem SubLoop.loop (hw : w.Follows F) {xs : List Json} (hx : ∀ x ∈ xs, x.isNumberInteger = true) :
    ∀ {t : St} {es : List Json}, SubLoop F v s t es → ∃ t' es',
      (xs.foldlM (fun jout x => do subOne env w jout (← getInt64 env x)) (.array (.string (utf8 "md") :: es)) :
        M Json) t =
        .ok (.array (.string (utf8 "md") :: es')) t' ∧ SubLoop F v s t' es' := by
  induction xs with
  | nil => exact fun h => ⟨_, _, rfl, h⟩
  | cons x xs ih =>
    intro t es h
    rw [List.forall_mem_cons] at hx
    obtain ⟨t₁, es₁, h₁, hl₁⟩ := h.step hw x.int64
    obtain ⟨t₂, es₂, h₂, hl₂⟩ := ih hx.2 hl₁
    refine ⟨t₂, es₂, ?_, hl₂⟩
    rw [List.foldlM_cons, getInt64_of_isNumberInteger env hx.1, pure_bind, M.bind_of_ok h₁, h₂]

/-- A `sub` whose ids are all integers keeps a client in step. -/
theorem keepsSync_onSub (hw : w.Follows F) {j : Json} (hj : ∀ x ∈ args j, x.isNumberInteger = true) :
    KeepsSync F (onSub env w j) := fun s v hv => by
  obtain ⟨t, es, hloop, hl⟩ := SubLoop.loop hw hj (SubLoop.init hv)
  have hfin : onSub env w j s = .ok () { t with out := t.out ++ mdOut es } := by
    unfold onSub
    rw [M.bind_of_ok hloop]
    exact sendMd_apply hl.wf (hl.closed.trans hv.isOpen)
  rw [hfin, M.final_ok]
  refine ⟨⟨mdOut es, by rw [hl.out]⟩, hl.closed.trans hv.isOpen, fun id _ => ?_, hl.stamped⟩
  simp only [clientStep, hl.out, List.drop_left, replay_mdOut]
  exact hl.view id

end Sub

/-! ## `unsub` -/

/-- `unsub` decrements an entry it finds, or erases it at zero: the entries that stay keep
their snapshots. -/
theorem Session.shrinks_unsub {c : Session} {key : Int} {e : SubEntry} (h : c.subs.lookup key = some e) :
    c.Shrinks { c with subs := if e.2 - 1 ≤ 0 then c.subs.erase key else c.subs.insert key (e.1, e.2 - 1) } := by
  refine ⟨rfl, fun id hm => ?_⟩
  split_ifs at hm ⊢
  · obtain ⟨hne, hm⟩ := AList.mem_erase.1 hm
    exact ⟨hm, by simp [Session.lastSent, AList.lookup_erase_ne hne]⟩
  · rw [Session.lastSent_insert]
    by_cases hk : id = key
    · subst hk
      exact ⟨AList.lookup_isSome.1 (by rw [h]; rfl), by rw [Function.update_same, Session.lastSent_of_lookup h]⟩
    · exact ⟨((AList.mem_insert _).1 hm).resolve_left hk, by rw [Function.update_noteq hk]⟩

theorem kept_unsubLoop (env : Env) (xs : List Json) : Kept SubsShrink (unsubLoop env xs) := by
  induction xs with
  | nil => exact kept_pure _
  | cons x xs ih =>
    refine kept_bind kept_getInt64 fun id s => ?_
    dsimp only
    rw [M.bind_of_ok (M.get_apply s)]
    cases he : s.conn.subs.lookup (env.secId id) with
    | none => exact refl s
    | some e =>
      dsimp only
      rw [M.bind_of_ok (modifyConn_apply _ s)]
      refine IsTrans.trans _ _ _ ?_ (ih _)
      exact ⟨Session.shrinks_unsub he, rfl, [], by simp, by simp⟩

/-! ## Requests and runs -/

section Requests

variable {F : Feed} {env : Env} {w : World} {msg token : Bytes}

theorem errorFrame_notMd (msg : Bytes) (e : Exn) : Frame.NotMd (.json (errorFrame msg e)) := by
  cases e <;> exact Frame.isMd_string_cons _ (by decide)

/-- The error reply of `OnMessageSync` is not market data. -/
theorem keepsSync_onMessageSync (hb : KeepsSync F (onMessageBody env w msg token)) :
    KeepsSync F (onMessageSync env w msg token) := by
  intro s
  have h₁ := hb s
  unfold onMessageSync
  split
  · rename_i e s' h
    rw [h] at h₁
    exact h₁.shrink_right ((kept_send_footprint (errorFrame_notMd msg e) : Kept SubsShrink _) s')
  · exact h₁

/-- The login gate keeps `subs_`, and its error reply is not market data. -/
theorem keepsSync_onAction {a : Bytes} {j : Json} (ha : a.isEmpty = false) (hl : a ≠ utf8 "login")
    (hd : ∀ u, KeepsSync F (dispatch env w u a j)) : KeepsSync F (onAction env w token a j) := by
  unfold onAction
  rw [if_neg (by simp [ha]), if_neg hl]
  have hjp : ∀ user : Option User, KeepsSync F (match user with
      | none => send env loginFirstFrame
      | some u => dispatch env w u a j)
    | none => .of_shrink (kept_send_footprint (Frame.isMd_string_cons _ (by decide)))
    | some u => hd u
  refine .quiet_bind kept_get fun s => ?_
  dsimp only
  split
  · exact .quiet_bind (kept_pure _) hjp
  · exact .quiet_bind kept_get fun _ => .quiet_bind (kept_modifyConn_sameSubs fun _ => ⟨rfl, rfl⟩) fun _ =>
      .quiet_bind (kept_pure _) hjp

theorem keepsSync_request {a : Bytes} {rest : List Json} (hp : Json.parse msg = .ok (.array (.string a :: rest)))
    (ha : a.isEmpty = false) (hl : a ≠ utf8 "login") (hd : ∀ u, KeepsSync F (dispatch env w u a (.array (.string a :: rest)))) :
    KeepsSync F (onMessageSync env w msg token) :=
  keepsSync_onMessageSync (by rw [onMessageBody_of_parse hp]; exact keepsSync_onAction ha hl hd)

end Requests

/-- The arguments of a request: the elements after its action. -/
def requestArgs (msg : Bytes) : List Json :=
  match Json.parse msg with
  | .ok j => args j
  | .error _ => []

/-- The events of a market-data session: a tick, an `unsub`, or a `sub` whose ids are all
integers. -/
def Event.SubOrTick : Event → Prop
  | .tick => True
  | .message msg _ => requestAction msg = some (utf8 "unsub") ∨
      requestAction msg = some (utf8 "sub") ∧ ∀ x ∈ requestArgs msg, x.isNumberInteger = true
  | _ => False

section Runs

variable {F : Feed} {env : Env}

theorem keepsSync_handle {w : World} (hw : w.Follows F) {e : Event} (he : e.SubOrTick) : KeepsSync F (e.handle env w) := by
  cases e with
  | tick => exact keepsSync_onTimer hw
  | message msg token =>
    rcases he with hu | ⟨hs, hx⟩
    · obtain ⟨rest, hp⟩ := parse_of_requestAction hu
      exact keepsSync_request hp rfl (by decide) fun u => by
        rw [dispatch_unsub]
        exact .of_shrink (kept_unsubLoop env _)
    · obtain ⟨rest, hp⟩ := parse_of_requestAction hs
      have hj : ∀ x ∈ args (.array (.string (utf8 "sub") :: rest)), x.isNumberInteger = true := by
        simpa only [requestArgs, hp] using hx
      exact keepsSync_request hp rfl (by decide) fun u => by
        rw [dispatch_sub]
        exact keepsSync_onSub hw hj
  | _ => exact he.elim

/-- A client in step stays in step over a run of ticks, `unsub`s and `sub`s of integer ids
against engines that follow the feed. -/
theorem synced_run {r : List (World × Event)} (hr : ∀ p ∈ r, p.1.Follows F ∧ p.2.SubOrTick) :
    ∀ {s : St} {v : Int → MarketData}, Synced F v s → Synced F (clientRun env v r s) (M.final (run env r s)) := by
  induction r with
  | nil => exact fun hv => hv
  | cons p r ih =>
    intro s v hv
    obtain ⟨w, e⟩ := p
    rw [List.forall_mem_cons] at hr
    have hstep : SyncStep F s (M.final (e.handle env w s)) := keepsSync_handle hr.1.1 hr.1.2 s
    cases h : e.handle env w s with
    | ok _ s' =>
      rw [h] at hstep
      rw [run_cons_of_ok h]
      simp only [clientRun, h]
      exact ih hr.2 (hstep v hv).2
    | error x s' =>
      rw [h] at hstep
      rw [run_cons_of_error h]
      simp only [clientRun, h]
      exact (hstep v hv).2

end Runs

/-- On a session that starts with no subscriptions and an open transport, after any run of
ticks, `unsub`s and `sub`s of integer ids against engines that follow a feed stamping every
change with a new second, a client that read every `"md"` frame, from the zero snapshot when
an entry was inserted, holds `subs_[id].first` for every subscribed `id`. -/
theorem client_holds_last_sent (env : Env) (F : Feed) (r : List (World × Event))
    (hr : ∀ p ∈ r, p.1.Follows F ∧ p.2.SubOrTick) (s : St) (hs : s.conn.subs = ∅) (hc : s.conn.closed = false)
    (id : Int) (e : SubEntry) (he : (M.final (run env r s)).conn.subs.lookup id = some e) :
    clientRun env (fun _ => {}) r s id = e.1 := by
  have hnone : ∀ id, id ∉ s.conn.subs := fun id => by
    rw [hs]
    exact AList.not_mem_empty id
  have h₀ : Synced F (fun _ => {}) s := ⟨hc, fun id hm => absurd hm (hnone id), fun id => by
    rw [Session.lastSent_of_not_mem (hnone id)]
    exact (F.snap_zero id).symm⟩
  rw [(synced_run hr h₀).view id (AList.lookup_isSome.1 (by rw [he]; rfl)), Session.lastSent_of_lookup he]

/-- A feed whose close is one at every second but zero. -/
def oneCloseFeed : Feed :=
  ⟨fun _ t => if t = 0 then {} else { tm := t, trade := { close := 1 } }, fun _ => if_pos rfl⟩

/-- `twoSecurityWorld` at second `t` of `oneCloseFeed`. -/
def feedWorld (t : Int) : World :=
  { twoSecurityWorld with marketData := ⟨fun id => oneCloseFeed.snap id t, [], []⟩ }

theorem feedWorld_follows (t : Int) : (feedWorld t).Follows oneCloseFeed := by
  refine ⟨fun id => ?_, fun id sec h => ?_⟩
  · show oneCloseFeed.snap id t = oneCloseFeed.snap id (oneCloseFeed.snap id t).tm
    by_cases ht : t = 0 <;> simp [oneCloseFeed, ht]
  · simp only [feedWorld, twoSecurityWorld] at h
    split_ifs at h
    cases h
    rfl

/-- `["sub",42]` at second 5, then a tick at second 6. -/
def subThenTick : List (World × Event) :=
  [(feedWorld 5, .message (utf8 "[\"sub\",42]") []), (feedWorld 6, .tick)]

theorem alice_holds_second_six :
    (M.final (run plainEnv subThenTick aliceSt)).conn.subs.lookup 42 = some (oneCloseFeed.snap 42 6, 1) ∧
      clientRun plainEnv (fun _ => {}) subThenTick aliceSt 42 = oneCloseFeed.snap 42 6 :=
  have he : (M.final (run plainEnv subThenTick aliceSt)).conn.subs.lookup 42 = some (oneCloseFeed.snap 42 6, 1) := by
    decide
  ⟨he, client_holds_last_sent plainEnv oneCloseFeed subThenTick
    (List.forall_mem_cons.2 ⟨⟨feedWorld_follows 5, .inr ⟨rfl, by decide⟩⟩,
      List.forall_mem_cons.2 ⟨⟨feedWorld_follows 6, trivial⟩, List.forall_mem_nil _⟩⟩)
    aliceSt rfl rfl 42 _ he⟩

/-! ## A change within the second -/

/-- A tick that finds the snapshot of a subscribed security changed within the second sends no
entry for it, so a client's picture stays as it was, yet records the new snapshot as the one
last sent. -/
theorem tick_records_unsent_snapshot (env : Env) (w : World) (s : St) (id : Int) (e : SubEntry)
    (hc : s.conn.closed = false) (he : s.conn.subs.lookup id = some e) (htm : (w.marketData.get id).tm = e.1.tm)
    (x : MarketData) :
    replay id x ((M.final (publishSubs env w s)).out.drop s.out.length) = x ∧
      (M.final (publishSubs env w s)).conn.lastSent id = w.marketData.get id := by
  rw [publishSubs_apply hc, M.final_ok]
  refine ⟨?_, by simp [Session.lastSent, lookup_refreshSubs, he]⟩
  rw [List.drop_left, replay_mdOut, foldl_flatMap_mdEntry _ s.conn.subs.nodupKeys]
  show ((s.conn.subs.lookup id).map _).getD x = x
  simp [he, mdEntry, htm]

/-- `aliceSt` after `["sub",42]` at second 5 of `oneCloseFeed`. -/
def subbed42St : St := M.final (onMessageSync plainEnv (feedWorld 5) (utf8 "[\"sub\",42]") [] aliceSt)

/-- `feedWorld 5` after the close of every security moved to two within the second. -/
def closeTwoWorld : World :=
  { feedWorld 5 with marketData := ⟨fun _ => { tm := 5, trade := { close := 2 } }, [], []⟩ }

theorem close_two_never_sent :
    subbed42St.conn.subs.lookup 42 = some (oneCloseFeed.snap 42 5, 1) ∧
      replay 42 (oneCloseFeed.snap 42 5)
          ((M.final (publishSubs plainEnv closeTwoWorld subbed42St)).out.drop subbed42St.out.length) =
        oneCloseFeed.snap 42 5 ∧
      (M.final (publishSubs plainEnv closeTwoWorld subbed42St)).conn.lastSent 42 = { tm := 5, trade := { close := 2 } } :=
  have he : subbed42St.conn.subs.lookup 42 = some (oneCloseFeed.snap 42 5, 1) := by decide
  ⟨he, tick_records_unsent_snapshot plainEnv closeTwoWorld subbed42St 42 _ rfl he rfl _⟩

/-! ## A `sub` that throws -/

section SubThrow

variable (env : Env) (w : World)

/-- One id of `sub` ends normally and sends nothing. -/
theorem subOne_ok (jout : Json) (id : Int) (t : St) : ∃ r t', subOne env w jout id t = .ok r t' ∧ t'.out = t.out := by
  cases hs : w.securities.get (env.secId id) with
  | none =>
    obtain ⟨t', h, ho, -⟩ := subOne_none jout t hs
    exact ⟨_, t', h, ho⟩
  | some sec =>
    obtain ⟨t', _, h, -, ho, -⟩ := subOne_some jout t hs
    exact ⟨_, t', h, ho⟩

/-- The loop of `sub` over integer ids ends normally and sends nothing. -/
theorem subLoop_ok (pre : List Json) (hpre : ∀ x ∈ pre, x.isNumberInteger = true) (jout : Json) (t : St) :
    ∃ r t', (pre.foldlM (fun jout x => do subOne env w jout (← getInt64 env x)) jout : M Json) t = .ok r t' ∧
      t'.out = t.out := by
  induction pre generalizing jout t with
  | nil => exact ⟨jout, t, rfl, rfl⟩
  | cons x pre ih =>
    obtain ⟨r, t1, h1, ho1⟩ := subOne_ok env w jout x.int64 t
    obtain ⟨r', t', h', ho'⟩ := ih (fun y hy => hpre y (List.mem_cons_of_mem _ hy)) r t1
    refine ⟨r', t', ?_, ho'.trans ho1⟩
    simp only [List.foldlM_cons, getInt64_of_isNumberInteger env (hpre x (List.mem_cons_self _ _)), pure_bind]
    rw [M.bind_of_ok h1, h']

end SubThrow

end OpenTrade
