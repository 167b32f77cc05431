import OpenTrade.Props.ClientView

/-!
# What a client learns from the periodic publisher

Over a run of ticks, with the engines' tables changing arbitrarily between them, a tick sends
a `"market"` frame for exactly the adapters whose flag differs from the last one observed
(`lastObserved`), and a client that reads every frame of the run holds, after each tick, the
flag of every adapter and, once `sub_pnl_` is set, the PnL of every position and sub-account
of the user as the engines show them at that tick.

## Implementation notes

The adapter maps, `sub_positions_` and `pnls_` are maps in the source, so their keys are
distinct; the model's lists carry that as `World.Publishable`, with the condition that every
adapter name is UTF-8. Without it `dump` throws on the adapter's frame after `ecs_` or `mds_`
recorded the flag.
-/

namespace OpenTrade

/-- A run of ticks, each against the engines' state it meets. -/
def ticks (ws : List World) : List (World × Event) := ws.map fun w => (w, .tick)

/-- The flag of the adapter `n` at the last of the ticks `ws` whose table listed it, or `m₀ n`
when none did. -/
def lastObserved (adapters : World → List (Bytes × Bool)) (m₀ : Bytes → Option Bool) (ws : List World)
    (n : Bytes) : Option Bool :=
  ws.foldl (fun b w => ((adapters w).lookup n).or b) (m₀ n)

/-- A client that held `v`, after reading the frames `fs` in order. -/
def ClientView.readAll (v : ClientView) (fs : List Frame) : ClientView := fs.foldl ClientView.read v

theorem lookup_eq_none_of_not_mem {β : Type} {k : Bytes} {l : List (Bytes × β)} (h : k ∉ l.map Prod.fst) :
    l.lookup k = none := by
  induction l with
  | nil => rfl
  | cons a l ih =>
    rw [List.map_cons, List.mem_cons, not_or] at h
    rw [show (a :: l).lookup k = ((a.1, a.2) :: l).lookup k from rfl, lookup_cons_ite, if_neg h.1, ih h.2]

/-- With distinct names, an adapter loop leaves the flag of every listed adapter in the record
and the others as they were. -/
theorem adapterDiff_foldl_step {kind : String} {seen : Session → Bytes → Option Bool}
    {put : Session → (Bytes → Option Bool) → Session} {l : List (Bytes × Bool)} (hl : (l.map Prod.fst).Nodup)
    (m : Bytes → Option Bool) : l.foldl (adapterDiff kind seen put).step m = fun n => (l.lookup n).or (m n) := by
  induction l generalizing m with
  | nil => rfl
  | cons a l ih =>
    rw [List.map_cons, List.nodup_cons] at hl
    rw [List.foldl_cons, ih hl.2]
    funext n
    rw [show (a :: l).lookup n = ((a.1, a.2) :: l).lookup n from rfl, lookup_cons_ite]
    by_cases hn : n = a.1
    · rw [if_pos hn, hn, lookup_eq_none_of_not_mem hl.1, Diff.step]
      simp [adapterDiff]
    · rw [if_neg hn, Diff.step_apply_of_ne (d := adapterDiff kind seen put) hn]

/-- With distinct names, the frames of an adapter loop are those of the adapters whose flag
differs from the record before it. -/
theorem adapterDiff_frames {kind : String} {seen : Session → Bytes → Option Bool}
    {put : Session → (Bytes → Option Bool) → Session} {l : List (Bytes × Bool)} (hl : (l.map Prod.fst).Nodup)
    (m : Bytes → Option Bool) :
    (adapterDiff kind seen put).frames l m = (l.filter fun a => m a.1 ≠ some a.2).map (marketFrame kind) := by
  rw [Diff.frames_eq_filter hl]
  rfl

/-- A market frame is of its own kind only. -/
theorem isMarketOf_marketFrame (kind kind' : String) (a : Bytes × Bool) :
    (marketFrame kind a).isMarketOf kind' = (utf8 kind == utf8 kind') := by
  simp [marketFrame, Frame.isMarketOf]

/-- Of a tick's frames, the `"market"` frames of each kind are those of its adapter loop. -/
theorem filter_isMarketOf_tick {l l' : List (Bytes × Bool)} {m m' : Bytes → Option Bool} {rest : List Frame}
    (hrest : ∀ f ∈ rest, ∀ kind, Frame.isMarketOf kind f = false) :
    (exchangeDiff.frames l m ++ dataDiff.frames l' m' ++ rest).filter (Frame.isMarketOf "exchange") =
        exchangeDiff.frames l m ∧
      (exchangeDiff.frames l m ++ dataDiff.frames l' m' ++ rest).filter (Frame.isMarketOf "data") =
        dataDiff.frames l' m' := by
  have hkind : ∀ (kind kind' : String) (d : Diff (Bytes × Bool) Bytes (Option Bool)), d = adapterDiff kind d.seen d.put →
      ∀ l m, ∀ f ∈ d.frames l m, Frame.isMarketOf kind' f = (utf8 kind == utf8 kind') := fun kind kind' d hd l m =>
    d.forall_mem_frames (P := fun f => Frame.isMarketOf kind' f = (utf8 kind == utf8 kind'))
      (fun _ a => by rw [hd]; exact isMarketOf_marketFrame kind kind' a) l m
  have hee : (exchangeDiff.frames l m).filter (Frame.isMarketOf "exchange") = exchangeDiff.frames l m :=
    List.filter_eq_self.2 fun f hf => by rw [hkind "exchange" _ exchangeDiff rfl l m f hf]; decide
  have hed : (exchangeDiff.frames l m).filter (Frame.isMarketOf "data") = [] :=
    List.filter_eq_nil_iff.2 fun f hf => by rw [hkind "exchange" _ exchangeDiff rfl l m f hf]; decide
  have hde : (dataDiff.frames l' m').filter (Frame.isMarketOf "exchange") = [] :=
    List.filter_eq_nil_iff.2 fun f hf => by rw [hkind "data" _ dataDiff rfl l' m' f hf]; decide
  have hdd : (dataDiff.frames l' m').filter (Frame.isMarketOf "data") = dataDiff.frames l' m' :=
    List.filter_eq_self.2 fun f hf => by rw [hkind "data" _ dataDiff rfl l' m' f hf]; decide
  have hrest' : ∀ kind, rest.filter (Frame.isMarketOf kind) = [] := fun kind =>
    List.filter_eq_nil_iff.2 fun f hf => by rw [hrest f hf kind]; decide
  simp only [List.filter_append, hee, hed, hde, hdd, hrest', List.append_nil, List.nil_append, and_self]

/-! ## A run of ticks -/

/-- What a run of the ticks `ws` keeps between the state it starts in and the one it reaches:
the connection open with its user, the flags those last observed, and a client that held the
records before holds them after reading the run's frames. -/
structure Published (ws : List World) (s t : St) : Prop where
  closed : t.conn.closed = s.conn.closed
  user : t.conn.user = s.conn.user
  subPnl : t.conn.subPnl = s.conn.subPnl
  ecs : t.conn.ecs = lastObserved (·.marketData.ecAdapters) s.conn.ecs ws
  mds : t.conn.mds = lastObserved (·.marketData.mdAdapters) s.conn.mds ws
  read : ∃ fs, t.out = s.out ++ fs ∧ s.conn.published.readAll fs = t.conn.published

section Runs

variable {env : Env}

theorem Ticked.published {w : World} {s t : St} (hw : w.Publishable) (h : Ticked w s t) : Published [w] s t := by
  obtain ⟨rest, -, hout⟩ := h.out
  refine ⟨h.closed, h.user, h.subPnl, ?_, ?_, ⟨_, hout, ?_⟩⟩
  · rw [h.ecs, exchangeDiff, adapterDiff_foldl_step hw.ec_nodup]
    rfl
  · rw [h.mds, dataDiff, adapterDiff_foldl_step hw.md_nodup]
    rfl
  · have := h.read
    rwa [hout, List.drop_left] at this

theorem Published.cons {w : World} {ws : List World} {s t u : St} (h : Published [w] s t) (h' : Published ws t u) :
    Published (w :: ws) s u := by
  obtain ⟨fs, hfs, hv⟩ := h.read
  obtain ⟨fs', hfs', hv'⟩ := h'.read
  refine ⟨h'.closed.trans h.closed, h'.user.trans h.user, h'.subPnl.trans h.subPnl, ?_, ?_,
    ⟨fs ++ fs', by rw [hfs', hfs, List.append_assoc], ?_⟩⟩
  · rw [h'.ecs, h.ecs]
    rfl
  · rw [h'.mds, h.mds]
    rfl
  · rw [ClientView.readAll, List.foldl_append]
    exact (congrArg (List.foldl ClientView.read · fs') hv).trans hv'

/-- A run of ticks on an open connection whose user is known once `sub_pnl_` is set never
aborts, and keeps what `Published` says. -/
theorem run_ticks_published (ws : List World) (hw : ∀ w ∈ ws, w.Publishable) (s : St)
    (hc : s.conn.closed = false) (hu : s.conn.subPnl = true → s.conn.user ≠ none) :
    ∃ t, run env (ticks ws) s = .ok () t ∧ Published ws s t := by
  induction ws generalizing s with
  | nil => exact ⟨s, rfl, rfl, rfl, rfl, rfl, rfl, ⟨[], (List.append_nil _).symm, rfl⟩⟩
  | cons w ws ih =>
    obtain ⟨s₁, h₁, ht₁⟩ := @onTimer_ticked env w s (hw w (List.mem_cons_self _ _)) hc hu
    have hp₁ := ht₁.published (hw w (List.mem_cons_self _ _))
    obtain ⟨t, ht, hp⟩ := ih (fun x hx => hw x (List.mem_cons_of_mem _ hx)) s₁ (hp₁.closed.trans hc)
      (by rw [hp₁.subPnl, hp₁.user]; exact hu)
    exact ⟨t, (run_cons_of_ok (e := .tick) h₁).trans ht, hp₁.cons hp⟩

end Runs

/-- Over any run of ticks on an open connection, with tables that are maps and adapter names
that are UTF-8: the next tick sends a `"market"` frame for exactly the adapters whose flag
differs from the last one observed, in the order of the table; and a client that read every
frame holds each listed adapter's flag and, once `sub_pnl_` is set, the PnL of each of the
user's positions and sub-accounts as the engines show them at that tick. -/
theorem publisher_reports_changes (env : Env) (s : St) (hc : s.conn.closed = false)
    (hu : s.conn.subPnl = true → s.conn.user ≠ none) (ws : List World) (w : World)
    (hw : ∀ x ∈ ws ++ [w], x.Publishable) :
    ∃ t t', run env (ticks ws) s = .ok () t ∧ onTimer env w t = .ok () t' ∧
      (t'.out.drop t.out.length).filter (Frame.isMarketOf "exchange") =
        (w.marketData.ecAdapters.filter fun a =>
          lastObserved (·.marketData.ecAdapters) s.conn.ecs ws a.1 ≠ some a.2).map (marketFrame "exchange") ∧
      (t'.out.drop t.out.length).filter (Frame.isMarketOf "data") =
        (w.marketData.mdAdapters.filter fun a =>
          lastObserved (·.marketData.mdAdapters) s.conn.mds ws a.1 ≠ some a.2).map (marketFrame "data") ∧
      (∀ a ∈ w.marketData.ecAdapters, (s.conn.published.readAll (t'.out.drop s.out.length)).ecs a.1 = some a.2) ∧
      (∀ a ∈ w.marketData.mdAdapters, (s.conn.published.readAll (t'.out.drop s.out.length)).mds a.1 = some a.2) ∧
      ∀ u, s.conn.subPnl = true → s.conn.user = some u →
        (∀ p ∈ w.positions.subPositions, u.owns p.1.1 = true →
          (s.conn.published.readAll (t'.out.drop s.out.length)).singlePnls p.1 =
            (p.2.realizedPnl, p.2.unrealizedPnl)) ∧
        ∀ p ∈ w.positions.pnls, u.owns p.1 = true →
          (s.conn.published.readAll (t'.out.drop s.out.length)).pnls p.1 = (p.2.realized, p.2.unrealized) := by
  obtain ⟨t, ht, hp⟩ := @run_ticks_published env ws (fun x hx => hw x (List.mem_append_left _ hx)) s hc hu
  have hwp := hw w (List.mem_append_right _ (List.mem_singleton_self w))
  obtain ⟨t', ht', htk⟩ := @onTimer_ticked env w t hwp (hp.closed.trans hc) (by rw [hp.subPnl, hp.user]; exact hu)
  obtain ⟨rest, hrest, hout⟩ := htk.out
  obtain ⟨fs, hfs, hread⟩ := hp.read
  have hv : s.conn.published.readAll (t'.out.drop s.out.length) = t'.conn.published := by
    have := htk.read
    rw [hout, List.drop_left, ← hread] at this
    rw [hout, hfs, List.append_assoc, List.drop_left, ClientView.readAll, List.foldl_append]
    exact this
  obtain ⟨hex, hdata⟩ :=
    @filter_isMarketOf_tick w.marketData.ecAdapters w.marketData.mdAdapters t.conn.ecs t.conn.mds _ hrest
  refine ⟨t, t', ht, ht', ?_, ?_, fun a ha => ?_, fun a ha => ?_, fun u hs hu' => ⟨fun p hp' hown => ?_, fun p hp' hown => ?_⟩⟩
  · rw [hout, List.drop_left, hex, exchangeDiff, adapterDiff_frames hwp.ec_nodup, hp.ecs]
  · rw [hout, List.drop_left, hdata, dataDiff, adapterDiff_frames hwp.md_nodup, hp.mds]
  · rw [hv]
    exact (congrFun htk.ecs a.1).trans (Diff.foldl_step_of_mem hwp.ec_nodup ha rfl _)
  · rw [hv]
    exact (congrFun htk.mds a.1).trans (Diff.foldl_step_of_mem hwp.md_nodup ha rfl _)
  · rw [hv]
    obtain ⟨hsp, -⟩ := htk.pnls u (hp.subPnl.trans hs) (hp.user.trans hu')
    exact (congrFun hsp p.1).trans (Diff.foldl_step_of_mem hwp.positions_nodup hp' hown _)
  · rw [hv]
    obtain ⟨-, hpn⟩ := htk.pnls u (hp.subPnl.trans hs) (hp.user.trans hu')
    exact (congrFun hpn p.1).trans (Diff.foldl_step_of_mem hwp.pnls_nodup hp' hown _)

/-- A tick's tables: one exchange adapter, and one position and one aggregate of sub-account 1. -/
def publisherWorld : World :=
  { quietWorld with
    marketData := ⟨fun _ => {}, [], [(utf8 "X", true)]⟩
    positions := { quietWorld.positions with
      subPositions := [((1, 7), ⟨1, 10, 2, 3, 0, 0⟩)]
      pnls := [(1, ⟨2, 3⟩)] } }

/-- `alice` logged in, with `sub_pnl_` set. -/
def alicePnlSt : St := { St.init with conn := { user := some alice, subPnl := true } }

theorem publishable_publisherWorld : publisherWorld.Publishable :=
  ⟨by decide, by decide, by decide, by decide, by decide, by decide⟩

/-- After the first tick, a client of `alice` holds the adapter's flag and both PnLs. -/
theorem alice_sees_first_tick :
    ∃ t', onTimer plainEnv publisherWorld alicePnlSt = .ok () t' ∧
      (alicePnlSt.conn.published.readAll t'.out).ecs (utf8 "X") = some true ∧
      (alicePnlSt.conn.published.readAll t'.out).singlePnls (1, 7) = (2, 3) ∧
      (alicePnlSt.conn.published.readAll t'.out).pnls 1 = (2, 3) := by
  obtain ⟨t, t', ht, ht', -, -, hec, -, hpnl⟩ := publisher_reports_changes plainEnv alicePnlSt rfl
    (fun _ => Option.some_ne_none _) [] publisherWorld
    (fun x hx => by
      rw [List.nil_append, List.mem_singleton] at hx
      exact hx ▸ publishable_publisherWorld)
  cases ht
  obtain ⟨hsp, hpn⟩ := hpnl alice rfl rfl
  exact ⟨t', ht', hec _ (List.mem_singleton_self _), hsp _ (List.mem_singleton_self _) rfl,
    hpn _ (List.mem_singleton_self _) rfl⟩

/-- An exchange adapter whose name is the byte `0xFF`, which is not UTF-8. -/
def badAdapterWorld : World := { quietWorld with marketData := ⟨fun _ => {}, [], [([0xFF], true)]⟩ }

/-- A tick meeting an adapter name that is not UTF-8 records the flag in `ecs_`, then `dump`
throws before the frame is sent: the tick ends there, and the client never learns the flag. -/
theorem unsendable_adapter_recorded_unsent :
    ∃ e t, onTimer plainEnv badAdapterWorld St.init = .error e t ∧ t.out = [] ∧ t.conn.ecs [0xFF] = some true :=
  ⟨_, _, rfl, rfl, rfl⟩

end OpenTrade
