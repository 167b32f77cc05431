import OpenTrade.Props.LoginBinding
import OpenTrade.Props.MarketDataSync

/-!
# One tick of the periodic publisher

A tick re-arms the timer, then diffs three kinds of records against the engines: the
connectivity flag of every exchange and market-data adapter (`ecs_`, `mds_`), the PnL of every
position (`single_pnls_`) and the aggregate PnL of every sub-account (`pnls_`). Each loop sends
a frame for an entry whose value differs from the record and records the value. A client that
reads the frames (`ClientView.read`) holds what the session recorded.

## Implementation notes

The three loops share one lemma: a `Diff` names a record, the entries a loop reports, their
keys and values and the frame sent for each, and `Diff.forM_eq` computes the whole loop from
the body's one-step behaviour (`Diff.Implements`) and the record's laws (`Diff.Lawful`). The
frames a loop sends depend on the record as the loop updates it; when the keys are distinct,
as in the source's maps, they are those of the entries that differ from the record before the
loop (`Diff.frames_eq_filter`).
-/

namespace OpenTrade

/-- The bytes of a string literal are well-formed UTF-8. -/
theorem utf8Run_utf8 (str : String) : Json.utf8Run .accept (utf8 str) = some .accept := by
  unfold utf8
  induction str.toList with
  | nil => rfl
  | cons c cs ih =>
    rw [List.flatMap_cons]
    have hc : c.toNat < 0xD800 ∨ 0xE000 ≤ c.toNat ∧ c.toNat < 0x110000 := by
      have := c.valid
      simp only [UInt32.isValidChar, Nat.isValidChar] at this
      change c.val.toNat < 0xD800 ∨ 0xE000 ≤ c.val.toNat ∧ c.val.toNat < 0x110000
      omega
    rw [Json.utf8Run_append_of_accept (Json.utf8Run_encodeCodepoint hc), ih]

theorem Json.WellFormed.array_cons {x : Json} {xs : List Json} (hx : Json.WellFormed x)
    (hxs : Json.WellFormed (.array xs)) : Json.WellFormed (.array (x :: xs)) := by
  cases hxs with
  | array h => exact .array (List.forall_mem_cons.2 ⟨hx, h⟩)

theorem Json.WellFormed.nil : Json.WellFormed (.array []) := .array fun _ h => (List.not_mem_nil _ h).elim

theorem send_of_wellFormed {env : Env} {j : Json} (hj : Json.WellFormed j) : send env j = emit (.json j) := by
  obtain ⟨_, hd⟩ := Json.dump_ok_of_wellFormed env.fmt hj
  exact send_of_dump_ok hd

/-! ## The client's view -/

/-- What a client holds from the publisher's frames: the last flag of every adapter of each
kind, and the realized and unrealized PnL of every position and every sub-account. -/
structure ClientView where
  ecs : Bytes → Option Bool
  mds : Bytes → Option Bool
  singlePnls : Int × Int → ℚ × ℚ
  pnls : Int → ℚ × ℚ

/-- Before any frame: no flag, and every PnL zero. -/
def ClientView.init : ClientView := ⟨fun _ => none, fun _ => none, fun _ => (0, 0), fun _ => (0, 0)⟩

/-- The rest of a `"market"` frame: `[kind, name, connected]`. -/
def ClientView.readMarket (v : ClientView) : List Json → ClientView
  | [.string k, .string n, .boolean b] =>
    if k = utf8 "exchange" then { v with ecs := Function.update v.ecs n (some b) }
    else if k = utf8 "data" then { v with mds := Function.update v.mds n (some b) }
    else v
  | _ => v

/-- The rest of a `"pnl"` frame: `[acc, sec, unrealized]`, and the realized PnL after it
when the frame carries one. -/
def ClientView.readPnl (v : ClientView) : List Json → ClientView
  | [.numberInteger acc, .numberInteger sec, .numberFloat u] =>
    { v with singlePnls := Function.update v.singlePnls (acc, sec) ((v.singlePnls (acc, sec)).1, u) }
  | [.numberInteger acc, .numberInteger sec, .numberFloat u, .numberFloat r] =>
    { v with singlePnls := Function.update v.singlePnls (acc, sec) (r, u) }
  | _ => v

/-- The rest of a `"Pnl"` frame of the publisher: `[acc, time, realized, unrealized]`. -/
def ClientView.readAggregate (v : ClientView) : List Json → ClientView
  | [.numberInteger acc, .numberInteger _, .numberFloat r, .numberFloat u] =>
    { v with pnls := Function.update v.pnls acc (r, u) }
  | _ => v

/-- A client reading one frame, by the string it starts with. -/
def ClientView.read (v : ClientView) : Frame → ClientView
  | .json (.array (.string m :: args)) =>
    if m = utf8 "market" then v.readMarket args
    else if m = utf8 "pnl" then v.readPnl args
    else if m = utf8 "Pnl" then v.readAggregate args
    else v
  | _ => v

/-- The session's records of what it last sent, as a client would hold them. -/
def Session.published (c : Session) : ClientView := ⟨c.ecs, c.mds, c.singlePnls, c.pnls⟩

/-- `["market", kind, name, connected]`. -/
def marketFrame (kind : String) (a : Bytes × Bool) : Frame := .json (.array ["market", kind, .string a.1, .boolean a.2])

/-- A `"market"` frame of the kind. -/
def Frame.isMarketOf (kind : String) : Frame → Bool
  | .json (.array (.string m :: .string k :: _)) => m == utf8 "market" && k == utf8 kind
  | _ => false

theorem Frame.isMarketOf_of_head {m : Bytes} (hm : m ≠ utf8 "market") (kind : String) (args : List Json) :
    Frame.isMarketOf kind (.json (.array (.string m :: args))) = false := by
  rcases args with _ | ⟨_ | _ | _ | _ | _ | _ | _ | _, _⟩ <;> simp [Frame.isMarketOf, hm]

theorem ClientView.read_md (v : ClientView) (es : List Json) :
    v.read (.json (.array (.string (utf8 "md") :: es))) = v := by
  simp only [ClientView.read]
  rw [if_neg (by decide), if_neg (by decide), if_neg (by decide)]

theorem foldl_read_mdOut (v : ClientView) (es : List Json) : (mdOut es).foldl ClientView.read v = v := by
  cases es with
  | nil => rfl
  | cons e es => exact v.read_md (e :: es)

theorem isMarketOf_mdOut {es : List Json} : ∀ f ∈ mdOut es, ∀ kind, Frame.isMarketOf kind f = false := by
  cases es with
  | nil => simp [mdOut]
  | cons e es => simpa [mdOut] using fun kind => Frame.isMarketOf_of_head (by decide) kind (e :: es)

/-! ## A loop that diffs a record -/

/-- A record of the session that a loop of the publisher diffs the engines against: the
entries it reports, the key and value of an entry, and the frame it sends for an entry given
the value recorded before. -/
structure Diff (α κ V : Type) where
  seen : Session → κ → V
  put : Session → (κ → V) → Session
  wanted : α → Bool
  key : α → κ
  val : α → V
  frame : V → α → Frame

namespace Diff

variable {α κ V : Type} [DecidableEq κ] [DecidableEq V] (d : Diff α κ V)

/-- The entry is reported and differs from the record `m`. -/
def changed (m : κ → V) (a : α) : Bool := d.wanted a && decide (m (d.key a) ≠ d.val a)

/-- The record after the entry. -/
def step (m : κ → V) (a : α) : κ → V := if d.wanted a then Function.update m (d.key a) (d.val a) else m

/-- The frames of the loop over `l`, the record starting at `m`. -/
def frames : List α → (κ → V) → List Frame
  | [], _ => []
  | a :: l, m => (if d.changed m a then [d.frame (m (d.key a)) a] else []) ++ frames l (d.step m a)

/-- `put` writes the record `seen` reads and nothing a loop reads besides, and reading the
frame of a changed entry does to a client what recording it does to the session. -/
structure Lawful : Prop where
  seen_put : ∀ c m, d.seen (d.put c m) = m
  put_put : ∀ c m m', d.put (d.put c m) m' = d.put c m'
  put_seen : ∀ c, d.put c (d.seen c) = c
  closed_put : ∀ c m, (d.put c m).closed = c.closed
  read_frame : ∀ c a, d.changed (d.seen c) a = true →
    c.published.read (d.frame (d.seen c (d.key a)) a) = (d.put c (d.step (d.seen c) a)).published

/-- `body a` is the loop's body for the entry `a` on an open connection: it sends the frame
and records the value when the entry changed, and does nothing otherwise. -/
def Implements (body : α → M Unit) (a : α) : Prop :=
  ∀ s : St, s.conn.closed = false → body a s =
    if d.changed (d.seen s.conn) a then
      .ok () { s with
        conn := d.put s.conn (d.step (d.seen s.conn) a)
        out := s.out ++ [d.frame (d.seen s.conn (d.key a)) a] }
    else .ok () s

variable {d}

theorem step_of_not_changed {m : κ → V} {a : α} (h : d.changed m a = false) : d.step m a = m := by
  unfold step
  unfold changed at h
  split_ifs with hw
  · rw [hw, Bool.true_and, decide_eq_false_iff_not, not_not] at h
    rw [← h, Function.update_eq_self]
  · rfl

omit [DecidableEq V] in
theorem step_apply_of_ne {m : κ → V} {a : α} {k : κ} (h : k ≠ d.key a) : d.step m a k = m k := by
  unfold step
  split_ifs
  · exact Function.update_noteq h _ _
  · rfl

omit [DecidableEq V] in
theorem foldl_step_of_not_mem {k : κ} {l : List α} (h : k ∉ l.map d.key) (m : κ → V) :
    l.foldl d.step m k = m k := by
  induction l generalizing m with
  | nil => rfl
  | cons a l ih =>
    rw [List.map_cons, List.mem_cons, not_or] at h
    rw [List.foldl_cons, ih h.2, step_apply_of_ne h.1]

omit [DecidableEq V] in
/-- With distinct keys, the loop leaves the value of every reported entry in the record. -/
theorem foldl_step_of_mem {l : List α} (hl : (l.map d.key).Nodup) {a : α} (ha : a ∈ l) (hw : d.wanted a = true)
    (m : κ → V) : l.foldl d.step m (d.key a) = d.val a := by
  induction l generalizing m with
  | nil => cases ha
  | cons b l ih =>
    rw [List.map_cons, List.nodup_cons] at hl
    rw [List.foldl_cons]
    rcases List.mem_cons.1 ha with rfl | ha
    · rw [foldl_step_of_not_mem hl.1, step, if_pos hw, Function.update_same]
    · exact ih hl.2 ha _

/-- With distinct keys, the loop's frames are those of the entries that differ from the
record before it. -/
theorem frames_eq_filter {l : List α} (hl : (l.map d.key).Nodup) (m : κ → V) :
    d.frames l m = (l.filter (d.changed m)).map fun a => d.frame (m (d.key a)) a := by
  induction l generalizing m with
  | nil => rfl
  | cons a l ih =>
    rw [List.map_cons, List.nodup_cons] at hl
    have hne : ∀ b ∈ l, d.key b ≠ d.key a := fun b hb he => hl.1 (he ▸ List.mem_map_of_mem d.key hb)
    have hfilter : l.filter (d.changed (d.step m a)) = l.filter (d.changed m) :=
      List.filter_congr fun b hb => by rw [changed, changed, step_apply_of_ne (hne b hb)]
    have hmap : ∀ b ∈ l.filter (d.changed m), d.frame (d.step m a (d.key b)) b = d.frame (m (d.key b)) b :=
      fun b hb => by rw [step_apply_of_ne (hne b (List.mem_of_mem_filter hb))]
    rw [frames, ih hl.2, hfilter, List.map_congr_left hmap, List.filter_cons]
    split <;> rfl

/-- The whole loop on an open connection: the record stepped through every entry and the
frames sent in order. -/
theorem forM_eq (hd : d.Lawful) {body : α → M Unit} {l : List α} (hb : ∀ a ∈ l, d.Implements body a) (s : St)
    (hc : s.conn.closed = false) :
    l.forM body s = .ok () { s with
      conn := d.put s.conn (l.foldl d.step (d.seen s.conn))
      out := s.out ++ d.frames l (d.seen s.conn) } := by
  induction l generalizing s with
  | nil =>
    rw [List.foldl_nil, hd.put_seen, frames, List.append_nil]
    rfl
  | cons a l ih =>
    have hl : ∀ b ∈ l, d.Implements body b := fun b hb' => hb b (List.mem_cons_of_mem _ hb')
    have hstep := hb a (List.mem_cons_self _ _) s hc
    rw [List.forM_cons', List.foldl_cons, frames]
    by_cases h : d.changed (d.seen s.conn) a
    · rw [if_pos h] at hstep ⊢
      have ih' := ih hl { s with
        conn := d.put s.conn (d.step (d.seen s.conn) a)
        out := s.out ++ [d.frame (d.seen s.conn (d.key a)) a] } ((hd.closed_put _ _).trans hc)
      dsimp only at ih'
      rw [hd.seen_put, hd.put_put] at ih'
      rw [M.bind_of_ok hstep, ih', List.append_assoc]
    · rw [Bool.not_eq_true] at h
      rw [if_neg (by rw [h]; decide)] at hstep
      rw [if_neg (by rw [h]; decide), step_of_not_changed h, List.nil_append, M.bind_of_ok hstep]
      exact ih hl s hc

/-- A client reading a loop's frames holds the record the loop leaves. -/
theorem foldl_read_frames (hd : d.Lawful) (l : List α) {c : Session} {m : κ → V} (hm : d.seen c = m) :
    (d.frames l m).foldl ClientView.read c.published = (d.put c (l.foldl d.step m)).published := by
  subst hm
  induction l generalizing c with
  | nil => rw [frames, List.foldl_nil, List.foldl_nil, hd.put_seen]
  | cons a l ih =>
    rw [frames, List.foldl_cons]
    by_cases h : d.changed (d.seen c) a
    · rw [if_pos h, List.singleton_append, List.foldl_cons, hd.read_frame _ _ h]
      have := ih (c := d.put c (d.step (d.seen c) a))
      rwa [hd.seen_put, hd.put_put] at this
    · rw [Bool.not_eq_true] at h
      rw [if_neg (by rw [h]; decide), step_of_not_changed h, List.nil_append]
      exact ih

theorem forall_mem_frames {P : Frame → Prop} (h : ∀ old a, P (d.frame old a)) :
    ∀ (l : List α) (m : κ → V), ∀ f ∈ d.frames l m, P f
  | [], _, f, hf => (List.not_mem_nil f hf).elim
  | a :: l, m, f, hf => by
    rw [frames, List.mem_append] at hf
    rcases hf with hf | hf
    · split at hf
      · rw [List.mem_singleton.1 hf]
        exact h _ _
      · cases hf
    · exact forall_mem_frames h l _ f hf

/-- Two loops in sequence over records that do not overlap. -/
theorem forM_forM_eq {α' κ' V' : Type} [DecidableEq κ'] [DecidableEq V'] {d' : Diff α' κ' V'} (hd : d.Lawful)
    (hd' : d'.Lawful) (hseen : ∀ c m, d'.seen (d.put c m) = d'.seen c) {body : α → M Unit} {body' : α' → M Unit}
    {l : List α} {l' : List α'} (hb : ∀ a ∈ l, d.Implements body a) (hb' : ∀ a ∈ l', d'.Implements body' a)
    (s : St) (hc : s.conn.closed = false) :
    (l.forM body >>= fun _ => l'.forM body') s = .ok () { s with
      conn := d'.put (d.put s.conn (l.foldl d.step (d.seen s.conn))) (l'.foldl d'.step (d'.seen s.conn))
      out := s.out ++ (d.frames l (d.seen s.conn) ++ d'.frames l' (d'.seen s.conn)) } := by
  have h2 := forM_eq hd' hb' { s with
    conn := d.put s.conn (l.foldl d.step (d.seen s.conn))
    out := s.out ++ d.frames l (d.seen s.conn) } ((hd.closed_put _ _).trans hc)
  dsimp only at h2
  rw [hseen] at h2
  rw [M.bind_of_ok (forM_eq hd hb s hc), h2, List.append_assoc]

end Diff

/-! ## The three records -/

/-- The adapters of one kind, diffed against `ecs_` or `mds_`: every adapter is reported. -/
def adapterDiff (kind : String) (seen : Session → Bytes → Option Bool)
    (put : Session → (Bytes → Option Bool) → Session) : Diff (Bytes × Bool) Bytes (Option Bool) where
  seen := seen
  put := put
  wanted _ := true
  key := Prod.fst
  val a := some a.2
  frame _ := marketFrame kind

/-- The exchange-connectivity adapters against `ecs_`. -/
def exchangeDiff : Diff (Bytes × Bool) Bytes (Option Bool) :=
  adapterDiff "exchange" Session.ecs fun c m => { c with ecs := m }

/-- The market-data adapters against `mds_`. -/
def dataDiff : Diff (Bytes × Bool) Bytes (Option Bool) :=
  adapterDiff "data" Session.mds fun c m => { c with mds := m }

/-- `["pnl", acc, sec, unrealized]`, with the realized PnL appended when it differs from the
one recorded. -/
def positionFrame (old : ℚ × ℚ) (p : (Int × Int) × Position) : Frame :=
  .json (.array (("pnl" : Json) :: .numberInteger p.1.1 :: .numberInteger p.1.2 ::
    .numberFloat p.2.unrealizedPnl :: if p.2.realizedPnl != old.1 then [.numberFloat p.2.realizedPnl] else []))

/-- The positions of `sub_positions_` against `single_pnls_`: those of the user's
sub-accounts are reported. -/
def positionDiff (u : User) : Diff ((Int × Int) × Position) (Int × Int) (ℚ × ℚ) where
  seen := Session.singlePnls
  put c m := { c with singlePnls := m }
  wanted p := u.owns p.1.1
  key := Prod.fst
  val p := (p.2.realizedPnl, p.2.unrealizedPnl)
  frame := positionFrame

/-- The aggregates of `pnls_` against `pnls_` of the session, stamped with the tick's time:
those of the user's sub-accounts are reported. -/
def pnlDiff (now : Int) (u : User) : Diff (Int × Pnl) Int (ℚ × ℚ) where
  seen := Session.pnls
  put c m := { c with pnls := m }
  wanted p := u.owns p.1
  key := Prod.fst
  val p := (p.2.realized, p.2.unrealized)
  frame _ p := .json (.array ["Pnl", .numberInteger p.1, .numberInteger now, .numberFloat p.2.realized,
    .numberFloat p.2.unrealized])

theorem lawful_exchangeDiff : exchangeDiff.Lawful where
  seen_put _ _ := rfl
  put_put _ _ _ := rfl
  put_seen _ := rfl
  closed_put _ _ := rfl
  read_frame c a _ := by
    simp only [ClientView.read, marketFrame, ClientView.readMarket, exchangeDiff, adapterDiff, Diff.step,
      if_pos rfl, if_true]
    rfl

theorem lawful_dataDiff : dataDiff.Lawful where
  seen_put _ _ := rfl
  put_put _ _ _ := rfl
  put_seen _ := rfl
  closed_put _ _ := rfl
  read_frame c a _ := by
    simp only [ClientView.read, marketFrame, ClientView.readMarket, dataDiff, adapterDiff, Diff.step,
      if_pos rfl, if_true]
    rfl

theorem lawful_positionDiff (u : User) : (positionDiff u).Lawful where
  seen_put _ _ := rfl
  put_put _ _ _ := rfl
  put_seen _ := rfl
  closed_put _ _ := rfl
  read_frame c p h := by
    obtain ⟨⟨acc, sec⟩, pos⟩ := p
    simp only [Diff.changed, positionDiff, Bool.and_eq_true, decide_eq_true_eq] at h
    simp only [ClientView.read, positionFrame, positionDiff, Diff.step, h.1, if_true, if_neg (by decide : utf8 "pnl" ≠ utf8 "market")]
    split_ifs with hr
    · rfl
    · rw [bne_iff_ne, ne_eq, not_not] at hr
      simp only [ClientView.readPnl, Session.published, ← hr]

theorem lawful_pnlDiff (now : Int) (u : User) : (pnlDiff now u).Lawful where
  seen_put _ _ := rfl
  put_put _ _ _ := rfl
  put_seen _ := rfl
  closed_put _ _ := rfl
  read_frame c p h := by
    simp only [Diff.changed, pnlDiff, Bool.and_eq_true] at h
    simp only [ClientView.read, pnlDiff, Diff.step, h.1, if_true]
    rfl

/-! ## The loop bodies -/

/-- The test of `publishPosition` and `publishPnl`: a pair differs from the recorded one. -/
theorem bne_or_bne_eq {a b : ℚ} {p : ℚ × ℚ} : (a != p.1 || b != p.2) = decide (p ≠ (a, b)) := by
  obtain ⟨x, y⟩ := p
  by_cases h1 : a = x <;> by_cases h2 : b = y <;> simp [h1, h2, Ne.symm]

section Bodies

variable {env : Env}

/-- The branch of a loop body that records and sends, on a connection it leaves open. -/
theorem modifyConn_send_apply {f : Session → Session} {j : Json} (hj : Json.WellFormed j) {s : St}
    (hc : (f s.conn).closed = false) :
    (modifyConn f >>= fun _ => send env j) s = .ok () { s with conn := f s.conn, out := s.out ++ [.json j] } := by
  rw [M.bind_of_ok (modifyConn_apply _ s), send_of_wellFormed hj, emit_apply, if_neg (by simpa using hc)]

theorem implements_publishAdapter {kind : String} {seen : Session → Bytes → Option Bool}
    {put : Session → (Bytes → Option Bool) → Session} (hclosed : ∀ c m, (put c m).closed = c.closed)
    {a : Bytes × Bool} (hu : Json.validUtf8 a.1 = true) :
    (adapterDiff kind seen put).Implements
      (publishAdapter env kind seen fun n v c => put c (Function.update (seen c) n (some v))) a := by
  intro s hc
  have hj : Json.WellFormed (.array ["market", kind, .string a.1, .boolean a.2]) :=
    .array_cons (.string (utf8Run_utf8 _)) <| .array_cons (.string (utf8Run_utf8 _)) <|
      .array_cons (.string (beq_iff_eq.1 hu)) <| .array_cons (.boolean _) .nil
  unfold publishAdapter
  rw [M.bind_of_ok (M.get_apply s)]
  by_cases h : seen s.conn a.1 = some a.2
  · simp [Diff.changed, adapterDiff, h]
  · rw [if_neg h, modifyConn_send_apply hj (by rw [hclosed, hc])]
    simp [Diff.changed, Diff.step, adapterDiff, h, marketFrame]

theorem implements_publishPosition {u : User} (p : (Int × Int) × Position) :
    (positionDiff u).Implements (publishPosition env u) p := by
  intro s hc
  obtain ⟨⟨acc, sec⟩, pos⟩ := p
  unfold publishPosition
  cases hown : u.owns acc
  · simp [Diff.changed, positionDiff, hown]
  · have hwf : ∀ x : Bool, Json.WellFormed (.array (("pnl" : Json) :: .numberInteger acc :: .numberInteger sec ::
        .numberFloat pos.unrealizedPnl :: if x then [.numberFloat pos.realizedPnl] else [])) := fun x =>
      .array_cons (.string (utf8Run_utf8 _)) <| .array_cons (.numberInteger _) <| .array_cons (.numberInteger _) <|
        .array_cons (.numberFloat _) <| by split; exacts [.array_cons (.numberFloat _) .nil, .nil]
    simp only [Bool.not_true, Bool.false_eq_true, if_false]
    rw [M.bind_of_ok (M.get_apply s)]
    simp only [bne_or_bne_eq]
    by_cases h : s.conn.singlePnls (acc, sec) = (pos.realizedPnl, pos.unrealizedPnl)
    · simp [h, Diff.changed, positionDiff]
    · have hch : (positionDiff u).changed ((positionDiff u).seen s.conn) ((acc, sec), pos) = true := by
        simp [Diff.changed, positionDiff, hown, h]
      rw [if_pos (by simpa using h), if_pos hch, modifyConn_send_apply (hwf _) hc]
      simp only [Diff.step, positionDiff, hown, if_true]
      rfl

theorem implements_publishPnl {now : Int} {u : User} (p : Int × Pnl) :
    (pnlDiff now u).Implements (publishPnl env now u) p := by
  intro s hc
  obtain ⟨acc, pnl⟩ := p
  unfold publishPnl
  cases hown : u.owns acc
  · simp [Diff.changed, pnlDiff, hown]
  · have hwf : Json.WellFormed (.array ["Pnl", .numberInteger acc, .numberInteger now, .numberFloat pnl.realized,
        .numberFloat pnl.unrealized]) :=
      .array_cons (.string (utf8Run_utf8 _)) <| .array_cons (.numberInteger _) <| .array_cons (.numberInteger _) <|
        .array_cons (.numberFloat _) <| .array_cons (.numberFloat _) .nil
    simp only [Bool.not_true, Bool.false_eq_true, if_false]
    rw [M.bind_of_ok (M.get_apply s)]
    simp only [bne_or_bne_eq]
    by_cases h : s.conn.pnls acc = (pnl.realized, pnl.unrealized)
    · simp [h, Diff.changed, pnlDiff]
    · have hch : (pnlDiff now u).changed ((pnlDiff now u).seen s.conn) (acc, pnl) = true := by
        simp [Diff.changed, pnlDiff, hown, h]
      rw [if_pos (by simpa using h), if_pos hch, modifyConn_send_apply hwf hc]
      simp only [Diff.step, pnlDiff, hown, if_true]

end Bodies

/-! ## A tick -/

/-- The engines' tables as a tick reads them: maps, so with distinct keys, and adapter names
that serialize. -/
structure World.Publishable (w : World) : Prop where
  ec_utf8 : ∀ a ∈ w.marketData.ecAdapters, Json.validUtf8 a.1 = true
  md_utf8 : ∀ a ∈ w.marketData.mdAdapters, Json.validUtf8 a.1 = true
  ec_nodup : (w.marketData.ecAdapters.map Prod.fst).Nodup
  md_nodup : (w.marketData.mdAdapters.map Prod.fst).Nodup
  positions_nodup : (w.positions.subPositions.map Prod.fst).Nodup
  pnls_nodup : (w.positions.pnls.map Prod.fst).Nodup

section Tick

variable {env : Env} {w : World} {s : St}

theorem publishMarketStatus_apply (hw : w.Publishable) (hc : s.conn.closed = false) :
    publishMarketStatus env w s = .ok () { s with
      conn := { s.conn with
        ecs := w.marketData.ecAdapters.foldl exchangeDiff.step s.conn.ecs
        mds := w.marketData.mdAdapters.foldl dataDiff.step s.conn.mds }
      out := s.out ++ (exchangeDiff.frames w.marketData.ecAdapters s.conn.ecs ++
        dataDiff.frames w.marketData.mdAdapters s.conn.mds) } :=
  Diff.forM_forM_eq lawful_exchangeDiff lawful_dataDiff (fun _ _ => rfl)
    (fun a ha => @implements_publishAdapter env "exchange" Session.ecs (fun c m => { c with ecs := m }) (fun _ _ => rfl)
      a (hw.ec_utf8 a ha))
    (fun a ha => @implements_publishAdapter env "data" Session.mds (fun c m => { c with mds := m }) (fun _ _ => rfl)
      a (hw.md_utf8 a ha)) s hc

theorem publishPnls_of_subPnl_false (h : s.conn.subPnl = false) : publishPnls env w s = .ok () s := by
  rw [publishPnls, M.bind_of_ok (M.get_apply s), h]
  rfl

theorem publishPnls_of_user {u : User} (h : s.conn.subPnl = true) (hu : s.conn.user = some u)
    (hc : s.conn.closed = false) :
    publishPnls env w s = .ok () { s with
      conn := { s.conn with
        singlePnls := w.positions.subPositions.foldl (positionDiff u).step s.conn.singlePnls
        pnls := w.positions.pnls.foldl (pnlDiff w.now u).step s.conn.pnls }
      out := s.out ++ ((positionDiff u).frames w.positions.subPositions s.conn.singlePnls ++
        (pnlDiff w.now u).frames w.positions.pnls s.conn.pnls) } := by
  rw [publishPnls, M.bind_of_ok (M.get_apply s), h]
  simp only [Bool.not_true, Bool.false_eq_true, if_false]
  conv_lhs => rw [hu]
  exact Diff.forM_forM_eq (lawful_positionDiff u) (lawful_pnlDiff w.now u) (fun _ _ => rfl)
    (fun p (_ : p ∈ w.positions.subPositions) => @implements_publishPosition env u p)
    (fun p (_ : p ∈ w.positions.pnls) => @implements_publishPnl env w.now u p) s hc

/-- What a tick does to an open connection: the connection stays open with its user; the
flags and, once `sub_pnl_` is set, the PnL records step through the engines' tables; the
frames start with the adapters' and hold no other `"market"` frame; and a client reading them
holds the records. -/
structure Ticked (w : World) (s t : St) : Prop where
  closed : t.conn.closed = s.conn.closed
  user : t.conn.user = s.conn.user
  subPnl : t.conn.subPnl = s.conn.subPnl
  ecs : t.conn.ecs = w.marketData.ecAdapters.foldl exchangeDiff.step s.conn.ecs
  mds : t.conn.mds = w.marketData.mdAdapters.foldl dataDiff.step s.conn.mds
  pnls : ∀ u, s.conn.subPnl = true → s.conn.user = some u →
    t.conn.singlePnls = w.positions.subPositions.foldl (positionDiff u).step s.conn.singlePnls ∧
    t.conn.pnls = w.positions.pnls.foldl (pnlDiff w.now u).step s.conn.pnls
  out : ∃ rest, (∀ f ∈ rest, ∀ kind, Frame.isMarketOf kind f = false) ∧
    t.out = s.out ++ (exchangeDiff.frames w.marketData.ecAdapters s.conn.ecs ++
      dataDiff.frames w.marketData.mdAdapters s.conn.mds ++ rest)
  read : (t.out.drop s.out.length).foldl ClientView.read s.conn.published = t.conn.published

/-- A tick on an open connection whose user is known once `sub_pnl_` is set. -/
theorem onTimer_ticked (hw : w.Publishable) (hc : s.conn.closed = false)
    (hu : s.conn.subPnl = true → s.conn.user ≠ none) : ∃ t, onTimer env w s = .ok () t ∧ Ticked w s t := by
  have h₀ : publishMarketdata s = .ok () { s with calls := s.calls ++ [.startTimer] } := by
    rw [publishMarketdata_eq, hc]
    rfl
  have h₁ := @publishMarketStatus_apply env w { s with calls := s.calls ++ [.startTimer] } hw hc
  dsimp only at h₁
  cases hs : s.conn.subPnl with
  | false =>
    refine ⟨?t, ?h, ?T⟩
    case h =>
      simp only [onTimer, bind, EStateM.bind, h₀, h₁, publishSubs_apply, hc, publishPnls_of_subPnl_false, hs]
      exact rfl
    case T =>
      refine ⟨hc.symm, rfl, hs.symm, rfl, rfl, fun u h => absurd (hs.symm.trans h) (by decide),
        ⟨_, isMarketOf_mdOut, by rw [List.append_assoc]⟩, ?_⟩
      rw [List.append_assoc, List.drop_left, List.foldl_append, List.foldl_append,
        Diff.foldl_read_frames lawful_exchangeDiff _ _, Diff.foldl_read_frames lawful_dataDiff _ _, foldl_read_mdOut]
      all_goals rfl
  | true =>
    obtain ⟨u, hu'⟩ := Option.ne_none_iff_exists'.1 (hu hs)
    refine ⟨?t', ?h', ?T'⟩
    case h' =>
      simp only [onTimer, bind, EStateM.bind, h₀, h₁, publishSubs_apply, hc, publishPnls_of_user (u := u), hs, hu']
      exact rfl
    case T' =>
      refine ⟨hc.symm, hu'.symm, hs.symm, rfl, rfl, fun u₁ _ h => ?_,
        ⟨_, ?_, (List.append_assoc _ _ _).trans (List.append_assoc _ _ _)⟩, ?_⟩
      · obtain rfl : u = u₁ := Option.some_injective _ (hu'.symm.trans h)
        exact ⟨rfl, rfl⟩
      · intro f hf
        rcases List.mem_append.1 hf with hf | hf
        · exact isMarketOf_mdOut f hf
        rcases List.mem_append.1 hf with hf | hf
        · exact (positionDiff u).forall_mem_frames (P := fun f => ∀ kind, Frame.isMarketOf kind f = false)
            (fun _ _ kind => Frame.isMarketOf_of_head (by decide) kind _) _ _ f hf
        · exact (pnlDiff w.now u).forall_mem_frames (P := fun f => ∀ kind, Frame.isMarketOf kind f = false)
            (fun _ _ kind => Frame.isMarketOf_of_head (by decide) kind _) _ _ f hf
      · simp only [List.append_assoc, List.drop_left, List.foldl_append]
        rw [Diff.foldl_read_frames lawful_exchangeDiff _ _, Diff.foldl_read_frames lawful_dataDiff _ _, foldl_read_mdOut,
          Diff.foldl_read_frames (lawful_positionDiff u) _ _, Diff.foldl_read_frames (lawful_pnlDiff w.now u) _ _]
        all_goals rfl

end Tick

end OpenTrade
