import OpenTrade.Props.Footprint
import OpenTrade.Json.WellFormed

/-!
# What a client makes of the `"md"` frames

For a security whose timestamp moved, `GetMarketData` appends `[id, j3]`, where `j3` holds
`t` and every field that differs from the snapshot last sent. A client reads such an entry by
overwriting the fields `j3` names (`MarketData.overwrite`), and a run of frames by reading
their entries in order (`replay`). Read over the snapshot it was taken against, the diff
gives the new snapshot back (`overwrite_diffObject`); an entry is missing exactly when the
timestamps agree, which is harmless only when the snapshot did not change within the second
(`foldl_mdEntry_self`).

## Implementation notes

An object is read by key (`Json.find`): its members have distinct keys, so the order in
which a client overwrites them does not matter. A depth key is `[n0, '0' + i]`, the bytes
`char name[3]` holds once a changed field has written its second byte.
-/

namespace OpenTrade

/-! ## Reading an object -/

/-- `obj[k]` of an object: the value of its member `k`. -/
def Json.find : Json → Bytes → Option Json
  | .object kvs, k => kvs.lookup k
  | _, _ => none

@[simp] theorem Json.find_null (k : Bytes) : Json.null.find k = none := rfl

theorem lookup_cons_ite {β : Type} {k a : Bytes} {b : β} {es : List (Bytes × β)} :
    ((k, b) :: es).lookup a = if a = k then some b else es.lookup a := by
  rw [List.lookup_cons]
  by_cases h : a = k
  · simp [h]
  · simp [h, beq_eq_false_iff_ne.2 h]

theorem lookup_insertMember (k k' : Bytes) (v : Json) (kvs : List (Bytes × Json)) :
    (Json.insertMember k v kvs).lookup k' = if k' = k then some v else kvs.lookup k' := by
  induction kvs with
  | nil => exact lookup_cons_ite
  | cons kv kvs ih =>
    obtain ⟨k'', v''⟩ := kv
    unfold Json.insertMember
    split_ifs <;> simp_all [lookup_cons_ite]

/-- `j[k] = v`, read back at any key. -/
theorem Json.find_set (j : Json) (k k' : Bytes) (v : Json) :
    (j.set k v).find k' = if k' = k then some v else j.find k' := by
  cases j <;> simp only [Json.set, Json.find, lookup_insertMember, lookup_cons_ite, List.lookup_nil]

theorem Json.size_ne_zero_of_find {j v : Json} {k : Bytes} (h : j.find k = some v) : j.size ≠ 0 := by
  cases j with
  | object kvs => cases kvs <;> simp_all [Json.find, Json.size]
  | _ => cases h

/-! ## The client's reading -/

/-- The key `GetMarketData` gives the quote field named by `n0` at level `i`. -/
def depthKey (n0 : UInt8) (i : Fin 5) : Bytes := [n0, (0x30 + i.val).toUInt8]

/-- The number an object holds under `k`, or `old` when it holds none. -/
def Json.numOr (obj : Json) (k : Bytes) (old : ℚ) : ℚ := ((obj.find k).map Json.num).getD old

/-- A client's reading of one diff object: `t` is the time, `o`, `h`, `l`, `c`, `q`, `v`, `V`
the trade fields, and `aK`, `AK`, `bK`, `BK` the ask price, ask size, bid price and bid size of
level `K`. A field the object names takes the value given; the others keep theirs. -/
def MarketData.overwrite (md : MarketData) (obj : Json) : MarketData where
  tm := ((obj.find (utf8 "t")).map Json.int64).getD md.tm
  trade :=
    { «open» := obj.numOr (utf8 "o") md.trade.open
      high := obj.numOr (utf8 "h") md.trade.high
      low := obj.numOr (utf8 "l") md.trade.low
      close := obj.numOr (utf8 "c") md.trade.close
      qty := obj.numOr (utf8 "q") md.trade.qty
      volume := obj.numOr (utf8 "v") md.trade.volume
      vwap := obj.numOr (utf8 "V") md.trade.vwap }
  depth i :=
    { askPrice := obj.numOr (depthKey 0x61 i) (md.depth i).askPrice
      askSize := obj.numOr (depthKey 0x41 i) (md.depth i).askSize
      bidPrice := obj.numOr (depthKey 0x62 i) (md.depth i).bidPrice
      bidSize := obj.numOr (depthKey 0x42 i) (md.depth i).bidSize }

/-- One entry of an `"md"` frame, as the client of security `id` reads it: `[id, obj]` is
read over its picture, an entry of another security is skipped. -/
def applyEntry (id : Int) (md : MarketData) : Json → MarketData
  | .array [.numberInteger id', obj] => if id' = id then md.overwrite obj else md
  | _ => md

/-- The entries of an `"md"` frame; nothing for any other frame. -/
def Frame.mdEntries : Frame → List Json
  | .json (.array (.string a :: es)) => if a == utf8 "md" then es else []
  | _ => []

/-- The picture of security `id` a client builds from `md` by reading, in order, every entry
of every `"md"` frame of `fs`. -/
def replay (id : Int) (md : MarketData) (fs : List Frame) : MarketData :=
  fs.foldl (fun md f => f.mdEntries.foldl (applyEntry id) md) md

theorem Frame.mdEntries_of_notMd {f : Frame} (h : f.NotMd) : f.mdEntries = [] := by
  unfold Frame.NotMd Frame.isMd at h
  unfold Frame.mdEntries
  split <;> simp_all

theorem replay_append (id : Int) (md : MarketData) (fs fs' : List Frame) :
    replay id md (fs ++ fs') = replay id (replay id md fs) fs' :=
  List.foldl_append _ _ _ _

/-- Frames that are not market data leave every picture as it was. -/
theorem replay_of_notMd {id : Int} {md : MarketData} {fs : List Frame} (h : ∀ f ∈ fs, f.NotMd) :
    replay id md fs = md := by
  induction fs generalizing md with
  | nil => rfl
  | cons f fs ih =>
    rw [List.forall_mem_cons] at h
    simp only [replay, List.foldl_cons, Frame.mdEntries_of_notMd h.1, List.foldl_nil] at ih ⊢
    exact ih h.2

/-! ## The diff -/

/-- The object `j3` of `GetMarketData`. -/
def diffObject (md md0 : MarketData) : Json :=
  (List.finRange 5).foldl (depthLevel md md0)
    (tradeDiff md.trade md0.trade (Json.null.set (utf8 "t") (.numberInteger md.tm)))

/-- What `GetMarketData` appends: nothing when the timestamps agree, otherwise `[id, j3]`. -/
def mdEntry (md md0 : MarketData) (id : Int) : List Json :=
  if md.tm = md0.tm then [] else [.array [.numberInteger id, diffObject md md0]]

theorem find_setIfChanged_self {c : Bool} {key : String} {v : ℚ} {j : Json} :
    (setIfChanged c key v j).find (utf8 key) = if c then some (.numberFloat v) else j.find (utf8 key) := by
  cases c <;> simp [setIfChanged, Json.find_set]

theorem find_setIfChanged_of_ne {c : Bool} {key : String} {v : ℚ} {j : Json} {k : Bytes} (h : k ≠ utf8 key) :
    (setIfChanged c key v j).find k = j.find k := by
  cases c <;> simp [setIfChanged, Json.find_set, h]

theorem toUInt8_digit_ne_zero (i : Fin 5) : (0x30 + i.val).toUInt8 ≠ 0 := fun h => by
  have := congrArg UInt8.toNat h
  rw [Json.toNat_toUInt8 (by omega)] at this
  simp at this

theorem depthKey_inj {n0 n0' : UInt8} {i i' : Fin 5} : depthKey n0 i = depthKey n0' i' ↔ n0 = n0' ∧ i = i' := by
  simp only [depthKey, List.cons.injEq, and_true]
  refine and_congr_right fun _ => ⟨fun h => Fin.ext ?_, fun h => h ▸ rfl⟩
  have := congrArg UInt8.toNat h
  rwa [Json.toNat_toUInt8 (by omega), Json.toNat_toUInt8 (by omega), Nat.add_left_cancel_iff] at this

theorem depthKey_ne {n0 n0' : UInt8} {i i' : Fin 5} (h : n0 ≠ n0') : depthKey n0 i = depthKey n0' i' ↔ False :=
  iff_false_intro fun he => h (depthKey_inj.1 he).1

/-- The buffer `name` spells the depth key once a changed field has written its digit. -/
theorem cName_digit (n0 : UInt8) (i : Fin 5) : cName n0 (0x30 + i.val).toUInt8 = depthKey n0 i := by
  simp [cName, toUInt8_digit_ne_zero, depthKey]

theorem find_depthField {n0 : UInt8} {i : Fin 5} {c : Bool} {v : ℚ} {buf : UInt8 × Json} {k : Bytes} :
    (depthField n0 i c v buf).2.find k = if c ∧ k = depthKey n0 i then some (.numberFloat v) else buf.2.find k := by
  cases c <;> simp [depthField, Json.find_set, cName_digit]

section Diff

variable {md md0 : MarketData}

/-- A level's members, laid over what the object held before. -/
theorem find_depthLevel {j : Json} {l : Fin 5} {k : Bytes} :
    (depthLevel md md0 j l).find k = ((depthLevel md md0 .null l).find k).or (j.find k) := by
  simp only [depthLevel, find_depthField, apply_ite (Option.or · (j.find k)), Option.or_some, Option.none_or,
    Json.find_null]

theorem find_foldl_depthLevel_of_ne {ls : List (Fin 5)} {j : Json} {k : Bytes}
    (hk : ∀ l ∈ ls, ∀ n0, k ≠ depthKey n0 l) : (ls.foldl (depthLevel md md0) j).find k = j.find k := by
  induction ls generalizing j with
  | nil => rfl
  | cons l ls ih =>
    rw [List.foldl_cons, ih fun l' hl' => hk l' (List.mem_cons_of_mem _ hl'), find_depthLevel]
    simp only [depthLevel, find_depthField, hk l (List.mem_cons_self _ _), and_false, if_false]
    rfl

theorem find_tradeDiff_of_length {t t0 : Trade} {j : Json} {k : Bytes} (hk : k.length ≠ 1) :
    (tradeDiff t t0 j).find k = j.find k := by
  have h1 : ∀ key : String, (utf8 key).length = 1 → k ≠ utf8 key := fun _ h he => hk (he ▸ h)
  simp (disch := exact h1 _ (by decide)) only [tradeDiff, find_setIfChanged_of_ne]

/-- A key of one byte is `t` or a trade field: the depth loop does not write it. -/
theorem find_diffObject_of_length {k : Bytes} (hk : k.length ≠ 2) :
    (diffObject md md0).find k =
      (tradeDiff md.trade md0.trade (Json.null.set (utf8 "t") (.numberInteger md.tm))).find k :=
  find_foldl_depthLevel_of_ne fun _ _ _ h => hk (h ▸ rfl)

/-- A depth key is written at its own level only. -/
theorem find_diffObject_depth {n0 : UInt8} {i : Fin 5} :
    (diffObject md md0).find (depthKey n0 i) = (depthLevel md md0 .null i).find (depthKey n0 i) := by
  obtain ⟨pre, post, hl⟩ := List.append_of_mem (List.mem_finRange i)
  have hnd := List.nodup_cons.1 (List.nodup_middle.1 (hl ▸ List.nodup_finRange 5))
  have hne : ∀ ls : List (Fin 5), i ∉ ls → ∀ l ∈ ls, ∀ n0', depthKey n0 i ≠ depthKey n0' l :=
    fun _ hi _ hl _ h => hi ((depthKey_inj.1 h).2 ▸ hl)
  have base : (tradeDiff md.trade md0.trade (Json.null.set (utf8 "t") (.numberInteger md.tm))).find
      (depthKey n0 i) = none := by
    have ht : (utf8 "t").length = 1 := by decide
    rw [find_tradeDiff_of_length (by simp [depthKey]), Json.find_set,
      if_neg fun h => by simpa [depthKey, ht] using congrArg List.length h]
    rfl
  rw [diffObject, hl, List.foldl_append, List.foldl_cons,
    find_foldl_depthLevel_of_ne (hne _ fun h => hnd.1 (List.mem_append_right _ h)), find_depthLevel,
    find_foldl_depthLevel_of_ne (hne _ fun h => hnd.1 (List.mem_append_left _ h)), base, Option.or_none]

theorem find_diffObject_t : (diffObject md md0).find (utf8 "t") = some (.numberInteger md.tm) := by
  rw [find_diffObject_of_length (by decide)]
  simp (disch := decide) only [tradeDiff, find_setIfChanged_of_ne, Json.find_set, if_true]

theorem getD_map_ite_bne {a b : ℚ} :
    (((if (a != b) = true then some (Json.numberFloat a) else none).map Json.num).getD b) = a := by
  by_cases h : a = b <;> simp [h, Json.num]

/-- The diff of `md` against `md0`, read over `md0`, is `md`. -/
theorem overwrite_diffObject : md0.overwrite (diffObject md md0) = md := by
  obtain ⟨tm, ⟨o, h, l, c, q, v, V⟩, d⟩ := md
  simp only [MarketData.overwrite, Json.numOr]
  congr 1
  · rw [find_diffObject_t]
    rfl
  · simp (disch := decide) only [find_diffObject_of_length, tradeDiff, find_setIfChanged_of_ne,
      find_setIfChanged_self, Json.find_set, if_neg, Json.find_null, getD_map_ite_bne]
  · funext i
    simp (disch := decide) only [find_diffObject_depth, depthLevel, find_depthField, depthKey_ne, and_false,
      and_true, if_false, Json.find_null, getD_map_ite_bne]

/-- `GetMarketData` appends the entry `mdEntry`: the object always holds `t`, so it is never
empty. -/
theorem getMarketData_array (id : Int) (xs : List Json) :
    getMarketData md md0 id (.array xs) = .array (xs ++ mdEntry md md0 id) := by
  unfold getMarketData mdEntry
  split_ifs with h
  · simp
  · change (if (diffObject md md0).size = 0 then _ else _) = _
    rw [if_neg (Json.size_ne_zero_of_find find_diffObject_t)]
    rfl

/-- When only the timestamp moved, `GetMarketData` still appends `[id, {"t": tm}]`: the guard
meant to drop such an entry tests a size that counts `t`. -/
theorem timestamp_only_diff_sent (md md0 : MarketData) (id : Int) (j : Json) (htm : md.tm ≠ md0.tm)
    (htrade : md.trade = md0.trade) (hdepth : md.depth = md0.depth) :
    getMarketData md md0 id j = j.push (.array [.numberInteger id, .object [(utf8 "t", .numberInteger md.tm)]]) := by
  have hlevel : depthLevel md md0 = fun j _ => j := by
    funext j i
    simp [depthLevel, depthField, hdepth]
  have hobj : diffObject md md0 = .object [(utf8 "t", .numberInteger md.tm)] := by
    simp [diffObject, hlevel, tradeDiff, setIfChanged, htrade, Json.set]
  unfold getMarketData
  rw [if_neg htm]
  change (if (diffObject md md0).size = 0 then j else j.push (.array [.numberInteger id, diffObject md md0])) = _
  rw [hobj]
  rfl

/-- A snapshot whose timestamp alone moved from 0 to 1 is still sent, as `[7, {"t": 1}]`. -/
theorem timestamp_only_sends_entry :
    getMarketData { tm := 1 } {} 7 (.array []) = .array [.array [.numberInteger 7, .object [(utf8 "t", .numberInteger 1)]]] :=
  timestamp_only_diff_sent { tm := 1 } {} 7 (.array []) (by decide) rfl rfl

/-- `GetMarketData` appends nothing when the timestamps agree and otherwise the one entry
`[id, j3]`, and `j3` read over the snapshot it was taken against gives the current one. -/
theorem getMarketData_restores (md md0 : MarketData) (id : Int) (xs : List Json) :
    getMarketData md md0 id (.array xs) =
        .array (xs ++ if md.tm = md0.tm then [] else [.array [.numberInteger id, diffObject md md0]]) ∧
      md0.overwrite (diffObject md md0) = md :=
  ⟨getMarketData_array id xs, overwrite_diffObject⟩

/-- The entry of a security leaves the pictures of the others as they were. -/
theorem foldl_mdEntry_of_ne {id key : Int} (x : MarketData) (h : key ≠ id) :
    (mdEntry md md0 key).foldl (applyEntry id) x = x := by
  unfold mdEntry
  split_ifs <;> simp [applyEntry, h]

/-- Read over the snapshot last sent, the entry gives the new snapshot, provided the snapshot
did not change without its timestamp moving. -/
theorem foldl_mdEntry_self {id : Int} (h : md.tm = md0.tm → md = md0) :
    (mdEntry md md0 id).foldl (applyEntry id) md0 = md := by
  unfold mdEntry
  split_ifs with ht
  · exact (h ht).symm
  · simp [applyEntry, overwrite_diffObject]

/-! ## What the differ sends can be sent -/

/-- Bytes below `0x80` are well-formed UTF-8. -/
theorem utf8Run_ascii {bs : Bytes} (h : ∀ b ∈ bs, b.toNat < 0x80) : Json.utf8Run .accept bs = some .accept := by
  induction bs with
  | nil => rfl
  | cons b bs ih =>
    rw [List.forall_mem_cons] at h
    rw [Json.utf8Run_cons_of_step _ (Json.utf8Step_ascii h.1), ih h.2]

theorem wellFormed_setIfChanged {c : Bool} {key : String} {v : ℚ} {j : Json} (hj : Json.WellFormed j)
    (hk : Json.utf8Run .accept (utf8 key) = some .accept) : Json.WellFormed (setIfChanged c key v j) := by
  unfold setIfChanged
  split
  · exact Json.set_wellFormed hj hk (.numberFloat v)
  · exact hj

theorem wellFormed_depthLevel {j : Json} {l : Fin 5} (hj : Json.WellFormed j) :
    Json.WellFormed (depthLevel md md0 j l) := by
  have hf : ∀ {n0 : UInt8} {c : Bool} {v : ℚ} {buf : UInt8 × Json}, n0.toNat < 0x80 → Json.WellFormed buf.2 →
      Json.WellFormed (depthField n0 l c v buf).2 := fun hn hb => by
    unfold depthField
    split
    · refine Json.set_wellFormed hb ?_ (.numberFloat _)
      rw [cName_digit]
      refine utf8Run_ascii fun b hb => ?_
      simp only [depthKey, List.mem_cons, List.mem_singleton, List.not_mem_nil, or_false] at hb
      rcases hb with rfl | rfl
      · exact hn
      · rw [Json.toNat_toUInt8 (by omega)]
        omega
    · exact hb
  exact hf (by decide) (hf (by decide) (hf (by decide) (hf (by decide) hj)))

theorem wellFormed_diffObject : Json.WellFormed (diffObject md md0) := by
  have hfold : ∀ (ls : List (Fin 5)) (j : Json), Json.WellFormed j →
      Json.WellFormed (ls.foldl (depthLevel md md0) j) := fun ls => by
    induction ls with
    | nil => exact fun _ hj => hj
    | cons l ls ih => exact fun _ hj => ih _ (wellFormed_depthLevel hj)
  refine hfold _ _ ?_
  simp only [tradeDiff]
  repeat refine wellFormed_setIfChanged ?_ (by decide)
  exact Json.set_wellFormed .null (by decide) (.numberInteger _)

theorem wellFormed_mdEntry {id : Int} : ∀ e ∈ mdEntry md md0 id, Json.WellFormed e := by
  unfold mdEntry
  split_ifs
  · exact List.forall_mem_nil _
  · simp only [List.mem_singleton, forall_eq]
    exact .array fun x hx => by
      simp only [List.mem_cons, List.mem_singleton, List.not_mem_nil, or_false] at hx
      rcases hx with rfl | rfl
      exacts [.numberInteger _, wellFormed_diffObject]

end Diff

end OpenTrade
