import OpenTrade.Props.Gate

/-!
# The shutdown countdown

`shutdown` counts `seconds` down by `interval` until it is zero, converting the `double`
difference back to `int` on every pass. With the default interval of one second the count
reaches zero after `seconds` passes. With a larger interval that does not land on zero the
count overshoots into the negative numbers, from where it only moves further down: the loop
never ends, and once the count leaves `int` the conversion is undefined, before the process
reaches its kill. An admin's `shutdown` with a grace period and no tick argument takes the
default interval, so its countdown ends.
-/

namespace OpenTrade

/-! ## The conversion -/

theorem toInt_apply (x : ℚ) (st : St) :
    toInt x st = let t : Int := if 0 ≤ x then ⌊x⌋ else -⌊-x⌋
      if -2 ^ 31 ≤ t ∧ t < 2 ^ 31 then .ok t st else .error .undefined st := by
  simp only [toInt, show ∀ q : ℚ, q.floor = ⌊q⌋ from fun _ => rfl]
  split_ifs <;> rfl

theorem toInt_int {n : Int} (h0 : -2 ^ 31 ≤ n) (h1 : n < 2 ^ 31) (st : St) : toInt n st = .ok n st := by
  have hf : (if 0 ≤ (n : ℚ) then ⌊(n : ℚ)⌋ else -⌊-(n : ℚ)⌋) = n := by
    split <;> simp only [← Int.cast_neg, Int.floor_intCast, neg_neg]
  rw [toInt_apply]
  dsimp only
  rw [hf, if_pos ⟨h0, h1⟩]

/-- A conversion returns its value or is undefined. -/
theorem toInt_ok_or_undefined (x : ℚ) (st : St) :
    (∃ t, toInt x st = .ok t st) ∨ toInt x st = .error .undefined st := by
  rw [toInt_apply]
  dsimp only
  split_ifs <;> simp

/-- From a negative count, the difference converts to a count lower by at least one, or the
conversion is undefined. -/
theorem toInt_sub_of_neg {seconds : Int} {interval : ℚ} (hs : seconds < 0) (hi : 1 ≤ interval) (st : St) :
    (∃ t, t ≤ seconds - 1 ∧ -2 ^ 31 ≤ t ∧ toInt (seconds - interval) st = .ok t st) ∨
      toInt (seconds - interval) st = .error .undefined st := by
  have hs' : (seconds : ℚ) ≤ -1 := by
    have : seconds ≤ -1 := by omega
    exact_mod_cast this
  have hneg : ¬ 0 ≤ (seconds : ℚ) - interval := by linarith
  have hle : -⌊-((seconds : ℚ) - interval)⌋ ≤ seconds - 1 := by
    have : 1 - seconds ≤ ⌊-((seconds : ℚ) - interval)⌋ := Int.le_floor.2 (by push_cast; linarith)
    omega
  rw [toInt_apply]
  dsimp only
  rw [if_neg hneg]
  split
  · exact .inl ⟨_, hle, ‹_ ∧ _›.1, rfl⟩
  · exact .inr rfl

/-- The grace period an admin's `shutdown` starts from: 3 seconds, or the argument when it is
an integer above 3. -/
theorem shutdown_seconds {k : Int} (hr : k < 2 ^ 31) (st : St) :
    (if (k : ℚ) > 3 then toInt k else pure 3 : M Int) st = .ok (max 3 k) st := by
  by_cases h3 : (k : ℚ) > 3
  · have hk : 3 < k := by exact_mod_cast h3
    rw [if_pos h3, toInt_int (by omega) hr, max_eq_right hk.le]
  · have hk : k ≤ 3 := by exact_mod_cast not_lt.mp h3
    rw [if_neg h3, max_eq_left hk]
    rfl

/-! ## The loop -/

section Loop

variable {interval : ℚ}

/-- A pass whose conversions are in range: the count steps to `t`, every order is cancelled. -/
theorem countdown_succ {fuel : Nat} {seconds t m : Int} (h0 : seconds ≠ 0) (ht : (seconds : ℚ) - interval = t)
    (hm : interval * 1000 = m) (htr : -2 ^ 31 ≤ t ∧ t < 2 ^ 31) (hmr : -2 ^ 31 ≤ m ∧ m < 2 ^ 31) (st : St) :
    countdown interval (fuel + 1) seconds st = countdown interval fuel t { st with calls := st.calls ++ [.cancelAll] } := by
  rw [countdown, if_neg h0, ht, M.bind_of_ok (toInt_int htr.1 htr.2 st), hm, M.bind_of_ok (toInt_int hmr.1 hmr.2 st),
    M.bind_of_ok (call_apply _ _)]

/-- With the default interval, the count reaches zero after `seconds` passes, each cancelling
every order. -/
theorem countdown_one (n : Nat) (hn : n < 2 ^ 31) (st : St) :
    countdown 1 n n st = .ok true { st with calls := st.calls ++ List.replicate n .cancelAll } := by
  induction n generalizing st with
  | zero => simp [countdown]
  | succ n ih =>
    rw [countdown_succ (t := n) (m := 1000) (by omega) (by push_cast; ring) (by norm_num) ⟨by omega, by omega⟩
      ⟨by norm_num, by norm_num⟩, ih (by omega)]
    simp [List.replicate_succ]

/-- From a negative count the loop does not end within any number of passes. -/
theorem countdown_ne_true_of_neg (hi : 1 ≤ interval) :
    ∀ (fuel : Nat) {seconds : Int}, seconds < 0 → ∀ st st', countdown interval fuel seconds st ≠ .ok true st'
  | 0, seconds, hs, st, st' => by simp [countdown, hs.ne]
  | fuel + 1, seconds, hs, st, st' => by
    rw [countdown, if_neg hs.ne]
    rcases toInt_sub_of_neg hs hi st with ⟨t, ht, -, h⟩ | h
    · rw [M.bind_of_ok h]
      rcases toInt_ok_or_undefined (interval * 1000) st with ⟨_, h'⟩ | h'
      · rw [M.bind_of_ok h', M.bind_of_ok (call_apply _ _)]
        exact countdown_ne_true_of_neg hi fuel (by omega) _ st'
      · rw [M.bind_of_error h']
        simp
    · rw [M.bind_of_error h]
      simp

/-- From a negative count in `int`, within `seconds + 2^31 + 1` passes a conversion leaves
`int`. -/
theorem countdown_undefined_of_neg (hi : 1 ≤ interval) :
    ∀ (fuel : Nat) {seconds : Int}, seconds < 0 → -2 ^ 31 ≤ seconds → seconds + 2 ^ 31 < fuel →
      ∀ st, ∃ st', countdown interval fuel seconds st = .error .undefined st'
  | 0, _, _, hr, hf, _ => absurd hf (by omega)
  | fuel + 1, seconds, hs, hr, hf, st => by
    rw [countdown, if_neg hs.ne]
    rcases toInt_sub_of_neg hs hi st with ⟨t, ht, ht', h⟩ | h
    · rw [M.bind_of_ok h]
      rcases toInt_ok_or_undefined (interval * 1000) st with ⟨_, h'⟩ | h'
      · rw [M.bind_of_ok h', M.bind_of_ok (call_apply _ _)]
        exact countdown_undefined_of_neg hi fuel (by omega) ht' (by omega) _
      · exact ⟨_, M.bind_of_error h'⟩
    · exact ⟨_, M.bind_of_error h⟩

end Loop

/-- Once the count is negative, the countdown never ends: no number of passes ends the loop,
and within `seconds + 2^31 + 1` of them a conversion is undefined, before the process
reaches its kill. -/
theorem countdown_overshoot_never_ends (interval : ℚ) (hi : 1 ≤ interval) (seconds : Int) (hs : seconds < 0)
    (hr : -2 ^ 31 ≤ seconds) (st : St) :
    (∀ fuel st', countdown interval fuel seconds st ≠ .ok true st') ∧
      ∃ st', countdown interval ((seconds + 2 ^ 31).toNat + 1) seconds st = .error .undefined st' :=
  ⟨fun fuel st' => countdown_ne_true_of_neg hi fuel hs st st',
    countdown_undefined_of_neg hi _ hs hr (by omega) st⟩

/-- An admin's `["shutdown", grace]` whose grace is a number with an integer value `k` below
`2^31` stops the server and the algorithm engine and starts the countdown at `max 3 k` with
the default interval; the countdown then ends after that many passes, each cancelling every
order. An integer value below `2^31` is one a `double` holds exactly, so the exact value the
model reads is the one the code converts. -/
theorem shutdown_grace_ends (env : Env) (u : User) (hu : u.isAdmin = true) (g : Json) (hg : g.isNumber = true)
    (k : Int) (hk : g.num = k) (hr : k < 2 ^ 31) (st : St) :
    ∃ n : Nat, (n : Int) = max 3 k ∧
      onShutdown env u (.array ["shutdown", g]) st =
        .error (.shutdown n 1) { st with calls := st.calls ++ [.serverStop, .stopAll] } ∧
      countdown 1 n n { st with calls := st.calls ++ [.serverStop, .stopAll] } =
        .ok true { st with calls := st.calls ++ [.serverStop, .stopAll] ++ List.replicate n .cancelAll } := by
  have hn : ((max 3 k).toNat : Int) = max 3 k := Int.toNat_of_nonneg (by omega)
  refine ⟨(max 3 k).toNat, hn, ?_, countdown_one _ (by omega) _⟩
  have hget : getNum env g = pure g.num := getAs_of_test env hg
  simp only [onShutdown, hu, Bool.not_true, Bool.false_eq_true, if_false, Json.size, List.length, index,
    List.getD_cons_succ, List.getD_cons_zero, hget, pure_bind, if_pos (by decide : (0 + 1 + 1 : Nat) > 1),
    if_neg (by decide : ¬(0 + 1 + 1 : Nat) > 2), hk]
  have hstop : ∀ y : Int, (do call .serverStop; call .stopAll; throw (Abort.shutdown y 1) : M Unit) st =
      .error (.shutdown y 1) { st with calls := st.calls ++ [.serverStop, .stopAll] } := fun y => by
    rw [M.bind_of_ok (call_apply _ _), M.bind_of_ok (call_apply _ _), List.append_assoc]
    rfl
  have hs := shutdown_seconds hr st
  rw [hn]
  split_ifs at hs ⊢
  · rw [M.bind_of_ok hs, hstop]
  · rw [← show (3 : Int) = max 3 k by injection hs]
    exact hstop 3

/-- An administrator. -/
def rootUser : User := ⟨0, [], true, false, []⟩

/-- An administrator's `["shutdown",3,2]`: the countdown starts at 3 with interval 2, passes
1 and then -1, and never ends. -/
theorem shutdown_three_two_never_ends :
    (∃ st', onShutdown plainEnv rootUser (.array ["shutdown", .numberUnsigned 3, .numberUnsigned 2]) St.init =
      .error (.shutdown 3 2) st') ∧
    ∀ fuel st', countdown 2 (fuel + 2) 3 St.init ≠ .ok true st' := by
  refine ⟨⟨_, rfl⟩, fun fuel st' => ?_⟩
  rw [countdown_succ (t := 1) (m := 2000) (by norm_num) (by norm_num) (by norm_num) (by norm_num) (by norm_num),
    countdown_succ (t := -1) (m := 2000) (by norm_num) (by norm_num) (by norm_num) (by norm_num) (by norm_num)]
  exact (countdown_overshoot_never_ends 2 (by norm_num) (-1) (by norm_num) (by norm_num) _).1 fuel st'

/-- An administrator's `["shutdown",5]` starts the countdown at 5 with interval 1, and it
ends after 5 passes. -/
theorem shutdown_five_ends :
    onShutdown plainEnv rootUser (.array ["shutdown", .numberUnsigned 5]) St.init =
        .error (.shutdown 5 1) { St.init with calls := [.serverStop, .stopAll] } ∧
      countdown 1 5 5 { St.init with calls := [.serverStop, .stopAll] } =
        .ok true { St.init with calls := [.serverStop, .stopAll] ++ List.replicate 5 .cancelAll } := by
  obtain ⟨n, hn, h⟩ := shutdown_grace_ends plainEnv rootUser rfl (.numberUnsigned 5) rfl 5
    (by norm_num [Json.num, Json.int64]) (by norm_num) St.init
  obtain rfl : n = 5 := by omega
  exact h

end OpenTrade
