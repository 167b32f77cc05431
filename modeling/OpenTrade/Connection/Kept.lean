import OpenTrade.Connection.State
import Mathlib.Order.Basic

/-!
# Relations every ending of a handler keeps

A handler ends normally, with an exception, with undefined behaviour or in the shutdown
countdown, and in each case in some state. `Kept R x` says that `R` relates the state `x`
starts in to the state it ends in, however it ends. For a reflexive and transitive `R`,
`Kept R` goes through `bind`, branches and loops, so a property of a whole handler follows
from one of the few primitives that write: `modifyConn`, `emit`, `call` and `modify`.

## Implementation notes

`Kept Eq x` says that `x` only reads; every getter and every indexing is such a computation.
-/

namespace OpenTrade

/-- The state a computation ended in, normally or not. -/
def M.final {α : Type} : EStateM.Result Abort St α → St
  | .ok _ s => s
  | .error _ s => s

@[simp] theorem M.final_ok {α : Type} (a : α) (s : St) : M.final (.ok a s) = s := rfl

@[simp] theorem M.final_error {α : Type} (e : Abort) (s : St) : M.final (.error e s : EStateM.Result Abort St α) = s :=
  rfl

/-- `R` relates the state `x` starts in to every state it ends in. -/
def Kept {α : Type} (R : St → St → Prop) (x : M α) : Prop := ∀ s, R s (M.final (x s))

/-- Whenever `x` ends normally, the value it returns satisfies `P`. -/
def Returns {α : Type} (P : α → Prop) (x : M α) : Prop := ∀ s a s', x s = .ok a s' → P a

/-- An element that `operator[]` through a `const json&` returns is in the array. -/
theorem returns_indexConst {i : Nat} {j : Json} :
    Returns (fun x => ∃ xs, j = .array xs ∧ xs.get? i = some x) (indexConst i j) := by
  intro s x s' h
  cases j with
  | array xs =>
    cases hx : xs.get? i with
    | none => simp only [indexConst, hx, undefinedBehaviour_apply] at h; cases h
    | some y =>
      simp only [indexConst, hx] at h
      cases h
      exact ⟨xs, rfl, hx⟩
  | _ => simp [indexConst] at h

/-- A getter returns only what it reads off a value that passes its test. -/
theorem returns_getAs {α : Type} {env : Env} {test : Json → Bool} {expect : String} {read : Json → α} {j : Json} :
    Returns (fun a => test j = true ∧ a = read j) (getAs env test expect read j) := by
  intro s a s' h
  cases ht : test j
  · have ⟨e, he⟩ : ∃ e, getAs env test expect read j s = .error (.throw e) s := getAs_throw env s ht
    cases h.symm.trans he
  · rw [getAs_of_test env ht] at h
    cases h
    exact ⟨rfl, rfl⟩

/-- `Get<std::string>` returns the string of a string and of nothing else. -/
theorem returns_getString {env : Env} {x : Json} : Returns (fun a => x = .string a) (getString env x) :=
  fun s a s' h => by
    obtain ⟨hx, rfl⟩ := returns_getAs s a s' h
    cases x <;> first | rfl | cases hx

/-- An array with elements at 1, 2 and 3. -/
theorem List.exists_eq_cons_of_get {α : Type} {xs : List α} {b c d : α} (h1 : xs.get? 1 = some b)
    (h2 : xs.get? 2 = some c) (h3 : xs.get? 3 = some d) : ∃ a rest, xs = a :: b :: c :: d :: rest := by
  rcases xs with _ | ⟨a, _ | ⟨_, _ | ⟨_, _ | ⟨_, rest⟩⟩⟩⟩
  all_goals first | (cases h1; cases h2; cases h3; exact ⟨a, rest, rfl⟩) | cases h3

section Kept

variable {α β : Type} {R : St → St → Prop}

theorem Kept.mono {R' : St → St → Prop} (hR : ∀ s s', R s s' → R' s s') {x : M α} (h : Kept R x) :
    Kept R' x := fun s => hR _ _ (h s)

theorem kept_modify {f : St → St} (h : ∀ s, R s (f s)) : Kept R (modify f) := h

theorem kept_call {c : Call} (h : ∀ s, R s { s with calls := s.calls ++ [c] }) : Kept R (call c) := h

theorem kept_modifyConn {f : Session → Session} (h : ∀ s, R s { s with conn := f s.conn }) :
    Kept R (modifyConn f) := h

theorem kept_ite {c : Prop} [Decidable c] {x y : M α} (hx : Kept R x) (hy : Kept R y) :
    Kept R (if c then x else y) := by
  split <;> assumption

/-- `bind` passes on what the first computation is known to return. -/
theorem kept_bind_returns [IsTrans St R] {P : α → Prop} {x : M α} {f : α → M β} (hx : Kept R x)
    (hr : Returns P x) (hf : ∀ a, P a → Kept R (f a)) : Kept R (x >>= f) := by
  intro s
  have h1 := hx s
  show R s (M.final (EStateM.bind x f s))
  unfold EStateM.bind
  cases h : x s with
  | ok a s1 =>
    rw [h] at h1
    exact IsTrans.trans _ _ _ h1 (hf a (hr s a s1 h) s1)
  | error e s1 => rwa [h] at h1

theorem kept_bind [IsTrans St R] {x : M α} {f : α → M β} (hx : Kept R x) (hf : ∀ a, Kept R (f a)) :
    Kept R (x >>= f) :=
  kept_bind_returns hx (P := fun _ => True) (fun _ _ _ _ => trivial) fun a _ => hf a

theorem kept_ite_of {c : Prop} [Decidable c] {x y : M α} (hx : c → Kept R x) (hy : ¬c → Kept R y) :
    Kept R (if c then x else y) := by
  split
  · exact hx ‹_›
  · exact hy ‹_›

variable [IsRefl St R]

theorem Kept.of_eq {x : M α} (h : Kept Eq x) : Kept R x := fun s => h s ▸ refl s

/-- After a computation that only reads, what the continuation keeps is kept, transitive or
not. -/
theorem kept_eq_bind {x : M α} {f : α → M β} (hx : Kept Eq x) (hf : ∀ a, Kept R (f a)) : Kept R (x >>= f) := by
  intro s
  show R s (M.final (EStateM.bind x f s))
  have h1 := hx s
  unfold EStateM.bind
  cases h : x s with
  | ok a s1 =>
    obtain rfl : s = s1 := by rw [h] at h1; exact h1
    exact hf a s
  | error e s1 =>
    obtain rfl : s = s1 := by rw [h] at h1; exact h1
    exact refl s

theorem kept_pure (a : α) : Kept R (pure a : M α) := fun s => refl s

theorem kept_get : Kept R (get : M St) := fun s => refl s

theorem kept_throw (e : Abort) : Kept R (throw e : M α) := fun s => refl s

theorem kept_throwExn (e : Exn) : Kept R (throwExn e : M α) := kept_throw _

theorem kept_undefinedBehaviour : Kept R (undefinedBehaviour : M α) := kept_throw _

theorem kept_emit {f : Frame} (h : ∀ s, s.conn.closed = false → R s { s with out := s.out ++ [f] }) :
    Kept R (emit f) := by
  intro s
  simp only [emit_apply, M.final_ok]
  split
  · exact refl s
  · rename_i hc
    exact h s (by simpa using hc)

theorem kept_send {env : Env} {j : Json} (h : ∀ s, s.conn.closed = false → R s { s with out := s.out ++ [.json j] }) :
    Kept R (send env j) := by
  unfold send
  split
  · exact kept_emit h
  · exact kept_throwExn _

theorem kept_getAs {env : Env} {test : Json → Bool} {expect : String} {read : Json → α} {j : Json} :
    Kept R (getAs env test expect read j) := by
  unfold getAs
  split
  · exact kept_pure _
  · split <;> exact kept_throwExn _

theorem kept_index {i : Nat} {j : Json} : Kept R (index i j) := by
  unfold index
  split
  · exact kept_pure _
  · exact kept_pure _
  · exact kept_throwExn _

theorem kept_indexConst {i : Nat} {j : Json} : Kept R (indexConst i j) := by
  unfold indexConst
  split
  · split
    · exact kept_pure _
    · exact kept_undefinedBehaviour
  · exact kept_throwExn _

theorem kept_getString {env : Env} {j : Json} : Kept R (getString env j) := kept_getAs

theorem kept_getInt64 {env : Env} {j : Json} : Kept R (getInt64 env j) := kept_getAs

theorem kept_getBool {env : Env} {j : Json} : Kept R (getBool env j) := kept_getAs

theorem kept_getNum {env : Env} {j : Json} : Kept R (getNum env j) := kept_getAs

variable [IsTrans St R]

theorem kept_map {f : α → β} {x : M α} (hx : Kept R x) : Kept R (f <$> x) := by
  rw [map_eq_pure_bind]
  exact kept_bind hx fun _ => kept_pure _

theorem kept_forM {l : List α} {f : α → M PUnit} (hf : ∀ a ∈ l, Kept R (f a)) : Kept R (l.forM f) := by
  induction l with
  | nil => exact kept_pure _
  | cons a l ih =>
    simp only [List.forM_cons, List.mem_cons] at hf ⊢
    exact kept_bind (hf a (.inl rfl)) fun _ => ih fun b hb => hf b (.inr hb)

theorem kept_foldlM {l : List β} {f : α → β → M α} (hf : ∀ a, ∀ b ∈ l, Kept R (f a b)) (init : α) :
    Kept R (l.foldlM f init) := by
  induction l generalizing init with
  | nil => exact kept_pure _
  | cons b l ih =>
    simp only [List.foldlM_cons, List.mem_cons] at hf ⊢
    exact kept_bind (hf init b (.inl rfl)) fun a => ih (fun a' b' hb => hf a' b' (.inr hb)) a

theorem kept_mapM {l : List α} {f : α → M β} (hf : ∀ a ∈ l, Kept R (f a)) : Kept R (l.mapM f) := by
  induction l with
  | nil => exact kept_pure _
  | cons a l ih =>
    simp only [List.mapM_cons, List.mem_cons] at hf ⊢
    exact kept_bind (hf a (.inl rfl)) fun b =>
      kept_bind (ih fun c hc => hf c (.inr hc)) fun _ => kept_pure _

end Kept

/-! ## What a computation returns -/

section Returns

variable {α β : Type} {P Q' : α → Prop} {Q : β → Prop}

theorem Returns.mono (h : ∀ a, P a → Q' a) {x : M α} (hx : Returns P x) : Returns Q' x :=
  fun s a s' e => h a (hx s a s' e)

theorem returns_pure {a : α} (h : P a) : Returns P (pure a : M α) := fun _ _ _ e => by
  cases e
  exact h

theorem returns_throwExn (e : Exn) : Returns P (throwExn e : M α) := fun _ _ _ h => by cases h

theorem returns_bind {x : M α} {f : α → M β} (hx : Returns P x) (hf : ∀ a, P a → Returns Q (f a)) :
    Returns Q (x >>= f) := by
  intro s b s' h
  cases hr : x s with
  | ok a s₁ =>
    rw [M.bind_of_ok hr] at h
    exact hf a (hx s a s₁ hr) s₁ b s' h
  | error e s₁ =>
    rw [M.bind_of_error hr] at h
    cases h

theorem returns_map {f : α → β} {x : M α} (hx : Returns P x) (hf : ∀ a, P a → Q (f a)) : Returns Q (f <$> x) := by
  rw [map_eq_pure_bind]
  exact returns_bind hx fun a ha => returns_pure (hf a ha)

theorem returns_ite {c : Prop} [Decidable c] {x y : M α} (hx : c → Returns P x) (hy : ¬c → Returns P y) :
    Returns P (if c then x else y) := by
  split
  · exact hx ‹_›
  · exact hy ‹_›

/-- A fold returns what every step keeps. -/
theorem returns_foldlM {l : List β} {f : α → β → M α} (hf : ∀ a, P a → ∀ b ∈ l, Returns P (f a b)) {init : α}
    (h : P init) : Returns P (l.foldlM f init) := by
  induction l generalizing init with
  | nil => exact returns_pure h
  | cons b l ih =>
    simp only [List.foldlM_cons, List.mem_cons] at hf ⊢
    exact returns_bind (hf init h b (.inl rfl)) fun a ha => ih (fun a' ha' b' hb => hf a' ha' b' (.inr hb)) ha

/-- `mapM` returns a list of values each of which its function can return. -/
theorem returns_mapM {l : List α} {f : α → M β} (hf : ∀ a ∈ l, Returns Q (f a)) :
    Returns (fun bs => ∀ b ∈ bs, Q b) (l.mapM f) := by
  induction l with
  | nil => exact returns_pure fun _ h => absurd h (List.not_mem_nil _)
  | cons a l ih =>
    simp only [List.mapM_cons, List.mem_cons] at hf ⊢
    exact returns_bind (hf a (.inl rfl)) fun b hb => returns_bind (ih fun c hc => hf c (.inr hc)) fun bs hbs =>
      returns_pure fun c hc => (List.mem_cons.mp hc).elim (· ▸ hb) (hbs c)

end Returns

end OpenTrade
