import OpenTrade.Props.Subscriptions

/-!
# Paths of the algorithm-file handlers

`algoFile`, `deleteAlgoFile` and `saveAlgoFile` open or remove `kAlgoPath / name` for the
name the client sends, with no check of it. Boost.Filesystem v3 appends an absolute name
after a separator, so a leading `/` stays inside; a `..` component does not. The C library
receives the path up to its first NUL byte.

A path is resolved lexically (`lexical`): components are split at `/`, empty ones and `.`
vanish, and `..` removes the one before it. A path is `Inside` a directory when it resolves
to the directory or to a path under it.
-/

namespace OpenTrade

/-- `..`. -/
def dotDot : Bytes := [0x2E, 0x2E]

/-- The components of a path, between its `/` separators. -/
def components (p : Bytes) : List Bytes := p.splitOn 0x2F

/-- One component of lexical resolution over a stack whose head is the last component kept:
empty components and `.` vanish, `..` removes the component before it (at the root of an
absolute path it vanishes), and any other component is kept. -/
def resolveStep (abs : Bool) (st : List Bytes) (c : Bytes) : List Bytes :=
  if c = [] ∨ c = [0x2E] then st
  else if c = dotDot then
    match st with
    | [] => if abs then [] else [dotDot]
    | top :: rest => if top = dotDot then dotDot :: top :: rest else rest
  else c :: st

/-- A path after lexical resolution: whether it is absolute, and its components, last first. -/
def lexical (p : Bytes) : Bool × List Bytes :=
  (p.head? = some 0x2F, (components p).foldl (resolveStep (p.head? = some 0x2F)) [])

/-- After lexical resolution, `p` is `dir` or a path under it. -/
def Inside (dir p : Bytes) : Prop := (lexical p).1 = (lexical dir).1 ∧ (lexical dir).2 <:+ (lexical p).2

instance (dir p : Bytes) : Decidable (Inside dir p) := inferInstanceAs (Decidable (_ ∧ _))


theorem splitOnP_append_cons {p : UInt8 → Bool} {sep : UInt8} (hsep : p sep = true) (xs ys : Bytes) :
    (xs ++ sep :: ys).splitOnP p = xs.splitOnP p ++ ys.splitOnP p := by
  induction xs with
  | nil => simp [hsep]
  | cons x xs ih =>
    by_cases hx : p x
    · simp [hx, ih]
    · simp only [List.cons_append, List.splitOnP_cons, hx, ih]
      obtain ⟨c, cs, hc⟩ := List.exists_cons_of_ne_nil (List.splitOnP_ne_nil p xs)
      simp [hc]

theorem resolveStep_suffix (abs : Bool) (st : List Bytes) {c : Bytes} (hc : c ≠ dotDot) :
    st <:+ resolveStep abs st c := by
  unfold resolveStep
  split
  · exact List.suffix_refl st
  · exact List.suffix_cons c st

theorem foldl_resolveStep_suffix (abs : Bool) {cs : List Bytes} (hcs : dotDot ∉ cs) (st : List Bytes) :
    st <:+ cs.foldl (resolveStep abs) st := by
  induction cs generalizing st with
  | nil => exact List.suffix_refl st
  | cons c cs ih =>
    simp only [List.mem_cons, not_or] at hcs
    exact (resolveStep_suffix abs st (Ne.symm hcs.1)).trans (ih hcs.2 _)


theorem components_append_cons (xs ys : Bytes) :
    components (xs ++ 0x2F :: ys) = components xs ++ components ys :=
  splitOnP_append_cons (by decide) xs ys

@[simp] theorem components_nil : components [] = [[]] := rfl

theorem components_cons_sep (q : Bytes) : components (0x2F :: q) = [] :: components q :=
  components_append_cons [] q

/-- Resolving `dir / q` continues from the resolution of `dir`. -/
theorem lexical_append_cons {dir : Bytes} (hd : dir ≠ []) (q : Bytes) :
    lexical (dir ++ 0x2F :: q) =
      ((lexical dir).1, (components q).foldl (resolveStep (lexical dir).1) (lexical dir).2) := by
  have hh : (dir ++ 0x2F :: q).head? = dir.head? := by
    cases dir with
    | nil => contradiction
    | cons => rfl
  simp only [lexical, hh, components_append_cons, List.foldl_append]

/-- A path whose last byte is `/` resolves as the path without it. -/
theorem lexical_concat_sep (d : Bytes) (hd : d ≠ []) :
    lexical (d ++ [0x2F]) = lexical d := by
  have h := lexical_append_cons hd []
  simp only [List.append_assoc, List.singleton_append] at h
  rw [h]
  simp [components, resolveStep]

/-- After a trailing `/`, resolution continues from the directory's. -/
theorem lexical_append_of_getLast {dir : Bytes} (h : dir.getLast? = some 0x2F) (q : Bytes) :
    lexical (dir ++ q) =
      ((lexical dir).1, (components q).foldl (resolveStep (lexical dir).1) (lexical dir).2) := by
  obtain ⟨d, rfl⟩ := List.getLast?_eq_some_iff.mp h
  rcases eq_or_ne d [] with rfl | hd
  · simp [lexical, components_cons_sep, resolveStep]
  · rw [lexical_concat_sep d hd, List.append_assoc, List.singleton_append]
    exact lexical_append_cons hd q

theorem inside_of_lexical {dir p : Bytes} {cs : List Bytes}
    (h : lexical p = ((lexical dir).1, cs.foldl (resolveStep (lexical dir).1) (lexical dir).2))
    (hcs : dotDot ∉ cs) : Inside dir p := by
  rw [Inside, h]
  exact ⟨rfl, foldl_resolveStep_suffix _ hcs _⟩

/-- A name with no `..` component, cut at its first NUL, keeps `dir / name` under `dir`. -/
theorem inside_cString_appendPath {dir fn : Bytes} (hd : dir ≠ []) (hnul : ∀ b ∈ dir, b ≠ 0)
    (hfn : dotDot ∉ components (cString fn)) : Inside dir (cString (appendPath dir fn)) := by
  have hc : ∀ q, cString (dir ++ q) = dir ++ cString q := fun q =>
    List.takeWhile_append_of_pos (by simpa using hnul)
  unfold appendPath
  split
  · rw [← List.append_nil dir, hc]
    exact ⟨rfl, List.suffix_refl _⟩
  split
  · rename_i h
    rw [hc]
    rcases h with h | h | h
    · obtain ⟨f, rfl⟩ : ∃ f, fn = 0x2F :: f := by
        cases fn with
        | nil => simp at h
        | cons b f => simp only [List.head?_cons, Option.some.injEq] at h; exact ⟨f, by rw [h]⟩
      have hf : cString (0x2F :: f) = 0x2F :: cString f := by simp [cString]
      rw [hf] at hfn ⊢
      refine inside_of_lexical (lexical_append_cons hd _) fun h => hfn ?_
      rw [components_cons_sep]
      exact List.mem_cons_of_mem _ h
    · simp at h; contradiction
    · exact inside_of_lexical (lexical_append_of_getLast h _) hfn
  · rw [List.append_assoc, List.singleton_append, hc, show cString (0x2F :: fn) = 0x2F :: cString fn by
      simp [cString]]
    exact inside_of_lexical (lexical_append_cons hd _) hfn

/-! ## The handlers -/

/-- The path a filesystem call opens or removes. -/
def Call.filePath : Call → Option Bytes
  | .readFile p | .writeFile p _ | .removeFile p => some p
  | _ => none

/-- Every call made since is a filesystem call on a path inside `dir`. -/
def FileCallsInside (dir : Bytes) (s s' : St) : Prop :=
  ∃ cs, s'.calls = s.calls ++ cs ∧ ∀ c ∈ cs, ∃ p, c.filePath = some p ∧ Inside dir p

instance (dir : Bytes) : IsRefl St (FileCallsInside dir) := ⟨fun s => ⟨[], by simp, by simp⟩⟩

instance (dir : Bytes) : IsTrans St (FileCallsInside dir) :=
  ⟨fun _ _ _ ⟨cs, h, hcs⟩ ⟨cs', h', hcs'⟩ => ⟨cs ++ cs', by rw [h', h, List.append_assoc], fun c hc =>
    (List.mem_append.mp hc).elim (hcs c) (hcs' c)⟩⟩

section Handlers

variable {env : Env} {w : World} {action fn : Bytes} {x : Json} {rest : List Json}

theorem kept_send_fileCalls (j : Json) : Kept (FileCallsInside env.algoPath) (send env j) :=
  kept_send fun s _ => ⟨[], by simp, by simp⟩

theorem kept_fileCall {c : Call} {p : Bytes} (hc : c.filePath = some p) (hp : Inside env.algoPath p) :
    Kept (FileCallsInside env.algoPath) (call c) :=
  kept_call fun s => ⟨[c], rfl, by simp [hc, hp]⟩

variable (hd : env.algoPath ≠ []) (hnul : ∀ b ∈ env.algoPath, b ≠ 0)
  (hfn : dotDot ∉ components (cString fn))
include hd hnul hfn

theorem kept_onAlgoFile :
    Kept (FileCallsInside env.algoPath) (onAlgoFile env w action (.array (x :: .string fn :: rest))) := by
  simp only [onAlgoFile, index_array, List.getD_cons_succ, List.getD_cons_zero, pure_bind, getString_string]
  refine kept_bind (kept_fileCall rfl (inside_cString_appendPath hd hnul hfn)) fun _ => ?_
  split <;> exact kept_send_fileCalls _

theorem kept_onDeleteAlgoFile :
    Kept (FileCallsInside env.algoPath) (onDeleteAlgoFile env w action (.array (x :: .string fn :: rest))) := by
  simp only [onDeleteAlgoFile, index_array, List.getD_cons_succ, List.getD_cons_zero, pure_bind,
    getString_string]
  refine kept_bind (kept_fileCall rfl (inside_cString_appendPath hd hnul hfn)) fun _ => ?_
  split <;> exact kept_send_fileCalls _

theorem kept_onSaveAlgoFile :
    Kept (FileCallsInside env.algoPath) (onSaveAlgoFile env w action (.array (x :: .string fn :: rest))) := by
  simp only [onSaveAlgoFile, index_array, List.getD_cons_succ, List.getD_cons_zero, pure_bind,
    getString_string]
  refine kept_bind kept_getAs fun text => ?_
  split
  · exact kept_bind (kept_fileCall rfl (inside_cString_appendPath hd hnul hfn)) fun _ => kept_send_fileCalls _
  · exact kept_send_fileCalls _

end Handlers

/-- For a name with no `..` component before its first NUL, every file the three handlers
open or remove lies inside `kAlgoPath`. -/
theorem algo_file_calls_inside (env : Env) (w : World) (msg token a fn : Bytes) (rest : List Json)
    (s : St) (u : User) (hd : env.algoPath ≠ []) (hnul : ∀ b ∈ env.algoPath, b ≠ 0)
    (hu : s.conn.user = some u) (hp : Json.parse msg = .ok (.array (.string a :: .string fn :: rest)))
    (ha : a = utf8 "algoFile" ∨ a = utf8 "deleteAlgoFile" ∨ a = utf8 "saveAlgoFile")
    (hfn : dotDot ∉ components (cString fn)) :
    FileCallsInside env.algoPath s (M.final (onMessageSync env w msg token s)) := by
  refine onMessageSync_rel ?_ fun _ => kept_send_fileCalls _
  rw [onMessageBody_of_parse hp]
  rcases ha with rfl | rfl | rfl
  · rw [onAction_of_user (utf8 "algoFile") hu rfl (by decide), dispatch_algoFile]
    exact kept_onAlgoFile hd hnul hfn s
  · rw [onAction_of_user (utf8 "deleteAlgoFile") hu rfl (by decide), dispatch_deleteAlgoFile]
    exact kept_onDeleteAlgoFile hd hnul hfn s
  · rw [onAction_of_user (utf8 "saveAlgoFile") hu rfl (by decide), dispatch_saveAlgoFile]
    exact kept_onSaveAlgoFile hd hnul hfn s

theorem save_algo_file_inside :
    FileCallsInside plainEnv.algoPath aliceSt
      (M.final (onMessageSync plainEnv quietWorld (utf8 "[\"saveAlgoFile\",\"/etc/x\",\"\"]") [] aliceSt)) :=
  algo_file_calls_inside plainEnv quietWorld _ [] (utf8 "saveAlgoFile") (utf8 "/etc/x") _ aliceSt alice
    (by decide) (by decide) rfl rfl (.inr (.inr rfl)) (by decide)

/-- `kAlgoPath / "../x"` resolves outside `kAlgoPath`, and `deleteAlgoFile` removes it. -/
theorem delete_dotdot_escapes :
    onMessageSync plainEnv quietWorld (utf8 "[\"deleteAlgoFile\",\"../x\"]") [] aliceSt =
      .ok () { aliceSt with out := [.json (.array ["deleteAlgoFile", "../x"])],
                            calls := [.removeFile (utf8 "algos/../x")] } ∧
      ¬ Inside plainEnv.algoPath (utf8 "algos/../x") :=
  ⟨rfl, by decide⟩

end OpenTrade
