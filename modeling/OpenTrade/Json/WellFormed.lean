import OpenTrade.Json.Parse

/-!
# What `json::parse` accepts, `dump` writes back

The lexer runs every byte of a string through the UTF-8 decoder, and a `\u` escape adds the
bytes of a code point that is not a surrogate. So every string and every key of a parsed
value is well-formed UTF-8, and `dump`, whose only failure is the UTF-8 check of a string,
succeeds on it. A handler that dumps a part of its request relies on this.

## Implementation notes

`WellFormed` is the invariant. The lexer keeps it for the string it is reading and for every
token it emits (`scanStep_valid`), the parser for its stack of open containers
(`parseStep_valid`); each is lifted to a whole message by induction on the input.
-/

namespace OpenTrade.Json

/-! ## UTF-8 -/

theorem utf8Run_append (q : Utf8State) (a b : Bytes) :
    utf8Run q (a ++ b) = (utf8Run q a).bind (utf8Run · b) := by
  induction a generalizing q with
  | nil => rfl
  | cons x a ih =>
    simp only [List.cons_append, utf8Run]
    cases utf8Step q x <;> simp [ih]

/-- A string that ends between characters can be followed by anything. -/
theorem utf8Run_append_of_accept {a : Bytes} (ha : utf8Run .accept a = some .accept) (b : Bytes) :
    utf8Run .accept (a ++ b) = utf8Run .accept b := by
  rw [utf8Run_append, ha]
  rfl

theorem utf8Run_cons_of_step {q r : Utf8State} {b : UInt8} (bs : Bytes) (h : utf8Step q b = some r) :
    utf8Run q (b :: bs) = utf8Run r bs := by
  simp [utf8Run, h]

theorem toNat_toUInt8 {v : Nat} (h : v < 256) : v.toUInt8.toNat = v := UInt8.toNat_ofNat_of_lt h

section Encode

variable {b : UInt8}

/-- A byte is in `[lo, hi]` when its value is. -/
theorem within_of_toNat {lo hi : UInt8} {next : Utf8State} (h1 : lo.toNat ≤ b.toNat) (h2 : b.toNat ≤ hi.toNat) :
    within lo hi next b = some next := if_pos ⟨h1, h2⟩

/-- A continuation byte `0x80 + x` in the range `[lo, hi]`. -/
theorem within_tail {lo hi : UInt8} {next : Utf8State} {x : Nat} (h1 : lo.toNat ≤ 0x80 + x)
    (h2 : 0x80 + x ≤ hi.toNat) : within lo hi next (0x80 + x).toUInt8 = some next := by
  have : hi.toNat < 256 := hi.toNat_lt_size
  exact within_of_toNat (by rw [toNat_toUInt8 (by omega)]; omega) (by rw [toNat_toUInt8 (by omega)]; omega)

theorem utf8Step_ascii (h : b.toNat < 0x80) : utf8Step .accept b = some .accept := if_pos h

theorem utf8Step_lead2 (h1 : 0xC2 ≤ b.toNat) (h2 : b.toNat < 0xE0) : utf8Step .accept b = some .tail1 := by
  simp only [utf8Step]
  rw [if_neg (show ¬ b < 0x80 from (by omega : ¬ b.toNat < 0x80)),
    if_neg (show ¬ b < 0xC2 from (by omega : ¬ b.toNat < 0xC2)), if_pos (show b < 0xE0 from h2)]

theorem utf8Step_lead3 (h1 : 0xE0 < b.toNat) (h2 : b.toNat < 0xF0) (h3 : b.toNat ≠ 0xED) :
    utf8Step .accept b = some .tail2 := by
  simp only [utf8Step]
  rw [if_neg (show ¬ b < 0x80 from (by omega : ¬ b.toNat < 0x80)),
    if_neg (show ¬ b < 0xC2 from (by omega : ¬ b.toNat < 0xC2)),
    if_neg (show ¬ b < 0xE0 from (by omega : ¬ b.toNat < 0xE0)),
    if_neg (fun h => absurd (congrArg UInt8.toNat h) (by omega : b.toNat ≠ 0xE0)),
    if_neg (fun h => absurd (congrArg UInt8.toNat h) h3), if_pos (show b < 0xF0 from h2)]

theorem utf8Step_lead4 (h1 : 0xF0 < b.toNat) (h2 : b.toNat < 0xF4) : utf8Step .accept b = some .tail3 := by
  simp only [utf8Step]
  rw [if_neg (show ¬ b < 0x80 from (by omega : ¬ b.toNat < 0x80)),
    if_neg (show ¬ b < 0xC2 from (by omega : ¬ b.toNat < 0xC2)),
    if_neg (show ¬ b < 0xE0 from (by omega : ¬ b.toNat < 0xE0)),
    if_neg (fun h => absurd (congrArg UInt8.toNat h) (by omega : b.toNat ≠ 0xE0)),
    if_neg (fun h => absurd (congrArg UInt8.toNat h) (by omega : b.toNat ≠ 0xED)),
    if_neg (show ¬ b < 0xF0 from (by omega : ¬ b.toNat < 0xF0)),
    if_neg (fun h => absurd (congrArg UInt8.toNat h) (by omega : b.toNat ≠ 0xF0)), if_pos (show b < 0xF4 from h2)]

end Encode

/-- The bytes of a code point that is not a surrogate are well-formed UTF-8. -/
theorem utf8Run_encodeCodepoint {n : Nat} (h : n < 0xD800 ∨ 0xE000 ≤ n ∧ n < 0x110000) :
    utf8Run .accept (encodeCodepoint n) = some .accept := by
  have t1 : ∀ {c : Nat}, c < 256 → c.toUInt8.toNat = c := toNat_toUInt8
  unfold encodeCodepoint
  split_ifs with h1 h2 h3
  · exact utf8Run_cons_of_step _ (utf8Step_ascii (by rw [t1 (by omega)]; exact h1))
  · rw [utf8Run_cons_of_step _ (utf8Step_lead2 (by rw [t1 (by omega)]; omega) (by rw [t1 (by omega)]; omega)),
      utf8Run_cons_of_step (q := .tail1) _ (within_tail (x := n % 0x40) (Nat.le_add_right _ _) (by simp only [UInt8.reduceToNat]; omega))]
    rfl
  · have last := utf8Run_cons_of_step (q := .tail1) []
      (within_tail (x := n % 0x40) (Nat.le_add_right _ _) (by simp only [UInt8.reduceToNat]; omega))
    rcases Nat.lt_or_ge n 0x1000 with hE0 | hE0
    · rw [utf8Run_cons_of_step _ (r := .afterE0)
        (by rw [show n / 0x1000 = 0 by omega]; rfl), utf8Run_cons_of_step (q := .afterE0) _
        (within_tail (x := n / 0x40 % 0x40) (by simp only [UInt8.reduceToNat]; omega)
          (by simp only [UInt8.reduceToNat]; omega)), last]
      rfl
    rcases Nat.lt_or_ge n 0xD000 with hlo | hlo
    · rw [utf8Run_cons_of_step _ (utf8Step_lead3 (by rw [t1 (by omega)]; omega) (by rw [t1 (by omega)]; omega)
        (by rw [t1 (by omega)]; omega)), utf8Run_cons_of_step (q := .tail2) _
        (within_tail (x := n / 0x40 % 0x40) (Nat.le_add_right _ _) (by simp only [UInt8.reduceToNat]; omega)), last]
      rfl
    rcases Nat.lt_or_ge n 0xE000 with hED | hED
    · rw [utf8Run_cons_of_step _ (r := .afterED)
        (by rw [show n / 0x1000 = 13 by omega]; rfl), utf8Run_cons_of_step (q := .afterED) _
        (within_tail (x := n / 0x40 % 0x40) (Nat.le_add_right _ _) (by simp only [UInt8.reduceToNat]; omega)), last]
      rfl
    · rw [utf8Run_cons_of_step _ (utf8Step_lead3 (by rw [t1 (by omega)]; omega) (by rw [t1 (by omega)]; omega)
        (by rw [t1 (by omega)]; omega)), utf8Run_cons_of_step (q := .tail2) _
        (within_tail (x := n / 0x40 % 0x40) (Nat.le_add_right _ _) (by simp only [UInt8.reduceToNat]; omega)), last]
      rfl
  · have tail2 := utf8Run_cons_of_step (q := .tail2) [(0x80 + n % 0x40).toUInt8]
      (within_tail (x := n / 0x40 % 0x40) (Nat.le_add_right _ _) (by simp only [UInt8.reduceToNat]; omega))
    have last := utf8Run_cons_of_step (q := .tail1) []
      (within_tail (x := n % 0x40) (Nat.le_add_right _ _) (by simp only [UInt8.reduceToNat]; omega))
    rcases Nat.lt_or_ge n 0x40000 with hF0 | hF0
    · rw [utf8Run_cons_of_step _ (r := .afterF0)
        (by rw [show n / 0x40000 = 0 by omega]; rfl), utf8Run_cons_of_step (q := .afterF0) _
        (within_tail (x := n / 0x1000 % 0x40) (by simp only [UInt8.reduceToNat]; omega)
          (by simp only [UInt8.reduceToNat]; omega)), tail2, last]
      rfl
    rcases Nat.lt_or_ge n 0x100000 with hF4 | hF4
    · rw [utf8Run_cons_of_step _ (utf8Step_lead4 (by rw [t1 (by omega)]; omega) (by rw [t1 (by omega)]; omega)),
        utf8Run_cons_of_step (q := .tail3) _ (within_tail (x := n / 0x1000 % 0x40) (Nat.le_add_right _ _)
          (by simp only [UInt8.reduceToNat]; omega)), tail2, last]
      rfl
    · rw [utf8Run_cons_of_step _ (r := .afterF4)
        (by rw [show n / 0x40000 = 4 by omega]; rfl), utf8Run_cons_of_step (q := .afterF4) _
        (within_tail (x := n / 0x1000 % 0x40) (Nat.le_add_right _ _) (by simp only [UInt8.reduceToNat]; omega)),
        tail2, last]
      rfl

/-! ## `dump` of a well-formed value -/

/-- `dump_escaped` succeeds on a string that ends between characters. -/
theorem escape_go_ok (s : Bytes) {q : Utf8State} {i : Nat} {bs : Bytes} (h : utf8Run q bs = some .accept) :
    ∃ t, escape.go s q i bs = .ok t := by
  induction bs generalizing q i with
  | nil =>
    cases h
    exact ⟨[], rfl⟩
  | cons b bs ih =>
    cases hq : utf8Step q b with
    | none => simp [utf8Run, hq] at h
    | some q' =>
      obtain ⟨t, ht⟩ := ih (i := i + 1) (by simpa [utf8Run, hq] using h)
      exact ⟨escapeByte b ++ t, by simp [escape.go, hq, ht]⟩

theorem escape_ok {s : Bytes} (h : utf8Run .accept s = some .accept) : ∃ t, escape s = .ok t :=
  escape_go_ok s h

/-- Every string and every key is well-formed UTF-8. -/
inductive WellFormed : Json → Prop where
  | null : WellFormed .null
  | boolean (b : Bool) : WellFormed (.boolean b)
  | numberInteger (v : Int) : WellFormed (.numberInteger v)
  | numberUnsigned (v : Nat) : WellFormed (.numberUnsigned v)
  | numberFloat (v : ℚ) : WellFormed (.numberFloat v)
  | string {s : Bytes} (h : utf8Run .accept s = some .accept) : WellFormed (.string s)
  | array {xs : List Json} (h : ∀ x ∈ xs, WellFormed x) : WellFormed (.array xs)
  | object {kvs : List (Bytes × Json)} (hk : ∀ kv ∈ kvs, utf8Run .accept kv.1 = some .accept)
      (hv : ∀ kv ∈ kvs, WellFormed kv.2) : WellFormed (.object kvs)

section Dump

variable (fmt : ℚ → Bytes)

theorem dumpElements_ok {xs : List Json} (h : ∀ x ∈ xs, ∃ t, dump fmt x = .ok t) :
    ∃ ts, dumpElements fmt xs = .ok ts := by
  induction xs with
  | nil => exact ⟨[], rfl⟩
  | cons x xs ih =>
    simp only [List.mem_cons, forall_eq_or_imp] at h
    obtain ⟨⟨t, ht⟩, h⟩ := h
    obtain ⟨ts, hts⟩ := ih h
    exact ⟨t :: ts, by simp [dumpElements, ht, hts]; rfl⟩

theorem dumpMembers_ok {kvs : List (Bytes × Json)} (hk : ∀ kv ∈ kvs, utf8Run .accept kv.1 = some .accept)
    (hv : ∀ kv ∈ kvs, ∃ t, dump fmt kv.2 = .ok t) : ∃ ts, dumpMembers fmt kvs = .ok ts := by
  induction kvs with
  | nil => exact ⟨[], rfl⟩
  | cons kv kvs ih =>
    simp only [List.mem_cons, forall_eq_or_imp] at hk hv
    obtain ⟨ek, hek⟩ := escape_ok hk.1
    obtain ⟨t, ht⟩ := hv.1
    obtain ⟨ts, hts⟩ := ih hk.2 hv.2
    exact ⟨_, by simp [dumpMembers, hek, ht, hts]; rfl⟩

/-- `dump` fails only on a string or key that is not UTF-8. -/
theorem dump_ok_of_wellFormed {j : Json} (h : WellFormed j) : ∃ t, j.dump fmt = .ok t := by
  induction h with
  | null | boolean | numberInteger | numberUnsigned | numberFloat => exact ⟨_, by simp [dump]; rfl⟩
  | string h =>
    obtain ⟨t, ht⟩ := escape_ok h
    exact ⟨_, by simp [dump, ht]; rfl⟩
  | array _ ih =>
    obtain ⟨ts, hts⟩ := dumpElements_ok fmt ih
    exact ⟨_, by simp [dump, hts]; rfl⟩
  | object hk _ ih =>
    obtain ⟨ts, hts⟩ := dumpMembers_ok fmt hk ih
    exact ⟨_, by simp [dump, hts]; rfl⟩

end Dump

/-! ## The lexer -/

/-- What the lexer holds is well-formed: the bytes of the string read so far run the decoder
to the state it is in, a pending `\u` escape has at most four digits, and a pending high
surrogate is one. -/
def Lexer.Valid : Lexer → Prop
  | .between | .number .. => True
  | .literal _ v => WellFormed v
  | .string acc q => utf8Run .accept acc = some q
  | .escape acc => utf8Run .accept acc = some .accept
  | .unicode acc high n k =>
    utf8Run .accept acc = some .accept ∧ k ≤ 3 ∧ n < 16 ^ k ∧ ∀ h ∈ high, 0xD800 ≤ h ∧ h ≤ 0xDBFF
  | .lowBackslash acc h | .lowU acc h => utf8Run .accept acc = some .accept ∧ 0xD800 ≤ h ∧ h ≤ 0xDBFF

/-- A token carries a well-formed value or string. -/
def Token.Valid : Token → Prop
  | .value v => WellFormed v
  | .string s => utf8Run .accept s = some .accept
  | _ => True

/-- The outcome of a byte is valid when its state and tokens are. -/
def LexStep.Valid : LexStep → Prop
  | .next l out => l.Valid ∧ ∀ t ∈ out, t.Valid
  | .stop out => ∀ t ∈ out, t.Valid
  | .fail => True

theorem numberValue_wellFormed (text : Bytes) : WellFormed (numberValue text) := by
  unfold numberValue
  dsimp only
  repeat' refine iteInduction (fun _ => ?_) fun _ => ?_
  all_goals constructor

theorem scanBetween_valid (b : UInt8) : (scanBetween b).Valid := by
  unfold scanBetween
  repeat' refine iteInduction (fun _ => ?_) fun _ => ?_
  all_goals first
    | trivial
    | exact fun t ht => by cases ht
    | exact ⟨trivial, fun t ht => by cases List.mem_singleton.mp ht; trivial⟩
    | exact ⟨rfl, fun t ht => by cases ht⟩
    | exact ⟨WellFormed.boolean _, fun t ht => by cases ht⟩
    | exact ⟨WellFormed.null, fun t ht => by cases ht⟩
    | exact ⟨trivial, fun t ht => by cases ht⟩

/-- An escape other than `\u` stands for an ASCII byte. -/
theorem escapeValue_ascii (b : UInt8) : (escapeValue b).all (·.toNat < 0x80) := by
  unfold escapeValue
  repeat' refine (iteInduction (motive := fun x : Option UInt8 => x.all (·.toNat < 0x80) = true)
    (fun _ => ?_) fun _ => ?_)
  all_goals rfl

theorem hexValue_lt {b : UInt8} {d : Nat} (h : hexValue b = some d) : d < 16 := by
  have : b.toNat < 256 := b.toNat_lt_size
  unfold hexValue at h
  split_ifs at h with h1 h2 h3 <;> cases h
  · exact (show b.toNat - 0x30 < 16 by have := h1.2; change b.toNat ≤ 0x39 at this; omega)
  · exact (show b.toNat - 0x37 < 16 by have := h2.2; change b.toNat ≤ 0x46 at this; omega)
  · exact (show b.toNat - 0x57 < 16 by have := h3.2; change b.toNat ≤ 0x66 at this; omega)

theorem codepointStep_valid {acc : Bytes} {high : Option Nat} {n : Nat} (hacc : utf8Run .accept acc = some .accept)
    (hhigh : ∀ h ∈ high, 0xD800 ≤ h ∧ h ≤ 0xDBFF) (hn : n < 0x10000) : (codepointStep acc high n).Valid := by
  unfold codepointStep
  cases high with
  | none =>
    simp only
    split_ifs with h1 h2
    · exact ⟨⟨hacc, h1⟩, by simp⟩
    · trivial
    · refine ⟨?_, by simp⟩
      show utf8Run .accept (acc ++ _) = _
      rw [utf8Run_append_of_accept hacc, utf8Run_encodeCodepoint (by omega)]
  | some h =>
    have := hhigh h rfl
    simp only
    split_ifs with h1
    · refine ⟨?_, by simp⟩
      show utf8Run .accept (acc ++ _) = _
      rw [utf8Run_append_of_accept hacc, utf8Run_encodeCodepoint (by omega)]
    · trivial

/-- One byte keeps the lexer valid, and every token it completes is valid. -/
theorem scanStep_valid {l : Lexer} (hl : l.Valid) (b : UInt8) : (scanStep l b).Valid := by
  have none_valid : ∀ t ∈ ([] : List Token), t.Valid := fun t ht => by cases ht
  cases l with
  | between => exact scanBetween_valid b
  | literal rest v =>
    rcases rest with _ | ⟨c, _ | ⟨c', cs⟩⟩
    · trivial
    · refine iteInduction (fun _ => ⟨trivial, fun t ht => ?_⟩) fun _ => trivial
      cases List.mem_singleton.mp ht
      exact hl
    · exact iteInduction (fun _ => ⟨hl, none_valid⟩) fun _ => trivial
  | number st text =>
    simp only [scanStep]
    split
    · exact ⟨trivial, none_valid⟩
    · refine iteInduction (fun _ => ?_) fun _ => trivial
      have h := scanBetween_valid b
      split <;> rename_i heq <;> rw [heq] at h
      · exact ⟨h.1, List.forall_mem_cons.2 ⟨numberValue_wellFormed text, h.2⟩⟩
      · exact List.forall_mem_cons.2 ⟨numberValue_wellFormed text, h⟩
      · trivial
  | string acc q =>
    have hl : utf8Run .accept acc = some q := hl
    simp only [scanStep]
    refine iteInduction (fun h => ⟨trivial, fun t ht => ?_⟩) fun _ => ?_
    · cases List.mem_singleton.mp ht
      rw [h.1] at hl
      exact hl
    refine iteInduction (fun h => ⟨?_, none_valid⟩) fun _ => ?_
    · rw [h.1] at hl
      exact hl
    refine iteInduction (fun _ => trivial) fun _ => ?_
    split
    · rename_i q' hq'
      refine ⟨?_, none_valid⟩
      show utf8Run .accept (acc ++ [b]) = _
      rw [utf8Run_append, hl]
      exact utf8Run_cons_of_step [] hq'
    · trivial
  | escape acc =>
    simp only [scanStep]
    refine iteInduction (fun _ => ⟨⟨hl, by omega, by simp, by simp⟩, none_valid⟩) fun _ => ?_
    split
    · rename_i c hc
      have hc' := escapeValue_ascii b
      rw [hc] at hc'
      refine ⟨?_, none_valid⟩
      show utf8Run .accept (acc ++ [c]) = _
      rw [utf8Run_append_of_accept hl]
      exact utf8Run_cons_of_step [] (utf8Step_ascii (by simpa using hc'))
    · trivial
  | unicode acc high n k =>
    obtain ⟨hacc, hk, hn, hh⟩ := hl
    simp only [scanStep]
    split
    · trivial
    · rename_i d hd
      have hd16 := hexValue_lt hd
      refine iteInduction (fun _ => ⟨⟨hacc, by omega, ?_, hh⟩, none_valid⟩) fun _ => ?_
      · rw [Nat.pow_succ]
        omega
      · have hk3 : k = 3 := by omega
        subst hk3
        exact codepointStep_valid hacc hh (by rw [show (16 : Nat) ^ 3 = 4096 from rfl] at hn; omega)
  | lowBackslash acc h => exact iteInduction (fun _ => ⟨hl, none_valid⟩) fun _ => trivial
  | lowU acc h =>
    refine iteInduction (fun _ => ⟨⟨hl.1, Nat.zero_le _, Nat.one_pos, fun h' hh => ?_⟩, none_valid⟩) fun _ => trivial
    cases hh
    exact hl.2

theorem scanEnd_valid {l : Lexer} {ts : List Token} (h : scanEnd l = .ok ts) : ∀ t ∈ ts, t.Valid := by
  cases l <;> simp only [scanEnd] at h <;> try cases h
  · exact fun t ht => by cases ht
  · split at h <;> cases h
    exact List.forall_mem_singleton.2 (numberValue_wellFormed _)

/-- Every token of a message the lexer accepts is valid. -/
theorem scan_valid {bs : Bytes} : ∀ {l : Lexer} {ts : List Token}, l.Valid → scan l bs = .ok ts → ∀ t ∈ ts, t.Valid := by
  induction bs with
  | nil => exact fun _ h => scanEnd_valid h
  | cons b bs ih =>
    intro l ts hl h
    have hs := scanStep_valid hl b
    simp only [scan] at h
    split at h <;> rename_i heq <;> rw [heq] at hs
    · cases hr : scan _ bs with
      | error e => rw [hr] at h; cases h
      | ok ts' =>
        rw [hr] at h
        cases h
        exact List.forall_mem_append.2 ⟨hs.2, ih hs.1 hr⟩
    · cases h
      exact hs
    · cases h

/-! ## The parser -/

/-- An open container holds well-formed elements, or well-formed members and key. -/
def Open.Valid : Open → Prop
  | .array xs => ∀ x ∈ xs, WellFormed x
  | .object o k => WellFormed o ∧ utf8Run .accept k = some .accept

/-- A finished parse holds a well-formed value. -/
def Expect.Valid : Expect → Prop
  | .done j => WellFormed j
  | _ => True

theorem mem_insertMember {k : Bytes} {v : Json} {kvs : List (Bytes × Json)} :
    ∀ m ∈ insertMember k v kvs, m = (k, v) ∨ m ∈ kvs := by
  induction kvs with
  | nil => simp [insertMember]
  | cons kv kvs ih =>
    unfold insertMember
    split_ifs
    · intro m hm
      simp only [List.mem_cons] at hm ⊢
      tauto
    · intro m hm
      simp only [List.mem_cons] at hm ⊢
      tauto
    · intro m hm
      simp only [List.mem_cons] at hm ⊢
      rcases hm with rfl | hm
      · exact .inr (.inl rfl)
      · exact (ih m hm).imp id .inr

theorem set_wellFormed {o v : Json} {k : Bytes} (ho : WellFormed o) (hk : utf8Run .accept k = some .accept)
    (hv : WellFormed v) : WellFormed (o.set k v) := by
  have single : WellFormed (.object [(k, v)]) :=
    .object (fun m hm => by cases List.mem_singleton.1 hm; exact hk)
      (fun m hm => by cases List.mem_singleton.1 hm; exact hv)
  cases ho with
  | object hks hvs =>
    refine .object (fun m hm => ?_) (fun m hm => ?_) <;> rcases mem_insertMember m hm with rfl | hm
    exacts [hk, hks m hm, hv, hvs m hm]
  | _ => exact single

theorem complete_valid {v : Json} {st : List Open} (hv : WellFormed v) (hst : ∀ o ∈ st, o.Valid) :
    (complete v st).1.Valid ∧ ∀ o ∈ (complete v st).2, o.Valid := by
  cases st with
  | nil => exact ⟨hv, fun o ho => by cases ho⟩
  | cons o st =>
    rw [List.forall_mem_cons] at hst
    cases o with
    | array xs =>
      refine ⟨trivial, List.forall_mem_cons.2 ⟨fun x hx => ?_, hst.2⟩⟩
      rcases List.mem_append.1 hx with hx | hx
      · exact hst.1 x hx
      · cases List.mem_singleton.1 hx
        exact hv
    | object o k => exact ⟨trivial, List.forall_mem_cons.2 ⟨⟨set_wellFormed hst.1.1 hst.1.2 hv, rfl⟩, hst.2⟩⟩

/-- One token keeps the parser's stack valid. -/
theorem parseStep_valid {e : Expect} {st : List Open} {t : Token} (he : e.Valid) (hst : ∀ o ∈ st, o.Valid)
    (ht : t.Valid) : ∀ p ∈ parseStep e st t, p.1.Valid ∧ ∀ o ∈ p.2, o.Valid := by
  have empty : WellFormed (.object []) := .object (List.forall_mem_nil _) (List.forall_mem_nil _)
  unfold parseStep
  split <;> intro p hp <;> cases hp
  all_goals first
    | exact ⟨trivial, hst⟩
    | exact complete_valid ht hst
    | exact complete_valid (.string ht) hst
    | exact ⟨trivial, List.forall_mem_cons.2 ⟨List.forall_mem_nil _, hst⟩⟩
    | exact ⟨trivial, List.forall_mem_cons.2 ⟨⟨empty, rfl⟩, hst⟩⟩
    | skip
  all_goals rw [List.forall_mem_cons] at hst
  all_goals first
    | exact complete_valid (.array (List.forall_mem_nil _)) hst.2
    | exact complete_valid hst.1.1 hst.2
    | exact ⟨trivial, List.forall_mem_cons.2 ⟨⟨hst.1.1, ht⟩, hst.2⟩⟩
    | exact complete_valid (.array hst.1) hst.2

/-- The value a token list spells is well-formed when every token is valid. -/
theorem parseTokens_valid {ts : List Token} (hts : ∀ t ∈ ts, t.Valid) :
    ∀ {e : Expect} {st : List Open} {j : Json}, e.Valid → (∀ o ∈ st, o.Valid) → parseTokens e st ts = .ok j →
      WellFormed j := by
  induction ts with
  | nil =>
    intro e st j he _ h
    cases e <;> cases st <;> simp only [parseTokens, reduceCtorEq] at h
    cases h
    exact he
  | cons t ts ih =>
    intro e st j he hst h
    rw [List.forall_mem_cons] at hts
    simp only [parseTokens] at h
    split at h
    · rename_i e' st' hp
      have := parseStep_valid he hst hts.1 _ hp
      exact ih hts.2 this.1 this.2 h
    · cases h

/-- Every string and key of a value `json::parse` accepts is well-formed UTF-8. -/
theorem parse_wellFormed {msg : Bytes} {j : Json} (h : parse msg = .ok j) : WellFormed j := by
  unfold parse at h
  cases hb : skipBom msg with
  | error e => rw [hb] at h; cases h
  | ok m =>
    cases hs : scan .between m with
    | error e => rw [hb] at h; simp [hs, bind, Except.bind] at h
    | ok ts =>
      rw [hb] at h
      simp only [hs, bind, Except.bind] at h
      exact parseTokens_valid (scan_valid (show Lexer.Valid .between from trivial) hs)
        (show Expect.Valid .value from trivial) (List.forall_mem_nil _) h

end OpenTrade.Json
