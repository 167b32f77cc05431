import OpenTrade.Json.WellFormed
import Mathlib.Data.Nat.Digits

/-!
# `json::parse` reads back what `dump` writes

The session sends every frame as the text `dump` writes, and its client parses that text with
the same library. For a canonical value the client gets the value back, with the one change
the library makes on purpose: a non-negative `int64_t` is read as the `uint64_t` of the same
number, which `nlohmann::json` compares equal to it. Canonical means that strings and keys
are UTF-8, integers lie within `int64_t` and `uint64_t`, the keys of an object increase as a
`std::map` keeps them, and each `double` is printed by `fmt` as a number text of its own value.

## Implementation notes

The proof follows the two passes of `parse`. The lexer reads the text of a value, followed by
anything that starts with a delimiter, as the value's tokens (`scan_dump`): a number needs
the delimiter to end, a string runs its escapes back byte by byte, and a container is an
induction on its elements. The parser reads the tokens of a value to the point where the value
has completed on its stack (`parseTokens_tokens`); an object is rebuilt by `set`, which puts
each key at the end because the keys come in increasing order.
-/

namespace OpenTrade.Json

/-! ## Canonical values -/

mutual
/-- The value `json::parse` builds from the text of `j`: a non-negative `int64_t` reads back
as the `uint64_t` of the same value. -/
def reread : Json → Json
  | .numberInteger v => if 0 ≤ v then .numberUnsigned v.toNat else .numberInteger v
  | .array xs => .array (rereadElements xs)
  | .object kvs => .object (rereadMembers kvs)
  | j => j

def rereadElements : List Json → List Json
  | [] => []
  | x :: xs => reread x :: rereadElements xs

def rereadMembers : List (Bytes × Json) → List (Bytes × Json)
  | [] => []
  | (k, v) :: kvs => (k, reread v) :: rereadMembers kvs
end

/-- The state `scan_number` reaches over more bytes of a number, or `none` where it ends. -/
def numberRun : NumState → Bytes → Option NumState
  | st, [] => some st
  | st, b :: bs => (numberStep st b).bind (numberRun · bs)

/-- A text the lexer reads as one number: its first byte starts a number and every other byte
continues it, up to a state where a number may end. -/
def NumberText (t : Bytes) : Prop :=
  ∃ c cs st₀ st, t = c :: cs ∧ scanBetween c = .next (.number st₀ [c]) [] ∧
    numberRun st₀ cs = some st ∧ st.final = true

/-- A value whose text reads back: strings and keys UTF-8, integers within `int64_t` and
`uint64_t`, the keys of an object increasing as a `std::map` keeps them, and every `double`
printed by `fmt` as a number text of its own value. -/
inductive Canonical (fmt : ℚ → Bytes) : Json → Prop where
  | null : Canonical fmt .null
  | boolean (b : Bool) : Canonical fmt (.boolean b)
  | numberInteger {v : Int} (h : -2 ^ 63 ≤ v ∧ v < 2 ^ 63) : Canonical fmt (.numberInteger v)
  | numberUnsigned {v : Nat} (h : v < 2 ^ 64) : Canonical fmt (.numberUnsigned v)
  | numberFloat {v : ℚ} (ht : NumberText (fmt v)) (hv : numberValue (fmt v) = .numberFloat v) :
      Canonical fmt (.numberFloat v)
  | string {s : Bytes} (h : utf8Run .accept s = some .accept) : Canonical fmt (.string s)
  | array {xs : List Json} (h : ∀ x ∈ xs, Canonical fmt x) : Canonical fmt (.array xs)
  | object {kvs : List (Bytes × Json)} (hk : ∀ kv ∈ kvs, utf8Run .accept kv.1 = some .accept)
      (hs : (kvs.map Prod.fst).Pairwise (bytesLt · · = true)) (hv : ∀ kv ∈ kvs, Canonical fmt kv.2) :
      Canonical fmt (.object kvs)

/-- A canonical value is well formed, so `dump` succeeds on it. -/
theorem Canonical.wellFormed {fmt : ℚ → Bytes} {j : Json} (h : Canonical fmt j) : WellFormed j := by
  induction h with
  | null => exact .null
  | boolean b => exact .boolean b
  | numberInteger => exact .numberInteger _
  | numberUnsigned => exact .numberUnsigned _
  | numberFloat => exact .numberFloat _
  | string h => exact .string h
  | array _ ih => exact .array ih
  | object hk _ _ ih => exact .object hk ih

mutual
/-- The tokens the lexer reads from the text of `j`. -/
def tokens : Json → List Token
  | .string s => [.string s]
  | .array xs => .beginArray :: elementTokens xs ++ [.endArray]
  | .object kvs => .beginObject :: memberTokens kvs ++ [.endObject]
  | j => [.value j.reread]

def elementTokens : List Json → List Token
  | [] => []
  | [x] => tokens x
  | x :: xs => tokens x ++ .valueSeparator :: elementTokens xs

def memberTokens : List (Bytes × Json) → List Token
  | [] => []
  | [(k, v)] => .string k :: .nameSeparator :: tokens v
  | (k, v) :: kvs => .string k :: .nameSeparator :: tokens v ++ .valueSeparator :: memberTokens kvs
end

/-! ## The lexer over a dumped text -/

/-- What may follow a value's text in a dump: nothing, or a comma or a closing bracket. -/
def Delimited : Bytes → Prop
  | [] => True
  | b :: _ => b = 0x2C ∨ b = 0x5D ∨ b = 0x7D

/-- A byte that completes tokens puts them before those of the rest. -/
theorem scan_cons_next {l l' : Lexer} {b : UInt8} {out : List Token} (h : scanStep l b = .next l' out)
    (bs : Bytes) : scan l (b :: bs) = (out ++ ·) <$> scan l' bs := by
  simp only [scan, h]

/-- A byte that completes no token only moves the lexer on. -/
theorem scan_cons_quiet {l l' : Lexer} {b : UInt8} (h : scanStep l b = .next l' []) (bs : Bytes) :
    scan l (b :: bs) = scan l' bs := by
  simp [scan, h]

theorem scan_between_next {b : UInt8} {l : Lexer} {out : List Token} (h : scanBetween b = .next l out)
    (bs : Bytes) : scan .between (b :: bs) = (out ++ ·) <$> scan l bs :=
  scan_cons_next (show scanStep .between b = _ from h) bs

theorem scan_between_quiet {b : UInt8} {l : Lexer} (h : scanBetween b = .next l []) (bs : Bytes) :
    scan .between (b :: bs) = scan l bs :=
  scan_cons_quiet (show scanStep .between b = _ from h) bs

/-- The bytes of a number are taken into its text, one state after another. -/
theorem scan_number_run {st st' : NumState} {cs : Bytes} (h : numberRun st cs = some st') (text rest : Bytes) :
    scan (.number st text) (cs ++ rest) = scan (.number st' (text ++ cs)) rest := by
  induction cs generalizing st text with
  | nil =>
    cases h
    simp
  | cons c cs ih =>
    cases hc : numberStep st c with
    | none => simp [numberRun, hc] at h
    | some st₁ =>
      rw [numberRun, hc, Option.some_bind] at h
      have hstep : scanStep (.number st text) c = .next (.number st₁ (text ++ [c])) [] := by
        simp [scanStep, hc]
      rw [List.cons_append, scan_cons_quiet hstep, ih h, List.append_assoc, List.singleton_append]

/-- A number in a state where it may end ends at a delimiter or at the end of the input. -/
theorem scan_number_end {st : NumState} (hst : st.final = true) {rest : Bytes} (hr : Delimited rest)
    (text : Bytes) : scan (.number st text) rest = (.value (numberValue text) :: ·) <$> scan .between rest := by
  cases rest with
  | nil => simp [scan, scanEnd, hst]
  | cons b bs =>
    have hb : numberStep st b = none := by
      rcases hr with rfl | rfl | rfl <;> cases st <;> rfl
    obtain ⟨out, hout⟩ : ∃ out, scanBetween b = .next .between out := by
      rcases hr with rfl | rfl | rfl <;> exact ⟨_, rfl⟩
    have hstep : scanStep (.number st text) b = .next .between (.value (numberValue text) :: out) := by
      simp [scanStep, hb, hst, hout]
    rw [scan_cons_next hstep, scan_between_next hout, Functor.map_map]
    rfl

/-- A number text followed by a delimiter is read as one number token. -/
theorem scan_numberText {t : Bytes} (ht : NumberText t) {rest : Bytes} (hr : Delimited rest) :
    scan .between (t ++ rest) = (.value (numberValue t) :: ·) <$> scan .between rest := by
  obtain ⟨c, cs, st₀, st, rfl, hc, hrun, hfin⟩ := ht
  rw [List.cons_append, scan_between_quiet hc, scan_number_run hrun, scan_number_end hfin hr]
  rfl

/-! ### Decimal integers -/

/-- The byte of a decimal digit. -/
def digitByte (k : Nat) : UInt8 := (0x30 + k).toUInt8

/-- `Nat.toDigitsCore`, the loop of `std::to_string`, writes the decimal digits of `n`,
most significant first. -/
theorem toDigitsCore_ten {f n : Nat} (ds : List Char) (hn : 0 < n) (hf : n < f) :
    Nat.toDigitsCore 10 f n ds = (Nat.digits 10 n).reverse.map Nat.digitChar ++ ds := by
  induction f generalizing n ds with
  | zero => omega
  | succ f ih =>
    rw [Nat.toDigitsCore, Nat.digits_def' (by norm_num) hn]
    by_cases h : n / 10 = 0
    · simp [h]
    · simp only [h, if_false, ih _ (Nat.pos_of_ne_zero h) (by omega)]
      simp

theorem encode_digitChar : ∀ k < 10, encodeCodepoint (Nat.digitChar k).toNat = [digitByte k] := by
  decide

theorem flatMap_digitChar {L : List Nat} (hL : ∀ k ∈ L, k < 10) :
    (L.map Nat.digitChar).flatMap (encodeCodepoint ·.toNat) = L.map digitByte := by
  induction L with
  | nil => rfl
  | cons k L ih =>
    simp only [List.forall_mem_cons] at hL
    simp [encode_digitChar k hL.1, ih hL.2]

/-- The text of a positive number is its decimal digits. -/
theorem decimal_natCast {n : Nat} (hn : 0 < n) : decimal n = (Nat.digits 10 n).reverse.map digitByte := by
  show utf8 (Nat.toDigitsCore 10 (n + 1) n []).asString = _
  rw [toDigitsCore_ten [] hn (by omega), List.append_nil]
  exact flatMap_digitChar fun k hk => Nat.digits_lt_base (by norm_num) (List.mem_reverse.1 hk)

/-- The text of a negative number is a minus sign before the text of its absolute value. -/
theorem decimal_negSucc (m : Nat) : decimal (Int.negSucc m) = 0x2D :: decimal (m + 1 : Nat) := rfl

theorem digitByte_toNat {k : Nat} (hk : k < 10) : (digitByte k).toNat = 0x30 + k :=
  toNat_toUInt8 (by omega)

theorem isDigit_digitByte : ∀ k < 10, isDigit (digitByte k) = true := by decide

theorem digitsValue_append_singleton (ds : Bytes) (b : UInt8) :
    digitsValue (ds ++ [b]) = 10 * digitsValue ds + (b.toNat - 0x30) := by
  simp [digitsValue]

/-- `digitsValue` reads digits most significant first, the reverse of `Nat.ofDigits`. -/
theorem digitsValue_reverse {L : List Nat} (hL : ∀ k ∈ L, k < 10) :
    digitsValue (L.reverse.map digitByte) = Nat.ofDigits 10 L := by
  induction L with
  | nil => rfl
  | cons k L ih =>
    simp only [List.forall_mem_cons] at hL
    rw [List.reverse_cons, List.map_append, List.map_singleton, digitsValue_append_singleton,
      ih hL.2, digitByte_toNat hL.1, Nat.ofDigits_cons]
    omega

theorem digitsValue_digits (n : Nat) : digitsValue ((Nat.digits 10 n).reverse.map digitByte) = n := by
  rw [digitsValue_reverse fun k hk => Nat.digits_lt_base (by norm_num) hk, Nat.ofDigits_digits]

/-- A text of digits alone is a `uint64_t` when it fits. -/
theorem numberValue_digits {ds : Bytes} (hd : ∀ b ∈ ds, isDigit b = true) (h : digitsValue ds < 2 ^ 64) :
    numberValue ds = .numberUnsigned (digitsValue ds) := by
  have hneg : ds.head? ≠ some 0x2D := fun hb => absurd (hd _ (List.mem_of_mem_head? hb)) (by decide)
  simpa [numberValue, hneg, List.takeWhile_eq_self_iff.2 hd, List.dropWhile_eq_nil_iff.2 hd] using h

/-- A minus sign before digits is an `int64_t` when it fits. -/
theorem numberValue_minus_digits {ds : Bytes} (hd : ∀ b ∈ ds, isDigit b = true) (h : digitsValue ds ≤ 2 ^ 63) :
    numberValue (0x2D :: ds) = .numberInteger (-(digitsValue ds : Int)) := by
  simpa [numberValue, List.takeWhile_eq_self_iff.2 hd, List.dropWhile_eq_nil_iff.2 hd] using h

theorem scanBetween_digitByte : ∀ k, 0 < k → k < 10 →
    scanBetween (digitByte k) = .next (.number .int [digitByte k]) [] := by
  intro k h1 h2
  interval_cases k <;> rfl

theorem numberStep_minus_digitByte : ∀ k, 0 < k → k < 10 → numberStep .minus (digitByte k) = some .int := by
  intro k h1 h2
  interval_cases k <;> rfl

/-- Digits keep `scan_number` among the integer digits. -/
theorem numberRun_int {ds : Bytes} (hd : ∀ b ∈ ds, isDigit b = true) : numberRun .int ds = some .int := by
  induction ds with
  | nil => rfl
  | cons b ds ih =>
    simp only [List.forall_mem_cons] at hd
    simp [numberRun, numberStep, hd.1, ih hd.2]

/-- The most significant digit of a positive number is not zero. -/
theorem digits_reverse_cons {n : Nat} (hn : 0 < n) : ∃ k ks, (Nat.digits 10 n).reverse = k :: ks ∧ 0 < k := by
  have hne : Nat.digits 10 n ≠ [] := Nat.digits_ne_nil_iff_ne_zero.2 (by omega)
  refine ⟨(Nat.digits 10 n).getLast hne, (Nat.digits 10 n).dropLast.reverse, ?_,
    Nat.pos_of_ne_zero (Nat.getLast_digit_ne_zero 10 (by omega))⟩
  conv_lhs => rw [← List.dropLast_append_getLast hne]
  simp

/-- The decimal text of a positive number is a number text, with or without a minus sign,
made of digits whose value is the number. -/
theorem decimal_pos {n : Nat} (hn : 0 < n) :
    NumberText (decimal n) ∧ NumberText (0x2D :: decimal n) ∧ (∀ b ∈ decimal n, isDigit b = true) ∧
      digitsValue (decimal n) = n := by
  obtain ⟨k, ks, hks, hk⟩ := digits_reverse_cons hn
  have hL : ∀ d ∈ k :: ks, d < 10 := fun d hd =>
    Nat.digits_lt_base (by norm_num) (List.mem_reverse.1 (hks ▸ hd))
  have hd : ∀ b ∈ (k :: ks).map digitByte, isDigit b = true := by
    simp only [List.mem_map]
    rintro _ ⟨d, hd, rfl⟩
    exact isDigit_digitByte d (hL d hd)
  have hk10 := hL k (List.mem_cons_self _ _)
  rw [decimal_natCast hn, hks]
  refine ⟨⟨digitByte k, ks.map digitByte, .int, .int, rfl, scanBetween_digitByte k hk hk10,
      numberRun_int fun b hb => hd b (List.mem_cons_of_mem _ hb), rfl⟩,
    ⟨0x2D, (k :: ks).map digitByte, .minus, .int, rfl, rfl, ?_, rfl⟩, hd, ?_⟩
  · simp only [List.map_cons, numberRun, numberStep_minus_digitByte k hk hk10, Option.some_bind]
    exact numberRun_int fun b hb => hd b (List.mem_cons_of_mem _ hb)
  · rw [← hks, digitsValue_digits]

/-- The text of a `uint64_t` reads back as that number. -/
theorem scan_decimal_nat {n : Nat} (hn : n < 2 ^ 64) {rest : Bytes} (hr : Delimited rest) :
    scan .between (decimal n ++ rest) = (.value (.numberUnsigned n) :: ·) <$> scan .between rest := by
  rcases Nat.eq_zero_or_pos n with rfl | hpos
  · exact scan_numberText ⟨0x30, [], .zero, .zero, rfl, rfl, rfl, rfl⟩ hr
  · obtain ⟨ht, -, hd, hv⟩ := decimal_pos hpos
    rw [scan_numberText ht hr, numberValue_digits hd (by rw [hv]; exact hn), hv]

/-- The text of a negative `int64_t` reads back as that number. -/
theorem scan_decimal_negSucc {m : Nat} (hm : m + 1 ≤ 2 ^ 63) {rest : Bytes} (hr : Delimited rest) :
    scan .between (decimal (Int.negSucc m) ++ rest) =
      (.value (.numberInteger (Int.negSucc m)) :: ·) <$> scan .between rest := by
  obtain ⟨-, ht, hd, hv⟩ := decimal_pos (Nat.succ_pos m)
  rw [decimal_negSucc, scan_numberText ht hr, numberValue_minus_digits hd (by rw [hv]; exact hm), hv]
  rfl

/-! ### Strings -/

/-- A lower-case hex digit reads back as its value. -/
theorem hexValue_hexDigit : ∀ n < 16, hexValue (hexDigit false n) = some n := by decide

theorem within_lo {lo hi : UInt8} {next q : Utf8State} {b : UInt8} (h : within lo hi next b = some q) :
    lo.toNat ≤ b.toNat := by
  unfold within at h
  split_ifs at h with hb
  exact hb.1

/-- A continuation byte of UTF-8 is at least `0x80`. -/
theorem utf8Step_tail {q q' : Utf8State} {b : UInt8} (hq : q ≠ .accept) (h : utf8Step q b = some q') :
    0x80 ≤ b.toNat := by
  cases q
  case accept => exact absurd rfl hq
  all_goals exact le_trans (by decide) (within_lo h)

/-- A byte the lexer copies into a string as it stands. -/
theorem scanStep_string_plain {acc : Bytes} {q q' : Utf8State} {b : UInt8} (h : utf8Step q b = some q')
    (h1 : b ≠ 0x22) (h2 : b ≠ 0x5C) (h3 : q = .accept → 0x20 ≤ b.toNat) :
    scanStep (.string acc q) b = .next (.string (acc ++ [b]) q') [] := by
  have h3' : ¬(q = .accept ∧ b < 0x20) := fun hq => absurd (h3 hq.1) (not_le.2 hq.2)
  simp [scanStep, h1, h2, h3', h]

/-- A byte that needs no escape is written as it stands. -/
theorem escapeByte_plain {b : UInt8} (h1 : b ≠ 0x22) (h2 : b ≠ 0x5C) (h3 : 0x20 ≤ b.toNat) : escapeByte b = [b] := by
  have ne : ∀ c : UInt8, c.toNat < 0x20 → b ≠ c := fun c hc hb => by subst hb; omega
  rw [escapeByte, if_neg h1, if_neg h2, if_neg (ne 0x08 (by decide)), if_neg (ne 0x0C (by decide)),
    if_neg (ne 0x0A (by decide)), if_neg (ne 0x0D (by decide)), if_neg (ne 0x09 (by decide)),
    if_neg (show ¬ b < 0x20 from not_lt.2 h3)]

/-- A two-byte escape reads back as the byte it stands for. -/
theorem scan_shortEscape {acc : Bytes} {b c : UInt8} (h : escapeValue c = some b) (rest : Bytes) :
    scan (.string acc .accept) (0x5C :: c :: rest) = scan (.string (acc ++ [b]) .accept) rest := by
  have hu : c ≠ 0x75 := fun e => by subst e; cases h
  simp [scan, scanStep, hu, h]

/-- `\u00` and two hex digits, the escape of a control character, read back as that byte. -/
theorem scan_unicodeEscape {acc : Bytes} {b : UInt8} (hb : b < 0x20) (rest : Bytes) :
    scan (.string acc .accept)
      (utf8 "\\u00" ++ [hexDigit false (b.toNat / 16), hexDigit false (b.toNat % 16)] ++ rest) =
      scan (.string (acc ++ [b]) .accept) rest := by
  have hb' : b.toNat < 0x20 := hb
  have hhi := hexValue_hexDigit (b.toNat / 16) (by omega)
  have hlo := hexValue_hexDigit (b.toNat % 16) (by omega)
  have henc : encodeCodepoint b.toNat = [b] := by
    rw [encodeCodepoint, if_pos (by omega)]
    exact congrArg (· :: []) (UInt8.toNat.inj (toNat_toUInt8 (by omega)))
  have hcp : codepointStep acc none (16 * (b.toNat / 16) + b.toNat % 16) =
      .next (.string (acc ++ [b]) .accept) [] := by
    rw [show 16 * (b.toNat / 16) + b.toNat % 16 = b.toNat by omega, codepointStep,
      if_neg (by omega), if_neg (by omega), henc]
  rw [show utf8 "\\u00" ++ [hexDigit false (b.toNat / 16), hexDigit false (b.toNat % 16)] ++ rest =
      0x5C :: 0x75 :: 0x30 :: 0x30 :: hexDigit false (b.toNat / 16) :: hexDigit false (b.toNat % 16) :: rest from rfl]
  have h0 : hexValue 0x30 = some 0 := rfl
  simp [scan, scanStep, h0, hhi, hlo, hcp]

/-- The lexer reads the escape of a byte back as that byte. -/
theorem scan_escapeByte {acc : Bytes} {q q' : Utf8State} {b : UInt8} (h : utf8Step q b = some q') (rest : Bytes) :
    scan (.string acc q) (escapeByte b ++ rest) = scan (.string (acc ++ [b]) q') rest := by
  by_cases hq : q = .accept
  · subst hq
    by_cases hplain : b ≠ 0x22 ∧ b ≠ 0x5C ∧ 0x20 ≤ b.toNat
    · rw [escapeByte_plain hplain.1 hplain.2.1 hplain.2.2, List.singleton_append,
        scan_cons_quiet (scanStep_string_plain h hplain.1 hplain.2.1 fun _ => hplain.2.2)]
    · have hascii : b.toNat < 0x80 := by
        by_contra hb
        exact hplain ⟨fun e => by subst e; exact hb (by decide), fun e => by subst e; exact hb (by decide),
          by omega⟩
      obtain rfl : q' = .accept := Option.some.inj (h.symm.trans (utf8Step_ascii hascii))
      by_cases h1 : b = 0x22
      · subst h1; exact scan_shortEscape (show escapeValue 0x22 = some 0x22 from rfl) rest
      by_cases h2 : b = 0x5C
      · subst h2; exact scan_shortEscape (show escapeValue 0x5C = some 0x5C from rfl) rest
      by_cases h3 : b = 0x08
      · subst h3; exact scan_shortEscape (show escapeValue 0x62 = some 0x08 from rfl) rest
      by_cases h4 : b = 0x0C
      · subst h4; exact scan_shortEscape (show escapeValue 0x66 = some 0x0C from rfl) rest
      by_cases h5 : b = 0x0A
      · subst h5; exact scan_shortEscape (show escapeValue 0x6E = some 0x0A from rfl) rest
      by_cases h6 : b = 0x0D
      · subst h6; exact scan_shortEscape (show escapeValue 0x72 = some 0x0D from rfl) rest
      by_cases h7 : b = 0x09
      · subst h7; exact scan_shortEscape (show escapeValue 0x74 = some 0x09 from rfl) rest
      have h8 : b < 0x20 := not_le.1 fun h => hplain ⟨h1, h2, h⟩
      rw [escapeByte, if_neg h1, if_neg h2, if_neg h3, if_neg h4, if_neg h5, if_neg h6, if_neg h7, if_pos h8]
      exact scan_unicodeEscape h8 rest
  · have hb := utf8Step_tail hq h
    have h1 : b ≠ 0x22 := fun e => by subst e; exact absurd hb (by decide)
    have h2 : b ≠ 0x5C := fun e => by subst e; exact absurd hb (by decide)
    rw [escapeByte_plain h1 h2 (by omega), List.singleton_append,
      scan_cons_quiet (scanStep_string_plain h h1 h2 (absurd · hq))]

/-- A mapped computation that succeeds succeeded before the map. -/
theorem map_eq_ok {α β : Type} {f : α → β} {x : Except Exn α} {b : β} (h : f <$> x = .ok b) :
    ∃ a, x = .ok a ∧ b = f a := by
  cases x with
  | error => cases h
  | ok a =>
    cases h
    exact ⟨a, rfl, rfl⟩

/-- The lexer reads an escaped string, up to its closing quote, back as the string. -/
theorem scan_escape_go (s : Bytes) {q : Utf8State} {i : Nat} {bs e : Bytes} (h : escape.go s q i bs = .ok e)
    (acc rest : Bytes) :
    scan (.string acc q) (e ++ 0x22 :: rest) = (.string (acc ++ bs) :: ·) <$> scan .between rest := by
  induction bs generalizing q i e acc with
  | nil =>
    rw [escape.go] at h
    split_ifs at h with hq
    cases h
    subst hq
    rw [List.nil_append, scan_cons_next (show scanStep (.string acc .accept) 0x22 = .next .between [.string acc] from rfl),
      List.append_nil]
    rfl
  | cons b bs ih =>
    rw [escape.go] at h
    cases hb : utf8Step q b with
    | none =>
      rw [hb] at h
      cases h
    | some q' =>
      rw [hb] at h
      obtain ⟨e', he', rfl⟩ := map_eq_ok h
      rw [List.append_assoc, scan_escapeByte hb, ih he', List.append_assoc, List.singleton_append]

/-- The lexer reads the text `dump` writes of a string back as the string. -/
theorem scan_string {s e : Bytes} (h : escape s = .ok e) (rest : Bytes) :
    scan .between (0x22 :: (e ++ 0x22 :: rest)) = (.string s :: ·) <$> scan .between rest := by
  rw [scan_between_quiet (show scanBetween 0x22 = .next (.string [] .accept) [] from rfl), scan_escape_go s h,
    List.nil_append]

/-- The rest of a literal is matched byte by byte. -/
theorem scan_literal_run {cs : Bytes} (hcs : cs ≠ []) (v : Json) (rest : Bytes) :
    scan (.literal cs v) (cs ++ rest) = (.value v :: ·) <$> scan .between rest := by
  induction cs with
  | nil => contradiction
  | cons c cs ih =>
    cases cs with
    | nil =>
      rw [List.singleton_append,
        scan_cons_next (show scanStep (.literal [c] v) c = .next .between [.value v] by simp [scanStep])]
      rfl
    | cons c' cs =>
      rw [List.cons_append, scan_cons_quiet (show scanStep (.literal (c :: c' :: cs) v) c =
        .next (.literal (c' :: cs) v) [] by simp [scanStep]), ih (List.cons_ne_nil _ _)]

/-- The lexer reads `null`, `true` and `false` as the values they name. -/
theorem scan_literal {c : UInt8} {cs : Bytes} {v : Json} (h : scanBetween c = .next (.literal cs v) [])
    (hcs : cs ≠ []) (rest : Bytes) : scan .between (c :: cs ++ rest) = (.value v :: ·) <$> scan .between rest := by
  rw [List.cons_append, scan_between_quiet h, scan_literal_run hcs]

section Dump

variable {fmt : ℚ → Bytes}

/-- The texts of elements that `dump` writes start with the text of the first. -/
theorem dumpElements_cons_ok {x : Json} {xs : List Json} {es : List Bytes}
    (h : dumpElements fmt (x :: xs) = .ok es) :
    ∃ e es', x.dump fmt = .ok e ∧ dumpElements fmt xs = .ok es' ∧ es = e :: es' := by
  rw [dumpElements] at h
  cases hx : dump fmt x with
  | error => rw [hx] at h; cases h
  | ok e =>
    cases hxs : dumpElements fmt xs with
    | error => rw [hx, hxs] at h; cases h
    | ok es' =>
      rw [hx, hxs] at h
      cases h
      exact ⟨e, es', rfl, rfl, rfl⟩

/-- The texts of members that `dump` writes start with the text of the first. -/
theorem dumpMembers_cons_ok {k : Bytes} {v : Json} {kvs : List (Bytes × Json)} {es : List Bytes}
    (h : dumpMembers fmt ((k, v) :: kvs) = .ok es) :
    ∃ ek e es', escape k = .ok ek ∧ v.dump fmt = .ok e ∧ dumpMembers fmt kvs = .ok es' ∧
      es = ([0x22] ++ ek ++ [0x22, 0x3A] ++ e) :: es' := by
  rw [dumpMembers] at h
  cases hk : escape k with
  | error => rw [hk] at h; cases h
  | ok ek =>
    cases hv : dump fmt v with
    | error => rw [hk, hv] at h; cases h
    | ok e =>
      cases hkvs : dumpMembers fmt kvs with
      | error => rw [hk, hv, hkvs] at h; cases h
      | ok es' =>
        rw [hk, hv, hkvs] at h
        cases h
        exact ⟨ek, e, es', rfl, rfl, rfl, rfl⟩

/-- The lexer reads the text `dump` writes of `j`, followed by anything that starts with a
delimiter, as the tokens of `j`. -/
def LexesBack (fmt : ℚ → Bytes) (j : Json) : Prop :=
  ∀ t rest, j.dump fmt = .ok t → Delimited rest → scan .between (t ++ rest) = (j.tokens ++ ·) <$> scan .between rest

theorem delimited_comma (bs : Bytes) : Delimited (0x2C :: bs) := Or.inl rfl

theorem delimited_endArray (bs : Bytes) : Delimited (0x5D :: bs) := Or.inr (Or.inl rfl)

theorem delimited_endObject (bs : Bytes) : Delimited (0x7D :: bs) := Or.inr (Or.inr rfl)

theorem scanBetween_comma : scanBetween 0x2C = .next .between [.valueSeparator] := rfl

theorem joinComma_cons_append (x y : Bytes) (ys : List Bytes) (rest : Bytes) :
    joinComma (x :: y :: ys) ++ rest = x ++ 0x2C :: (joinComma (y :: ys) ++ rest) := by
  simp [joinComma]

/-- The lexer reads the comma-separated texts of elements as their tokens, comma tokens
between them. -/
theorem scan_elements {xs : List Json} (h : ∀ x ∈ xs, LexesBack fmt x) {es : List Bytes}
    (hes : dumpElements fmt xs = .ok es) {rest : Bytes} (hr : Delimited rest) :
    scan .between (joinComma es ++ rest) = (elementTokens xs ++ ·) <$> scan .between rest := by
  induction xs generalizing es with
  | nil =>
    cases hes
    simp [joinComma, elementTokens]
  | cons x xs ih =>
    obtain ⟨e, es', he, hes', rfl⟩ := dumpElements_cons_ok hes
    simp only [List.forall_mem_cons] at h
    cases xs with
    | nil =>
      cases hes'
      exact h.1 e rest he hr
    | cons y ys =>
      have hih := ih h.2 hes'
      obtain ⟨_, _, -, -, rfl⟩ := dumpElements_cons_ok hes'
      rw [joinComma_cons_append, h.1 e _ he (delimited_comma _), scan_between_next scanBetween_comma, hih,
        Functor.map_map, Functor.map_map]
      simp [elementTokens]

/-- The lexer reads `"key":value` as the key, the colon and the value's tokens. -/
theorem scan_member {k ek e : Bytes} {v : Json} (hk : escape k = .ok ek) (hv : LexesBack fmt v)
    (he : v.dump fmt = .ok e) {rest : Bytes} (hr : Delimited rest) :
    scan .between ([0x22] ++ ek ++ [0x22, 0x3A] ++ e ++ rest) =
      (.string k :: .nameSeparator :: v.tokens ++ ·) <$> scan .between rest := by
  rw [show [0x22] ++ ek ++ [0x22, 0x3A] ++ e ++ rest = 0x22 :: (ek ++ 0x22 :: 0x3A :: (e ++ rest)) by simp,
    scan_string hk, scan_between_next (show scanBetween 0x3A = .next .between [.nameSeparator] from rfl),
    hv e rest he hr, Functor.map_map, Functor.map_map]
  rfl

/-- The lexer reads the comma-separated texts of members as their tokens, comma tokens
between them. -/
theorem scan_members {kvs : List (Bytes × Json)} (h : ∀ kv ∈ kvs, LexesBack fmt kv.2) {es : List Bytes}
    (hes : dumpMembers fmt kvs = .ok es) {rest : Bytes} (hr : Delimited rest) :
    scan .between (joinComma es ++ rest) = (memberTokens kvs ++ ·) <$> scan .between rest := by
  induction kvs generalizing es with
  | nil =>
    cases hes
    simp [joinComma, memberTokens]
  | cons kv kvs ih =>
    obtain ⟨k, v⟩ := kv
    obtain ⟨ek, e, es', hk, he, hes', rfl⟩ := dumpMembers_cons_ok hes
    simp only [List.forall_mem_cons] at h
    cases kvs with
    | nil =>
      cases hes'
      exact scan_member hk h.1 he hr
    | cons kv' kvs =>
      obtain ⟨k', v'⟩ := kv'
      have hih := ih h.2 hes'
      obtain ⟨_, _, _, -, -, -, rfl⟩ := dumpMembers_cons_ok hes'
      rw [joinComma_cons_append, scan_member hk h.1 he (delimited_comma _), scan_between_next scanBetween_comma, hih,
        Functor.map_map, Functor.map_map]
      simp [memberTokens]

/-- A non-negative `int64_t` reads back as a `uint64_t`. -/
theorem reread_natCast (n : Nat) : reread (.numberInteger n) = .numberUnsigned n := by
  simp [reread]

/-- The lexer reads what `dump` writes of a canonical value back as the value's tokens. -/
theorem scan_dump {j : Json} (hj : Canonical fmt j) : LexesBack fmt j := by
  induction hj with
  | null =>
    rintro t rest ⟨⟩ -
    exact scan_literal (show scanBetween 0x6E = .next (.literal (utf8 "ull") .null) [] from rfl) (by decide) rest
  | boolean b =>
    rintro t rest ⟨⟩ -
    cases b
    · exact scan_literal (show scanBetween 0x66 = .next (.literal (utf8 "alse") (.boolean false)) [] from rfl)
        (by decide) rest
    · exact scan_literal (show scanBetween 0x74 = .next (.literal (utf8 "rue") (.boolean true)) [] from rfl)
        (by decide) rest
  | numberInteger h =>
    rename_i v
    rintro t rest ⟨⟩ hr
    rcases v with n | m
    · simp only [Int.ofNat_eq_coe] at h ⊢
      rw [scan_decimal_nat (by omega) hr]
      simp [tokens, reread_natCast]
    · rw [scan_decimal_negSucc (by rw [Int.negSucc_eq] at h; omega) hr]
      simp [tokens, reread]
  | numberUnsigned h =>
    rintro t rest ⟨⟩ hr
    rw [scan_decimal_nat h hr]
    rfl
  | numberFloat ht hv =>
    rintro t rest ⟨⟩ hr
    rw [scan_numberText ht hr, hv]
    rfl
  | string _ =>
    rename_i s
    intro t rest ht _
    obtain ⟨e, he, rfl⟩ := map_eq_ok ht
    rw [show [0x22] ++ e ++ [0x22] ++ rest = 0x22 :: (e ++ 0x22 :: rest) by simp, scan_string he]
    rfl
  | array _ ih =>
    intro t rest ht hr
    obtain ⟨es, hes, rfl⟩ := map_eq_ok ht
    rw [show [0x5B] ++ joinComma es ++ [0x5D] ++ rest = 0x5B :: (joinComma es ++ 0x5D :: rest) by simp,
      scan_between_next (show scanBetween 0x5B = .next .between [.beginArray] from rfl),
      scan_elements ih hes (delimited_endArray rest),
      scan_between_next (show scanBetween 0x5D = .next .between [.endArray] from rfl),
      Functor.map_map, Functor.map_map]
    simp [tokens]
  | object _ _ _ ih =>
    intro t rest ht hr
    obtain ⟨es, hes, rfl⟩ := map_eq_ok ht
    rw [show [0x7B] ++ joinComma es ++ [0x7D] ++ rest = 0x7B :: (joinComma es ++ 0x7D :: rest) by simp,
      scan_between_next (show scanBetween 0x7B = .next .between [.beginObject] from rfl),
      scan_members ih hes (delimited_endObject rest),
      scan_between_next (show scanBetween 0x7D = .next .between [.endObject] from rfl),
      Functor.map_map, Functor.map_map]
    simp [tokens]

end Dump

/-! ## The parser over a value's tokens -/

/-- No string is below itself. -/
theorem bytesLt_irrefl (a : Bytes) : bytesLt a a = false := by
  induction a with
  | nil => rfl
  | cons x a ih => simp [bytesLt, ih, show ¬ x < x from Nat.lt_irrefl x.toNat]

/-- Of two strings, at most one is below the other. -/
theorem bytesLt_asymm {a b : Bytes} (h : bytesLt a b = true) : bytesLt b a = false := by
  induction a generalizing b with
  | nil => cases b <;> simp_all [bytesLt]
  | cons x a ih =>
    cases b with
    | nil => simp [bytesLt] at h
    | cons y b =>
      simp only [bytesLt, Bool.or_eq_true, decide_eq_true_eq, Bool.and_eq_true, beq_iff_eq] at h
      rcases h with h | ⟨rfl, h⟩
      · have hne : y ≠ x := fun e => by subst e; exact Nat.lt_irrefl _ h
        simp [bytesLt, show ¬ y < x from fun h' => Nat.lt_asymm h h', hne]
      · simp [bytesLt, show ¬ x < x from Nat.lt_irrefl x.toNat, ih h]

/-- A key above every key of a sorted member list goes at its end. -/
theorem insertMember_of_lt {k : Bytes} {v : Json} {acc : List (Bytes × Json)}
    (h : ∀ kv ∈ acc, bytesLt kv.1 k = true) : insertMember k v acc = acc ++ [(k, v)] := by
  induction acc with
  | nil => rfl
  | cons kv acc ih =>
    simp only [List.forall_mem_cons] at h
    have hne : k ≠ kv.1 := fun e => by rw [e, bytesLt_irrefl] at h; exact Bool.false_ne_true h.1
    simp [insertMember, hne, bytesLt_asymm h.1, ih h.2]

/-- A completed value inside an array is appended to it. -/
theorem complete_array (v : Json) (xs : List Json) (st : List Open) :
    complete v (.array xs :: st) = (.separatorOrEnd, .array (xs ++ [v]) :: st) := rfl

/-- A completed value inside an object is set under the pending key. -/
theorem complete_object (v o : Json) (k : Bytes) (st : List Open) :
    complete v (.object o k :: st) = (.separatorOrEnd, .object (o.set k v) [] :: st) := rfl

/-- The parser takes a token by one step. -/
theorem parseTokens_cons_of_step {e : Expect} {st : List Open} {t : Token} {p : Expect × List Open}
    (h : parseStep e st t = some p) (ts : List Token) : parseTokens e st (t :: ts) = parseTokens p.1 p.2 ts := by
  simp only [parseTokens, h]

/-! The steps the parser takes on the tokens of a value and of a container. -/

section Steps

variable {e : Expect} (st : List Open)

theorem parseStep_value (he : e = .value ∨ e = .valueOrEnd) (v : Json) :
    parseStep e st (.value v) = some (complete v st) := by
  rcases he with rfl | rfl
  · rfl
  · rcases st with _ | ⟨⟨_ | _⟩ | _, _⟩ <;> rfl

theorem parseStep_string (he : e = .value ∨ e = .valueOrEnd) (s : Bytes) :
    parseStep e st (.string s) = some (complete (.string s) st) := by
  rcases he with rfl | rfl
  · rfl
  · rcases st with _ | ⟨⟨_ | _⟩ | _, _⟩ <;> rfl

theorem parseStep_beginArray (he : e = .value ∨ e = .valueOrEnd) :
    parseStep e st .beginArray = some (.valueOrEnd, .array [] :: st) := by
  rcases he with rfl | rfl
  · rfl
  · rcases st with _ | ⟨⟨_ | _⟩ | _, _⟩ <;> rfl

theorem parseStep_beginObject (he : e = .value ∨ e = .valueOrEnd) :
    parseStep e st .beginObject = some (.keyOrEnd, .object (.object []) [] :: st) := by
  rcases he with rfl | rfl
  · rfl
  · rcases st with _ | ⟨⟨_ | _⟩ | _, _⟩ <;> rfl

theorem parseStep_key (he : e = .keyOrEnd ∨ e = .key) (o : Json) (k₀ k : Bytes) :
    parseStep e (.object o k₀ :: st) (.string k) = some (.colon, .object o k :: st) := by
  rcases he with rfl | rfl <;> rfl

theorem parseStep_colon : parseStep .colon st .nameSeparator = some (.value, st) := rfl

theorem parseStep_array_empty : parseStep .valueOrEnd (.array [] :: st) .endArray = some (complete (.array []) st) :=
  rfl

theorem parseStep_object_empty (o : Json) (k : Bytes) :
    parseStep .keyOrEnd (.object o k :: st) .endObject = some (complete o st) := rfl

theorem parseStep_array_next (xs : List Json) :
    parseStep .separatorOrEnd (.array xs :: st) .valueSeparator = some (.value, .array xs :: st) := rfl

theorem parseStep_array_end (xs : List Json) :
    parseStep .separatorOrEnd (.array xs :: st) .endArray = some (complete (.array xs) st) := rfl

theorem parseStep_object_next (o : Json) (k : Bytes) :
    parseStep .separatorOrEnd (.object o k :: st) .valueSeparator = some (.key, .object o k :: st) := rfl

theorem parseStep_object_end (o : Json) (k : Bytes) :
    parseStep .separatorOrEnd (.object o k :: st) .endObject = some (complete o st) := rfl

end Steps


/-- The parser, expecting a value, reads the tokens of `j` to the point where `j`, read
back, has completed. -/
def ParsesBack (j : Json) : Prop :=
  ∀ e st ts, (e = .value ∨ e = .valueOrEnd) →
    parseTokens e st (j.tokens ++ ts) = parseTokens (complete j.reread st).1 (complete j.reread st).2 ts

/-- The parser reads the tokens of the elements of a non-empty array, and its closing
bracket, as the array with those elements read back appended. -/
theorem parseTokens_elements {xs : List Json} (h : ∀ x ∈ xs, ParsesBack x) (hne : xs ≠ []) :
    ∀ e acc st ts, (e = .value ∨ e = .valueOrEnd) →
      parseTokens e (.array acc :: st) (elementTokens xs ++ .endArray :: ts) =
        parseTokens (complete (.array (acc ++ rereadElements xs)) st).1
          (complete (.array (acc ++ rereadElements xs)) st).2 ts := by
  induction xs with
  | nil => contradiction
  | cons x xs ih =>
    intro e acc st ts he
    simp only [List.forall_mem_cons] at h
    cases xs with
    | nil =>
      rw [show elementTokens [x] = x.tokens from rfl, h.1 e _ _ he]
      exact parseTokens_cons_of_step (parseStep_array_end _ _) ts
    | cons y ys =>
      rw [show elementTokens (x :: y :: ys) ++ .endArray :: ts =
          x.tokens ++ .valueSeparator :: (elementTokens (y :: ys) ++ .endArray :: ts) by simp [elementTokens],
        h.1 e _ _ he, complete_array, parseTokens_cons_of_step (parseStep_array_next _ _),
        ih h.2 (List.cons_ne_nil _ _) .value _ _ _ (Or.inl rfl)]
      simp only [rereadElements, List.append_assoc, List.singleton_append]

/-- The parser reads the tokens of the members of a non-empty object, and its closing
brace, as the object with those members read back appended, when every key comes after
the keys already read. -/
theorem parseTokens_members {kvs : List (Bytes × Json)} (h : ∀ kv ∈ kvs, ParsesBack kv.2) (hne : kvs ≠ []) :
    ∀ e acc k₀ st ts, (e = .keyOrEnd ∨ e = .key) → ((acc ++ kvs).map Prod.fst).Pairwise (bytesLt · · = true) →
      parseTokens e (.object (.object acc) k₀ :: st) (memberTokens kvs ++ .endObject :: ts) =
        parseTokens (complete (.object (acc ++ rereadMembers kvs)) st).1
          (complete (.object (acc ++ rereadMembers kvs)) st).2 ts := by
  induction kvs with
  | nil => contradiction
  | cons kv kvs ih =>
    obtain ⟨k, v⟩ := kv
    intro e acc k₀ st ts he hs
    simp only [List.forall_mem_cons] at h
    have hlt : ∀ kv ∈ acc, bytesLt kv.1 k = true := by
      intro kv hkv
      simp only [List.map_append, List.map_cons, List.pairwise_append, List.mem_map, List.mem_cons] at hs
      exact hs.2.2 _ ⟨kv, hkv, rfl⟩ _ (Or.inl rfl)
    have hset : (Json.object acc).set k v.reread = .object (acc ++ [(k, v.reread)]) := by
      rw [Json.set, insertMember_of_lt hlt]
    cases kvs with
    | nil =>
      rw [show memberTokens [(k, v)] ++ .endObject :: ts = .string k :: .nameSeparator :: (v.tokens ++ .endObject :: ts)
          by simp [memberTokens], parseTokens_cons_of_step (parseStep_key _ he _ _ _),
        parseTokens_cons_of_step (parseStep_colon _), h.1 _ _ _ (Or.inl rfl)]
      rw [complete_object, hset]
      exact parseTokens_cons_of_step (parseStep_object_end _ _ _) ts
    | cons kv' kvs =>
      rw [show memberTokens ((k, v) :: kv' :: kvs) ++ .endObject :: ts = .string k :: .nameSeparator ::
          (v.tokens ++ .valueSeparator :: (memberTokens (kv' :: kvs) ++ .endObject :: ts)) by simp [memberTokens],
        parseTokens_cons_of_step (parseStep_key _ he _ _ _), parseTokens_cons_of_step (parseStep_colon _),
        h.1 _ _ _ (Or.inl rfl)]
      rw [complete_object, hset, parseTokens_cons_of_step (parseStep_object_next _ _ _),
        ih h.2 (List.cons_ne_nil _ _) _ (acc ++ [(k, v.reread)]) _ _ _ (Or.inr rfl) (by simpa using hs)]
      simp only [rereadMembers, List.append_assoc, List.singleton_append]

/-- The parser reads the tokens of a canonical value back as the value read back. -/
theorem parseTokens_tokens {fmt : ℚ → Bytes} {j : Json} (hj : Canonical fmt j) : ParsesBack j := by
  induction hj with
  | null | boolean | numberInteger | numberUnsigned | numberFloat =>
    intro e st ts he
    exact parseTokens_cons_of_step (parseStep_value st he _) ts
  | string _ =>
    intro e st ts he
    exact parseTokens_cons_of_step (parseStep_string st he _) ts
  | @array xs _ ih =>
    intro e st ts he
    rw [show (Json.array xs).tokens ++ ts = .beginArray :: (elementTokens xs ++ .endArray :: ts) by simp [tokens],
      parseTokens_cons_of_step (parseStep_beginArray st he)]
    cases xs with
    | nil => exact parseTokens_cons_of_step (parseStep_array_empty st) ts
    | cons x xs => exact parseTokens_elements ih (List.cons_ne_nil _ _) _ [] _ _ (Or.inr rfl)
  | @object kvs _ hs _ ih =>
    intro e st ts he
    rw [show (Json.object kvs).tokens ++ ts = .beginObject :: (memberTokens kvs ++ .endObject :: ts) by simp [tokens],
      parseTokens_cons_of_step (parseStep_beginObject st he)]
    cases kvs with
    | nil => exact parseTokens_cons_of_step (parseStep_object_empty st _ _) ts
    | cons kv kvs => exact parseTokens_members ih (List.cons_ne_nil _ _) _ [] _ _ _ (Or.inl rfl) hs

/-! ## The round trip -/

/-- A text the lexer accepts does not start with a byte order mark. -/
theorem skipBom_of_scan {t : Bytes} {ts : List Token} (h : scan .between t = .ok ts) : skipBom t = .ok t := by
  unfold skipBom
  split
  · cases h
  · cases h
  · rfl

/-- `json::parse` reads what `dump` writes of a canonical value back as the value read back. -/
theorem parse_of_dump {fmt : ℚ → Bytes} {j : Json} (hj : Canonical fmt j) {t : Bytes} (ht : j.dump fmt = .ok t) :
    parse t = .ok j.reread := by
  have hscan : scan .between t = .ok j.tokens := by
    have h := scan_dump hj t [] ht trivial
    rw [List.append_nil] at h
    exact h.trans (congrArg Except.ok (List.append_nil _))
  have hparse := parseTokens_tokens hj .value [] [] (Or.inl rfl)
  rw [List.append_nil] at hparse
  simp only [parse, skipBom_of_scan hscan, hscan, bind, Except.bind, hparse]
  rfl

/-- What `dump` writes of a canonical value, `json::parse` reads back: the same value, each
non-negative `int64_t` read as the `uint64_t` of the same number. -/
theorem parse_dump {fmt : ℚ → Bytes} {j : Json} (hj : Canonical fmt j) :
    ∃ t, j.dump fmt = .ok t ∧ parse t = .ok j.reread :=
  have ⟨t, ht⟩ := dump_ok_of_wellFormed fmt hj.wellFormed
  ⟨t, ht, parse_of_dump hj ht⟩

/-- A member list with an array of signed integers and null, an escaped string and a
literal, its keys in increasing order. -/
def sampleFrame : Json :=
  .object [(utf8 "data", .array [.numberInteger (-7), .numberInteger 5, .null]),
    (utf8 "msg", .string (utf8 "q\"\n")), (utf8 "ok", .boolean true)]

theorem sampleFrame_canonical : Canonical (fun _ => []) sampleFrame := by
  refine .object (by decide) (by decide) fun kv hkv => ?_
  simp only [sampleFrame, List.mem_cons, List.mem_singleton, List.not_mem_nil, or_false] at hkv
  rcases hkv with rfl | rfl | rfl
  · refine .array fun x hx => ?_
    simp only [List.mem_cons, List.mem_singleton, List.not_mem_nil, or_false] at hx
    rcases hx with rfl | rfl | rfl
    · exact .numberInteger (by norm_num)
    · exact .numberInteger (by norm_num)
    · exact .null
  · exact .string (by decide)
  · exact .boolean true

/-- The sample frame reads back, its `5` as a `uint64_t`. -/
theorem sampleFrame_reads_back :
    Canonical (fun _ => []) sampleFrame ∧
      ∃ t, sampleFrame.dump (fun _ => []) = .ok t ∧ parse t = .ok sampleFrame.reread :=
  ⟨sampleFrame_canonical, parse_dump sampleFrame_canonical⟩

end OpenTrade.Json
