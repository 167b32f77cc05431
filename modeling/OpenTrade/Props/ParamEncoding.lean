import OpenTrade.Connection.Params
import OpenTrade.Props.Gate

/-!
# Parameters through `ParseParamValue` and `Jsonify`

A parameter value with no object where `ParseParamValue` would read a security tuple parses
without throwing and without touching the connection, and `Jsonify` of what it gives is
`paramEnc`: the kind and the value of a boolean, an integer, a float or a string, and
`["vector", ...]` of the elements' encodings for an array. It agrees with the encoding
`specEnc` the spec states except at three edges: `get<int64_t>` wraps an unsigned integer of
`2^63` or more, null and an element that is null or an array parse as the variant's default
`false`, and the element list of an empty vector stays null.

A security tuple gets out of `ParseParamScalar` only complete: with a positive quantity, and
a side, a security and a sub-account that the reference data gave for the object's members.
So every tuple of a map `ParseParams` returns is one the algorithm engine can trade on.

## Implementation notes

The parser stores a non-negative integer literal as an unsigned integer, so `specEnc` compares
integers by value: the `"int"` it expects holds a signed integer.
-/

namespace OpenTrade

/-! ## The encodings -/

/-- The encoding the spec states for a scalar: its kind and its value, an integer by value. -/
def specEncScalar : Json → Json
  | .boolean b => .array ["bool", .boolean b]
  | .numberInteger n => .array ["int", .numberInteger n]
  | .numberUnsigned n => .array ["int", .numberInteger n]
  | .numberFloat x => .array ["float", .numberFloat x]
  | .string s => .array ["string", .string s]
  | _ => .null

/-- The encoding the spec states for a parameter: an array is a vector of its scalars. -/
def specEnc : Json → Json
  | .array xs => .array ["vector", .array (xs.map specEncScalar)]
  | x => specEncScalar x

/-- `JsonifyScala` of `ParseParamScalar` for a value that is not an object: an unsigned integer
as `get<int64_t>` reads it, and the default `false` for null and an array. -/
def paramEncScalar : Json → Json
  | .numberUnsigned n => .array ["int", .numberInteger (Json.numberUnsigned n).int64]
  | .null | .array _ => .array ["bool", .boolean false]
  | x => specEncScalar x

/-- `Jsonify` of `ParseParamValue`: the element list of an empty vector stays null. -/
def paramEnc : Json → Json
  | .array [] => .array ["vector", .null]
  | .array xs => .array ["vector", .array (xs.map paramEncScalar)]
  | x => paramEncScalar x

/-- No object where `ParseParamValue` would parse a security tuple: neither the value nor, for
an array, one of its elements. -/
def Json.NoTuple : Json → Prop
  | .object _ => False
  | .array xs => ∀ e ∈ xs, e.isObject = false
  | _ => True

/-- A boolean, an integer that `int64_t` holds, a float or a string. -/
def Json.TypedScalar : Json → Prop
  | .boolean _ | .numberInteger _ | .numberFloat _ | .string _ => True
  | .numberUnsigned n => n < 2 ^ 63
  | _ => False

/-- A typed scalar, or a non-empty array of typed scalars. -/
def Json.Typed : Json → Prop
  | .array xs => xs ≠ [] ∧ ∀ e ∈ xs, e.TypedScalar
  | x => x.TypedScalar

theorem paramEncScalar_of_typed {x : Json} (h : x.TypedScalar) : paramEncScalar x = specEncScalar x := by
  cases x with
  | numberUnsigned n =>
    have h : n < 2 ^ 63 := h
    simp only [paramEncScalar, specEncScalar, Json.int64, if_pos h]
  | null | array | object => exact h.elim
  | _ => rfl

/-- On the inputs the spec has in mind, the two encodings agree. -/
theorem paramEnc_of_typed {x : Json} (h : x.Typed) : paramEnc x = specEnc x := by
  cases x with
  | array xs =>
    obtain ⟨hne, hs⟩ := h
    obtain _ | ⟨e, es⟩ := xs
    · exact (hne rfl).elim
    · simp only [paramEnc, specEnc, List.map_congr_left fun e he => paramEncScalar_of_typed (hs e he)]
  | null | object => exact h.elim
  | _ =>
    simp only [paramEnc, specEnc]
    exact paramEncScalar_of_typed h

/-! ## Parsing and encoding -/

section Parse

variable {env : Env} {w : World}

/-- `ParseParamScalar` of a value that is not an object returns, from the state it met, a
scalar that `JsonifyScala` encodes as `paramEncScalar`. -/
theorem parseParamScalar_of_not_object {x : Json} (hx : x.isObject = false) :
    ∃ p, parseParamScalar env w x = pure p ∧ jsonifyScala p .null = paramEncScalar x := by
  cases x with
  | object => cases hx
  | _ => exact ⟨_, rfl, rfl⟩

theorem mapM_parseParamScalar {l : List (Bytes × Json)} (hl : ∀ kv ∈ l, kv.2.isObject = false) (s : St) :
    ∃ ps, l.mapM (parseParamScalar env w ·.2) s = .ok ps s ∧
      ps.map (jsonifyScala · .null) = l.map (paramEncScalar ·.2) := by
  induction l with
  | nil => exact ⟨[], rfl, rfl⟩
  | cons kv l ih =>
    obtain ⟨p, hp, hj⟩ := @parseParamScalar_of_not_object env w _ (hl kv (List.mem_cons_self _ _))
    obtain ⟨ps, hps, hjs⟩ := ih fun kv' h => hl kv' (List.mem_cons_of_mem _ h)
    refine ⟨p :: ps, ?_, by rw [List.map_cons, List.map_cons, hj, hjs]⟩
    rw [List.mapM_cons, hp]
    simp only [bind, EStateM.bind, pure, EStateM.pure, hps]

theorem Json.items_array_snd (xs : List Json) : (Json.array xs).items.map Prod.snd = xs := by
  simp only [Json.items, List.map_map]
  exact List.map_snd_zip _ _ (by simp)

/-- The element list `Jsonify` builds: null when it is empty. -/
theorem foldl_push_jsonifyScala (ps : List ParamScalar) :
    ps.foldl (fun (j2 : Json) v2 => j2.push (jsonifyScala v2 .null)) .null =
      if ps = [] then .null else .array (ps.map (jsonifyScala · .null)) := by
  cases ps with
  | nil => rfl
  | cons p ps =>
    rw [List.foldl_cons, ← List.foldl_map,
      show Json.null.push (jsonifyScala p .null) = .array [jsonifyScala p .null] from rfl, Json.push_foldl_array]
    rfl

/-- `ParseParamValue` of a value that is neither an array nor an object. -/
theorem parseParamValue_of_scalar {x : Json} (ha : x.isArray = false) (ho : x.isObject = false) (s : St) :
    ∃ v, parseParamValue env w x s = .ok v s ∧ jsonify v .null = paramEncScalar x := by
  obtain ⟨p, hp, hj⟩ := @parseParamScalar_of_not_object env w x ho
  refine ⟨.scalar p, ?_, hj⟩
  rw [parseParamValue, if_neg (by rw [ha]; decide), hp]
  rfl

end Parse

/-- For every value with no object where a security tuple would be parsed, `ParseParamValue`
returns without throwing and leaves the state as it was, and `Jsonify` of its result is
`paramEnc`, which is the encoding the spec states on booleans, integers that `int64_t` holds,
floats, strings and non-empty arrays of them. -/
theorem param_round_trip (env : Env) (w : World) (x : Json) (hx : x.NoTuple) (s : St) :
    ∃ v, parseParamValue env w x s = .ok v s ∧ jsonify v .null = paramEnc x ∧
      (x.Typed → jsonify v .null = specEnc x) := by
  suffices h : ∃ v, parseParamValue env w x s = .ok v s ∧ jsonify v .null = paramEnc x by
    obtain ⟨v, hv, hj⟩ := h
    exact ⟨v, hv, hj, fun ht => hj.trans (paramEnc_of_typed ht)⟩
  cases x with
  | object => exact hx.elim
  | array xs =>
    have hl : ∀ kv ∈ (Json.array xs).items, kv.2.isObject = false := fun kv h =>
      hx kv.2 (Json.items_array_snd xs ▸ List.mem_map_of_mem Prod.snd h)
    obtain ⟨ps, hps, hjs⟩ := @mapM_parseParamScalar env w _ hl s
    have hsnd : (Json.array xs).items.map (paramEncScalar ·.2) = xs.map paramEncScalar := by
      conv_rhs => rw [← Json.items_array_snd xs]
      rw [List.map_map]
      rfl
    rw [hsnd] at hjs
    refine ⟨.vector ps, ?_, ?_⟩
    · simp only [parseParamValue, Json.isArray, if_true, Functor.map, EStateM.map, hps]
    · rw [jsonify, foldl_push_jsonifyScala, hjs]
      obtain _ | ⟨e, es⟩ := xs
      · simp only [List.map_nil, List.map_eq_nil_iff] at hjs
        rw [if_pos hjs]
        rfl
      · rw [if_neg fun h => by simp [h] at hjs]
        rfl
  | _ => exact parseParamValue_of_scalar (by rfl) (by rfl) s

/-- `[true, 3]` encodes as `["vector", [["bool", true], ["int", 3]]]`. -/
theorem true_three_round_trip :
    ∃ v, parseParamValue plainEnv quietWorld (.array [.boolean true, .numberUnsigned 3]) St.init = .ok v St.init ∧
      jsonify v .null = .array ["vector", .array [.array ["bool", .boolean true], .array ["int", .numberInteger 3]]] := by
  obtain ⟨v, hv, hj, -⟩ := param_round_trip plainEnv quietWorld (.array [.boolean true, .numberUnsigned 3])
    (by simp [Json.NoTuple, Json.isObject]) St.init
  exact ⟨v, hv, hj.trans rfl⟩

/-- Null parses, without throwing, as the variant's default `false`; the empty array encodes
as `["vector", null]`; and the unsigned integer `2^63` comes back as `-2^63`. -/
theorem param_edges_differ :
    parseParamValue plainEnv quietWorld .null St.init = .ok (.scalar (.bool false)) St.init ∧
      jsonify (.scalar (.bool false)) .null = .array ["bool", .boolean false] ∧
    parseParamValue plainEnv quietWorld (.array []) St.init = .ok (.vector []) St.init ∧
      jsonify (.vector []) .null ≠ specEnc (.array []) ∧
    parseParamValue plainEnv quietWorld (.numberUnsigned (2 ^ 63)) St.init =
        .ok (.scalar (.int64 (-2 ^ 63))) St.init ∧
      jsonify (.scalar (.int64 (-2 ^ 63))) .null ≠ specEnc (.numberUnsigned (2 ^ 63)) :=
  ⟨rfl, rfl, rfl, by simp [jsonify, specEnc, Json.push], rfl,
    by simp [jsonify, jsonifyScala, specEnc, specEncScalar, Json.push]⟩

/-! ## Security tuples -/

/-- The security tuple a parameter scalar holds. -/
def ParamScalar.tuple : ParamScalar → Option SecurityTuple
  | .securityTuple t => some t
  | _ => none

/-- The security tuples of a parameter value: the value itself, or the elements of a vector. -/
def ParamValue.tuples : ParamValue → List SecurityTuple
  | .scalar v => v.tuple.toList
  | .vector vs => vs.filterMap ParamScalar.tuple

/-- Each field the member loop of `ParseParamScalar` has set so far holds what the reference
data gave: the side of some side name, the security of some id, the sub-account of some id or
name. -/
structure SecurityTuple.Known (env : Env) (w : World) (t : SecurityTuple) : Prop where
  side : ∀ side, t.side = some side → ∃ name, w.securities.getOrderSide name = some side
  sec : ∀ sec, t.sec = some sec → ∃ id, w.securities.get (env.secId id) = some sec
  acc : ∀ acc, t.acc = some acc →
    (∃ id, w.accounts.subAccountById id = some acc) ∨ ∃ name, w.accounts.subAccountByName name = some acc

/-- A security tuple the algorithm engine can trade on: a positive quantity, and a side, a
security and a sub-account, each known to the reference data. -/
structure SecurityTuple.Tradable (env : Env) (w : World) (t : SecurityTuple) : Prop where
  known : t.Known env w
  qty : 0 < t.qty
  side : t.side.isSome
  sec : t.sec.isSome
  acc : t.acc.isSome

section Tuples

variable {env : Env} {w : World}

theorem known_emptyTuple : emptyTuple.Known env w :=
  ⟨(fun _ h => nomatch h), (fun _ h => nomatch h), fun _ h => nomatch h⟩

/-- A member sets a field of the tuple only to what the reference data gives for its value. -/
theorem returns_tupleMember {t : SecurityTuple} (ht : t.Known env w) (kv : Bytes × Json) :
    Returns (SecurityTuple.Known env w) (tupleMember env w t kv) := by
  obtain ⟨k, v⟩ := kv
  unfold tupleMember
  refine returns_ite (fun _ => ?qty) fun _ => returns_ite (fun _ => ?side) fun _ => returns_ite (fun _ => ?src)
    fun _ => returns_ite (fun _ => ?sec) fun _ => returns_ite (fun _ => ?acc) fun _ => returns_pure ht
  case qty => exact returns_bind returns_getAs fun _ _ => returns_pure ⟨ht.side, ht.sec, ht.acc⟩
  case src => exact returns_bind returns_getAs fun _ _ => returns_pure ⟨ht.side, ht.sec, ht.acc⟩
  case side =>
    refine returns_bind returns_getAs fun name _ => ?_
    split
    · exact returns_pure ⟨fun _ h => ⟨name, Option.some.inj h ▸ ‹_›⟩, ht.sec, ht.acc⟩
    · exact returns_throwExn _
  case sec =>
    refine returns_bind returns_getAs fun id _ => ?_
    split
    · exact returns_pure ⟨ht.side, fun _ h => ⟨id, Option.some.inj h ▸ ‹_›⟩, ht.acc⟩
    · exact returns_throwExn _
  case acc =>
    refine returns_ite (fun _ => returns_bind returns_getAs fun id _ => ?_)
      fun _ => returns_ite (fun _ => returns_bind returns_getAs fun name _ => ?_) fun _ => returns_pure ht
    all_goals split
    · exact returns_pure ⟨ht.side, ht.sec, fun _ h => .inl ⟨id, Option.some.inj h ▸ ‹_›⟩⟩
    · exact returns_throwExn _
    · exact returns_pure ⟨ht.side, ht.sec, fun _ h => .inr ⟨name, Option.some.inj h ▸ ‹_›⟩⟩
    · exact returns_throwExn _

/-- The checks after the member loop let out only a complete tuple. -/
theorem returns_checkTuple {t : SecurityTuple} (ht : t.Known env w) :
    Returns (fun v => ∀ t', v.tuple = some t' → t'.Tradable env w) (checkTuple t) := by
  unfold checkTuple
  refine returns_ite (fun _ => returns_throwExn _) fun hq => returns_ite (fun _ => returns_throwExn _) fun hs =>
    returns_ite (fun _ => returns_throwExn _) fun hc => returns_ite (fun _ => returns_throwExn _) fun ha =>
    returns_pure fun t' h => ?_
  have hsome : ∀ {α : Type} {o : Option α}, ¬o.isNone = true → o.isSome = true := fun {_ o} => by cases o <;> simp
  cases h
  exact ⟨ht, lt_of_not_le hq, hsome hs, hsome hc, hsome ha⟩

theorem returns_parseParamScalar (j : Json) :
    Returns (fun v => ∀ t, v.tuple = some t → t.Tradable env w) (parseParamScalar env w j) := by
  unfold parseParamScalar
  refine returns_ite (fun _ => returns_pure fun _ h => nomatch h) fun _ =>
    returns_ite (fun _ => returns_pure fun _ h => nomatch h) fun _ =>
    returns_ite (fun _ => returns_pure fun _ h => nomatch h) fun _ =>
    returns_ite (fun _ => returns_pure fun _ h => nomatch h) fun _ =>
    returns_ite (fun _ => ?_) fun _ => returns_pure fun _ h => nomatch h
  exact returns_bind (returns_foldlM (fun t ht kv _ => returns_tupleMember ht kv) known_emptyTuple)
    fun t ht => returns_checkTuple ht

theorem returns_parseParamValue (j : Json) :
    Returns (fun v => ∀ t ∈ v.tuples, t.Tradable env w) (parseParamValue env w j) := by
  unfold parseParamValue
  refine returns_ite (fun _ => returns_map (returns_mapM fun kv _ => returns_parseParamScalar kv.2) ?_)
    fun _ => returns_map (returns_parseParamScalar j) fun v hv t ht => hv t (Option.mem_toList.mp ht)
  intro vs hvs t ht
  obtain ⟨v, hv, hvt⟩ := List.mem_filterMap.mp ht
  exact hvs v hv t hvt

/-- `ParseParams` lets out only security tuples the algorithm engine can trade on: whenever it
returns a map, every tuple in it, a value or an element of a vector, has a positive quantity
and a side, a security and a sub-account that the reference data gave for the tuple's object. -/
theorem parsed_tuples_tradable (env : Env) (w : World) (params : Json) :
    Returns (fun m : ParamMap => ∀ p ∈ m, ∀ t ∈ p.2.tuples, t.Tradable env w) (parseParams env w params) :=
  returns_mapM fun kv _ => returns_bind (returns_parseParamValue kv.2) fun _ hv => returns_pure hv

end Tuples

end OpenTrade
