import OpenTrade.Connection.OnMessage

/-!
# What `OnMessageSync` does with a failed or unauthenticated request

Four results about one message. A message that does not parse and is not UTF-8 makes the
`parse_error` handler itself throw, so an exception leaves `OnMessageSync`. A `login` without
credentials reads past the end of its array through a `const json&`. A connection with no
user and an unknown token answers every action but `login` with one error frame and touches
nothing else. `validate_user` is one of those actions: only a connection that has a user, or
takes one from the message's token, gets its reply.

## Implementation notes

The sample runs below take place in `quietWorld` under `plainEnv`: a process with no
reference data, no engine state and no files, whose constants are fixed arbitrarily.
-/

namespace OpenTrade

/-- A process with no securities, accounts, positions, algorithms, orders or files. -/
def quietWorld : World where
  securities := ⟨[], fun _ => none, [], fun _ => none⟩
  accounts := ⟨fun _ => none, fun _ => none, fun _ => none, fun _ _ => none, [], []⟩
  marketData := ⟨fun _ => {}, [], []⟩
  positions := ⟨[], [], [], [], fun _ => []⟩
  algos := ⟨fun _ => false, fun _ => false, [], fun _ => []⟩
  orderBook := ⟨fun _ => none, fun _ => []⟩
  files := ⟨fun _ => none, fun _ => false, fun _ => none, none⟩
  now := 0
  uuid := fun _ => 0

/-- A stateful transport, `algos` and `store` as the directories, and identity conversions. -/
def plainEnv : Env where
  stateless := false
  algoPath := utf8 "algos"
  storePath := utf8 "store"
  startTime := 0
  secId := id
  sha1Digest := fun _ _ => 0
  scanPnl := fun _ => none
  fmt := fun _ => utf8 "0"

/-! ## An error reply that cannot be sent -/

/-- When a message neither parses nor is UTF-8, the reply quoting it fails to serialize, and
that `type_error` escapes `OnMessageSync` with the state as it was. -/
theorem parse_error_reply_escapes (env : Env) (w : World) (msg token : Bytes) (s : St) (e : Exn)
    (hp : Json.parse msg = .error .parseError) (he : Json.escape msg = .error e) :
    onMessageSync env w msg token s = .error (.throw e) s := by
  have hh : msg ≠ utf8 "h" := by rintro rfl; cases he
  have hb : onMessageBody env w msg token s = .error (.throw .parseError) s := by
    simp only [onMessageBody, hh, if_false, hp]
    rfl
  rw [onMessageSync_of_body_throw hb, send_of_dump_error (errorFrame_dump_of_escape he _)]
  rfl

theorem byte_ff_reply_escapes :
    onMessageSync plainEnv quietWorld [0xFF] [] St.init =
      .error (.throw (Json.utf8Error (utf8 "invalid UTF-8 byte at index 0: ") 0xFF)) St.init :=
  parse_error_reply_escapes plainEnv quietWorld [0xFF] [] St.init _ rfl rfl

/-! ## Reads past the end of a `const json&` -/

/-- `["login"]` makes `OnLogin` read `j[1]` of a one-element array through a `const json&`. -/
theorem login_without_credentials_undefined (env : Env) (w : World) (token : Bytes) (s : St) :
    onMessageSync env w (utf8 "[\"login\"]") token s = .error .undefined s := rfl

/-! ## The login gate -/

/-- With no user and an unknown token, a request other than `login` is answered by the
gate's error frame, or by the empty-action frame, and nothing else changes. -/
theorem gate_answers_without_user (env : Env) (w : World) (msg token a : Bytes) (rest : List Json)
    (s : St) (hu : s.conn.user = none) (ht : s.kTokens token = none)
    (hp : Json.parse msg = .ok (.array (.string a :: rest))) (hl : a ≠ utf8 "login") :
    onMessageSync env w msg token s =
      .ok () (if s.conn.closed then s
        else { s with out := s.out ++ [.json (if a.isEmpty then emptyActionFrame else loginFirstFrame)] }) := by
  apply onMessageSync_of_body_ok
  rw [onMessageBody_of_parse hp]
  by_cases ha : a.isEmpty
  · simp [onAction, ha]
  · rw [onAction_of_no_user _ hu (Bool.eq_false_iff.2 ha) hl, ht]
    simp [ha]

theorem gate_answers_bod :
    onMessageSync plainEnv quietWorld (utf8 "[\"bod\"]") [] St.init =
      .ok () (if St.init.conn.closed then St.init
        else { St.init with out := St.init.out ++ [.json (if (utf8 "bod").isEmpty then emptyActionFrame
          else loginFirstFrame)] }) :=
  gate_answers_without_user plainEnv quietWorld _ [] (utf8 "bod") [] St.init rfl rfl rfl (by decide)

/-! ## `validate_user` at the gate -/

/-- The reply of `validate_user`: the user's id when the credentials log in, and 0 otherwise,
then the correlation token. -/
def validationFrame (env : Env) (w : World) (name pwd : Bytes) (corr : Int) : Json :=
  .array ["user_validation", .numberInteger (((loginState env w name pwd).2.map User.id).getD 0), .numberInteger corr]

/-- `OnLogin` of `validate_user` sends the reply and changes nothing else. -/
theorem onLogin_validate_user {env : Env} {w : World} {a name pwd : Bytes} {c : Json} (hc : c.isNumberInteger = true)
    (s : St) :
    onLogin env w (utf8 "validate_user") (.array [.string a, .string name, .string pwd, c]) s =
      emit (.json (validationFrame env w name pwd c.int64)) s := by
  simp only [onLogin, indexConst, List.get?, getString_string, getInt64_of_isNumberInteger env hc, bind,
    EStateM.bind, pure, EStateM.pure, if_true]
  exact congrArg (· s) (send_of_dump_ok (j := validationFrame env w name pwd c.int64) rfl)

/-- `validate_user` is answered as `OnLogin` answers it only on a connection that has a user.
With no user it passes the gate as every action but `login` does: an unknown token gets the
gate's error frame, and a known one binds the token's user to the connection first. -/
theorem validate_user_gated (env : Env) (w : World) (msg token name pwd : Bytes) (c : Json) (s : St)
    (hc : s.conn.closed = false) (hcorr : c.isNumberInteger = true)
    (hp : Json.parse msg = .ok (.array [.string (utf8 "validate_user"), .string name, .string pwd, c])) :
    onMessageSync env w msg token s = .ok () (match s.conn.user, s.kTokens token with
      | some _, _ => { s with out := s.out ++ [.json (validationFrame env w name pwd c.int64)] }
      | none, none => { s with out := s.out ++ [.json loginFirstFrame] }
      | none, some u =>
        { s with
          conn := { s.conn with user := some u }
          out := s.out ++ [.json (validationFrame env w name pwd c.int64)] }) := by
  apply onMessageSync_of_body_ok
  rw [onMessageBody_of_parse hp]
  have ha : (utf8 "validate_user").isEmpty = false := rfl
  have hl : utf8 "validate_user" ≠ utf8 "login" := by decide
  have hd : ∀ u (t : St), t.conn.closed = false →
      dispatch env w u (utf8 "validate_user") (.array [.string (utf8 "validate_user"), .string name, .string pwd, c]) t =
        .ok () { t with out := t.out ++ [.json (validationFrame env w name pwd c.int64)] } := fun u t ht => by
    rw [dispatch, if_pos rfl, onLogin_validate_user hcorr, emit_apply, if_neg (by simp [ht])]
  cases hu : s.conn.user with
  | some u => rw [onAction_of_user _ hu ha hl, hd u s hc]
  | none =>
    rw [onAction_of_no_user _ hu ha hl]
    cases ht : s.kTokens token with
    | none => simp [hc]
    | some u => exact hd u _ hc

/-- On a fresh connection, `["validate_user","a","b",5]` is answered with the gate's error frame. -/
theorem validate_user_fresh_refused :
    onMessageSync plainEnv quietWorld (utf8 "[\"validate_user\",\"a\",\"b\",5]") [] St.init =
      .ok () { St.init with out := [.json loginFirstFrame] } :=
  validate_user_gated plainEnv quietWorld _ [] (utf8 "a") (utf8 "b") (.numberUnsigned 5) St.init rfl rfl rfl

end OpenTrade
