import OpenTrade.Props.Gate

/-!
# The subscription table `subs_`

`sub` and `unsub` keep a reference count per security id. Two places in the loops depart
from a count: `subs_[id]` creates the entry before the security is looked up, so an unknown
id leaves an entry with count zero; and an id `unsub` does not find returns from the whole
handler, so the ids after it are not decremented.
-/

namespace OpenTrade

/-- A security that carries only its id. -/
def plainSecurity (id : Int) : Security :=
  ⟨id, [], [], [], 1, 1, 0, 0, [], 0, 0, 0, 0, 0, 0, [], [], [], [], []⟩

/-- `quietWorld` where securities 7 and 42 are known. -/
def twoSecurityWorld : World :=
  { quietWorld with
    securities := ⟨[plainSecurity 7, plainSecurity 42],
      fun id => if id = 7 ∨ id = 42 then some (plainSecurity id) else none, [], fun _ => none⟩ }

/-- A user owning sub-account 1. -/
def alice : User := ⟨1, [], false, false, [(1, ⟨1, utf8 "A"⟩)]⟩

/-- A fresh connection on which `alice` has logged in. -/
def aliceSt : St := { St.init with conn := { user := some alice } }

/-! ## An unknown id -/

/-- A `sub` of one unknown id, on a connection with a user, adds the entry `(zero, 0)`. -/
theorem sub_unknown_creates_entry (env : Env) (w : World) (msg token : Bytes) (s : St) (u : User)
    (x : Json) (hu : s.conn.user = some u) (hp : Json.parse msg = .ok (.array ["sub", x]))
    (hx : x.isNumberInteger = true) (hk : env.secId x.int64 ∉ s.conn.subs)
    (hs : w.securities.get (env.secId x.int64) = none) :
    onMessageSync env w msg token s =
      .ok () { s with conn := { s.conn with subs := s.conn.subs.insert (env.secId x.int64) ({}, 0) } } := by
  apply onMessageSync_of_body_ok
  rw [onMessageBody_of_parse hp, onAction_of_user (utf8 "sub") hu rfl (by decide), dispatch_sub]
  simp [onSub, args, bind, EStateM.bind, getInt64_of_isNumberInteger env hx, subOne_unknown _ hs, hk,
    Json.size]

theorem sub_unknown_99999 :
    onMessageSync plainEnv twoSecurityWorld (utf8 "[\"sub\",99999]") [] aliceSt =
      .ok () { aliceSt with conn := { aliceSt.conn with subs := aliceSt.conn.subs.insert 99999 ({}, 0) } } :=
  sub_unknown_creates_entry plainEnv twoSecurityWorld _ [] aliceSt alice (.numberUnsigned 99999) rfl rfl rfl
    (by decide) rfl

/-! ## An absent id in `unsub` -/

/-- When the first id of an `unsub` is not subscribed, the handler returns before it reads
the others: nothing changes, whatever the rest of the list holds. -/
theorem unsub_absent_id_abandons_rest (env : Env) (w : World) (msg token : Bytes) (s : St) (u : User)
    (x : Json) (rest : List Json) (hu : s.conn.user = some u)
    (hp : Json.parse msg = .ok (.array ("unsub" :: x :: rest))) (hx : x.isNumberInteger = true)
    (hk : env.secId x.int64 ∉ s.conn.subs) :
    onMessageSync env w msg token s = .ok () s := by
  apply onMessageSync_of_body_ok
  rw [onMessageBody_of_parse hp, onAction_of_user (utf8 "unsub") hu rfl (by decide), dispatch_unsub]
  exact unsubLoop_absent rest (getInt64_of_isNumberInteger env hx) hk

/-- `aliceSt` after `["sub",42]`. -/
def sub42St : St :=
  { aliceSt with conn := { aliceSt.conn with subs := (∅ : AList fun _ : Int => SubEntry).insert 42 ({}, 1) } }

theorem unsub_seven_keeps_42 :
    onMessageSync plainEnv twoSecurityWorld (utf8 "[\"sub\",42]") [] aliceSt = .ok () sub42St ∧
      onMessageSync plainEnv twoSecurityWorld (utf8 "[\"unsub\",7,42]") [] sub42St = .ok () sub42St :=
  ⟨rfl, unsub_absent_id_abandons_rest plainEnv twoSecurityWorld _ [] sub42St alice (.numberUnsigned 7) _ rfl
    rfl rfl (by decide)⟩

end OpenTrade
