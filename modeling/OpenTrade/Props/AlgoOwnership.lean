import OpenTrade.Props.Subscriptions

/-!
# Ownership of the security tuples of an `algo` request

Before a `new` algorithm is spawned, `OnAlgo` checks that every parameter holding a security
tuple names a sub-account of the user. The loop looks at the top-level values only: a tuple
inside a vector is not checked, and a `modify` request is not checked at all.
-/

namespace OpenTrade

/-- `twoSecurityWorld` with sub-accounts `A` (1) and `B` (2), the side `buy`, and a known
algorithm `TWAP`. -/
def algoWorld : World :=
  { twoSecurityWorld with
    securities := { twoSecurityWorld.securities with
      getOrderSide := fun s => if s = utf8 "buy" then some .buy else none }
    accounts := { quietWorld.accounts with
      subAccountByName := fun n =>
        if n = utf8 "A" then some ⟨1, utf8 "A"⟩ else if n = utf8 "B" then some ⟨2, utf8 "B"⟩ else none }
    algos := { quietWorld.algos with knows := fun n => n = utf8 "TWAP" } }

/-- A tuple on sub-account `B`, which `alice` does not own. -/
def foreignTuple : SecurityTuple := ⟨[], some (plainSecurity 42), some ⟨2, utf8 "B"⟩, some .buy, 1⟩

/-- `alice` spawns an algorithm with a tuple on `B` inside a vector, and modifies one with a
top-level tuple on `B`: both reach the algorithm engine. -/
theorem foreign_tuples_reach_engine :
    (∃ text, onMessageSync plainEnv algoWorld
      (utf8 "[\"algo\",\"new\",\"TWAP\",\"tok\",\x7b\"p\":[\x7b\"acc\":\"B\",\"qty\":1,\"sec\":42,\"side\":\"buy\"\x7d]\x7d]") []
      aliceSt = .ok () { aliceSt with calls := [.spawn (some [(utf8 "p", .vector [.securityTuple foreignTuple])])
        (utf8 "TWAP") alice.id text (utf8 "tok")] }) ∧
    onMessageSync plainEnv algoWorld
      (utf8 "[\"algo\",\"modify\",\"tok\",\x7b\"q\":\x7b\"acc\":\"B\",\"qty\":1,\"sec\":42,\"side\":\"buy\"\x7d\x7d]") []
      aliceSt = .ok () { aliceSt with calls := [.modifyToken (utf8 "tok") [(utf8 "q", .scalar (.securityTuple foreignTuple))]] } ∧
    alice.owns 2 = false :=
  ⟨⟨_, rfl⟩, rfl, rfl⟩
end OpenTrade
