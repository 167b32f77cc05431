import OpenTrade.Connection.OnMessage

/-!
# A connection's runs

A connection runs code on five occasions: a message from its client, a tick of its timer,
a confirmation the order book pushes, an event the algorithm engine pushes, and a message
of an algorithm it started a test of. Each runs on the connection's strand, one after
another, against what the engines hold at that moment.

## Implementation notes

A push is modelled as one step: the check on the caller's thread and the task it posts run
together. An exception that leaves a handler, undefined behaviour and the shutdown countdown
end the run.
-/

namespace OpenTrade

/-- What makes a connection run code. -/
inductive Event where
  /-- `OnMessageSync(msg, token)`. -/
  | message (msg token : Bytes)
  /-- The timer callback of `PublishMarketdata`. -/
  | tick
  /-- `Send(Confirmation::Ptr)`. -/
  | confirmation (cm : Confirmation)
  /-- `Send(const Algo&, status, body, seq)`. -/
  | algo (a : AlgoEvent)
  /-- `SendTestMsg(token, msg, stopped)`. -/
  | testMsg (token msg : Bytes) (stopped : Bool)

/-- One event, against the engines' state `w`. -/
def Event.handle (env : Env) (w : World) : Event → M Unit
  | .message msg token => onMessageSync env w msg token
  | .tick => onTimer env w
  | .confirmation cm => sendConfirmationPtr env cm
  | .algo a => sendAlgo env w.now a
  | .testMsg token msg stopped => sendTestMsg env token msg stopped

/-- A run: the events in order, each with the engines' state it meets. -/
def run (env : Env) : List (World × Event) → M Unit
  | [] => pure ()
  | (w, e) :: rest => do
    e.handle env w
    run env rest

section Run

variable {env : Env} {w : World} {e : Event} {rest : List (World × Event)} {s s' : St}

theorem run_cons_of_ok (h : e.handle env w s = .ok () s') : run env ((w, e) :: rest) s = run env rest s' :=
  M.bind_of_ok h

theorem run_cons_of_error {x : Abort} (h : e.handle env w s = .error x s') :
    run env ((w, e) :: rest) s = .error x s' :=
  M.bind_of_error h

end Run

/-! ## The process

`kTokens` is a static of `connection.cc`, a concurrent map that every connection of the
server reads and writes. A connection's handlers run on its own strand, and those of different
connections interleave. A handler touches the table at most once, at the gate or at a login,
so a run of the process is a sequence of whole handlers, each of some connection, in an order
the model leaves open. -/

/-- The connections of a server process by number, the token table they share, and the calls
they made into the engines, in order. -/
structure Process where
  conns : Nat → Session
  kTokens : Bytes → Option User
  out : Nat → List Frame
  calls : List Call

/-- A process before its first login: every connection as its constructor leaves it. -/
def Process.init : Process := ⟨fun _ => {}, fun _ => none, fun _ => [], []⟩

/-- What a handler of connection `i` reads and writes. -/
def Process.view (p : Process) (i : Nat) : St := ⟨p.conns i, p.kTokens, p.out i, p.calls⟩

/-- The process once a handler of connection `i` has left the state `s`. -/
def Process.commit (p : Process) (i : Nat) (s : St) : Process :=
  ⟨Function.update p.conns i s.conn, s.kTokens, Function.update p.out i s.out, s.calls⟩

/-- One event of connection `i`, whose transport and constants are `env`. What a handler wrote
before an exception or the shutdown countdown stays, and the process goes on, so the runs of a
server that stops there are prefixes of these; after undefined behaviour nothing is defined. -/
def Process.step (env : Env) (p : Process) (i : Nat) (w : World) (e : Event) : Option Process :=
  match e.handle env w (p.view i) with
  | .error .undefined _ => none
  | r => some (p.commit i (M.final r))

/-- A run of the process: events, each with its connection and the engines' state it meets.
Connection `i` has the transport and constants `env i`. -/
def Process.run (env : Nat → Env) : Process → List (Nat × World × Event) → Option Process
  | p, [] => some p
  | p, (i, w, e) :: rest => (p.step (env i) i w e).bind fun p' => p'.run env rest

section ProcessRun

variable {env : Nat → Env} {p p' : Process} {i : Nat} {w : World} {e : Event}

@[simp] theorem Process.view_conn (p : Process) (i : Nat) : (p.view i).conn = p.conns i := rfl

@[simp] theorem Process.view_kTokens (p : Process) (i : Nat) : (p.view i).kTokens = p.kTokens := rfl

@[simp] theorem Process.commit_conns (p : Process) (i : Nat) (s : St) (j : Nat) :
    (p.commit i s).conns j = if j = i then s.conn else p.conns j :=
  Function.update_apply _ _ _ _

@[simp] theorem Process.commit_kTokens (p : Process) (i : Nat) (s : St) : (p.commit i s).kTokens = s.kTokens := rfl

/-- A step that is defined commits the handler's final state. -/
theorem Process.step_eq {env : Env} (h : p.step env i w e = some p') :
    p' = p.commit i (M.final (e.handle env w (p.view i))) := by
  unfold Process.step at h
  split at h <;> cases h
  rename_i r _
  cases r <;> rfl

theorem Process.run_cons_of_step {rest : List (Nat × World × Event)} (h : p.step (env i) i w e = some p') :
    p.run env ((i, w, e) :: rest) = p'.run env rest := by
  simp only [Process.run, h, Option.some_bind]

/-- What holds after no event, and is carried back over one defined step, holds of every
defined run. -/
theorem Process.run_rec {P : Process → List (Nat × World × Event) → Process → Prop} (hnil : ∀ p, P p [] p)
    (hstep : ∀ p p₁ p' i w e evs, p.step (env i) i w e = some p₁ → P p₁ evs p' → P p ((i, w, e) :: evs) p')
    {evs : List (Nat × World × Event)} (h : p.run env evs = some p') : P p evs p' := by
  induction evs generalizing p with
  | nil => cases h; exact hnil _
  | cons ev evs ih =>
    obtain ⟨i, w, e⟩ := ev
    cases hs : p.step (env i) i w e with
    | none => simp [Process.run, hs] at h
    | some p₁ =>
      rw [Process.run_cons_of_step hs] at h
      exact hstep p p₁ p' i w e evs hs (ih h)

theorem Process.run_append (pre post : List (Nat × World × Event)) (p : Process) :
    p.run env (pre ++ post) = (p.run env pre).bind fun p' => p'.run env post := by
  induction pre generalizing p with
  | nil => rfl
  | cons ev pre ih =>
    obtain ⟨i, w, e⟩ := ev
    simp only [List.cons_append, Process.run]
    cases p.step (env i) i w e with
    | none => rfl
    | some p₁ => exact ih p₁

end ProcessRun

end OpenTrade
