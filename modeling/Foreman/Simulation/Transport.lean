import Foreman.Call
import Foreman.Function.Registry
import Foreman.Liveness.Prober

/-!
# Transports: how workers behave

A transport decides what becomes of pings and calls. It may keep a state of its own, which a call
can change when it begins and when it returns.
-/

namespace Foreman

/-- What becomes of a call that begins now: it never returns, it returns after a while with an
outcome that is known already, or with one that is decided then. -/
inductive Fate
  | hangs
  | returns (after : Time) (outcome : Outcome)
  | decides (after : Time)

structure Transport (σ : Type) where
  pingFate : σ → Time → Address → PingFate
  callFate : σ → Address → Request → σ × Fate
  /-- The outcome of a call that returns now, if it was not known before. -/
  outcome : σ → Address → Request → σ × Outcome

/-- Workers at addresses where nobody listens: whatever is sent to them fails at once. -/
def Transport.disconnected : Transport Unit where
  pingFate := fun _ _ _ => .fails 0
  callFate := fun s worker _ => (s, .returns 0 (.error (.refused worker)))
  outcome := fun s worker _ => (s, .error (.refused worker))

namespace Request

/-- Carries out a request with the functions of a registry and the contents of the input splits, as
a worker does that has everything in memory. The function is looked up first. -/
def perform (registry : Registry) (contents : String → Option String) :
    Request → Except TaskError Output
  | .map path function =>
    match registry.map? function with
    | .error e => .error e
    | .ok f => match contents path with
      | none => .error (.unreadable path "no such split")
      | some text => .ok (.records (f text))
  | .reduce records function =>
    match registry.reduce? function with
    | .error e => .error e
    | .ok f => .ok (.value (reduceRecords f records))

end Request
end Foreman
