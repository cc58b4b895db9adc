import Foreman.Notice
import Foreman.Task

/-!
# The health of workers

The monitor keeps one endpoint for every worker that it was told of or that was ever probed. The
outcome of a probe decides the health of its endpoint, and only a change of health is worth a
notice. Health decides who may be given new tasks; it does not touch tasks that are under way.
-/

namespace Foreman

inductive Health
  | alive
  | unresponsive
deriving DecidableEq, Repr

def Health.ofProbe (answered : Bool) : Health :=
  if answered then .alive else .unresponsive

/-- What is known of a worker: its health, and when it last answered a probe. -/
structure Endpoint where
  health : Health := .unresponsive
  lastProbe : Option Time := none
deriving DecidableEq, Repr

/-- The endpoints, and the notices given so far, the latest first. -/
structure Monitor where
  endpoints : Std.ExtTreeMap Address Endpoint
  log : List Notice := []

namespace Monitor

/-- Every worker is unresponsive until it answers a probe. -/
def ofWorkers (workers : List Address) : Monitor :=
  { endpoints := workers.foldl (fun es w => es.insert w {}) ∅ }

def workers (m : Monitor) : List Address :=
  m.endpoints.keys

def alive (m : Monitor) : List Address :=
  (m.endpoints.toList.filter fun (_, e) => e.health = .alive).map (·.1)

/-- Takes the outcome of a probe that ends now. A worker that is not known yet becomes known. -/
def note (m : Monitor) (now : Time) (worker : Address) (answered : Bool) : Monitor :=
  let before := m.endpoints.getD worker {}
  let health := Health.ofProbe answered
  let lastProbe := if answered then some now else before.lastProbe
  let news := if before.health = health then []
    else if answered then [.alive worker] else [.unresponsive worker]
  { endpoints := m.endpoints.insert worker ⟨health, lastProbe⟩
    log := news ++ m.log }

theorem mem_workers_iff {m : Monitor} {worker : Address} :
    worker ∈ m.workers ↔ ∃ e, m.endpoints[worker]? = some e := by
  rw [workers, Std.ExtTreeMap.mem_keys, Std.ExtTreeMap.mem_iff_isSome_getElem?, Option.isSome_iff_exists]

theorem endpoint_note_self (m : Monitor) (now : Time) (worker : Address) (answered : Bool) :
    (m.note now worker answered).endpoints[worker]? =
      some ⟨.ofProbe answered, if answered then some now else (m.endpoints.getD worker {}).lastProbe⟩ := by
  simp [note]

theorem endpoint_note_of_ne (m : Monitor) (now : Time) {worker other : Address} (answered : Bool)
    (h : worker ≠ other) : (m.note now worker answered).endpoints[other]? = m.endpoints[other]? := by
  simp [note, Std.ExtTreeMap.getElem?_insert, h]

end Monitor
end Foreman
