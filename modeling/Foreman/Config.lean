import Foreman.Task
import Foreman.Text.Numeral

/-!
# Configuration of a coordinator

The settings have defaults, and each of them can be given by a variable of the environment. A value
that is not a numeral of the right width is as good as none.
-/

namespace Foreman

structure Config where
  /-- How long a worker may hold a task before the task goes back to pending. -/
  dispatchTimeout : Time := 10000
  /-- The period of the probes that run beside a job. -/
  probeInterval : Time := 1000
  /-- How long a worker may take to answer a probe. -/
  probeTimeout : Time := 500
  /-- The period of the scheduling passes that no event asks for; also how long a task waits after
  a failed dispatch. -/
  scheduleInterval : Time := 200
  /-- A task that has been dispatched more often than this is reported as stuck. -/
  retryWarning : Nat := 3
deriving DecidableEq, Repr

inductive Setting
  | dispatchTimeout
  | probeInterval
  | probeTimeout
  | scheduleInterval
  | retryWarning
deriving DecidableEq, Repr

namespace Setting

def all : List Setting :=
  [.dispatchTimeout, .probeInterval, .probeTimeout, .scheduleInterval, .retryWarning]

def envName : Setting → String
  | .dispatchTimeout => "MR_DISPATCH_TIMEOUT_MS"
  | .probeInterval => "MR_PROBE_INTERVAL_MS"
  | .probeTimeout => "MR_PROBE_TIMEOUT_MS"
  | .scheduleInterval => "MR_SCHEDULE_INTERVAL_MS"
  | .retryWarning => "MR_RETRY_WARNING"

def bits : Setting → Nat
  | .retryWarning => 32
  | _ => 64

def read? (s : Setting) (lookup : String → Option String) : Option Nat :=
  (lookup s.envName).bind (Text.Numeral.unsigned? s.bits)

end Setting

namespace Config

def ofEnvironment (lookup : String → Option String) : Config :=
  let fallback : Config := {}
  { dispatchTimeout := (Setting.dispatchTimeout.read? lookup).getD fallback.dispatchTimeout
    probeInterval := (Setting.probeInterval.read? lookup).getD fallback.probeInterval
    probeTimeout := (Setting.probeTimeout.read? lookup).getD fallback.probeTimeout
    scheduleInterval := (Setting.scheduleInterval.read? lookup).getD fallback.scheduleInterval
    retryWarning := (Setting.retryWarning.read? lookup).getD fallback.retryWarning }

end Config
end Foreman
