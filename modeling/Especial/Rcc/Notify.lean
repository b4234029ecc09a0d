/-
# The RCC keeps the users of its clocks informed

Every register write is a sequence of calls on the clock tree (`Especial.Rcc.Settings`),
and each of them leaves the users of the clocks informed.
-/

import Especial.Rcc.Settings
import Especial.Clktree.Notify

namespace Especial
namespace Rcc

open Qemu Clktree Lib

/-- A change of a setting tells the users. -/
theorem setting_tells {x : Setting} {t t' : Tree} (h : t.exec x.op = .ok t') : Tells t t' := by
  cases x with
  | scale i m d => exact setScale_tells h
  | enabled i on => exact setEnabled_tells h
  | selectedInput i sel => exact setSelectedInput_tells h

/-- So do the calls of an event. -/
theorem Does.tells {xs : List Setting} {s s' : Stm32Rcc} (h : Does xs s s') :
    Tells s.tree s'.tree :=
  foldlM_invariant (fun _ _ _ _ ht hx => ht.trans (setting_tells hx)) (.refl s.tree) h

/-- **Every step of the RCC** leaves the users of its clocks informed. -/
theorem step_tells {s s' : Stm32Rcc} {e : Event} (h : Step s e s') : Tells s.tree s'.tree :=
  (step_does h).tells

end Rcc
end Especial
