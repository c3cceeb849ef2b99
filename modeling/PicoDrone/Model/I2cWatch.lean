import PicoDrone.Model.I2cController

/-!
# A watched controller

Two moments decide whether a received byte can be lost, and the driver guards against
neither: it stores a read command although the bytes received and the read commands
outstanding already fill the receive FIFO, and `isr` finds STOP while received bytes are
still in the FIFO. A watched controller records both and answers as the controller does.
-/

set_option autoImplicit false

namespace PicoDrone.Model

/-- The bytes that wait in the receive FIFO or will arrive there: those received, and the read
commands that the controller has not finished. -/
def Controller.outstanding (c : Controller) : ℕ :=
  c.rxFifo.length + (match c.shift with
    | .busy w => if isRead w then 1 else 0
    | _ => 0) + (c.txFifo.filter isRead).length

/-- The controller with what has been recorded since it was last enabled: a read command stored
with no room for its byte, and a look at the interrupt status that showed STOP with bytes
in the receive FIFO. -/
structure Watched where
  ctl : Controller
  crowded : Bool
  unread : Bool

namespace Watched

variable (S : Slave) (sched : ℕ → ℕ)

/-- The register block of a watched controller. -/
def hw : I2cHw Watched where
  writeAvailable w :=
    let r := (Controller.hw S sched).writeAvailable w.ctl
    (r.1, { w with ctl := r.2 })
  storeDataCmd cmd w :=
    { w with
      ctl := (Controller.hw S sched).storeDataCmd cmd w.ctl
      crowded := w.crowded ||
        (isRead cmd && decide (fifoDepth ≤ (w.ctl.advance S sched).outstanding)) }
  rxflr w :=
    let r := (Controller.hw S sched).rxflr w.ctl
    (r.1, { w with ctl := r.2 })
  loadDataCmd w :=
    let r := (Controller.hw S sched).loadDataCmd w.ctl
    (r.1, { w with ctl := r.2 })
  rawIntrStat w :=
    let r := (Controller.hw S sched).rawIntrStat w.ctl
    (r.1, { w with ctl := r.2, unread := w.unread || (r.1.stopDet && !r.2.rxFifo.isEmpty) })
  clrStopDet w := { w with ctl := (Controller.hw S sched).clrStopDet w.ctl }
  enable on w :=
    let ctl := (Controller.hw S sched).enable on w.ctl
    if on then { w with ctl := ctl } else ⟨ctl, false, false⟩
  tar addr w := { w with ctl := (Controller.hw S sched).tar addr w.ctl }

end Watched

end PicoDrone.Model
