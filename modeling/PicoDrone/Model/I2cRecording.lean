import PicoDrone.Model.I2cDriver

/-!
# Seeing one register block through another

A driver over one register block is also a driver over any other that it can be seen through:
`mapHw` changes the state of the hardware and nothing else. The recording register block
answers as the one it is made from and keeps the words that were loaded from `data_cmd`.
-/

set_option autoImplicit false

namespace PicoDrone.Model

variable {σ τ : Type}

/-- The object with another state of the hardware. -/
def PicoI2C.mapHw (f : σ → τ) (d : PicoI2C σ) : PicoI2C τ :=
  { hw := f d.hw, intrMask := d.intrMask, restartOnNext := d.restartOnNext,
    wbuffer := d.wbuffer, wbuf := d.wbuf, wctr := d.wctr, rbuf := d.rbuf, rctr := d.rctr,
    rcnt := d.rcnt, notified := d.notified, irqEnabled := d.irqEnabled, log := d.log }

/-- The call with another state of the hardware. -/
def Transaction.mapHw (f : σ → τ) (c : Transaction σ) : Transaction τ :=
  { drv := c.drv.mapHw f, wlength := c.wlength, rlength := c.rlength, phase := c.phase,
    timedOut := c.timedOut, tally := c.tally }

/-- The register block that keeps, beside its state, the words loaded from `data_cmd`, in
order. -/
def I2cHw.recording (R : I2cHw σ) : I2cHw (σ × List Word) where
  writeAvailable s := ((R.writeAvailable s.1).1, ((R.writeAvailable s.1).2, s.2))
  storeDataCmd w s := (R.storeDataCmd w s.1, s.2)
  rxflr s := ((R.rxflr s.1).1, ((R.rxflr s.1).2, s.2))
  loadDataCmd s :=
    ((R.loadDataCmd s.1).1, ((R.loadDataCmd s.1).2, s.2 ++ [(R.loadDataCmd s.1).1]))
  rawIntrStat s := ((R.rawIntrStat s.1).1, ((R.rawIntrStat s.1).2, s.2))
  clrStopDet s := (R.clrStopDet s.1, s.2)
  enable on s := (R.enable on s.1, s.2)
  tar addr s := (R.tar addr s.1, s.2)

end PicoDrone.Model
