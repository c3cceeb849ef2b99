import PicoDrone.Analysis.I2cSteps
import PicoDrone.Model.I2cRecording

/-!
# Register blocks that answer alike

If one register block can be seen through another, which answers alike, then so can the two
fill loops, the interrupt handler and every run of a call (`AnswersAlike.run`). The recording
register block is seen as the one it is made from, so every run of a call has a record of
the words loaded from `data_cmd`, and `rbuffer` holds their low bytes in order
(`recording_run`).
-/

set_option autoImplicit false

namespace PicoDrone.Analysis

open PicoDrone.Library PicoDrone.Model

variable {σ τ : Type} {R : I2cHw σ} {Q : I2cHw τ} {f : σ → τ}

/-- Seen through `f`, the states of `R` answer and move on as those of `Q`. -/
structure AnswersAlike (R : I2cHw σ) (Q : I2cHw τ) (f : σ → τ) : Prop where
  writeAvailable : ∀ s, Q.writeAvailable (f s) = (R.writeAvailable s).map id f
  storeDataCmd : ∀ w s, Q.storeDataCmd w (f s) = f (R.storeDataCmd w s)
  rxflr : ∀ s, Q.rxflr (f s) = (R.rxflr s).map id f
  loadDataCmd : ∀ s, Q.loadDataCmd (f s) = (R.loadDataCmd s).map id f
  rawIntrStat : ∀ s, Q.rawIntrStat (f s) = (R.rawIntrStat s).map id f
  clrStopDet : ∀ s, Q.clrStopDet (f s) = f (R.clrStopDet s)
  enable : ∀ on s, Q.enable on (f s) = f (R.enable on s)
  tar : ∀ addr s, Q.tar addr (f s) = f (R.tar addr s)

namespace AnswersAlike

/-! ## The two fill loops and the receive loop -/

theorem txPut (h : AnswersAlike R Q f) (d : PicoI2C σ) :
    (Model.txPut R d).mapHw f = Model.txPut Q (d.mapHw f) := by
  simp only [Model.txPut, PicoI2C.mapHw, h.storeDataCmd]
  rfl

theorem rxPut (h : AnswersAlike R Q f) (d : PicoI2C σ) :
    (Model.rxPut R d).mapHw f = Model.rxPut Q (d.mapHw f) := by
  simp only [Model.rxPut, PicoI2C.mapHw, h.storeDataCmd]
  rfl

theorem rxStore (h : AnswersAlike R Q f) (d : PicoI2C σ) :
    (Model.rxStore R d).mapHw f = Model.rxStore Q (d.mapHw f) := by
  simp only [Model.rxStore, PicoI2C.mapHw, h.loadDataCmd, Prod.map, id]

theorem txLoop (h : AnswersAlike R Q f) (fuel : ℕ) (d : PicoI2C σ) :
    (Model.txLoop R fuel d).mapHw f = Model.txLoop Q fuel (d.mapHw f) := by
  induction fuel generalizing d with
  | zero => rfl
  | succ fuel ih =>
    have hroom : Q.writeAvailable (d.mapHw f).hw = (R.writeAvailable d.hw).map id f :=
      h.writeAvailable d.hw
    simp only [Model.txLoop]
    rw [apply_ite (PicoI2C.mapHw f), apply_ite (PicoI2C.mapHw f), ih, h.txPut, hroom]
    rfl

theorem rxLoop (h : AnswersAlike R Q f) (fuel : ℕ) (d : PicoI2C σ) :
    (Model.rxLoop R fuel d).mapHw f = Model.rxLoop Q fuel (d.mapHw f) := by
  induction fuel generalizing d with
  | zero => rfl
  | succ fuel ih =>
    have hroom : Q.writeAvailable (d.mapHw f).hw = (R.writeAvailable d.hw).map id f :=
      h.writeAvailable d.hw
    simp only [Model.rxLoop]
    rw [apply_ite (PicoI2C.mapHw f), apply_ite (PicoI2C.mapHw f), ih, h.rxPut, hroom]
    rfl

theorem drainLoop (h : AnswersAlike R Q f) (fuel : ℕ) (d : PicoI2C σ) :
    (Model.drainLoop R fuel d).mapHw f = Model.drainLoop Q fuel (d.mapHw f) := by
  induction fuel generalizing d with
  | zero => rfl
  | succ fuel ih =>
    have hsome : Q.rxflr (d.mapHw f).hw = (R.rxflr d.hw).map id f := h.rxflr d.hw
    simp only [Model.drainLoop]
    rw [apply_ite (PicoI2C.mapHw f), apply_ite (PicoI2C.mapHw f), ih, h.rxStore, hsome]
    rfl

/-! ## The handler -/

theorem isrRefill (h : AnswersAlike R Q f) (d : PicoI2C σ) :
    (Model.isrRefill R d).mapHw f = Model.isrRefill Q (d.mapHw f) := by
  have hfill : (if 0 < d.wctr then txFillFifo R d
      else if 0 < d.rctr then rxFillFifo R d else d).mapHw f =
      if 0 < (d.mapHw f).wctr then txFillFifo Q (d.mapHw f)
      else if 0 < (d.mapHw f).rctr then rxFillFifo Q (d.mapHw f) else d.mapHw f := by
    rw [apply_ite (PicoI2C.mapHw f), apply_ite (PicoI2C.mapHw f), txFillFifo, h.txLoop,
      rxFillFifo, h.rxLoop]
    rfl
  unfold Model.isrRefill
  rw [← hfill, apply_ite (PicoI2C.mapHw f)]
  rfl

theorem isrStop (h : AnswersAlike R Q f) (d : PicoI2C σ) :
    (Model.isrStop R d).mapHw f = Model.isrStop Q (d.mapHw f) := by
  simp only [Model.isrStop, PicoI2C.mapHw, h.clrStopDet]

/-- INTERNAL: a part of the handler that runs for one source of the interrupt. -/
theorem forSource (h : AnswersAlike R Q f) (bit : IntrBits → Bool)
    {part : PicoI2C σ → PicoI2C σ} {part' : PicoI2C τ → PicoI2C τ}
    (hpart : ∀ d, (part d).mapHw f = part' (d.mapHw f)) (d : PicoI2C σ) :
    (if bit (R.rawIntrStat d.hw).1 && bit d.intrMask then
        part { d with hw := (R.rawIntrStat d.hw).2 }
      else { d with hw := (R.rawIntrStat d.hw).2 }).mapHw f =
    if bit (Q.rawIntrStat (d.mapHw f).hw).1 && bit (d.mapHw f).intrMask then
      part' { d.mapHw f with hw := (Q.rawIntrStat (d.mapHw f).hw).2 }
    else { d.mapHw f with hw := (Q.rawIntrStat (d.mapHw f).hw).2 } := by
  have hstat : Q.rawIntrStat (d.mapHw f).hw = (R.rawIntrStat d.hw).map id f := h.rawIntrStat d.hw
  rw [apply_ite (PicoI2C.mapHw f), hpart, hstat]
  rfl

/-- INTERNAL: the handler is seen as the handler.
SOURCE: i2c/PicoI2C.cpp:172-222 -/
theorem isr (h : AnswersAlike R Q f) (d : PicoI2C σ) :
    (Model.isr R d).mapHw f = Model.isr Q (d.mapHw f) := by
  have hdrain : (isrDrain R d).mapHw f = isrDrain Q (d.mapHw f) := h.drainLoop _ d
  calc (Model.isr R d).mapHw f = _ := h.forSource IntrBits.stopDet h.isrStop _
    _ = Model.isr Q (d.mapHw f) := by
      rw [h.forSource IntrBits.txEmpty h.isrRefill, hdrain]
      rfl

/-! ## A call -/

/-- INTERNAL: an event of a call is seen as the same event.
SOURCE: i2c/PicoI2C.cpp:155-168 -/
theorem step (h : AnswersAlike R Q f) (c : Transaction σ) (e : Event) :
    transactionStep Q (c.mapHw f) e = (transactionStep R c e).map (Transaction.mapHw f) := by
  cases e with
  | isr =>
    simp only [transactionStep]
    rw [apply_ite (Option.map (Transaction.mapHw f)), Option.map_some]
    simp only [Transaction.mapHw, h.isr]
    rfl
  | irqOff =>
    simp only [transactionStep]
    cases hphase : c.phase with
    | counted v => simp only [Transaction.mapHw, hphase]; rfl
    | waiting => simp only [Transaction.mapHw, hphase]; rfl
    | woken => simp only [Transaction.mapHw, hphase]; rfl
    | returned v => simp only [Transaction.mapHw, hphase]; rfl
  | _ =>
    simp only [transactionStep]
    rw [apply_ite (Option.map (Transaction.mapHw f))]
    rfl

/-- INTERNAL: the beginning of a call is seen as its beginning.
SOURCE: i2c/PicoI2C.cpp:134-157 -/
theorem transaction (h : AnswersAlike R Q f) (addr : Byte) (wbuffer : ℕ → Byte) (m n : ℕ)
    (d : PicoI2C σ) :
    (Model.transaction R addr wbuffer m n d).mapHw f =
      Model.transaction Q addr wbuffer m n (d.mapHw f) := by
  have hprogram : (program R addr wbuffer m n d).mapHw f =
      program Q addr wbuffer m n (d.mapHw f) := by
    simp only [program, PicoI2C.mapHw, h.enable, h.tar]
  have hfill : (if 0 < (program R addr wbuffer m n d).wctr then
        txFillFifo R (program R addr wbuffer m n d)
      else rxFillFifo R (program R addr wbuffer m n d)).mapHw f =
      if 0 < (program Q addr wbuffer m n (d.mapHw f)).wctr then
        txFillFifo Q (program Q addr wbuffer m n (d.mapHw f))
      else rxFillFifo Q (program Q addr wbuffer m n (d.mapHw f)) := by
    rw [apply_ite (PicoI2C.mapHw f), txFillFifo, h.txLoop, rxFillFifo, h.rxLoop, ← hprogram]
    rfl
  simp only [Model.transaction, beginTransaction, Transaction.mapHw]
  rw [← hfill]
  rfl

/-- INTERNAL: the runs of a call are seen as its runs.
SOURCE: i2c/PicoI2C.cpp:134-222 -/
theorem run (h : AnswersAlike R Q f) (addr : Byte) (wbuffer : ℕ → Byte) (m n : ℕ)
    (d : PicoI2C σ) (es : List Event) :
    (transactionMachine Q).run (Model.transaction Q addr wbuffer m n (d.mapHw f)) es =
      ((transactionMachine R).run (Model.transaction R addr wbuffer m n d) es).map
        (Transaction.mapHw f) := by
  rw [← h.transaction]
  exact (transactionMachine R).run_map (Transaction.mapHw f) h.step _ es

end AnswersAlike

/-! ## The recording register block -/

theorem recording_answersAlike (R : I2cHw σ) : AnswersAlike R.recording R Prod.fst := by
  constructor <;> intros <;> rfl

/-- The bytes of `rbuffer`, with their indexes, after the words were loaded from `data_cmd`. -/
def receivedBytes (loads : List Word) : List (ℕ × Byte) :=
  loads.zipIdx.map fun p => (p.2, p.1.setWidth 8)

theorem receivedBytes_length (loads : List Word) :
    (receivedBytes loads).length = loads.length := by
  simp [receivedBytes]

theorem receivedBytes_append (loads : List Word) (w : Word) :
    receivedBytes (loads ++ [w]) = receivedBytes loads ++ [(loads.length, w.setWidth 8)] := by
  simp [receivedBytes, List.zipIdx_append]

/-- The next byte goes behind those stored so far, which are the low bytes of the words loaded,
in order. -/
structure Recorded (d : PicoI2C (σ × List Word)) : Prop where
  index : d.rbuf = d.hw.2.length
  bytes : d.log.rstores = receivedBytes d.hw.2

theorem step_recorded {d d' : PicoI2C (σ × List Word)} (h : Recorded d)
    (hs : DriverStep R.recording d d') : Recorded d' := by
  cases hs with
  | rxStore =>
    refine ⟨?_, ?_⟩
    · simp only [rxStore, I2cHw.recording, h.index, List.length_append, List.length_singleton]
    · simp only [rxStore, I2cHw.recording, h.index, h.bytes, receivedBytes_append]
  | _ => exact ⟨h.index, h.bytes⟩

/-- INTERNAL: every run of a call has a record of the words it loaded from `data_cmd`, and the
bytes it stored are their low bytes in order.
SOURCE: i2c/PicoI2C.cpp:190-192 -/
theorem recording_run {addr : Byte} {wbuffer : ℕ → Byte} {m n : ℕ} {d : PicoI2C σ}
    {es : List Event} {c : Transaction σ}
    (hrun : (transactionMachine R).run (transaction R addr wbuffer m n d) es = some c) :
    ∃ loads, (transactionMachine R.recording).run
        (transaction R.recording addr wbuffer m n (d.mapHw fun s => (s, []))) es =
          some (c.mapHw fun s => (s, loads)) ∧
      c.drv.log.rstores = receivedBytes loads := by
  have hseen := (recording_answersAlike R).run addr wbuffer m n (d.mapHw fun s => (s, [])) es
  have hsame : (d.mapHw fun s => (s, ([] : List Word))).mapHw Prod.fst = d := rfl
  rw [hsame, hrun] at hseen
  obtain ⟨c', hrun', rfl⟩ := Option.map_eq_some_iff.mp hseen.symm
  have hrec : Recorded c'.drv :=
    run_driver Recorded (fun _ _ h hs => step_recorded h hs) (fun _ _ _ h => ⟨h.index, h.bytes⟩)
      ⟨rfl, rfl⟩ hrun'
  exact ⟨c'.drv.hw.2, hrun', hrec.bytes⟩

end PicoDrone.Analysis
