import PicoDrone.Analysis.I2cEager

/-!
# When a full count means a completed transfer

`transaction` returns `wlength + rlength` on success. The count is taken from the words
that were pushed and the bytes that were fetched, so it is evidence of the slave's answers
only through the bytes fetched. A transfer that only writes returns the full count as soon as
every word was pushed and the wait has ended, whoever ended it (`full_count_iff`).
-/

set_option autoImplicit false

namespace PicoDrone.Analysis

open PicoDrone.Library PicoDrone.Model

/-- CONTRACT: a returned full count always means that the slave has accepted the transfer,
exactly when the transfer reads, or else the slave acknowledges everything it is sent and
no notification is pending at the start.
SOURCE: i2c/PicoI2C.cpp:134-222 -/
theorem full_count_iff (S : Slave) (addr : Byte) (wbuffer : ℕ → Byte) (m n : ℕ)
    (hpos : 0 < m + n) (hlt : m + n < 2 ^ 32) (d : PicoI2C Controller) :
    (∀ (sched : ℕ → ℕ) (es : List Event) (c : Transaction Controller),
      (transactionMachine (Controller.hw S sched)).run
          (transaction (Controller.hw S sched) addr wbuffer m n d) es = some c →
        c.phase = .returned (m + n) → Accepted m n c.drv.hw) ↔
      0 < n ∨ (Slave.Accepts S m ∧ d.notified = false) := by
  constructor
  · intro hall
    by_contra hbad
    rw [not_or, not_lt, Nat.le_zero] at hbad
    obtain ⟨rfl, hbad⟩ := hbad
    obtain ⟨es, c, hrun, hret, hnot⟩ := not_accepted_run wbuffer hlt hpos addr d hbad
    exact hnot (hall eager es c hrun hret)
  · rintro (hn | ⟨hS, hd⟩) sched es c hrun hret
    · exact accepted_of_read hlt hn hrun hret
    · obtain rfl | hn := Nat.eq_zero_or_pos n
      · exact accepted_of_willing hS hpos hd hrun hret
      · exact accepted_of_read hlt hn hrun hret

/-- A slave that refuses its address. -/
def absentSlave : Slave := ⟨fun _ => false, fun _ => false, fun _ => 0#8⟩

/-- A write of one byte and a read of one byte. -/
theorem full_count_iff_combined :
    0 < 1 + 1 ∧ (1 + 1 < 2 ^ 32) ∧
      ∀ (sched : ℕ → ℕ) (es : List Event) (c : Transaction Controller),
        (transactionMachine (Controller.hw willingSlave sched)).run
            (transaction (Controller.hw willingSlave sched) 0x50#8 (fun _ => 0#8) 1 1
              (PicoI2C.construct (Controller.reset 0))) es = some c →
          c.phase = .returned (1 + 1) → Accepted 1 1 c.drv.hw :=
  ⟨by decide, by decide, (full_count_iff willingSlave 0x50#8 (fun _ => 0#8) 1 1 (by decide)
    (by decide) (PicoI2C.construct (Controller.reset 0))).mpr (Or.inl (by decide))⟩

/-- Two bytes written to a slave that refuses its address: both words were pushed before the
refusal, the STOP of the abort notifies the task, and the call returns 2. -/
theorem full_count_absent :
    ∃ c, (transactionMachine (Controller.hw absentSlave fun _ => 3)).run
        (transaction (Controller.hw absentSlave fun _ => 3) 0x50#8 (fun _ => 0xA5#8) 2 0
          (PicoI2C.construct (Controller.reset 0)))
        [.isr, .take, .count, .irqOff] = some c ∧
      c.phase = .returned (2 + 0) ∧ ¬ Accepted 2 0 c.drv.hw := by
  refine ⟨_, rfl, rfl, ?_⟩
  intro hacc
  exact absurd hacc.addressed (by decide)

end PicoDrone.Analysis
