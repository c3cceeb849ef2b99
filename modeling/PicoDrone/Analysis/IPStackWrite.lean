import Mathlib.Data.List.TakeDrop
import PicoDrone.Model.IPStack

/-!
# What `IPStack::write` reports

lwIP queues what `tcp_write` is given when it answers `ERR_OK`, cut to a length of 16 bits, and
the result of `tcp_output` then replaces the one of `tcp_write`. Over every run of calls the bytes
queued are those of the calls that returned `len` exactly as long as no call whose `tcp_write`
succeeds sees `tcp_output` fail or has a buffer that 16 bits cannot count
(`write_truthful_iff`).
-/

set_option autoImplicit false

namespace PicoDrone.Analysis

open PicoDrone.Library PicoDrone.Model

variable {α : Type}

/-- The bytes queued in lwIP. -/
def queuedStream (log : List (Written α)) : List α := log.flatMap Written.queued

/-- The buffers of the calls that returned `len`. -/
def reportedStream (log : List (Written α)) : List α :=
  (log.filter fun w => w.result = w.buffer.length).flatMap Written.buffer

/-- The bytes queued are those of the calls that returned `len`, and a call that returned a
negative value queued none. -/
def Truthful (log : List (Written α)) : Prop :=
  queuedStream log = reportedStream log ∧ ∀ w ∈ log, w.result < 0 → w.queued = []

theorem queuedStream_concat (log : List (Written α)) (w : Written α) :
    queuedStream (log ++ [w]) = queuedStream log ++ w.queued := by
  simp [queuedStream]

theorem reportedStream_concat (log : List (Written α)) (w : Written α) :
    reportedStream (log ++ [w]) =
      reportedStream log ++ if w.result = w.buffer.length then w.buffer else [] := by
  by_cases h : w.result = w.buffer.length
  · simp [reportedStream, h]
  · simp [reportedStream, h]

/-- INTERNAL: one more call. -/
theorem truthful_concat {log : List (Written α)} {w : Written α} (h : Truthful log) :
    Truthful (log ++ [w]) ↔ w.queued = if w.result = w.buffer.length then w.buffer else [] := by
  rw [Truthful, queuedStream_concat, reportedStream_concat, h.1, List.append_cancel_left_eq]
  refine and_iff_left_of_imp fun hqueued => ?_
  rw [List.forall_mem_append, List.forall_mem_singleton]
  refine ⟨h.2, fun hneg => ?_⟩
  rw [hqueued, if_neg (by omega)]

/-- Where `tcp_write` succeeds, `tcp_output` does and the length has 16 bits, or `tcp_output` fails
and nothing is left of the length. -/
def Reportable (c : SendCall α) : Prop :=
  c.writeErr = errOk →
    if c.outputErr = errOk then c.buffer.length < 65536 else c.buffer.length % 65536 = 0

/-- INTERNAL: what a call returns and queues agree exactly under the condition.
SOURCE: ipstack/IPStack.cpp:233-256 -/
theorem step_truthful_iff {s t : Sender α} {c : SendCall α} (h : Truthful s.log)
    (hs : (txMachine α).step s c = some t) : Truthful t.log ↔ Reportable c := by
  obtain rfl := Option.some.inj hs
  have hlen : u16 c.buffer.length = c.buffer.length % 65536 := by
    unfold u16
    omega
  simp only [Sender.write, Net.write]
  rw [truthful_concat h]
  simp only [tcpWrite, Reportable, hlen]
  by_cases hwrite : c.writeErr = errOk
  · by_cases houtput : c.outputErr = errOk
    · -- both succeed: the length must have survived the cut to 16 bits
      simp only [hwrite, houtput, ne_eq, not_true_eq_false, if_true, if_false, true_implies]
      rw [List.take_eq_self_iff]
      omega
    · -- the call returns -2, so nothing may have been queued
      simp only [hwrite, houtput, ne_eq, not_false_eq_true, if_true, if_false, true_implies]
      rw [if_neg (by omega), List.take_eq_nil_iff, List.length_eq_zero_iff.symm]
      omega
  · -- nothing is queued, and the call returns -1 or -2
    have hneg : (if c.outputErr ≠ errOk then (-2 : ℤ) else -1) < 0 := by split <;> decide
    simp only [hwrite, ne_eq, not_false_eq_true, if_true, if_false, false_implies, iff_true]
    rw [if_neg (by simp only [ne_eq] at hneg; omega)]

/-- CONTRACT: over every run of calls of `write` on a connection, with buffers of any length and
any results of `tcp_write` and `tcp_output`: the bytes queued are always those of the calls that
returned `len`, and no call with a negative result has queued any, exactly if `tcp_output`
succeeds and `len` has 16 bits wherever `tcp_write` succeeds, or the length it was given is zero.
SOURCE: ipstack/IPStack.cpp:233-256 -/
theorem write_truthful_iff (n : Net α) (calls : List (SendCall α)) :
    (txMachine α).Always (fun s => Truthful s.log) ⟨n, []⟩ calls ↔
      ∀ c ∈ calls, Reportable c := by
  have htotal : ∀ s c, ∃ t, (txMachine α).step s c = some t := fun s c => ⟨_, rfl⟩
  obtain ⟨t, hrun⟩ := (txMachine α).exists_run htotal ⟨n, []⟩ calls
  rw [← (txMachine α).along_iff_forall htotal]
  exact (txMachine α).always_iff_along (fun _ => True) _ _ (fun _ _ _ _ _ => trivial)
    (fun _ _ _ _ h hs => step_truthful_iff h hs) trivial ⟨rfl, by simp⟩ hrun

/-- The bytes are queued and `tcp_output` fails: the call returns -2. -/
theorem queued_and_refused :
    ¬ ∀ (n : Net Byte) (calls : List (SendCall Byte)),
      (txMachine Byte).Always (fun s => Truthful s.log) ⟨n, []⟩ calls := by
  intro h
  obtain ⟨-, hall⟩ := h (Net.start ⟨fun _ => 0#8⟩) [⟨[0x10#8, 0x0C#8], errOk, errMem⟩]
  have hqueued := (hall _ rfl).2 ⟨[0x10#8, 0x0C#8], -2, [0x10#8, 0x0C#8]⟩
    (List.mem_singleton.mpr rfl) (by decide)
  cases hqueued

end PicoDrone.Analysis
