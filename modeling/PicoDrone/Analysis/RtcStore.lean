import PicoDrone.Model.Rtc

/-!
# The clock as a store of the time

With the oscillator stopped, the registers of the chip hold the time of the latest
`set_time`, except that `init` clears the seconds. `get_time` reads them from the fixed
address of the chip, whatever address the object was constructed with. So a run yields the
latest time exactly if the object has the fixed address and `init` did no harm
(`get_time_latest_iff`).
-/

set_option autoImplicit false

namespace PicoDrone.Analysis

open PicoDrone.Library PicoDrone.Model

/-! ## BCD -/

theorem bcdToDec_decToBcd : ∀ v : Byte, v ≤ 99#8 → bcdToDec (decToBcd v) = v := by decide

/-- INTERNAL: the masks of `get_time` leave the digits and drop the bits of the chip.
SOURCE: RTC/RTC.cpp:73-77 -/
theorem masked_seconds : ∀ v : Byte, v ≤ 59#8 →
    bcdToDec ((decToBcd v ||| 0x80#8) &&& 0x7F#8) = v := by decide

theorem masked_day : ∀ v : Byte, v ≤ 31#8 → bcdToDec (decToBcd v &&& 0x3F#8) = v := by decide

theorem masked_month : ∀ leap : Bool, ∀ v : Byte, v ≤ 12#8 →
    bcdToDec ((decToBcd v &&& 0xDF#8 ||| if leap then 0x20#8 else 0x00#8) &&& 0x1F#8) = v := by
  decide

/-! ## What is kept -/

/-- The bounds of `set_time`; every date of the years 0 to 99 meets them. -/
structure InCalendar (t : ClockTime) : Prop where
  seconds : t.seconds ≤ 59#8
  minutes : t.minutes ≤ 59#8
  hours : t.hours ≤ 23#8
  day : t.day ≤ 31#8
  month : t.month ≤ 12#8
  year : t.year ≤ 99#8

def CallInCalendar : RtcCall → Prop
  | .setTime t => InCalendar t
  | _ => True

/-- The time of the latest `set_time` of some calls, and whether an `init` came after it. -/
structure TimeRecord where
  latest : Option ClockTime
  initSince : Bool

def TimeRecord.call (k : TimeRecord) : RtcCall → TimeRecord
  | .init => { k with initSince := true }
  | .setTime t => ⟨some t, false⟩
  | _ => k

def timeRecord (calls : List RtcCall) : TimeRecord := calls.foldl TimeRecord.call ⟨none, false⟩

/-- The registers after `set_time t`, where `zeroed` says that `init` has run since. -/
structure Clock.Keeps (c : Clock) (t : ClockTime) (zeroed : Bool) : Prop where
  seconds : c.regs 0 = if zeroed then 0x80#8 else decToBcd t.seconds ||| 0x80#8
  minutes : c.regs 1 = decToBcd t.minutes
  hours : c.regs 2 = decToBcd t.hours
  day : c.regs 4 = decToBcd t.day
  month : c.regs 5 = decToBcd t.month
  year : c.regs 6 = decToBcd t.year

/-! ## Transfers -/

/-- INTERNAL: the registers after a write, where the address pointer does not roll over. -/
theorem write_regs (c : Clock) (reg : Byte) (data : List Byte)
    (hfit : reg.toNat + data.length ≤ 0x1F) (i : ℕ) :
    (c.write (reg :: data)).regs i =
      if reg.toNat ≤ i then data.getD (i - reg.toNat) (c.regs i) else c.regs i := by
  have hloop : ∀ (data : List Byte) (c : Clock), c.pointer + data.length ≤ 0x1F →
      (data.foldl Clock.putByte c).regs i =
        if c.pointer ≤ i then data.getD (i - c.pointer) (c.regs i) else c.regs i := by
    intro data
    induction data with
    | nil => simp
    | cons b data ih =>
      intro c hc
      rw [List.length_cons] at hc
      have hnext : (c.putByte b).pointer = c.pointer + 1 := by
        simp only [Clock.putByte, Clock.advance]
        rw [if_neg (by omega), if_neg (by omega)]
      rw [List.foldl_cons, ih _ (by rw [hnext]; omega), hnext]
      by_cases hi : i = c.pointer
      · subst hi
        simp [Clock.putByte]
      · have hkeep : (c.putByte b).regs i = c.regs i := Function.update_of_ne hi _ _
        rw [hkeep]
        by_cases hlt : c.pointer ≤ i
        · rw [if_pos (by omega), if_pos hlt,
            show i - c.pointer = i - (c.pointer + 1) + 1 by omega, List.getD_cons_succ]
        · rw [if_neg (by omega), if_neg hlt]
  exact hloop data { c with pointer := reg.toNat } hfit

/-- INTERNAL: the bytes sent by the object reach the chip. -/
theorem write_bus {chipAddr : Byte} {r : Rtc Clock} (hr : r.deviceAddress.setWidth 8 = chipAddr)
    (sent : List Byte) : (r.write (Clock.port chipAddr) sent).bus = r.bus.write sent := by
  simp [Rtc.write, I2cPort.toBus, Clock.port, Clock.transfer, Clock.read, hr]

/-- The bytes of the clock in a buffer.
SOURCE: RTC/RTC.cpp:73-78 -/
def decodeTime (buffer : ℕ → Byte) : ClockTime where
  seconds := bcdToDec (buffer 0 &&& 0x7F#8)
  minutes := bcdToDec (buffer 1)
  hours := bcdToDec (buffer 2)
  day := bcdToDec (buffer 4 &&& 0x3F#8)
  month := bcdToDec (buffer 5 &&& 0x1F#8)
  year := bcdToDec (buffer 6)

/-- INTERNAL: `get_time` decodes its buffer after the transfer, however much of it the transfer
has filled.
SOURCE: RTC/RTC.cpp:65-91 -/
theorem getTime_eq {β : Type} (P : I2cPort β) (buffer : Region 7 Byte) (out : ClockTime)
    (r : Rtc β) :
    r.getTime P true buffer out =
      some ({ r with bus := (P.transaction mcp79410Addr [rtcSec] 7 r.bus).2 },
        decodeTime (buffer.put 0 (P.transaction mcp79410Addr [rtcSec] 7 r.bus).1.2).cell) := by
  have hle := P.received_le mcp79410Addr [rtcSec] 7 r.bus
  unfold Rtc.getTime
  rw [if_pos rfl]
  simp only [Option.bind_eq_bind]
  rw [Region.copyIn_of_le (by omega), Option.bind_some]
  simp only [Region.load, Nat.reduceLT, if_true, Option.bind_some, decodeTime]

theorem read_time (c : Clock) :
    (((c.write [rtcSec]).read 7).1 = [c.regs 0, c.regs 1, c.regs 2, c.regs 3, c.regs 4,
      c.load 5, c.regs 6]) ∧ ((c.write [rtcSec]).read 7).2.regs = c.regs := by
  simp [Clock.write, Clock.read, Clock.advance, Clock.load, Clock.leapYear, rtcSec]

/-- INTERNAL: from the chip at the fixed address `get_time` decodes the registers.
SOURCE: RTC/RTC.cpp:65-91 -/
theorem getTime_chip (buffer : Region 7 Byte) (out : ClockTime) (r : Rtc Clock) :
    ∃ r', r.getTime (Clock.port mcp79410Addr) true buffer out =
        some (r', decodeTime fun i => r.bus.load i) ∧
      r'.deviceAddress = r.deviceAddress ∧ r'.bus.regs = r.bus.regs := by
  obtain ⟨hbytes, hregs⟩ := read_time r.bus
  rw [getTime_eq]
  simp only [Clock.port, Clock.transfer, if_true, hbytes]
  refine ⟨_, congrArg some (Prod.ext rfl ?_), rfl, hregs⟩
  simp [decodeTime, Region.put, Clock.load]

/-- INTERNAL: with no chip at the fixed address `get_time` decodes what is on the stack.
SOURCE: RTC/RTC.cpp:65-91 -/
theorem getTime_no_chip {chipAddr : Byte} (hne : chipAddr ≠ mcp79410Addr)
    (buffer : Region 7 Byte) (out : ClockTime) (r : Rtc Clock) :
    r.getTime (Clock.port chipAddr) true buffer out = some (r, decodeTime buffer.cell) := by
  rw [getTime_eq]
  simp only [Clock.port, Clock.transfer, if_neg (Ne.symm hne), Region.put_nil]

/-! ## Runs -/

/-- The chip keeps the time of the record. -/
structure TimeKept (deviceAddress : BitVec 16) (k : TimeRecord) (r : Rtc Clock) : Prop where
  address : r.deviceAddress = deviceAddress
  keeps : ∀ t, k.latest = some t → InCalendar t ∧ Clock.Keeps r.bus t k.initSince

/-- INTERNAL: a call that leaves the six registers alone keeps the time. -/
theorem TimeKept.of_regs {deviceAddress : BitVec 16} {k : TimeRecord} {r r' : Rtc Clock}
    (h : TimeKept deviceAddress k r) (haddr : r'.deviceAddress = r.deviceAddress)
    (hregs : ∀ i < 7, i ≠ 3 → r'.bus.regs i = r.bus.regs i) : TimeKept deviceAddress k r' := by
  refine ⟨haddr.trans h.address, fun t ht => ?_⟩
  obtain ⟨hcal, hkeep⟩ := h.keeps t ht
  exact ⟨hcal,
    { seconds := (hregs 0 (by omega) (by omega)).trans hkeep.seconds
      minutes := (hregs 1 (by omega) (by omega)).trans hkeep.minutes
      hours := (hregs 2 (by omega) (by omega)).trans hkeep.hours
      day := (hregs 4 (by omega) (by omega)).trans hkeep.day
      month := (hregs 5 (by omega) (by omega)).trans hkeep.month
      year := (hregs 6 (by omega) (by omega)).trans hkeep.year }⟩

/-- INTERNAL: every call leaves the chip with the time of the record.
SOURCE: RTC/RTC.cpp:14-128 -/
theorem call_timeKept (deviceAddress : BitVec 16) (k : TimeRecord) (r : Rtc Clock)
    (call : RtcCall) (h : TimeKept deviceAddress k r) (hcall : CallInCalendar call) :
    ∃ r', (rtcMachine (Clock.port (deviceAddress.setWidth 8))).step r call = some r' ∧
      TimeKept deviceAddress (k.call call) r' := by
  have haddr : r.deviceAddress.setWidth 8 = deviceAddress.setWidth 8 := by rw [h.address]
  cases call with
  | init =>
    refine ⟨_, rfl, h.address, fun t ht => ?_⟩
    obtain ⟨hcal, hkeep⟩ := h.keeps t ht
    refine ⟨hcal, ?_⟩
    simp only [Rtc.init, if_pos]
    rw [write_bus (by exact haddr), write_bus haddr]
    constructor <;> simp [write_regs, rtcSec, rtcWkday, TimeRecord.call, hkeep.minutes,
      hkeep.hours, hkeep.day, hkeep.month, hkeep.year]
  | setTime t =>
    refine ⟨_, rfl, h.address, fun t' ht => ?_⟩
    obtain rfl : t = t' := Option.some.inj ht
    refine ⟨hcall, ?_⟩
    simp only [Rtc.setTime, if_pos]
    rw [write_bus haddr]
    constructor <;> simp [write_regs, rtcSec, TimeRecord.call]
  | getTime buffer out =>
    by_cases hchip : deviceAddress.setWidth 8 = mcp79410Addr
    · obtain ⟨r', hget, hr', hregs⟩ := getTime_chip buffer out r
      rw [hchip]
      exact ⟨r', congrArg (Option.map Prod.fst) hget, h.of_regs hr' fun i _ _ => by rw [hregs]⟩
    · have hget := getTime_no_chip hchip buffer out r
      exact ⟨r, congrArg (Option.map Prod.fst) hget, h⟩
  | setAlarm seconds minutes hours day date =>
    refine ⟨_, rfl, h.of_regs rfl fun i hi _ => ?_⟩
    simp only [Rtc.setAlarm, if_pos]
    rw [write_bus haddr, write_regs _ _ _ (by simp), if_neg (by simp; omega)]
  | clearAlarm =>
    refine ⟨_, rfl, h.of_regs rfl fun i hi _ => ?_⟩
    simp only [Rtc.clearAlarm, if_pos]
    rw [write_bus haddr, write_regs _ _ _ (by simp [controlReg]),
      if_neg (by simp [controlReg]; omega)]

/-- INTERNAL: the registers decode to the latest time, with the seconds cleared by `init`. -/
theorem decodeTime_keeps {c : Clock} {t : ClockTime} {zeroed : Bool} (hcal : InCalendar t)
    (h : Clock.Keeps c t zeroed) :
    decodeTime (fun i => c.load i) =
      { t with seconds := if zeroed then 0#8 else t.seconds } := by
  have hseconds : bcdToDec (c.regs 0 &&& 0x7F#8) = if zeroed then 0#8 else t.seconds := by
    rw [h.seconds]
    cases zeroed with
    | true => simp [bcdToDec]
    | false => exact masked_seconds _ hcal.seconds
  have hmonth := masked_month c.leapYear t.month hcal.month
  have hle : t.minutes ≤ 99#8 ∧ t.hours ≤ 99#8 := by
    have hm := hcal.minutes
    have hh := hcal.hours
    simp only [BitVec.le_def, BitVec.toNat_ofNat] at *
    omega
  simp only [decodeTime, Clock.load, Nat.reduceEqDiff, if_false, if_true, h.minutes, h.hours,
    h.day, h.month, h.year, hseconds, hmonth, bcdToDec_decToBcd _ hle.1,
    bcdToDec_decToBcd _ hle.2, masked_day _ hcal.day, bcdToDec_decToBcd _ hcal.year]

/-- INTERNAL: at the fixed address `get_time` yields the time that the chip keeps, but for the
seconds after `init`. -/
theorem getTime_fixed_iff {r : Rtc Clock} {t : ClockTime} {zeroed : Bool} (hcal : InCalendar t)
    (hkeep : Clock.Keeps r.bus t zeroed) :
    (∀ (buffer : Region 7 Byte) (out : ClockTime), ∃ r',
        r.getTime (Clock.port mcp79410Addr) true buffer out = some (r', t)) ↔
      zeroed = false ∨ t.seconds = 0#8 := by
  have hget : ∀ buffer out, ∃ r', r.getTime (Clock.port mcp79410Addr) true buffer out =
      some (r', { t with seconds := if zeroed then 0#8 else t.seconds }) := by
    intro buffer out
    obtain ⟨r', h, -⟩ := getTime_chip buffer out r
    exact ⟨r', h.trans (by rw [decodeTime_keeps hcal hkeep])⟩
  constructor
  · intro hall
    obtain ⟨r₁, h₁⟩ := hall ⟨fun _ => 0#8⟩ t
    obtain ⟨r₂, h₂⟩ := hget ⟨fun _ => 0#8⟩ t
    have hseconds : t.seconds = if zeroed then 0#8 else t.seconds :=
      congrArg (fun p => p.2.seconds) (Option.some.inj (h₁.symm.trans h₂))
    cases zeroed with
    | false => exact Or.inl rfl
    | true => exact Or.inr hseconds
  · intro hinit buffer out
    obtain ⟨r', h⟩ := hget buffer out
    refine ⟨r', h.trans ?_⟩
    obtain rfl | hzero := hinit
    · rfl
    · rw [← hzero, ite_self]

/-- INTERNAL: with no chip at the fixed address no time is yielded whatever is on the stack.
SOURCE: RTC/RTC.cpp:65-91 -/
theorem getTime_other {chipAddr : Byte} (hne : chipAddr ≠ mcp79410Addr) (r : Rtc Clock)
    (t : ClockTime) :
    ¬ ∀ (buffer : Region 7 Byte) (out : ClockTime), ∃ r',
      r.getTime (Clock.port chipAddr) true buffer out = some (r', t) := by
  intro hall
  -- the minutes come from the stack, so two stacks give two times
  have hminutes : ∀ b : Byte, t.minutes = bcdToDec b := by
    intro b
    obtain ⟨r', h⟩ := hall ⟨fun _ => b⟩ t
    rw [getTime_no_chip hne] at h
    exact (congrArg (fun p => p.2.minutes) (Option.some.inj h)).symm
  have := (hminutes 0#8).symm.trans (hminutes 1#8)
  simp [bcdToDec] at this

/-- INTERNAL: the 7-bit address of an object is the fixed one if the byte it sends is. -/
theorem address_of_byte {deviceAddress : BitVec 16} (haddr : deviceAddress.toNat < 128)
    (heq : deviceAddress.setWidth 8 = mcp79410Addr) : deviceAddress = 0x6F#16 := by
  have hnat := congrArg BitVec.toNat heq
  simp only [BitVec.toNat_setWidth, mcp79410Addr, BitVec.toNat_ofNat] at hnat
  apply BitVec.eq_of_toNat_eq
  simp only [BitVec.toNat_ofNat]
  omega

/-- CONTRACT: after any sequence of calls of an object with its chip at its own address, every
`get_time` yields the time of the latest `set_time`, whatever is on its stack, exactly if the
address is the fixed one of `get_time` and no `init` has cleared the seconds since.
SOURCE: RTC/RTC.cpp:14-128 -/
theorem get_time_latest_iff (deviceAddress : BitVec 16) (haddr : deviceAddress.toNat < 128)
    (c : Clock) (calls : List RtcCall) (hcalls : ∀ call ∈ calls, CallInCalendar call)
    (t : ClockTime) (ht : (timeRecord calls).latest = some t) :
    ∃ r, (rtcMachine (Clock.port (deviceAddress.setWidth 8))).run ⟨deviceAddress, c, []⟩ calls =
        some r ∧
      ((∀ (buffer : Region 7 Byte) (out : ClockTime), ∃ r',
          r.getTime (Clock.port (deviceAddress.setWidth 8)) true buffer out = some (r', t)) ↔
        deviceAddress = 0x6F#16 ∧ ((timeRecord calls).initSince = false ∨ t.seconds = 0#8)) := by
  have hstart : TimeKept deviceAddress ⟨none, false⟩ ⟨deviceAddress, c, []⟩ :=
    ⟨rfl, fun _ h => by cases h⟩
  obtain ⟨r, hrun, hkept⟩ := (rtcMachine (Clock.port (deviceAddress.setWidth 8))).run_refines
    TimeRecord.call (TimeKept deviceAddress) CallInCalendar
    (call_timeKept deviceAddress) hstart hcalls
  refine ⟨r, hrun, ?_⟩
  obtain ⟨hcal, hkeep⟩ := hkept.keeps t ht
  by_cases hchip : deviceAddress = 0x6F#16
  · subst hchip
    exact (getTime_fixed_iff hcal hkeep).trans (and_iff_right rfl).symm
  · have hne : deviceAddress.setWidth 8 ≠ mcp79410Addr := fun heq =>
      hchip (address_of_byte haddr heq)
    exact iff_of_false (getTime_other hne r t) fun h => hchip h.1

/-- The last second of a year, read back after the alarm was set and cleared. -/
theorem get_time_latest_iff_new_year :
    ∃ r, (rtcMachine (Clock.port 0x6F#8)).run ⟨0x6F#16, ⟨fun _ => 0#8, 0⟩, []⟩
        [.init, .setTime ⟨59#8, 59#8, 23#8, 31#8, 12#8, 99#8⟩, .setAlarm 0#8 0#8 7#8 2#8 1#8,
          .clearAlarm] = some r ∧
      ∀ (buffer : Region 7 Byte) (out : ClockTime), ∃ r',
        r.getTime (Clock.port 0x6F#8) true buffer out =
          some (r', ⟨59#8, 59#8, 23#8, 31#8, 12#8, 99#8⟩) := by
  have hcal : InCalendar ⟨59#8, 59#8, 23#8, 31#8, 12#8, 99#8⟩ := by constructor <;> decide
  obtain ⟨r, hrun, hiff⟩ := get_time_latest_iff 0x6F#16 (by decide) ⟨fun _ => 0#8, 0⟩
    [.init, .setTime ⟨59#8, 59#8, 23#8, 31#8, 12#8, 99#8⟩, .setAlarm 0#8 0#8 7#8 2#8 1#8,
      .clearAlarm]
    (by simp [CallInCalendar, hcal]) ⟨59#8, 59#8, 23#8, 31#8, 12#8, 99#8⟩ rfl
  exact ⟨r, hrun, hiff.mpr ⟨rfl, Or.inl rfl⟩⟩

/-- `init` after `set_time` clears the seconds, and an object at another address never reads
its chip at all. -/
theorem get_time_after_init :
    ((rtcMachine (Clock.port 0x6F#8)).run ⟨0x6F#16, ⟨fun _ => 0#8, 0⟩, []⟩
        [.setTime ⟨30#8, 59#8, 23#8, 31#8, 12#8, 99#8⟩, .init]).bind (fun r =>
          (r.getTime (Clock.port 0x6F#8) true ⟨fun _ => 0#8⟩
            ⟨0#8, 0#8, 0#8, 0#8, 0#8, 0#8⟩).map Prod.snd) =
        some ⟨0#8, 59#8, 23#8, 31#8, 12#8, 99#8⟩ ∧
      ((rtcMachine (Clock.port 0x50#8)).run ⟨0x50#16, ⟨fun _ => 0#8, 0⟩, []⟩
        [.setTime ⟨30#8, 59#8, 23#8, 31#8, 12#8, 99#8⟩]).bind (fun r =>
          (r.getTime (Clock.port 0x50#8) true ⟨fun _ => 0x11#8⟩
            ⟨0#8, 0#8, 0#8, 0#8, 0#8, 0#8⟩).map Prod.snd) =
        some ⟨11#8, 11#8, 11#8, 11#8, 11#8, 11#8⟩ := by
  decide

end PicoDrone.Analysis
