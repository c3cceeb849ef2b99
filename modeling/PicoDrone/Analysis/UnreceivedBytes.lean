import PicoDrone.Analysis.EepromStore
import PicoDrone.Analysis.RtcStore
import PicoDrone.Model.I2cClients

/-!
# Bytes that were never received

`readFromMemory` and `get_time` ignore the counts of their transfers and go on with what is
in their local buffers. So bytes of the stack reach the caller exactly where a transfer of
the call fails and the checksum of the buffer happens to match, or not all seven bytes of
the clock have arrived (`delivers_iff`).
-/

set_option autoImplicit false

namespace PicoDrone.Analysis

open PicoDrone.Library PicoDrone.Model

variable {β : Type} (P : I2cPort β)

/-! ## The transfers of a call -/

/-- The bytes that the read of a `readFromMemory` has received, and its count.
SOURCE: eeprom/EEPROM.cpp:73-76 -/
def eepromTransfers (s : Clients β) (memoryAddress : BitVec 16) (length : ℕ) :
    ℕ × ℕ × List Byte :=
  let w := P.transaction (s.eepromAddress.setWidth 8)
    [highByte memoryAddress, lowByte memoryAddress] 0 s.bus
  let r := P.transaction (s.eepromAddress.setWidth 8) [] (u32 (length + 2)) w.2
  (w.1.1, r.1.1, r.1.2)

/-- Both transfers of a `readFromMemory` returned the full count. -/
def ReadCompleted (s : Clients β) (memoryAddress : BitVec 16) (length : ℕ) : Prop :=
  (eepromTransfers P s memoryAddress length).1 = 2 ∧
    (eepromTransfers P s memoryAddress length).2.1 = u32 (length + 2)

/-- The bytes that the read of a `readFromMemory` has received. -/
def eepromReceived (s : Clients β) (memoryAddress : BitVec 16) (length : ℕ) : List Byte :=
  (eepromTransfers P s memoryAddress length).2.2

/-- The bytes of the clock that a `get_time` has received.
SOURCE: RTC/RTC.cpp:71 -/
def rtcReceived (s : Clients β) : List Byte := (P.transaction mcp79410Addr [rtcSec] 7 s.bus).1.2

/-- The caller of a call gets nothing but received bytes: the data of a `readFromMemory` whose
transfers both completed, zeros, or the time in the seven bytes that a `get_time` has
received. -/
def GivesReceived (s : Clients β) : ClientCall → Prop
  | .eeprom (.read buffer addressBuffer memoryAddress data length) =>
    ∃ memory s', s.call P (.eeprom (.read buffer addressBuffer memoryAddress data length)) =
        some (.data memory, s') ∧
      ((∀ i < length, memory i = 0#8) ∨
        ¬ u32 (length + 2) > 64 ∧ ReadCompleted P s memoryAddress length ∧
          ∀ i < length, (eepromReceived P s memoryAddress length)[i]? = some (memory i))
  | .rtc (.getTime buffer out) =>
    ∃ t s', s.call P (.rtc (.getTime buffer out)) = some (.time t, s') ∧
      (rtcReceived P s).length = 7 ∧ t = decodeTime fun i => (rtcReceived P s).getD i 0#8
  | _ => True

/-- The condition on the transfers and on what they leave in the local buffer: a length that the
guard rejects finds zeros in the memory of the caller; otherwise it is one for which the guard
does not wrap, and the transfers complete, or the checksum does not match, or the buffer
holds zeros. A `get_time` receives its seven bytes. -/
def NothingStale (s : Clients β) : ClientCall → Prop
  | .eeprom (.read buffer _ memoryAddress data length) =>
    if u32 (length + 2) > 64 then ∀ i < length, data i = 0#8
    else length ≤ 62 ∧ (ReadCompleted P s memoryAddress length ∨
      ¬ CrcMatches length (buffer.put 0 (eepromReceived P s memoryAddress length)) ∨
      ∀ i < length, (buffer.put 0 (eepromReceived P s memoryAddress length)).cell i = 0#8)
  | .rtc (.getTime _ _) => (rtcReceived P s).length = 7
  | _ => True

/-! ## One call -/

/-- INTERNAL: the memory of the caller after a `readFromMemory` decides. -/
theorem delivers_of_call {s s' : Clients β} {buffer : Region 64 Byte}
    {addressBuffer : Region 2 Byte} {memoryAddress : BitVec 16} {data memory : ℕ → Byte}
    {length : ℕ}
    (hcall : s.call P (.eeprom (.read buffer addressBuffer memoryAddress data length)) =
      some (.data memory, s')) :
    GivesReceived P s (.eeprom (.read buffer addressBuffer memoryAddress data length)) ↔
      (∀ i < length, memory i = 0#8) ∨
        ¬ u32 (length + 2) > 64 ∧ ReadCompleted P s memoryAddress length ∧
          ∀ i < length, (eepromReceived P s memoryAddress length)[i]? = some (memory i) := by
  constructor
  · rintro ⟨memory', s'', h, hgood⟩
    have hresult := congrArg Prod.fst (Option.some.inj (hcall.symm.trans h))
    obtain rfl : memory = memory' := ClientResult.data.inj hresult
    exact hgood
  · exact fun hgood => ⟨memory, s', hcall, hgood⟩

/-- INTERNAL: the read of a call never receives more than it asks for, and all of it if it
completes. -/
theorem eepromReceived_length (s : Clients β) (memoryAddress : BitVec 16) {length : ℕ}
    (hlen : length ≤ 62) :
    (eepromReceived P s memoryAddress length).length ≤ length + 2 ∧
      (ReadCompleted P s memoryAddress length →
        (eepromReceived P s memoryAddress length).length = length + 2) := by
  have h2 : u32 (length + 2) = length + 2 := u32_add (b := 2) (by omega)
  simp only [eepromReceived, ReadCompleted, eepromTransfers, h2]
  refine ⟨P.received_le _ _ _ _, fun hdone => P.received_full _ _ _ _ ?_⟩
  rw [hdone.2]
  simp

/-- INTERNAL: what a `readFromMemory` of an accepted length leaves in the memory of the caller.
SOURCE: eeprom/EEPROM.cpp:61-93 -/
theorem call_read_eq (s : Clients β) (buffer : Region 64 Byte) (addressBuffer : Region 2 Byte)
    (memoryAddress : BitVec 16) (data : ℕ → Byte) {length : ℕ} (hlen : length ≤ 62) :
    ∃ s', s.call P (.eeprom (.read buffer addressBuffer memoryAddress data length)) =
      some (.data (if CrcMatches length (buffer.put 0 (eepromReceived P s memoryAddress length))
        then copyTo data ((buffer.put 0 (eepromReceived P s memoryAddress length)).slice 0 length)
        else copyTo data (List.replicate length 0#8)), s') := by
  have h2 : u32 (length + 2) = length + 2 := u32_add (b := 2) (by omega)
  have hreceived := (eepromReceived_length P s memoryAddress hlen).1
  simp only [eepromReceived, eepromTransfers, h2] at hreceived ⊢
  have hread := readFromMemory_buffer P.toBus buffer addressBuffer memoryAddress data hlen
    (e := s.eeprom) hreceived rfl
  simp only [Clients.call, hread, Option.map_some]
  split
  · exact ⟨_, rfl⟩
  · exact ⟨_, rfl⟩

/-- INTERNAL: a `readFromMemory` delivers exactly under its condition.
SOURCE: eeprom/EEPROM.cpp:61-93 -/
theorem delivers_read_iff (s : Clients β) (buffer : Region 64 Byte)
    (addressBuffer : Region 2 Byte) (memoryAddress : BitVec 16) (data : ℕ → Byte) (length : ℕ) :
    GivesReceived P s (.eeprom (.read buffer addressBuffer memoryAddress data length)) ↔
      NothingStale P s (.eeprom (.read buffer addressBuffer memoryAddress data length)) := by
  by_cases haccept : u32 (length + 2) > 64
  · have hcall : s.call P (.eeprom (.read buffer addressBuffer memoryAddress data length)) =
        some (.data data, s.afterEeprom
          (s.eeprom.print "Data length exceeds block size.\n")) := by
      simp only [Clients.call, readFromMemory, if_pos haccept, Option.map_some]
    rw [delivers_of_call P hcall]
    simp [NothingStale, haccept]
  · simp only [NothingStale, if_neg haccept]
    by_cases hlen : length ≤ 62
    · obtain ⟨s', hcall⟩ := call_read_eq P s buffer addressBuffer memoryAddress data hlen
      obtain ⟨-, hfull⟩ := eepromReceived_length P s memoryAddress hlen
      rw [delivers_of_call P hcall]
      generalize hstaged : buffer.put 0 (eepromReceived P s memoryAddress length) = staged
      by_cases hmatch : CrcMatches length staged
      · have hcopy : ∀ i < length, copyTo data (staged.slice 0 length) i = staged.cell i := by
          intro i hi
          simp [copyTo, Region.slice, hi]
        have hcells : ReadCompleted P s memoryAddress length → ∀ i < length,
            (eepromReceived P s memoryAddress length)[i]? = some (staged.cell i) := by
          intro hdone i hi
          have hi' : i < (eepromReceived P s memoryAddress length).length := by
            rw [hfull hdone]
            omega
          rw [← hstaged, buffer.put_zero_cell hi', List.getElem?_eq_getElem hi']
        rw [if_pos hmatch]
        simp only [hmatch, not_true_eq_false, false_or, hlen, true_and, haccept, not_false_eq_true]
        constructor
        · rintro (hzero | ⟨hdone, -⟩)
          · exact Or.inr fun i hi => (hcopy i hi).symm.trans (hzero i hi)
          · exact Or.inl hdone
        · rintro (hdone | hzero)
          · exact Or.inr ⟨hdone, fun i hi => by rw [hcopy i hi, hcells hdone i hi]⟩
          · exact Or.inl fun i hi => (hcopy i hi).trans (hzero i hi)
      · have hzero : ∀ i < length, copyTo data (List.replicate length 0#8) i = 0#8 := by
          intro i hi
          simp [copyTo, hi]
        rw [if_neg hmatch]
        simp only [hmatch, not_false_eq_true, true_or, or_true, hlen, and_self, iff_true]
        exact Or.inl hzero
    · constructor
      · rintro ⟨memory, s', h, -⟩
        simp only [Clients.call, Option.map_eq_some_iff] at h
        obtain ⟨r, hr, -⟩ := h
        exact absurd (le_of_readFromMemory P.toBus haccept hr) hlen
      · rintro ⟨h, -⟩
        exact absurd h hlen

/-- INTERNAL: a `get_time` delivers exactly if its seven bytes arrive.
SOURCE: RTC/RTC.cpp:65-91 -/
theorem delivers_time_iff (s : Clients β) (buffer : Region 7 Byte) (out : ClockTime) :
    GivesReceived P s (.rtc (.getTime buffer out)) ↔
      NothingStale P s (.rtc (.getTime buffer out)) := by
  constructor
  · rintro ⟨t, s', -, hseven, -⟩
    exact hseven
  · intro hseven
    have hcells : ∀ i < 7, (buffer.put 0 (rtcReceived P s)).cell i =
        (rtcReceived P s).getD i 0#8 := by
      intro i hi
      have hi' : i < (rtcReceived P s).length := by
        rw [show (rtcReceived P s).length = 7 from hseven]
        exact hi
      rw [buffer.put_zero_cell hi', List.getD_eq_getElem?_getD, List.getElem?_eq_getElem hi',
        Option.getD_some]
    refine ⟨_, _, by rw [Clients.call, getTime_eq]; rfl, hseven, ?_⟩
    have hdecode : decodeTime (buffer.put 0 (rtcReceived P s)).cell =
        decodeTime fun i => (rtcReceived P s).getD i 0#8 := by
      simp only [decodeTime]
      rw [hcells 0 (by omega), hcells 1 (by omega), hcells 2 (by omega), hcells 4 (by omega),
        hcells 5 (by omega), hcells 6 (by omega)]
    exact hdecode

/-! ## Runs -/

/-- CONTRACT: in every run of calls of the two objects over every port, and with every content
of the local buffers, the callers get nothing but received bytes exactly if every call meets
its condition.
SOURCE: eeprom/EEPROM.cpp:61-93, RTC/RTC.cpp:65-91 -/
theorem delivers_iff (s : Clients β) (calls : List ClientCall) :
    (clientMachine P).Along (GivesReceived P) s calls ↔
      (clientMachine P).Along (NothingStale P) s calls := by
  apply (clientMachine P).along_congr
  intro s call
  cases call with
  | eeprom call =>
    cases call with
    | write buffer memoryAddress data length => exact Iff.rfl
    | read buffer addressBuffer memoryAddress data length =>
      exact delivers_read_iff P s buffer addressBuffer memoryAddress data length
  | rtc call =>
    cases call with
    | getTime buffer out => exact delivers_time_iff P s buffer out
    | init => exact Iff.rfl
    | setTime t => exact Iff.rfl
    | setAlarm seconds minutes hours day date => exact Iff.rfl
    | clearAlarm => exact Iff.rfl

theorem dead_full {a b : ℕ} (h : 0 = a + b) : 0 = b := by omega

/-- A port on which every transfer times out. -/
def deadPort : I2cPort Unit where
  transaction _ _ _ s := ((0, []), s)
  received_le _ _ _ _ := Nat.zero_le _
  received_full _ _ _ _ h := dead_full h

/-- Two calls whose transfers all time out, with the block of an earlier read and an earlier
time on the stack: the callers get the data of that block and that time. -/
theorem stale_bytes_delivered :
    (¬ (clientMachine deadPort).Along (GivesReceived deadPort) ⟨0x50#16, 0x6F#16, (), []⟩
        [.eeprom (.read (Region.put ⟨fun _ => 0#8⟩ 0 (storedBlock [0x61#8, 0x62#8]))
          ⟨fun _ => 0#8⟩ 0#16 (fun _ => 0#8) 2)]) ∧
      ¬ (clientMachine deadPort).Along (GivesReceived deadPort) ⟨0x50#16, 0x6F#16, (), []⟩
        [.rtc (.getTime ⟨fun _ => 0x11#8⟩ ⟨0#8, 0#8, 0#8, 0#8, 0#8, 0#8⟩)] := by
  constructor
  · rintro ⟨h, -⟩
    have hsafe := (delivers_read_iff deadPort _ _ _ _ _ _).mp h
    simp only [NothingStale, if_neg (show ¬ u32 ((2 : ℕ) + 2) > 64 by decide)] at hsafe
    obtain ⟨-, hdone | hcrc | hzero⟩ := hsafe
    · exact absurd hdone.1 (by decide)
    · apply hcrc
      rw [show eepromReceived deadPort ⟨0x50#16, 0x6F#16, (), []⟩ 0#16 2 = [] from rfl,
        Region.put_nil]
      exact (crcMatches_put_iff _ rfl).mpr (residue_storedBlock [0x61#8, 0x62#8])
    · exact absurd (hzero 0 (by omega)) (by decide)
  · rintro ⟨h, -⟩
    exact absurd ((delivers_time_iff deadPort _ _ _).mp h)
      (by simp [NothingStale, rtcReceived, deadPort])

end PicoDrone.Analysis
