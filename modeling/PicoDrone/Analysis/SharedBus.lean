import PicoDrone.Model.I2cTasks

/-!
# Tasks on a shared bus

The methods of the two clients are calls that hold a lock: an `EEPROM` object touches the
device at its address, an `RTC` object only devices at other addresses. The steps of a
method, one after the other, are the method (`body_run`). So in every interleaving the
results are those of the calls in the order of their returns (`clients_linearizable`).
-/

set_option autoImplicit false

namespace PicoDrone.Analysis

open PicoDrone.Library PicoDrone.Model

variable {δ : Type} (D : Devices δ) (W : Wiring)

/-! ## What belongs to an object -/

/-- The states of the devices agree at the address of the `EEPROM` object, or at all others. -/
def BusAgree (a : Byte) : Client → (Byte → δ) → (Byte → δ) → Prop
  | .eeprom, s, t => s a = t a
  | .rtc, s, t => ∀ b, b ≠ a → s b = t b

/-- The object that a transfer belongs to. -/
def transferOwner (a : Byte) (i : Transfer) : Client := if i.addr = a then .eeprom else .rtc

theorem busAgree_equiv (a : Byte) (o : Client) : Equivalence (BusAgree a o : (Byte → δ) → _) := by
  cases o with
  | eeprom => exact ⟨fun _ => rfl, Eq.symm, Eq.trans⟩
  | rtc => exact ⟨fun _ _ _ => rfl, fun h b hb => (h b hb).symm,
      fun h h' b hb => (h b hb).trans (h' b hb)⟩

/-- INTERNAL: a transfer sees and changes the device it addresses. -/
theorem exec_busAgree (a : Byte) (i : Transfer) (s t : Byte → δ)
    (h : BusAgree a (transferOwner a i) s t) :
    (D.exec i s).1 = (D.exec i t).1 ∧
      BusAgree a (transferOwner a i) (D.exec i s).2 (D.exec i t).2 := by
  by_cases haddr : i.addr = a
  · subst haddr
    simp only [transferOwner, if_true, BusAgree, Devices.exec] at h ⊢
    rw [h, Function.update_self, Function.update_self]
    exact ⟨rfl, rfl⟩
  · simp only [transferOwner, if_neg haddr, BusAgree, Devices.exec] at h ⊢
    rw [h i.addr haddr]
    refine ⟨rfl, fun b hb => ?_⟩
    by_cases heq : b = i.addr
    · rw [heq, Function.update_self, Function.update_self]
    · rw [Function.update_of_ne heq, Function.update_of_ne heq, h b hb]

theorem exec_busAgree_other (a : Byte) (i : Transfer) (o : Client) (s : Byte → δ)
    (hne : transferOwner a i ≠ o) : BusAgree a o (D.exec i s).2 s := by
  unfold transferOwner at hne
  cases o with
  | eeprom =>
    split at hne
    · exact absurd rfl hne
    next haddr => exact Function.update_of_ne (Ne.symm haddr) _ _
  | rtc =>
    split at hne
    next haddr => exact fun b hb => Function.update_of_ne (haddr ▸ hb) _ _
    · exact absurd rfl hne

/-- The bus, guarded by the mutexes of the two objects. -/
def busStore (a : Byte) : GuardedStore Client Transfer (List Byte) (Byte → δ) where
  exec := D.exec
  owner := transferOwner a
  Agree := BusAgree a
  agree_equiv := busAgree_equiv a
  exec_agree := exec_busAgree D a
  exec_other := exec_busAgree_other D a

/-! ## The methods as guarded calls -/

theorem finish_within (a : Byte) (o : Client) (result : Option ClientResult) :
    (finish result).Within (busStore D a) o := by
  cases result <;> trivial

theorem owner_eeprom (sent : List Byte) (length : ℕ) :
    transferOwner (W.eepromAddress.setWidth 8) ⟨W.eepromAddress.setWidth 8, sent, length⟩ =
      .eeprom := if_pos rfl

theorem owner_rtc (sent : List Byte) (length : ℕ) :
    transferOwner (W.eepromAddress.setWidth 8) ⟨W.rtcAddress.setWidth 8, sent, length⟩ = .rtc :=
  if_neg W.apart.symm

theorem owner_fixed (sent : List Byte) (length : ℕ) :
    transferOwner (W.eepromAddress.setWidth 8) ⟨mcp79410Addr, sent, length⟩ = .rtc :=
  if_neg W.apart_fixed.symm

/-- INTERNAL: the transfers of a method belong to the object whose mutex it takes. -/
theorem body_within (c : ClientCall) (o : Client) (hlock : clientLock c = some o) :
    (clientBody W c).Within (busStore D (W.eepromAddress.setWidth 8)) o := by
  cases c with
  | eeprom call =>
    cases call with
    | write buffer memoryAddress data length =>
      by_cases haccept : u32 (length + 2) > 64
      · simp [clientLock, haccept] at hlock
      · simp only [clientLock, if_neg haccept, Option.some_inj] at hlock
        subst hlock
        simp only [clientBody, if_neg haccept]
        cases stagedWrite buffer memoryAddress data length with
        | none => trivial
        | some sent => exact ⟨owner_eeprom W sent 0, fun _ => trivial⟩
    | read buffer addressBuffer memoryAddress data length =>
      by_cases haccept : u32 (length + 2) > 64
      · simp [clientLock, haccept] at hlock
      · simp only [clientLock, if_neg haccept, Option.some_inj] at hlock
        subst hlock
        simp only [clientBody, if_neg haccept]
        exact ⟨owner_eeprom W _ _, fun _ => ⟨owner_eeprom W _ _, fun _ =>
          finish_within D _ _ _⟩⟩
  | rtc call =>
    obtain rfl : Client.rtc = o := Option.some.inj hlock
    cases call with
    | init => exact ⟨owner_rtc W _ _, fun _ => ⟨owner_rtc W _ _, fun _ => trivial⟩⟩
    | setTime t => exact ⟨owner_rtc W _ _, fun _ => trivial⟩
    | getTime buffer out => exact ⟨owner_fixed W _ _, fun _ => finish_within D _ _ _⟩
    | setAlarm seconds minutes hours day date => exact ⟨owner_rtc W _ _, fun _ => trivial⟩
    | clearAlarm => exact ⟨owner_rtc W _ _, fun _ => trivial⟩

theorem body_free (c : ClientCall) (hlock : clientLock c = none) :
    ∃ r, clientBody W c = .done r := by
  cases c with
  | eeprom call =>
    cases call with
    | write buffer memoryAddress data length =>
      by_cases haccept : u32 (length + 2) > 64
      · exact ⟨_, if_pos haccept⟩
      · simp [clientLock, haccept] at hlock
    | read buffer addressBuffer memoryAddress data length =>
      by_cases haccept : u32 (length + 2) > 64
      · exact ⟨_, if_pos haccept⟩
      · simp [clientLock, haccept] at hlock
  | rtc call => cases hlock

def clientCalls : GuardedCalls (busStore D (W.eepromAddress.setWidth 8)) ClientCall ClientResult
    where
  lock := clientLock
  body := clientBody W
  body_within := body_within D W
  body_free := body_free W

/-! ## The steps of a method are the method -/

variable {β : Type} (B : I2cBus β)

/-- INTERNAL: `writeToMemory` sends what it has staged.
SOURCE: eeprom/EEPROM.cpp:35-58 -/
theorem writeToMemory_staged (buffer : Region 64 Byte) (memoryAddress : BitVec 16)
    (data : ℕ → Byte) (length : ℕ) (e : Eeprom β) (haccept : ¬ u32 (length + 2) > 64) :
    writeToMemory B true buffer memoryAddress data length e =
      (stagedWrite buffer memoryAddress data length).map fun sent =>
        { e with bus := B.write (e.deviceAddress.setWidth 8) sent e.bus } := by
  unfold writeToMemory stagedWrite
  rw [if_neg haccept, if_pos rfl]
  simp only [Option.bind_eq_bind, Option.map_eq_bind, Option.bind_assoc, Function.comp_def]

/-- INTERNAL: `readFromMemory` makes of the received bytes what is staged.
SOURCE: eeprom/EEPROM.cpp:61-93 -/
theorem readFromMemory_staged (buffer : Region 64 Byte) (addressBuffer : Region 2 Byte)
    (memoryAddress : BitVec 16) (data : ℕ → Byte) (length : ℕ) (e : Eeprom β)
    (haccept : ¬ u32 (length + 2) > 64) :
    (readFromMemory B true buffer addressBuffer memoryAddress data length e).map
        (fun x => (x.2, x.1.bus)) =
      let r := B.read (e.deviceAddress.setWidth 8) (u32 (length + 2))
        (B.write (e.deviceAddress.setWidth 8) [highByte memoryAddress, lowByte memoryAddress]
          e.bus)
      (stagedRead buffer data length r.1).map fun memory => (memory, r.2) := by
  unfold readFromMemory stagedRead
  rw [if_neg haccept, if_pos rfl]
  simp only [Option.bind_eq_bind]
  rw [Region.store_of_lt (by omega), Option.bind_some, Region.store_of_lt (by omega),
    Option.bind_some, Region.copyOut_of_le (by omega), Option.bind_some,
    Region.put_put _ (by simp), Region.slice_put _ (by simp)]
  simp only [List.singleton_append, Option.map_bind, Function.comp_def]
  congr 1
  funext b
  congr 1
  funext high
  congr 1
  funext low
  congr 1
  funext calculated
  split
  · rfl
  · simp only [Option.map_bind, Function.comp_def]
    rfl

/-- INTERNAL: `get_time` makes of the received bytes what is staged.
SOURCE: RTC/RTC.cpp:65-91 -/
theorem getTime_staged (P : I2cPort β) (buffer : Region 7 Byte) (out : ClockTime) (r : Rtc β) :
    r.getTime P true buffer out =
      (stagedTime buffer (P.transaction mcp79410Addr [rtcSec] 7 r.bus).1.2).map fun t =>
        ({ r with bus := (P.transaction mcp79410Addr [rtcSec] 7 r.bus).2 }, t) := by
  unfold Rtc.getTime stagedTime
  rw [if_pos rfl]
  simp only [Option.bind_eq_bind, Option.map_eq_bind, Option.bind_assoc, Function.comp_def,
    Option.bind_some]

theorem run_finish (G : GuardedStore Client Transfer (List Byte) (Byte → δ))
    (result : Option ClientResult) (s : Byte → δ) :
    (finish result).run G s = result.map fun r => (r, s) := by
  cases result <;> rfl

/-- INTERNAL: the steps of a method, one after the other, are the method.
SOURCE: eeprom/EEPROM.cpp:35-93, RTC/RTC.cpp:14-128 -/
theorem body_run (c : ClientCall) (s : Clients (Byte → δ))
    (heeprom : s.eepromAddress = W.eepromAddress) (hrtc : s.rtcAddress = W.rtcAddress) :
    (clientBody W c).run (busStore D (W.eepromAddress.setWidth 8)) s.bus =
      (s.call D.port c).map fun x => (x.1, x.2.bus) := by
  cases c with
  | eeprom call =>
    cases call with
    | write buffer memoryAddress data length =>
      by_cases haccept : u32 (length + 2) > 64
      · simp [clientBody, Clients.call, writeToMemory, haccept, Prog.run, Clients.afterEeprom,
          Clients.eeprom, Eeprom.print]
      · simp only [clientBody, if_neg haccept, Clients.call, writeToMemory_staged _ _ _ _ _ _
          haccept, Option.map_map]
        cases stagedWrite buffer memoryAddress data length with
        | none => rfl
        | some sent => simp [Prog.run, busStore, Clients.afterEeprom, Clients.eeprom, I2cPort.toBus,
            Devices.port, Wiring.eepromWrite, heeprom]
    | read buffer addressBuffer memoryAddress data length =>
      by_cases haccept : u32 (length + 2) > 64
      · simp [clientBody, Clients.call, readFromMemory, haccept, Prog.run, Clients.afterEeprom,
          Clients.eeprom, Eeprom.print]
      · have hread := readFromMemory_staged D.port.toBus buffer addressBuffer memoryAddress data
          length s.eeprom haccept
        have hcall : (s.call D.port (.eeprom (.read buffer addressBuffer memoryAddress data
            length))).map (fun x => (x.1, x.2.bus)) =
            ((readFromMemory D.port.toBus true buffer addressBuffer memoryAddress data length
              s.eeprom).map fun x => (x.2, x.1.bus)).map fun x => (.data x.1, x.2) := by
          simp only [Clients.call, Option.map_map]
          rfl
        rw [hcall, hread]
        simp only [clientBody, if_neg haccept, Prog.run, run_finish, Option.map_map]
        simp [busStore, Wiring.eepromWrite, I2cPort.toBus, Devices.port, Clients.eeprom, heeprom,
          Function.comp_def]
  | rtc call =>
    cases call with
    | init => simp [clientBody, Clients.call, Prog.run, busStore, Wiring.rtcWrite, Rtc.init,
        Rtc.write, I2cPort.toBus, Devices.port, Clients.rtc, Clients.afterRtc, hrtc]
    | setTime t => simp [clientBody, Clients.call, Prog.run, busStore, Wiring.rtcWrite,
        Rtc.setTime, Rtc.write, I2cPort.toBus, Devices.port, Clients.rtc, Clients.afterRtc, hrtc]
    | getTime buffer out =>
      simp only [clientBody, Clients.call, Prog.run, run_finish, getTime_staged, Option.map_map]
      rfl
    | setAlarm seconds minutes hours day date => simp [clientBody, Clients.call, Prog.run,
        busStore, Wiring.rtcWrite, Rtc.setAlarm, Rtc.write, I2cPort.toBus, Devices.port,
        Clients.rtc, Clients.afterRtc, hrtc]
    | clearAlarm => simp [clientBody, Clients.call, Prog.run, busStore, Wiring.rtcWrite,
        Rtc.clearAlarm, Rtc.write, I2cPort.toBus, Devices.port, Clients.rtc, Clients.afterRtc, hrtc]

/-! ## Linearizability -/

theorem call_addresses (P : I2cPort β) {s : Clients β} {c : ClientCall}
    {x : ClientResult × Clients β} (h : s.call P c = some x) :
    x.2.eepromAddress = s.eepromAddress ∧ x.2.rtcAddress = s.rtcAddress := by
  cases c with
  | eeprom call =>
    cases call with
    | write buffer memoryAddress data length =>
      obtain ⟨e, -, rfl⟩ := Option.map_eq_some_iff.mp h
      exact ⟨rfl, rfl⟩
    | read buffer addressBuffer memoryAddress data length =>
      obtain ⟨r, -, rfl⟩ := Option.map_eq_some_iff.mp h
      exact ⟨rfl, rfl⟩
  | rtc call =>
    cases call with
    | getTime buffer out =>
      obtain ⟨r, -, rfl⟩ := Option.map_eq_some_iff.mp h
      exact ⟨rfl, rfl⟩
    | init => cases h; exact ⟨rfl, rfl⟩
    | setTime t => cases h; exact ⟨rfl, rfl⟩
    | setAlarm seconds minutes hours day date => cases h; exact ⟨rfl, rfl⟩
    | clearAlarm => cases h; exact ⟨rfl, rfl⟩

/-- INTERNAL: calls whose steps, one after the other, give some results give them as calls of the
methods. -/
theorem replays_results {T : Type} {xs : List (T × ClientCall × ClientResult)}
    {s : Clients (Byte → δ)} {seq : Byte → δ} (heeprom : s.eepromAddress = W.eepromAddress)
    (hrtc : s.rtcAddress = W.rtcAddress) (h : (clientCalls D W).Replays s.bus xs seq) :
    s.results D.port (xs.map fun x => x.2.1) = some (xs.map fun x => x.2.2) := by
  induction xs generalizing s with
  | nil => rfl
  | cons x xs ih =>
    obtain ⟨u, hu, hrest⟩ := h
    obtain ⟨y, hcall, hy⟩ := Option.map_eq_some_iff.mp
      ((body_run D W x.2.1 s heeprom hrtc).symm.trans hu)
    have hresult : y.1 = x.2.2 := congrArg Prod.fst hy
    have hbus : y.2.bus = u := congrArg Prod.snd hy
    obtain ⟨h₁, h₂⟩ := call_addresses D.port hcall
    have hrest' := ih (h₁.trans heeprom) (h₂.trans hrtc) (by rw [hbus]; exact hrest)
    simp only [List.map_cons, Clients.results, hcall, Option.bind_eq_bind, Option.bind_some,
      hrest', hresult]

open GuardedCalls in
/-- CONTRACT: in every interleaving of the steps of any number of tasks, the results of the calls
are those of the calls one after the other in the order of their returns, which is each
task's own order; and while a task is in a method of the `EEPROM` object, no step of
another task moves the address pointer or any other state of its chip.
SOURCE: eeprom/EEPROM.cpp:35-93, RTC/RTC.cpp:14-128, i2c/PicoI2C.cpp:134-169 -/
theorem clients_linearizable {T : Type} [DecidableEq T] (devices : Byte → δ)
    (steps : List (T × TaskStep ClientCall))
    (s : Tasks Client T ClientCall Transfer (List Byte) ClientResult (Byte → δ))
    (hrun : (clientCalls D W).machine.run (start devices) steps = some s) :
    Clients.results D.port ⟨W.eepromAddress, W.rtcAddress, devices, []⟩
        (s.history.map fun x => x.2.1) = some (s.history.map fun x => x.2.2) ∧
      (∀ τ, returnsOf τ s.history ++ inProgress (s.thread τ) = callsOf τ steps) ∧
      ∀ τ τ' e t, s.object .eeprom = some τ → τ' ≠ τ →
        (clientCalls D W).step s τ' e = some t →
          t.store (W.eepromAddress.setWidth 8) = s.store (W.eepromAddress.setWidth 8) := by
  obtain ⟨seq, hreplays⟩ := (clientCalls D W).run_replays hrun
  refine ⟨?_, (clientCalls D W).run_calls hrun, ?_⟩
  · exact replays_results D W (s := ⟨W.eepromAddress, W.rtcAddress, devices, []⟩) rfl rfl hreplays
  · intro τ τ' e t hholds hne hstep
    exact (clientCalls D W).run_frame hrun hholds hne hstep

/-- A device on the bus: an EEPROM chip or a clock. -/
inductive BusDevice where
  | eeprom (c : Chip)
  | clock (c : Clock)

/-- The answers of the two chips. -/
def BusDevice.transfer (sent : List Byte) (length : ℕ) : BusDevice → List Byte × BusDevice
  | .eeprom c => let r := (c.write sent).read length; (r.1, .eeprom r.2)
  | .clock c => let r := (c.write sent).read length; (r.1, .clock r.2)

theorem busDevice_length (sent : List Byte) (length : ℕ) (d : BusDevice) :
    (d.transfer sent length).1.length = length := by
  cases d with
  | eeprom c => simp [BusDevice.transfer, Chip.read]
  | clock c => simp [BusDevice.transfer, Clock.read_length]

def busDevices : Devices BusDevice where
  transfer _ sent length d := d.transfer sent length
  transfer_length _ sent length d := busDevice_length sent length d

theorem firmware_apart : (0x50#16).setWidth 8 ≠ (0x6F#16).setWidth 8 := by decide

/-- The addresses of the firmware.
SOURCE: main.cpp:69-103 -/
def firmwareWiring : Wiring := ⟨0x50#16, 0x6F#16, firmware_apart, firmware_apart⟩

/-- The two chips after power-up. -/
def freshDevices (a : Byte) : BusDevice :=
  if a = 0x50#8 then .eeprom ⟨⟨fun _ => 0#8⟩, 0⟩ else .clock ⟨fun _ => 0#8, 0⟩

/-- A `get_time` of task 1 between the two transfers of a `readFromMemory` of task 0. -/
def nestedSteps : List (ℕ × TaskStep ClientCall) :=
  [(0, .call (.eeprom (.read ⟨fun _ => 0#8⟩ ⟨fun _ => 0#8⟩ 64#16 (fun _ => 0xFF#8) 1))),
    (1, .call (.rtc (.getTime ⟨fun _ => 0#8⟩ ⟨0#8, 0#8, 0#8, 0#8, 0#8, 0#8⟩))),
    (0, .take), (0, .takeBus), (0, .program), (0, .transfer), (1, .take), (0, .giveBus),
    (1, .takeBus), (1, .program), (1, .transfer), (1, .giveBus), (0, .takeBus), (0, .program),
    (0, .transfer), (0, .giveBus), (1, .give), (0, .give)]

/-- Both calls return, with the results of one after the other. -/
theorem clients_linearizable_nested :
    ∃ s, (clientCalls busDevices firmwareWiring).machine.run (GuardedCalls.start freshDevices)
        nestedSteps = some s ∧ s.history.length = 2 ∧
      Clients.results busDevices.port ⟨0x50#16, 0x6F#16, freshDevices, []⟩
        (s.history.map fun x => x.2.1) = some (s.history.map fun x => x.2.2) := by
  have hlength : ((clientCalls busDevices firmwareWiring).machine.run
      (GuardedCalls.start freshDevices) nestedSteps).map (fun s => s.history.length) = some 2 := by
    rfl
  obtain ⟨s, hrun, hs⟩ := Option.map_eq_some_iff.mp hlength
  exact ⟨s, hrun, hs,
    (clients_linearizable busDevices firmwareWiring freshDevices nestedSteps s hrun).1⟩

end PicoDrone.Analysis
