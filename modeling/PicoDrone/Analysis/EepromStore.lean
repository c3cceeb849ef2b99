import PicoDrone.Analysis.Crc16

/-!
# The EEPROM as a block store

`writeToMemory` stays in its staging buffer exactly with at most 60 bytes of data
(`writeToMemory_in_bounds_iff`), and then transmits the address, the data and the checksum; a
`readFromMemory` delivers the data of the block it finds if the checksum matches, and zeros
if it does not. On the chip, the cells of a block are changed by writes to that block alone.
Every run of the two functions therefore refines a map from blocks to the data of their
latest write (`run_refines`), and a block with two flipped bits or an odd number of them is
never delivered (`corrupted_block_rejected`).
-/

set_option autoImplicit false

namespace PicoDrone.Analysis

open PicoDrone.Library PicoDrone.Model

/-! ## The two functions -/

/-- A block as `writeToMemory` stores it: the data followed by the checksum. -/
def storedBlock (data : List Byte) : List Byte :=
  data ++ [highByte (crc16 data), lowByte (crc16 data)]

@[simp] theorem storedBlock_length (data : List Byte) :
    (storedBlock data).length = data.length + 2 := by
  simp [storedBlock]

@[simp] theorem bytesAt_length (data : ℕ → Byte) (length : ℕ) :
    (bytesAt data length).length = length := by
  simp [bytesAt]

variable {β : Type} (B : I2cBus β)

/-- INTERNAL: with up to 60 bytes, `writeToMemory` stays in its buffer and transmits the
address and the block.
SOURCE: eeprom/EEPROM.cpp:35-58 -/
theorem writeToMemory_eq (buffer : Region 64 Byte) (memoryAddress : BitVec 16)
    (data : ℕ → Byte) {length : ℕ} (hlen : length ≤ 60) (e : Eeprom β) :
    writeToMemory B true buffer memoryAddress data length e =
      some { e with
        bus := B.write (e.deviceAddress.setWidth 8) (highByte memoryAddress ::
          lowByte memoryAddress :: storedBlock (bytesAt data length)) e.bus } := by
  have h2 : u32 (length + 2) = length + 2 := u32_add (b := 2) (by omega)
  have h3 : u32 (length + 3) = length + 3 := u32_add (b := 3) (by omega)
  have h4 : u32 (length + 4) = length + 4 := u32_add (b := 4) (by omega)
  unfold writeToMemory
  rw [h2, h3, h4, if_neg (by omega), if_pos rfl]
  simp only [Option.bind_eq_bind]
  rw [Region.store_of_lt (by omega), Option.bind_some, Region.store_of_lt (by omega),
    Option.bind_some, Region.copyIn_of_le (by simp; omega), Option.bind_some,
    Region.store_of_lt (by omega), Option.bind_some, Region.store_of_lt (by omega),
    Option.bind_some, Region.copyOut_of_le (by omega), Option.bind_some]
  rw [Region.put_put _ (by simp), Region.put_put _ (by simp; omega), Region.put_put _ (by simp),
    Region.put_put _ (by simp), Region.slice_put _ (by simp)]
  simp [storedBlock]

/-- INTERNAL: a `writeToMemory` that stays in its buffer has at most 60 bytes.
SOURCE: eeprom/EEPROM.cpp:41-49 -/
theorem le_of_writeToMemory {buffer : Region 64 Byte} {memoryAddress : BitVec 16}
    {data : ℕ → Byte} {length : ℕ} {e e' : Eeprom β} (haccept : ¬ u32 (length + 2) > 64)
    (h : writeToMemory B true buffer memoryAddress data length e = some e') : length ≤ 60 := by
  unfold writeToMemory at h
  rw [if_neg haccept, if_pos rfl] at h
  simp only [Option.bind_eq_bind, Option.bind_eq_some_iff] at h
  obtain ⟨b0, -, b1, -, b2, hdata, b3, -, b4, -, sent, hsent, -⟩ := h
  -- the `memcpy` bounds the length, so that `length + 4` is computed without wrapping
  have hcopy := Region.le_of_copyIn hdata
  rw [bytesAt_length] at hcopy
  have hwrite := Region.le_of_copyOut hsent
  rw [u32_of_fits (by omega) (by omega)] at hwrite
  omega

/-- CONTRACT: a `size_t` length that the guard accepts keeps every access of `writeToMemory`
inside its staging buffer exactly if it is at most 60. The guard also accepts 61 and 62, and
the two lengths for which `length + 2` wraps.
SOURCE: eeprom/EEPROM.cpp:35-58 -/
theorem writeToMemory_in_bounds_iff (taken : Bool) (buffer : Region 64 Byte)
    (memoryAddress : BitVec 16) (data : ℕ → Byte) (length : ℕ) (e : Eeprom β)
    (haccept : ¬ u32 (length + 2) > 64) :
    (writeToMemory B taken buffer memoryAddress data length e).isSome ↔
      (taken = true → length ≤ 60) := by
  cases taken with
  | false => simp [writeToMemory, if_neg haccept]
  | true =>
    rw [Option.isSome_iff_exists]
    constructor
    · rintro ⟨e', h⟩ -
      exact le_of_writeToMemory B haccept h
    · intro hlen
      exact ⟨_, writeToMemory_eq B buffer memoryAddress data (hlen rfl) e⟩

/-- A bus that records the latest bytes written and delivers zeros. -/
def echoBus : I2cBus (List Byte) := ⟨fun _ sent _ => sent, fun _ n s => (List.replicate n 0#8, s)⟩

/-- A block of 60 bytes is the largest that stays in the staging buffer. -/
theorem writeToMemory_in_bounds_sixty :
    (writeToMemory echoBus true ⟨fun _ => 0#8⟩ 0#16 (fun _ => 0x61#8) 60
      ⟨0x50#16, [], []⟩).isSome :=
  (writeToMemory_in_bounds_iff echoBus true ⟨fun _ => 0#8⟩ 0#16 (fun _ => 0x61#8) 60
    ⟨0x50#16, [], []⟩ (by decide)).mpr fun _ => le_rfl

/-- The firmware's own writes of 62 bytes pass the guard and leave the staging buffer.
SOURCE: main.cpp:68-83 -/
theorem eeprom_task_out_of_bounds :
    ¬ ∀ length : ℕ, length < 2 ^ 32 → ¬ u32 (length + 2) > 64 →
      (writeToMemory echoBus true ⟨fun _ => 0#8⟩ 0#16 (fun _ => 0x61#8) length
        ⟨0x50#16, [], []⟩).isSome := by
  intro h
  obtain ⟨e', he'⟩ := Option.isSome_iff_exists.mp (h 62 (by decide) (by decide))
  have hle := le_of_writeToMemory echoBus (by decide) he'
  omega

/-- The checksum in a staging buffer is the one of its data.
SOURCE: eeprom/EEPROM.cpp:78-81 -/
def CrcMatches (length : ℕ) (buffer : Region 64 Byte) : Prop :=
  join (buffer.cell length) (buffer.cell (length + 1)) = crc16 (buffer.slice 0 length)

instance (length : ℕ) (buffer : Region 64 Byte) : Decidable (CrcMatches length buffer) :=
  inferInstanceAs (Decidable (_ = _))

/-- INTERNAL: with up to 62 bytes, `readFromMemory` stays in its buffers, and what it delivers
depends on the staging buffer after the transfers alone.
SOURCE: eeprom/EEPROM.cpp:61-93 -/
theorem readFromMemory_buffer (buffer : Region 64 Byte) (addressBuffer : Region 2 Byte)
    (memoryAddress : BitVec 16) (data : ℕ → Byte) {length : ℕ} (hlen : length ≤ 62)
    {e : Eeprom β} {received : List Byte} {bus : β} (hreceived : received.length ≤ length + 2)
    (hread : B.read (e.deviceAddress.setWidth 8) (length + 2)
      (B.write (e.deviceAddress.setWidth 8) [highByte memoryAddress, lowByte memoryAddress]
        e.bus) = (received, bus)) :
    readFromMemory B true buffer addressBuffer memoryAddress data length e =
      some (if CrcMatches length (buffer.put 0 received) then
        (Eeprom.print { e with bus := bus } "Read data from EEPROM.\n",
          copyTo data ((buffer.put 0 received).slice 0 length))
      else (Eeprom.print { e with bus := bus } "CRC mismatch! Data is corrupted.\n",
        copyTo data (List.replicate length 0#8))) := by
  have h1 : u32 (length + 1) = length + 1 := u32_add (b := 1) (by omega)
  have h2 : u32 (length + 2) = length + 2 := u32_add (b := 2) (by omega)
  unfold readFromMemory
  rw [h1, h2, if_neg (by omega), if_pos rfl]
  simp only [Option.bind_eq_bind]
  rw [Region.store_of_lt (by omega), Option.bind_some, Region.store_of_lt (by omega),
    Option.bind_some, Region.copyOut_of_le (by omega), Option.bind_some,
    Region.put_put _ (by simp), Region.slice_put _ (by simp)]
  simp only [List.singleton_append, hread]
  rw [Region.copyIn_of_le (by omega), Option.bind_some, Region.load_of_lt (by omega),
    Option.bind_some, Region.load_of_lt (by omega), Option.bind_some,
    Region.copyOut_of_le (by omega), Option.bind_some]
  by_cases hmatch : CrcMatches length (buffer.put 0 received)
  · rw [if_pos hmatch]
    exact if_neg (not_not.mpr hmatch)
  · rw [if_neg hmatch]
    exact if_pos hmatch

theorem slice_put_block (buffer : Region 64 Byte) {length : ℕ} {block : List Byte}
    (hblock : block.length = length + 2) :
    (buffer.put 0 block).slice 0 length = block.take length := by
  have h : (buffer.put 0 block).slice 0 (length + 2) = block := buffer.slice_put hblock.symm
  rw [Region.slice_add] at h
  conv_rhs => rw [← h, List.take_left' (by simp)]

/-- INTERNAL: the checksum of a whole block. -/
theorem crcMatches_put_iff (buffer : Region 64 Byte) {length : ℕ} {block : List Byte}
    (hblock : block.length = length + 2) :
    CrcMatches length (buffer.put 0 block) ↔ residue length block = 0#16 := by
  have hcell : ∀ i < length + 2, (buffer.put 0 block).cell i = block.getD i 0#8 := by
    intro i hi
    rw [buffer.put_zero_cell (show i < block.length by omega), List.getD_eq_getElem?_getD,
      List.getElem?_eq_getElem (by omega), Option.getD_some]
  rw [CrcMatches, residue, BitVec.xor_eq_zero_iff, hcell _ (by omega), hcell _ (by omega),
    slice_put_block buffer hblock]

/-- INTERNAL: once the whole block has been received, the data are delivered if its residue
is zero.
SOURCE: eeprom/EEPROM.cpp:61-93 -/
theorem readFromMemory_eq (buffer : Region 64 Byte) (addressBuffer : Region 2 Byte)
    (memoryAddress : BitVec 16) (data : ℕ → Byte) {length : ℕ} (hlen : length ≤ 62)
    {e : Eeprom β} {block : List Byte} {bus : β} (hblock : block.length = length + 2)
    (hread : B.read (e.deviceAddress.setWidth 8) (length + 2)
      (B.write (e.deviceAddress.setWidth 8) [highByte memoryAddress, lowByte memoryAddress]
        e.bus) = (block, bus)) :
    readFromMemory B true buffer addressBuffer memoryAddress data length e =
      some (if residue length block = 0#16 then
        (Eeprom.print { e with bus := bus } "Read data from EEPROM.\n",
          copyTo data (block.take length))
      else (Eeprom.print { e with bus := bus } "CRC mismatch! Data is corrupted.\n",
        copyTo data (List.replicate length 0#8))) := by
  have hslice := slice_put_block buffer hblock
  have hres := crcMatches_put_iff buffer hblock
  rw [readFromMemory_buffer B buffer addressBuffer memoryAddress data hlen hblock.le hread, hslice]
  simp only [hres]

/-- INTERNAL: a `readFromMemory` that stays in its buffers has at most 62 bytes.
SOURCE: eeprom/EEPROM.cpp:62-81 -/
theorem le_of_readFromMemory {buffer : Region 64 Byte} {addressBuffer : Region 2 Byte}
    {memoryAddress : BitVec 16} {data : ℕ → Byte} {length : ℕ} {e : Eeprom β}
    {r : Eeprom β × (ℕ → Byte)} (haccept : ¬ u32 (length + 2) > 64)
    (h : readFromMemory B true buffer addressBuffer memoryAddress data length e = some r) :
    length ≤ 62 := by
  unfold readFromMemory at h
  rw [if_neg haccept, if_pos rfl] at h
  simp only [Option.bind_eq_bind, Option.bind_eq_some_iff] at h
  obtain ⟨b0, -, b1, -, sent, -, b2, -, high, hload, -⟩ := h
  -- the lengths for which the guard wraps index far outside of the buffer
  have hlt := Region.lt_of_load hload
  rw [u32_of_fits (by omega) (by omega)] at haccept
  omega

/-! ## The chip -/

/-- INTERNAL: the two address bytes give the address back. -/
theorem address_bytes (x : BitVec 16) :
    (highByte x).toNat * 256 + (lowByte x).toNat = x.toNat := by
  have hx := x.isLt
  have hhigh : (highByte x).toNat = x.toNat / 256 % 256 := by
    simp [highByte, Nat.shiftRight_eq_div_pow, Nat.and_two_pow_sub_one_eq_mod _ 8]
  have hlow : (lowByte x).toNat = x.toNat % 256 := by
    simp [lowByte, Nat.and_two_pow_sub_one_eq_mod _ 8]
  omega

/-- INTERNAL: the two bytes of a checksum give it back. -/
theorem join_bytes (x : BitVec 16) : join (highByte x) (lowByte x) = x := by
  apply BitVec.eq_of_getLsbD_eq
  intro i hi
  simp only [join, highByte, lowByte, BitVec.getLsbD_or, BitVec.getLsbD_shiftLeft,
    BitVec.getLsbD_setWidth, BitVec.getLsbD_and, BitVec.getLsbD_ushiftRight]
  have hmask : ∀ j < 16, (0xFF#16).getLsbD j = decide (j < 8) := by decide
  by_cases h8 : i < 8
  · simp [h8, hi, hmask i hi]
  · rw [hmask (i - 8) (by omega), show 8 + (i - 8) = i by omega]
    simp [h8, hi, show i - 8 < 16 by omega, show i - 8 < 8 by omega]

/-- The chip holds a block of bytes from an address on. -/
structure Chip.Holds (c : Chip) (addr : ℕ) (block : List Byte) : Prop where
  fits : block.length ≤ eepromSize
  cells : ∀ i < block.length, c.mem.cell ((addr + i) % eepromSize) = block.getD i 0#8

theorem write_address (c : Chip) (x : BitVec 16) :
    c.write [highByte x, lowByte x] = { c with counter := x.toNat % eepromSize } := by
  simp only [Chip.write, List.foldl_nil, address_bytes]

/-- INTERNAL: a sequential read delivers the block the chip holds. -/
theorem read_holds {c : Chip} {addr : ℕ} {block : List Byte} (h : Chip.Holds c addr block) :
    ∃ c', Chip.read { c with counter := addr % eepromSize } block.length = (block, c') ∧
      c'.mem = c.mem := by
  refine ⟨_, Prod.ext ?_ rfl, rfl⟩
  apply List.ext_getElem
  · simp [Chip.read]
  · intro i _ hi
    have := h.cells i hi
    simp only [Chip.read, List.getElem_map, List.getElem_range, Nat.mod_add_mod, this]
    rw [List.getD_eq_getElem?_getD, List.getElem?_eq_getElem hi, Option.getD_some]

/-- INTERNAL: bytes written inside a page land in successive cells. -/
theorem foldl_putByte {xs : List Byte} {c : Chip} {base off : ℕ} (hbase : base % blockSize = 0)
    (hc : c.counter = base + off) (hoff : off + xs.length ≤ blockSize) :
    (xs.foldl Chip.putByte c).mem = c.mem.put c.counter xs := by
  induction xs generalizing c off with
  | nil => simp
  | cons b xs ih =>
    rw [List.length_cons] at hoff
    rw [List.foldl_cons]
    cases xs with
    | nil => rfl
    | cons b' xs =>
      -- there is room for another byte, so the counter does not roll over
      rw [List.length_cons] at hoff
      have hnext : (c.putByte b).counter = base + (off + 1) := by
        simp only [Chip.putByte, hc, blockSize] at hbase hoff ⊢
        omega
      rw [ih hnext (by rw [List.length_cons]; omega), hnext, hc, Chip.putByte, hc,
        Region.put_put _ (by simp; omega)]
      rfl

/-- INTERNAL: a transfer that fits in its page changes the cells of that page alone. -/
theorem write_block {x : BitVec 16} {xs : List Byte} (halign : x.toNat % blockSize = 0)
    (hlt : x.toNat < eepromSize) (hlen : xs.length ≤ blockSize) (c : Chip) :
    (c.write (highByte x :: lowByte x :: xs)).mem = c.mem.put x.toNat xs := by
  simp only [Chip.write, address_bytes, Nat.mod_eq_of_lt hlt]
  have hoff : 0 + xs.length ≤ blockSize := by simpa using hlen
  exact foldl_putByte halign (Nat.add_zero _).symm hoff

theorem block_cell {b i : ℕ} (halign : b % blockSize = 0) (hlt : b < eepromSize)
    (hi : i < blockSize) : (b + i) % eepromSize = b + i := by
  simp only [blockSize, eepromSize] at *
  omega

/-- INTERNAL: after a write the chip holds the written block. -/
theorem holds_put_self {c c' : Chip} {b : ℕ} {block : List Byte}
    (hmem : c'.mem = c.mem.put b block) (halign : b % blockSize = 0) (hlt : b < eepromSize)
    (hlen : block.length ≤ blockSize) : Chip.Holds c' b block := by
  refine ⟨hlen.trans (by decide), fun i hi => ?_⟩
  rw [block_cell halign hlt (by omega), hmem, Region.put_cell _ _ hi,
    List.getD_eq_getElem?_getD, List.getElem?_eq_getElem hi, Option.getD_some]

/-- INTERNAL: a write leaves every other block as it is. -/
theorem holds_put_other {c c' : Chip} {a b : ℕ} {block xs : List Byte}
    (hmem : c'.mem = c.mem.put a xs) (ha : a % blockSize = 0) (hb : b % blockSize = 0)
    (hlt : b < eepromSize) (hxs : xs.length ≤ blockSize) (hlen : block.length ≤ blockSize)
    (hne : a ≠ b) (h : Chip.Holds c b block) : Chip.Holds c' b block := by
  refine ⟨h.fits, fun i hi => ?_⟩
  have hcell := h.cells i hi
  rw [block_cell hb hlt (by omega)] at hcell ⊢
  rw [hmem, Region.put_cell_of_outside _ _, hcell]
  simp only [blockSize] at *
  omega

/-- INTERNAL: whatever the chip holds can be read as a block. -/
theorem exists_holds (c : Chip) (b : ℕ) {len : ℕ} (hlen : len ≤ eepromSize) :
    ∃ block, block.length = len ∧ Chip.Holds c b block := by
  refine ⟨(List.range len).map fun i => c.mem.cell ((b + i) % eepromSize), by simp,
    by simpa using hlen, fun i hi => ?_⟩
  rw [List.length_map, List.length_range] at hi
  simp [hi]

/-! ## Corrupted blocks -/

/-- INTERNAL: the checksum of a block as it was stored matches. -/
theorem residue_storedBlock (data : List Byte) :
    residue data.length (storedBlock data) = 0#16 := by
  have htake : (storedBlock data).take data.length = data := List.take_left' rfl
  have hhigh : (storedBlock data).getD data.length 0#8 = highByte (crc16 data) := by
    simp [storedBlock]
  have hlow : (storedBlock data).getD (data.length + 1) 0#8 = lowByte (crc16 data) := by
    simp [storedBlock]
  rw [residue, htake, hhigh, hlow, join_bytes, BitVec.xor_self]

/-- INTERNAL: what a read of a block on the chip does.
SOURCE: eeprom/EEPROM.cpp:61-93 -/
theorem readFromMemory_holds (buffer : Region 64 Byte) (addressBuffer : Region 2 Byte)
    (memoryAddress : BitVec 16) (out : ℕ → Byte) {length : ℕ} (hlen : length ≤ 62)
    {e : Eeprom Chip} {block : List Byte} (hblock : block.length = length + 2)
    (h : Chip.Holds e.bus memoryAddress.toNat block) :
    ∃ c, c.mem = e.bus.mem ∧
      readFromMemory Chip.bus true buffer addressBuffer memoryAddress out length e =
        some (if residue length block = 0#16 then
          (Eeprom.print { e with bus := c } "Read data from EEPROM.\n",
            copyTo out (block.take length))
        else (Eeprom.print { e with bus := c } "CRC mismatch! Data is corrupted.\n",
          copyTo out (List.replicate length 0#8))) := by
  obtain ⟨c, hread, hmem⟩ := read_holds h
  refine ⟨c, hmem, readFromMemory_eq Chip.bus buffer addressBuffer memoryAddress out hlen
    hblock ?_⟩
  change Chip.read (e.bus.write [highByte memoryAddress, lowByte memoryAddress]) (length + 2) = _
  rw [write_address, ← hblock, hread]

/-- CONTRACT: a block as stored for some data, of any length the guard of `readFromMemory`
accepts, with two of its bits or an odd number of them flipped on the chip: the two
checksums differ, and the caller gets zeros.
SOURCE: eeprom/EEPROM.cpp:19-93 -/
theorem corrupted_block_rejected (e : Eeprom Chip) (buffer : Region 64 Byte)
    (addressBuffer : Region 2 Byte) (memoryAddress : BitVec 16) (out : ℕ → Byte)
    (data : List Byte) (ps : List ℕ) (haccept : ¬ u32 (data.length + 2) > 64)
    (hnodup : ps.Nodup) (hps : ∀ p ∈ ps, p < 8 * (data.length + 2))
    (hcount : ps.length = 2 ∨ ps.length % 2 = 1)
    (hholds : Chip.Holds e.bus memoryAddress.toNat (flipBits ps (storedBlock data))) :
    residue data.length (flipBits ps (storedBlock data)) ≠ 0#16 ∧
      ∃ e', readFromMemory Chip.bus true buffer addressBuffer memoryAddress out data.length e =
          some (e', copyTo out (List.replicate data.length 0#8)) ∧
        e'.printed = e.printed ++ ["CRC mismatch! Data is corrupted.\n"] := by
  have hlen : data.length ≤ 62 := by
    -- a block on the chip is too short for the addition to wrap
    have hfits := hholds.fits
    rw [flipBits_length, storedBlock_length] at hfits
    simp only [eepromSize] at hfits
    rw [u32_of_fits (by omega) (by omega)] at haccept
    omega
  have hblock : (flipBits ps (storedBlock data)).length = data.length + 2 := by simp
  have hbad := residue_flipBits hlen (storedBlock_length data) (residue_storedBlock data)
    hnodup hps hcount
  obtain ⟨c, -, hread⟩ := readFromMemory_holds buffer addressBuffer memoryAddress out hlen
    hblock hholds
  rw [if_neg hbad] at hread
  exact ⟨hbad, _, hread, rfl⟩

/-- A chip that holds a block of two bytes with a bit of its data and a bit of its checksum
flipped. -/
def flippedChip : Chip :=
  ⟨Region.put ⟨fun _ => 0#8⟩ 64 (flipBits [3, 17] (storedBlock [0x41#8, 0x42#8])), 0⟩

/-- The read of that block delivers two zeros. -/
theorem corrupted_block_rejected_pair :
    Chip.Holds flippedChip 64 (flipBits [3, 17] (storedBlock [0x41#8, 0x42#8])) ∧
      ∃ e', readFromMemory Chip.bus true ⟨fun _ => 0#8⟩ ⟨fun _ => 0#8⟩ 64#16 (fun _ => 0xFF#8) 2
          ⟨0x50#16, flippedChip, []⟩ =
          some (e', copyTo (fun _ => 0xFF#8) [0#8, 0#8]) ∧
        e'.printed = ["CRC mismatch! Data is corrupted.\n"] := by
  have hholds : Chip.Holds flippedChip 64 (flipBits [3, 17] (storedBlock [0x41#8, 0x42#8])) :=
    holds_put_self (c := ⟨⟨fun _ => 0#8⟩, 0⟩) rfl (by decide) (by decide) (by decide)
  exact ⟨hholds, (corrupted_block_rejected ⟨0x50#16, flippedChip, []⟩ ⟨fun _ => 0#8⟩
    ⟨fun _ => 0#8⟩ 64#16 (fun _ => 0xFF#8) [0x41#8, 0x42#8] [3, 17] (by decide) (by decide)
    (by decide) (by decide) hholds).2⟩

/-! ## Runs -/

abbrev BlockStore := BitVec 16 → Option (List Byte)

def BlockStore.call (store : BlockStore) : StoreCall → BlockStore
  | .write _ memoryAddress data length =>
    Function.update store memoryAddress (some (bytesAt data length))
  | .read .. => store

/-- The data of the latest write to each block in a list of calls. -/
def latest (calls : List StoreCall) : BlockStore :=
  calls.foldl BlockStore.call fun _ => none

/-- The address of a block and a length that fits in it, with the checksum and the two bytes
of address in the staging buffer. -/
def InBlock (memoryAddress : BitVec 16) (length : ℕ) : Prop :=
  memoryAddress.toNat % blockSize = 0 ∧ memoryAddress.toNat < eepromSize ∧ length ≤ 60

def CallInBlock : StoreCall → Prop
  | .write _ memoryAddress _ length => InBlock memoryAddress length
  | .read _ _ memoryAddress _ length => InBlock memoryAddress length

/-- The chip holds the block of every write of the store. -/
def StoreRefines (store : BlockStore) (e : Eeprom Chip) : Prop :=
  ∀ b data, store b = some data →
    InBlock b data.length ∧ Chip.Holds e.bus b.toNat (storedBlock data)

/-- INTERNAL: a write and a read of a block store stay in their buffers, and the chip goes on
holding the latest writes. -/
theorem step_refines (store : BlockStore) (e : Eeprom Chip) (call : StoreCall)
    (h : StoreRefines store e) (hcall : CallInBlock call) :
    ∃ e', (storeMachine Chip.bus).step e call = some e' ∧ StoreRefines (store.call call) e' := by
  cases call with
  | write buffer memoryAddress data length =>
    obtain ⟨halign, hlt, hlen⟩ := hcall
    refine ⟨_, writeToMemory_eq Chip.bus buffer memoryAddress data hlen e, ?_⟩
    have hblock : (storedBlock (bytesAt data length)).length ≤ blockSize := by
      rw [storedBlock_length, bytesAt_length]
      simp only [blockSize]
      omega
    have hmem := write_block halign hlt hblock e.bus
    intro b written hb
    by_cases hsame : b = memoryAddress
    · subst hsame
      rw [BlockStore.call, Function.update_self, Option.some_inj] at hb
      subst hb
      exact ⟨⟨halign, hlt, by rwa [bytesAt_length]⟩, holds_put_self hmem halign hlt hblock⟩
    · rw [BlockStore.call, Function.update_of_ne hsame] at hb
      obtain ⟨hin, hholds⟩ := h b written hb
      refine ⟨hin, holds_put_other hmem halign hin.1 hin.2.1 hblock ?_ ?_ hholds⟩
      · rw [storedBlock_length]
        have := hin.2.2
        simp only [blockSize]
        omega
      · exact fun heq => hsame (BitVec.eq_of_toNat_eq heq.symm)
  | read buffer addressBuffer memoryAddress data length =>
    obtain ⟨-, -, hlen⟩ := hcall
    obtain ⟨block, hblock, hholds⟩ := exists_holds e.bus memoryAddress.toNat
      (show length + 2 ≤ eepromSize by simp only [eepromSize]; omega)
    obtain ⟨c, hmem, hread⟩ := readFromMemory_holds buffer addressBuffer memoryAddress data
      (by omega) hblock hholds
    have hkeep : ∀ e' : Eeprom Chip, e'.bus.mem = e.bus.mem → StoreRefines store e' := by
      intro e' he' b written hb
      obtain ⟨hin, hholds⟩ := h b written hb
      exact ⟨hin, hholds.fits, fun i hi => by rw [he']; exact hholds.cells i hi⟩
    refine ⟨_, congrArg (Option.map Prod.fst) hread, hkeep _ ?_⟩
    split
    · exact hmem
    · exact hmem

/-- CONTRACT: after any sequence of calls at aligned blocks with lengths up to 60, a read of
a block with the length of its latest write delivers the data of that write.
SOURCE: eeprom/EEPROM.cpp:35-93 -/
theorem latest_write_read (e : Eeprom Chip) (calls : List StoreCall)
    (hcalls : ∀ call ∈ calls, CallInBlock call) :
    ∃ e', (storeMachine Chip.bus).run e calls = some e' ∧
      ∀ b written, latest calls b = some written →
        ∀ (buffer : Region 64 Byte) (addressBuffer : Region 2 Byte) (out : ℕ → Byte),
          ∃ e'', readFromMemory Chip.bus true buffer addressBuffer b out written.length e' =
              some (e'', copyTo out written) ∧
            e''.printed = e'.printed ++ ["Read data from EEPROM.\n"] := by
  obtain ⟨e', hrun, href⟩ := (storeMachine Chip.bus).run_refines BlockStore.call StoreRefines
    CallInBlock step_refines (a := fun _ => none) (s := e) (fun _ _ h => by cases h) hcalls
  refine ⟨e', hrun, fun b written hb buffer addressBuffer out => ?_⟩
  obtain ⟨⟨-, -, hlen⟩, hholds⟩ := href b written hb
  obtain ⟨c, -, hread⟩ := readFromMemory_holds buffer addressBuffer b out (by omega)
    (storedBlock_length written) hholds
  rw [if_pos (residue_storedBlock written),
    show (storedBlock written).take written.length = written from List.take_left' rfl] at hread
  exact ⟨_, hread, rfl⟩

/-- Two blocks written, the first one of them twice; the second write is the one that
counts. -/
theorem latest_write_read_twice :
    ∃ e', (storeMachine Chip.bus).run ⟨0x50#16, ⟨⟨fun _ => 0xFF#8⟩, 0⟩, []⟩
        [.write ⟨fun _ => 0#8⟩ 0#16 (fun _ => 0x61#8) 3,
          .write ⟨fun _ => 0#8⟩ 64#16 (fun _ => 0x62#8) 60,
          .write ⟨fun _ => 0#8⟩ 0#16 (fun _ => 0x63#8) 1] = some e' ∧
      ∃ e'', readFromMemory Chip.bus true ⟨fun _ => 0#8⟩ ⟨fun _ => 0#8⟩ 0#16 (fun _ => 0#8) 1 e' =
        some (e'', copyTo (fun _ => 0#8) [0x63#8]) := by
  obtain ⟨e', hrun, hread⟩ := latest_write_read ⟨0x50#16, ⟨⟨fun _ => 0xFF#8⟩, 0⟩, []⟩
    [.write ⟨fun _ => 0#8⟩ 0#16 (fun _ => 0x61#8) 3,
      .write ⟨fun _ => 0#8⟩ 64#16 (fun _ => 0x62#8) 60,
      .write ⟨fun _ => 0#8⟩ 0#16 (fun _ => 0x63#8) 1]
    (by simp [CallInBlock, InBlock, blockSize, eepromSize])
  obtain ⟨e'', h, -⟩ := hread 0#16 [0x63#8] rfl ⟨fun _ => 0#8⟩ ⟨fun _ => 0#8⟩ (fun _ => 0#8)
  exact ⟨e', hrun, e'', h⟩

end PicoDrone.Analysis
