import Mathlib.Logic.Function.Iterate
import PicoDrone.Library.Machine
import PicoDrone.Library.Region
import PicoDrone.Model.Word

/-!
# The EEPROM store

`EEPROM::writeToMemory` and `EEPROM::readFromMemory` of `eeprom/EEPROM.cpp`, over an
abstract I2C bus, and the 32 KB chip they talk to. The staging buffers are regions of the
size the source gives them, with any contents at the start, so that both functions return
`none` where the source would leave a buffer.

The chip is not part of the repository: written bytes roll over inside their page of 64
bytes, reads are sequential.
-/

set_option autoImplicit false

namespace PicoDrone.Model

open PicoDrone.Library

/-! ## The checksum -/

/-- The body of the inner loop of `crc16`.
SOURCE: eeprom/EEPROM.cpp:24-28 -/
def crcBit (crc : BitVec 16) : BitVec 16 :=
  if crc &&& 0x0001#16 ≠ 0#16 then (crc >>> 1) ^^^ 0xA001#16 else crc >>> 1

/-- The body of the outer loop of `crc16`.
SOURCE: eeprom/EEPROM.cpp:22-29 -/
def crcByte (crc : BitVec 16) (b : Byte) : BitVec 16 := crcBit^[8] (crc ^^^ b.setWidth 16)

/-- `EEPROM::crc16`.
SOURCE: eeprom/EEPROM.cpp:19-32 -/
def crc16 (data : List Byte) : BitVec 16 := data.foldl crcByte 0xFFFF#16

/-- `(x >> 8) & 0xFF`. -/
def highByte (x : BitVec 16) : Byte := ((x >>> 8) &&& 0xFF#16).setWidth 8

/-- `x & 0xFF`. -/
def lowByte (x : BitVec 16) : Byte := (x &&& 0xFF#16).setWidth 8

/-! ## The driver -/

/-- What the store uses of `PicoI2C`: the bytes a call transmits, and the bytes it stores
in the caller's buffer. -/
structure I2cBus (β : Type) where
  write : Byte → List Byte → β → β
  read : Byte → ℕ → β → List Byte × β

/-- An `EEPROM` object, the bus behind it and what it has printed. -/
structure Eeprom (β : Type) where
  deviceAddress : BitVec 16
  bus : β
  printed : List String

/-- The `length` bytes a pointer points to. -/
def bytesAt (data : ℕ → Byte) (length : ℕ) : List Byte := (List.range length).map data

/-- The memory behind a pointer after a copy to it. -/
def copyTo (data : ℕ → Byte) (xs : List Byte) : ℕ → Byte := fun i => xs.getD i (data i)

section Driver

variable {β : Type} (B : I2cBus β)

/-- `printf` of a text without arguments. -/
def Eeprom.print (e : Eeprom β) (text : String) : Eeprom β :=
  { e with printed := e.printed ++ [text] }

/-- `EEPROM::writeToMemory`. `taken` is the result of `xSemaphoreTake`, `buffer` the
staging buffer as it is on the stack.
SOURCE: eeprom/EEPROM.cpp:35-58 -/
def writeToMemory (taken : Bool) (buffer : Region 64 Byte) (memoryAddress : BitVec 16)
    (data : ℕ → Byte) (length : ℕ) (e : Eeprom β) : Option (Eeprom β) :=
  if u32 (length + 2) > 64 then some (e.print "Data length exceeds block size.\n")
  else
    let crc := crc16 (bytesAt data length)
    if taken then do
      let buffer ← buffer.store 0 (highByte memoryAddress)
      let buffer ← buffer.store 1 (lowByte memoryAddress)
      let buffer ← buffer.copyIn 2 (bytesAt data length)
      let buffer ← buffer.store (u32 (length + 2)) (highByte crc)
      let buffer ← buffer.store (u32 (length + 3)) (lowByte crc)
      let sent ← buffer.copyOut 0 (u32 (length + 4))
      some { e with bus := B.write (e.deviceAddress.setWidth 8) sent e.bus }
    else some (e.print "Failed to take mutex for EEPROM write operation.\n")

/-- `EEPROM::readFromMemory`. The result is the object and the memory behind `data`.
SOURCE: eeprom/EEPROM.cpp:61-93 -/
def readFromMemory (taken : Bool) (buffer : Region 64 Byte) (addressBuffer : Region 2 Byte)
    (memoryAddress : BitVec 16) (data : ℕ → Byte) (length : ℕ) (e : Eeprom β) :
    Option (Eeprom β × (ℕ → Byte)) :=
  if u32 (length + 2) > 64 then some (e.print "Data length exceeds block size.\n", data)
  else if taken then do
    let addressBuffer ← addressBuffer.store 0 (highByte memoryAddress)
    let addressBuffer ← addressBuffer.store 1 (lowByte memoryAddress)
    let sent ← addressBuffer.copyOut 0 2
    let bus := B.write (e.deviceAddress.setWidth 8) sent e.bus
    let r := B.read (e.deviceAddress.setWidth 8) (u32 (length + 2)) bus
    let buffer ← buffer.copyIn 0 r.1
    let e := { e with bus := r.2 }
    let high ← buffer.load length
    let low ← buffer.load (u32 (length + 1))
    let storedCrc := high.setWidth 16 <<< 8 ||| low.setWidth 16
    let calculated ← buffer.copyOut 0 length
    let calculatedCrc := crc16 calculated
    if storedCrc ≠ calculatedCrc then
      some (e.print "CRC mismatch! Data is corrupted.\n",
        copyTo data (List.replicate length 0#8))
    else do
      let valid ← buffer.copyOut 0 length
      some (e.print "Read data from EEPROM.\n", copyTo data valid)
  else some (e.print "Failed to take mutex for EEPROM read operation.\n", data)

end Driver

/-! ## The chip -/

/-- `EEPROM_SIZE`. -/
def eepromSize : ℕ := 32768

/-- The bytes of a page; `BLOCK_SIZE`. -/
def blockSize : ℕ := 64

/-- The cells of the chip and its address counter. -/
structure Chip where
  mem : Region eepromSize Byte
  counter : ℕ

namespace Chip

/-- A written byte; the address counter stays in its page. -/
def putByte (c : Chip) (b : Byte) : Chip :=
  { mem := c.mem.put c.counter [b]
    counter := c.counter / blockSize * blockSize + (c.counter + 1) % blockSize }

/-- A transfer to the chip: two bytes of address, then the bytes to be written. -/
def write (c : Chip) : List Byte → Chip
  | high :: low :: data =>
    data.foldl putByte { c with counter := (high.toNat * 256 + low.toNat) % eepromSize }
  | _ => c

/-- A transfer from the chip, from the address counter on. -/
def read (c : Chip) (length : ℕ) : List Byte × Chip :=
  ((List.range length).map fun i => c.mem.cell ((c.counter + i) % eepromSize),
    { c with counter := (c.counter + length) % eepromSize })

/-- The bus with the chip on it; every transfer succeeds. -/
def bus : I2cBus Chip where
  write _ sent c := c.write sent
  read _ length c := c.read length

end Chip

/-! ## Runs -/

/-- A call of one of the two functions, with the stack buffers it finds. -/
inductive StoreCall where
  | write (buffer : Region 64 Byte) (memoryAddress : BitVec 16) (data : ℕ → Byte) (length : ℕ)
  | read (buffer : Region 64 Byte) (addressBuffer : Region 2 Byte) (memoryAddress : BitVec 16)
    (data : ℕ → Byte) (length : ℕ)

/-- The runs of an `EEPROM` object whose mutex is always obtained, as it is with a timeout of
`portMAX_DELAY`. -/
def storeMachine {β : Type} (B : I2cBus β) : Machine (Eeprom β) StoreCall where
  step e
    | .write buffer memoryAddress data length =>
      writeToMemory B true buffer memoryAddress data length e
    | .read buffer addressBuffer memoryAddress data length =>
      (readFromMemory B true buffer addressBuffer memoryAddress data length e).map Prod.fst

end PicoDrone.Model
