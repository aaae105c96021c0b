import Microweb.Board.Device

/-!
A board whose channels are registers. What an analogue input reads is set from outside.
-/

namespace Microweb.Bench

structure Registers where
  /-- The channels that each device has. -/
  channels : UInt32
  value : Device → UInt32 → Binary32
  freeHeap : Nat

namespace Registers

/-- A board with all registers at zero. -/
def fresh (channels : UInt32) : Registers := ⟨channels, fun _ _ => .zero, 32768⟩

/-- Sets a register, whether there is such a channel or not. -/
def set (device : Device) (index : UInt32) (v : Binary32) (r : Registers) : Registers :=
  { r with value := fun d i => if d = device ∧ i = index then v else r.value d i }

def read (device : Device) (index : UInt32) (r : Registers) :
    Except DeviceError Binary32 × Registers :=
  if index < r.channels then (.ok (r.value device index), r)
  else (.error (.noChannel device index), r)

/-- Writes a channel. Analogue inputs are for reading alone. -/
def write (device : Device) (index : UInt32) (v : Binary32) (r : Registers) :
    Except DeviceError Unit × Registers :=
  if r.channels ≤ index then (.error (.noChannel device index), r)
  else if device = .adc then (.error (.readOnly device), r)
  else (.ok (), r.set device index v)

abbrev peripherals : Peripherals where
  State := Registers
  read := read
  write := write
  freeHeap := freeHeap

end Registers

end Microweb.Bench
