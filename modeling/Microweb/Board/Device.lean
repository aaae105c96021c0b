import Microweb.Number.Binary32
import Microweb.Number.Decimal

/-!
The peripherals of a board: devices with numbered channels that hold a number each.
-/

namespace Microweb

inductive Device where
  /-- Pulse-width modulation. -/
  | pwm
  /-- General input and output. -/
  | gpio
  /-- Analogue input. -/
  | adc
  /-- Analogue output. -/
  | dac
deriving DecidableEq, Repr

def Device.text : Device → String
  | .pwm => "pwm"
  | .gpio => "gpio"
  | .adc => "adc"
  | .dac => "dac"

/-- Why a channel cannot be read or written. -/
inductive DeviceError where
  | noChannel (device : Device) (index : UInt32)
  | readOnly (device : Device)
deriving DecidableEq, Repr

def DeviceError.message : DeviceError → String
  | .noChannel d i => d.text ++ " channel " ++ Decimal.text i.toNat ++ " does not exist"
  | .readOnly d => d.text ++ " is read-only"

/-- What the server needs of a board. -/
structure Peripherals where
  State : Type
  read : Device → UInt32 → State → Except DeviceError Binary32 × State
  write : Device → UInt32 → Binary32 → State → Except DeviceError Unit × State
  /-- The bytes of memory that are free. -/
  freeHeap : State → Nat

end Microweb
