import Microweb.Board.Device
import Microweb.Number.Binary32.Reader
import Microweb.Number.Binary32.Shortest
import Microweb.Text.Blank
import Microweb.Text.Quoted
import Microweb.Text.Utf8

/-!
Commands to the board: `name[index]=value` writes a channel and shows its new value, `name[index]`
shows it alone.
-/

namespace Microweb

/-- The names that commands give to devices. -/
inductive DeviceName where
  | pwm
  | gio
  | adc
  | dac
deriving DecidableEq, Repr

namespace DeviceName

def text : DeviceName → String
  | pwm => "pwm"
  | gio => "gio"
  | adc => "adc"
  | dac => "dac"

def device : DeviceName → Device
  | pwm => .pwm
  | gio => .gpio
  | adc => .adc
  | dac => .dac

/-- All names. -/
def all : List DeviceName := [pwm, gio, adc, dac]

def ofText? (s : String) : Option DeviceName := all.find? fun n => n.text == s

theorem ofText?_text (n : DeviceName) : ofText? n.text = some n := by
  cases n <;> decide

end DeviceName

/-- Why a command was not carried out. -/
inductive CommandError where
  | malformed
  | unknownDevice (name : String)
  | device (e : DeviceError)
deriving DecidableEq, Repr

def CommandError.message : CommandError → String
  | .malformed => "malformed device command"
  | .unknownDevice name => "unknown device " ++ Text.quoted name
  | .device e => e.message

/-- A command: a channel of a device, and the value to write to it, if any. -/
structure Command where
  name : DeviceName
  index : UInt32
  value : Option Binary32
deriving DecidableEq, Repr

namespace Command

def device (c : Command) : Device := c.name.device

/-! ### Reading -/

/-- The characters that make up the first `n` bytes of a text, and the rest; none if the text is
shorter or a character crosses that point. -/
def splitAtByte? : Nat → List Char → Option (List Char × List Char)
  | 0, cs => some ([], cs)
  | _ + 1, [] => none
  | n + 1, c :: cs =>
    if c.utf8Size ≤ n + 1 then
      (splitAtByte? (n + 1 - c.utf8Size) cs).map fun (front, rest) => (c :: front, rest)
    else none

/-- What follows the index: nothing, or an equals sign and a number, which may have white space
around it. -/
def readValue? : List Char → Option (Option Binary32)
  | [] => some none
  | '=' :: r => (Binary32.read? (Text.trim r)).map some
  | _ => none

/-- What follows the name: an index in brackets, which may have white space around it, and a
value. -/
def readChannel? : List Char → Option (UInt32 × Option Binary32)
  | '[' :: r =>
    match r.dropWhile (· != ']') with
    | _ :: rest => do
      let index ← Decimal.readUpTo? (UInt32.size - 1) (Text.trim (r.takeWhile (· != ']')))
      let value ← readValue? rest
      return (UInt32.ofNat index, value)
    | [] => none
  | _ => none

/-- Reads a command from the whole of a text, white space at its ends aside. The name is the first
three bytes. -/
def parse (text : String) : Except CommandError Command :=
  match splitAtByte? 3 (Text.trim text.toList) with
  | none => .error .malformed
  | some (front, rest) =>
  match DeviceName.ofText? (String.ofList front) with
  | none => .error (.unknownDevice (String.ofList front))
  | some name =>
  match readChannel? rest with
  | none => .error .malformed
  | some (index, value) => .ok ⟨name, index, value⟩

/-! ### Carrying out -/

/-- The text of a channel and its value, which is itself a command. -/
def reply (c : Command) (value : Binary32) : String :=
  c.name.text ++ "[" ++ Decimal.text c.index.toNat ++ "]=" ++ value.text

/-- Writes the value, if there is one, and reads the channel. -/
def execute {B : Peripherals} (c : Command) (s : B.State) :
    Except CommandError String × B.State :=
  let (written, s) := match c.value with
    | some v => B.write c.device c.index v s
    | none => (.ok (), s)
  match written with
  | .error e => (.error (.device e), s)
  | .ok () =>
    match B.read c.device c.index s with
    | (.ok v, s) => (.ok (c.reply v), s)
    | (.error e, s) => (.error (.device e), s)

/-- Reads and carries out the command in a payload. -/
def handle {B : Peripherals} (payload : Bytes) (s : B.State) :
    Except CommandError String × B.State :=
  match Utf8.decode payload with
  | .error _ => (.error .malformed, s)
  | .ok text =>
    match parse text with
    | .error e => (.error e, s)
    | .ok c => c.execute s

end Command

end Microweb
