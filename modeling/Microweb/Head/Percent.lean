import Microweb.Text.Utf8

/-!
Percent-encoded text: a percent sign and two hexadecimal digits stand for a byte.
-/

namespace Microweb.Percent

/-- Why an encoded text cannot be read. -/
inductive Error where
  /-- A percent sign without two hexadecimal digits after it. -/
  | malformed
  /-- The bytes are no text. -/
  | invalidUtf8 (fault : Utf8.Fault)
deriving DecidableEq, Repr

def Error.message : Error → String
  | .malformed => "malformed encoding"
  | .invalidUtf8 fault => fault.message

/-- The bytes that are encoded, read after those in `done`, which are in reverse. -/
def bytesAfter? (done : Bytes) : Bytes → Option Bytes
  | [] => some done.reverse
  | b :: rest =>
    if b = Byte.percent then
      match rest with
      | high :: low :: rest =>
        match Byte.hexDigit? high, Byte.hexDigit? low with
        | some h, some l => bytesAfter? ((h * 16 + l) :: done) rest
        | _, _ => none
      | _ => none
    else bytesAfter? (b :: done) rest

/-- The bytes that are encoded; none if an escape is malformed. -/
def bytes? (bs : Bytes) : Option Bytes := bytesAfter? [] bs

/-- The text that is encoded. -/
def decode (bs : Bytes) : Except Error String :=
  match bytes? bs with
  | none => .error .malformed
  | some raw => (Utf8.decode raw).mapError .invalidUtf8

/-- The text that is encoded, or that of the encoding itself if it cannot be read. -/
def decodeOrRaw (bs : Bytes) : String :=
  match decode bs with
  | .ok s => s
  | .error _ => Utf8.decodeLossy bs

end Microweb.Percent
