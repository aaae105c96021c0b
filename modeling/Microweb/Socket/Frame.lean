import Microweb.Bytes

/-!
The frames of a message socket. A client's frame is masked and is unmasked in place, in the
buffer it was received in; a server's frame is final and unmasked and has a one-byte length.
-/

namespace Microweb

namespace Opcode

abbrev continuation : UInt8 := 0x0
abbrev text : UInt8 := 0x1
abbrev binary : UInt8 := 0x2
abbrev close : UInt8 := 0x8
abbrev ping : UInt8 := 0x9
abbrev pong : UInt8 := 0xA

end Opcode

/-- A client's frame. -/
inductive Frame where
  | text (payload : Bytes)
  | binary (payload : Bytes)
  | ping (payload : Bytes)
  | close
deriving DecidableEq, Repr

/-- Why the front of a buffer is no frame. -/
inductive FrameError where
  | incomplete
  | fragmented
  | unmasked
  | unsupportedOpcode (opcode : UInt8)
deriving DecidableEq, Repr

def FrameError.message : FrameError → String
  | .incomplete => "incomplete frame"
  | .fragmented => "fragmented frames are not supported"
  | .unmasked => "client frame is not masked"
  | .unsupportedOpcode op =>
    "unsupported opcode 0x" ++ String.ofList (Nat.toDigits 16 op.toNat)

/-- The four bytes that a payload is masked with. -/
structure MaskKey where
  k0 : UInt8
  k1 : UInt8
  k2 : UInt8
  k3 : UInt8
deriving DecidableEq, Repr

namespace MaskKey

def bytes (k : MaskKey) : Bytes := [k.k0, k.k1, k.k2, k.k3]

/-- The byte for an index of the payload. -/
def byteAt (k : MaskKey) (i : Nat) : UInt8 :=
  match i % 4 with
  | 0 => k.k0
  | 1 => k.k1
  | 2 => k.k2
  | _ => k.k3

/-- Combines each byte of a payload with the key. Doing so twice gives the payload back. -/
def apply (k : MaskKey) (payload : Bytes) : Bytes :=
  payload.zipIdx.map fun (b, i) => b ^^^ k.byteAt i

theorem length_apply (k : MaskKey) (payload : Bytes) :
    (k.apply payload).length = payload.length := by
  simp [apply]

theorem apply_apply (k : MaskKey) (payload : Bytes) : k.apply (k.apply payload) = payload := by
  apply List.ext_getElem
  · simp [apply]
  · intro i h₁ h₂
    simp only [apply, List.getElem_map, List.getElem_zipIdx, UInt8.xor_assoc, UInt8.xor_self,
      UInt8.xor_zero]

end MaskKey

namespace Frame

/-- The longest header of a client's frame: two bytes, eight of length and four of key. -/
def maxHeader : Nat := 14

/-- The longest payload that a one-byte length can announce. -/
def maxShortPayload : Nat := 125

/-! ### Reading -/

/-- The number with the given big-endian bytes. -/
def ofBigEndian (bs : Bytes) : Nat := bs.foldl (fun n b => n * 256 + b.toNat) 0

/-- The announced length, and the index of the key after it. -/
def lengthField? (buf : Bytes) (second : UInt8) : Option (Nat × Nat) :=
  let short := second.toNat % 128
  if short = 126 then
    if 4 ≤ buf.length then some (ofBigEndian ((buf.drop 2).take 2), 4) else none
  else if short = 127 then
    if 10 ≤ buf.length then some (ofBigEndian ((buf.drop 2).take 8), 10) else none
  else some (short, 2)

/-- The four bytes of key at an index. -/
def keyAt? (buf : Bytes) (i : Nat) : Option MaskKey :=
  match buf.drop i with
  | k0 :: k1 :: k2 :: k3 :: _ => some ⟨k0, k1, k2, k3⟩
  | _ => none

/-- The key of a frame and the range of its payload, once all of it is in the buffer. -/
def layout? (buf : Bytes) (second : UInt8) : Option (MaskKey × Span) := do
  let (length, keyIndex) ← lengthField? buf second
  let key ← keyAt? buf keyIndex
  let start := keyIndex + 4
  if start + length ≤ buf.length then some (key, ⟨start, start + length⟩) else none

/-- The frame with a code of operation that carries a message. -/
def ofOpcode (op : UInt8) (payload : Bytes) : Frame :=
  if op = Opcode.text then text payload
  else if op = Opcode.binary then binary payload
  else ping payload

/-- Reads the frame at the front of a buffer: what it says and how many bytes it took, and the
buffer with the payload unmasked. Nothing after a closing frame is read, so that it takes all. On
an error the buffer is as it was. -/
def parse (buf : Bytes) : Except FrameError (Frame × Nat) × Bytes :=
  match buf with
  | first :: second :: _ =>
    let op := first &&& 0x0F
    if op = Opcode.close then (.ok (close, buf.length), buf)
    else if first < 0x80 ∨ op = Opcode.continuation then (.error .fragmented, buf)
    else if op ≠ Opcode.text ∧ op ≠ Opcode.binary ∧ op ≠ Opcode.ping then
      (.error (.unsupportedOpcode op), buf)
    else if second < 0x80 then (.error .unmasked, buf)
    else match layout? buf second with
      | none => (.error .incomplete, buf)
      | some (key, span) =>
        let payload := key.apply (span.slice buf)
        (.ok (ofOpcode op payload, span.stop),
          buf.take span.start ++ payload ++ buf.drop span.stop)
  | _ => (.error .incomplete, buf)

/-! ### Writing -/

/-- A server's frame; none if the payload is longer than `limit` or than its length can say. -/
def encode? (op : UInt8) (payload : Bytes) (limit : Nat) : Option Bytes :=
  if min maxShortPayload limit < payload.length then none
  else some ((0x80 ||| op) :: UInt8.ofNat payload.length :: payload)

/-- The big-endian bytes of a number, `n` of them. -/
def toBigEndian : Nat → Nat → Bytes
  | 0, _ => []
  | n + 1, v => toBigEndian n (v / 256) ++ [UInt8.ofNat v]

/-- The length of a payload with the mask bit, in the shortest of its three forms. -/
def maskedLength (n : Nat) : Bytes :=
  if n ≤ 125 then [UInt8.ofNat (0x80 + n)]
  else if n < UInt16.size then (0xFE : UInt8) :: toBigEndian 2 n
  else (0xFF : UInt8) :: toBigEndian 8 n

/-- A client's frame: final, and masked with a key. -/
def encodeMasked (op : UInt8) (payload : Bytes) (key : MaskKey) : Bytes :=
  (0x80 ||| op) :: maskedLength payload.length ++ key.bytes ++ key.apply payload

end Frame

end Microweb
