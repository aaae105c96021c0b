import Microweb.Digest.Base64
import Microweb.Digest.Sha1
import Microweb.Network
import Microweb.Text.Utf8

/-!
The keys of the opening handshake: the client's is the Base64 text of 16 bytes, the server answers
with the digest of it and a fixed suffix.
-/

namespace Microweb.Socket

def acceptSuffix : String := "258EAFA5-E914-47DA-95CA-C5AB0DC85B11"

/-- The answer to a client's key. -/
def acceptKey (key : Bytes) : String :=
  Base64.text (Sha1.digest (key ++ Utf8.encode acceptSuffix))

/-- The key is the canonical text of 16 bytes. -/
def isClientKey (key : Bytes) : Bool := (Base64.decode? key).any fun nonce => nonce.length == 16

end Microweb.Socket

namespace Microweb

/-- Why a handshake was not completed. -/
inductive HandshakeError where
  | missingKey
  | invalidKey
  | network (e : NetError)
deriving DecidableEq, Repr

def HandshakeError.message : HandshakeError → String
  | .missingKey => "no Sec-WebSocket-Key header"
  | .invalidKey => "Sec-WebSocket-Key is not a base64 encoded 16 byte nonce"
  | .network e => e.message

end Microweb
