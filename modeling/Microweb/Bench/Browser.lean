import Microweb.Socket.Frame
import Microweb.Text.Utf8

/-!
What the client of a test sends.
-/

namespace Microweb.Bench

def lineOf (s : String) : String := s ++ "\r\n"

/-- A plain request for a target. -/
def getRequest (target : String) : Bytes :=
  Utf8.encode (lineOf ("GET " ++ target ++ " HTTP/1.1") ++ lineOf "Host: board" ++ lineOf "")

/-- A request that asks for an upgrade. -/
def upgradeRequest (target key : String) : Bytes :=
  Utf8.encode (lineOf ("GET " ++ target ++ " HTTP/1.1") ++ lineOf "Host: board" ++
    lineOf "Upgrade: websocket" ++ lineOf "Connection: Upgrade" ++
    lineOf ("Sec-WebSocket-Key: " ++ key) ++ lineOf "Sec-WebSocket-Version: 13" ++ lineOf "")

end Microweb.Bench
