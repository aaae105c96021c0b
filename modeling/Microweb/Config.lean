import Microweb.Address.Reader
import Microweb.Network
import Microweb.Text.Utf8
import Microweb.Toml.Document

/-!
The configuration of a server. Each setting has a default, so that an empty file gives a working
server; settings with other names are passed over.
-/

namespace Microweb

structure Config where
  listen : SocketAddress
  /-- The directory of the volume that all content lies under. -/
  contentRoot : String
  /-- The number of connections served at a time. -/
  maxConnections : Nat
  /-- The number of upgraded peers at a time. -/
  maxPeers : Nat
  /-- How long a connection may take to receive, in milliseconds. -/
  receiveTimeout : UInt64
  /-- How long a connection may take to write, in milliseconds. -/
  sendTimeout : UInt64
  /-- The longest path of a request, in bytes. -/
  maxUriLength : Nat
  /-- The size of the output buffer; bounds pieces of files, script output and frames. -/
  outputSize : Nat
  /-- The polls without traffic after which a peer is dropped. -/
  peerIdleLimit : UInt32
  /-- The receives without a request after which a connection is dropped. -/
  requestIdleLimit : UInt32
  /-- The calls after which a script is stopped. -/
  scriptStepLimit : UInt32
  /-- The files tried in turn for a directory. -/
  indexFiles : List String
deriving DecidableEq

/-- Why there is no configuration. -/
inductive ConfigError where
  /-- The file is missing or is no text. -/
  | unreadable
  /-- The text is no document, or a setting has a value of the wrong kind. -/
  | malformed
  /-- A setting has a value that no server can work with. -/
  | invalid (reason : String)
deriving DecidableEq, Repr

def ConfigError.message : ConfigError → String
  | .unreadable => "cannot read config"
  | .malformed => "cannot parse config"
  | .invalid reason => "invalid config: " ++ reason

namespace Config

/-- The settings of a small board. -/
def default : Config where
  listen := .ofV4 0 0 0 0 80
  contentRoot := "/html"
  maxConnections := 1
  maxPeers := 4
  receiveTimeout := 100
  sendTimeout := 1000
  maxUriLength := 64
  outputSize := 1024
  peerIdleLimit := 600
  requestIdleLimit := 50
  scriptStepLimit := 4096
  indexFiles := ["index.htm", "index.html", "index.lua", "index.cgi", "index.ssi"]

/-- What a server cannot work with, the first of it. -/
def fault? (c : Config) : Option ConfigError :=
  if c.maxConnections = 0 then some (.invalid "max_connections must be at least 1")
  else if c.maxPeers = 0 then some (.invalid "max_peers must be at least 1")
  else if c.outputSize < 4 then some (.invalid "out_buf must hold at least one flash word")
  else if c.maxUriLength = 0 then some (.invalid "max_uri_len must be at least 1")
  else none

/-- A server can work with the settings. -/
def Valid (c : Config) : Prop := c.fault? = none

instance (c : Config) : Decidable c.Valid := inferInstanceAs (Decidable (_ = _))

theorem valid_iff (c : Config) : c.Valid ↔
    0 < c.maxConnections ∧ 0 < c.maxPeers ∧ 4 ≤ c.outputSize ∧ 0 < c.maxUriLength := by
  unfold Valid fault?
  split
  · simp; omega
  · split
    · simp; omega
    · split
      · simp; omega
      · split
        · simp; omega
        · simp; omega

def timeouts (c : Config) : Timeouts := ⟨c.receiveTimeout, c.sendTimeout⟩

/-- How much of a file is read at a time: whole words of four bytes. -/
def chunkSize (c : Config) : Nat := c.outputSize / 4 * 4

/-- The room for the first receive of a connection. -/
def requestRoom (c : Config) : Nat := max c.outputSize (c.maxUriLength + 16)

/-! ### Settings -/

/-- An integer from zero up to a bound. -/
def natural? (bound : Nat) : Toml.Node → Option Nat
  | .integer n => if 0 ≤ n ∧ n ≤ bound then some n.toNat else none
  | _ => none

def text? : Toml.Node → Option String
  | .text s => some s
  | _ => none

def address? (n : Toml.Node) : Option SocketAddress := do
  (SocketAddress.read (← text? n)).toOption

def texts? : Toml.Node → Option (List String)
  | .array items => items.mapM text?
  | _ => none

/-- The greatest value of settings that are counts of 32 bits. -/
def countBound : Nat := UInt32.size - 1

/-- The greatest value of other numbers. -/
def sizeBound : Nat := UInt64.size - 1

/-- Changes one setting. -/
def set? (c : Config) (name : String) (v : Toml.Node) : Option Config :=
  match name with
  | "listen" => do return { c with listen := ← address? v }
  | "content_root" => do return { c with contentRoot := ← text? v }
  | "max_connections" => do return { c with maxConnections := ← natural? sizeBound v }
  | "max_peers" => do return { c with maxPeers := ← natural? sizeBound v }
  | "recv_timeout_ms" => do
    return { c with receiveTimeout := UInt64.ofNat (← natural? sizeBound v) }
  | "send_timeout_ms" => do
    return { c with sendTimeout := UInt64.ofNat (← natural? sizeBound v) }
  | "max_uri_len" => do return { c with maxUriLength := ← natural? sizeBound v }
  | "out_buf" => do return { c with outputSize := ← natural? sizeBound v }
  | "ws_idle_limit" => do
    return { c with peerIdleLimit := UInt32.ofNat (← natural? countBound v) }
  | "request_idle_limit" => do
    return { c with requestIdleLimit := UInt32.ofNat (← natural? countBound v) }
  | "script_step_limit" => do
    return { c with scriptStepLimit := UInt32.ofNat (← natural? countBound v) }
  | "index_files" => do return { c with indexFiles := ← texts? v }
  | _ => some c

/-- The configuration with the settings of a table. -/
def ofEntries? (es : Toml.Entries) : Option Config :=
  es.foldlM (fun c e => c.set? e.1 e.2) default

/-- The configuration with the settings of a document. -/
def ofText (s : String) : Except ConfigError Config :=
  match (Toml.read? s).bind ofEntries? with
  | none => .error .malformed
  | some c =>
    match c.fault? with
    | some e => .error e
    | none => .ok c

/-- The configuration in the bytes of a file, which may be missing. -/
def ofFile (content : Option Bytes) : Except ConfigError Config :=
  match content with
  | none => .error .unreadable
  | some bs =>
    match Utf8.decode bs with
    | .error _ => .error .unreadable
    | .ok s => ofText s

end Config

end Microweb
