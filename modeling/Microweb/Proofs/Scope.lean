import Mathlib.Logic.Relation
import Microweb.Reply.NotFound
import Microweb.Server.ScriptJob

/-!
What is asked of a platform. A *scope* names the connections that may be heard, what may be written
to which, those that may be closed, the paths that may be asked for, those that scripts may be run
from, and whether responses may be gone on with. A host *reaches* another within a scope if only
operations of that scope lie between the two; the lemmas here say so of each operation of a host.
-/

namespace Microweb

open Relation (ReflTransGen)

variable {P : Platform}

/-! ### Moves of the parts of a platform -/

/-- One operation on a connection, of which some may be heard, some may be written to and some may
be closed. -/
inductive Network.Moves (N : Network) (hears : N.Conn → Prop) (writes : N.Conn → Bytes → Prop)
    (closes : N.Conn → Prop) (s : N.State) : N.State → Prop
  | setTimeouts {c : N.Conn} (t : Timeouts) (hc : hears c) :
    Moves N hears writes closes s (N.setTimeouts c t s)
  | receive {c : N.Conn} (room : Nat) (hc : hears c) :
    Moves N hears writes closes s (N.receive c room s).2
  | write {c : N.Conn} {bs : Bytes} (hc : writes c bs) :
    Moves N hears writes closes s (N.write c bs s).2
  | close {c : N.Conn} (hc : closes c) : Moves N hears writes closes s (N.close c s)

/-- One operation on a volume, asking for some paths only, and reading only if that may be. -/
inductive Volume.Moves (V : Volume) (paths : String → Prop) (streams : Prop) (s : V.State) :
    V.State → Prop
  | openFile {path : String} (hp : paths path) : Moves V paths streams s (V.openFile path s).2
  | read (f : V.File) (room : Nat) (hs : streams) : Moves V paths streams s (V.read f room s).2
  | size (f : V.File) : Moves V paths streams s (V.size f s).2
  | close (f : V.File) : Moves V paths streams s (V.close f s)
  | isDirectory {path : String} (hp : paths path) :
    Moves V paths streams s (V.isDirectory path s).2

namespace Interpreter

/-- What is asked of an interpreter before the script of a path is run for a frame. -/
def prepare (I : Interpreter) (payload : String) (s : I.State) : I.State :=
  I.setGlobal frameGlobal payload (I.setQuery [] s)

/-- All that is asked of an interpreter for a script that was loaded for a frame. -/
def runOnce (I : Interpreter) (x : I.Script) (s : I.State) : I.State :=
  I.collect (I.release (I.call x s).1.2 (I.call x s).2)

/-- All that is asked of an interpreter for a frame. -/
def serveFrame (I : Interpreter) (path payload : String) (s : I.State) : I.State :=
  match I.load path (I.prepare payload s) with
  | (.error _, s) => s
  | (.ok x, s) => I.runOnce x s

/-- What is asked of an interpreter at a time: to load a script for a request, from some paths only;
to call one, if that may be; to run one for a frame, from some paths only. -/
inductive Moves (I : Interpreter) (scripts frames : String → Prop) (streams : Prop) (s : I.State) :
    I.State → Prop
  | load (q : Query) {path : String} (hp : scripts path) :
    Moves I scripts frames streams s (I.load path (I.setQuery q s)).2
  | call (x : I.Script) (hs : streams) : Moves I scripts frames streams s (I.call x s).2
  | release (x : I.Script) : Moves I scripts frames streams s (I.release x s)
  | collect : Moves I scripts frames streams s (I.collect s)
  | serveFrame (payload : String) {path : String} (hp : frames path) :
    Moves I scripts frames streams s (I.serveFrame path payload s)

end Interpreter

/-! ### Scopes -/

/-- What may be asked of a platform. -/
structure Scope (P : Platform) where
  /-- The connections that may be received from and have their timeouts set. -/
  hears : P.Conn → Prop
  /-- What may be written to a connection. -/
  writes : P.Conn → Bytes → Prop
  /-- The connections that may be closed. -/
  closes : P.Conn → Prop
  /-- The paths that may be opened and be asked about. -/
  paths : String → Prop
  /-- The paths that scripts may be loaded from for requests. -/
  scripts : String → Prop
  /-- The paths that scripts may be run from for frames. -/
  frames : String → Prop
  /-- Files that are open may be read, and scripts that were loaded for requests be called. -/
  streams : Prop

/-- What a response may start with: the head for content, the page for what is not there, or the
answer to a handshake. -/
inductive Opening : Bytes → Prop
  | content (type : String) (size : Option Nat) : Opening (Reply.contentHead type size)
  | notFound (url : String) (uptime freeHeap : Nat) : Opening (Reply.notFound url uptime freeHeap)
  | switching (key : String) : Opening (Reply.switchingProtocols key)

/-- What a load leaves of the host besides the interpreter. -/
theorem Host.load_frame (h : Host P) (path : String) :
    (h.load path).1 = (P.interpreter.load path h.interpreter).1 ∧
      (h.load path).2.network = h.network ∧ (h.load path).2.volume = h.volume ∧
      (h.load path).2.interpreter = (P.interpreter.load path h.interpreter).2 ∧
      (h.load path).2.control = h.control ∧ h.log <:+ (h.load path).2.log := by
  unfold load
  split
  · exact ⟨rfl, rfl, rfl, rfl, rfl, List.suffix_cons _ _⟩
  · exact ⟨rfl, rfl, rfl, rfl, rfl, List.suffix_refl _⟩

/-- A load, as the interpreter sees it. -/
theorem Host.load_interpreter {h h' : Host P} {path : String} {r : Except ScriptError P.Script}
    (hload : h.load path = (r, h')) :
    P.interpreter.load path h.interpreter = (r, h'.interpreter) := by
  obtain ⟨hresult, -, -, hinterpreter, -⟩ := h.load_frame path
  rw [hload] at hresult hinterpreter
  exact Prod.ext hresult.symm hinterpreter.symm

/-- What is left of a piece of output, and of the host that may note that it was cut. -/
theorem ScriptJob.cut_frame (bs : Bytes) (limit : Nat) (h : Host P) :
    (cut bs limit h).1 = bs.take limit ∧ (cut bs limit h).2.network = h.network ∧
      (cut bs limit h).2.volume = h.volume ∧ (cut bs limit h).2.interpreter = h.interpreter := by
  unfold cut
  split
  · exact ⟨rfl, rfl, rfl, rfl⟩
  · next hle => exact ⟨(List.take_of_length_le (Nat.le_of_not_lt hle)).symm, rfl, rfl, rfl⟩

/-- **A script run for a frame**, as the interpreter and the rest of the host see it. -/
theorem Host.runForFrame_frame (h : Host P) (path payload : String) :
    (h.runForFrame path payload).2.network = h.network ∧
      (h.runForFrame path payload).2.volume = h.volume ∧
      (h.runForFrame path payload).2.interpreter =
        P.interpreter.serveFrame path payload h.interpreter ∧
      (h.runForFrame path payload).2.control = h.control ∧
      h.log <:+ (h.runForFrame path payload).2.log := by
  obtain ⟨-, hnetwork, hvolume, -, hcontrol, hlog⟩ :=
    ((h.setQuery []).setGlobal frameGlobal payload).load_frame path
  unfold runForFrame Interpreter.serveFrame
  generalize hload : ((h.setQuery []).setGlobal frameGlobal payload).load path = loaded at *
  obtain ⟨r, h₁⟩ := loaded
  have heq : P.interpreter.load path (P.interpreter.prepare payload h.interpreter) =
      (r, h₁.interpreter) := Host.load_interpreter hload
  rw [heq]
  cases r with
  | error e => exact ⟨hnetwork, hvolume, rfl, hcontrol, hlog.trans (List.suffix_cons _ _)⟩
  | ok x =>
    simp only
    split
    · exact ⟨hnetwork, hvolume, rfl, hcontrol, hlog⟩
    · exact ⟨hnetwork, hvolume, rfl, hcontrol, hlog.trans (List.suffix_cons _ _)⟩

namespace Scope

variable {a : Scope P} {g h h' : Host P}

/-- A connection that may be heard and be answered, and be sent a response if any may be gone on
with, as is the case while the server runs. -/
structure Uses (a : Scope P) (running : Bool) (c : P.Conn) : Prop where
  hears : a.hears c
  opens : ∀ bs, Opening bs → a.writes c bs
  streams : running = true → a.streams ∧ ∀ bs, a.writes c bs

/-- Where anything may be written to a connection, it may be sent a response. -/
theorem Uses.of_writes {running : Bool} {c : P.Conn} (hears : a.hears c) (streams : a.streams)
    (writes : ∀ bs, a.writes c bs) : a.Uses running c :=
  ⟨hears, fun bs _ => writes bs, fun _ => ⟨streams, writes⟩⟩

/-- **Reaching a host within a scope**: each part of the platform moves within the scope, the
control stays, and what was noted stays in the log. -/
structure Reaches (a : Scope P) (g h : Host P) : Prop where
  network : ReflTransGen (P.network.Moves a.hears a.writes a.closes) g.network h.network
  volume : ReflTransGen (P.volume.Moves a.paths a.streams) g.volume h.volume
  interpreter : ReflTransGen (P.interpreter.Moves a.scripts a.frames a.streams) g.interpreter
    h.interpreter
  control : h.control = g.control
  log : g.log <:+ h.log

/-- What is true of a network, and stays true in each move, is true of the network reached. -/
theorem Reaches.network_induction {I : P.network.State → Prop} (hr : a.Reaches g h)
    (move : ∀ s s', P.network.Moves a.hears a.writes a.closes s s' → I s → I s')
    (hg : I g.network) : I h.network := by
  have hn := hr.network
  generalize h.network = s at hn ⊢
  induction hn with
  | refl => exact hg
  | tail _ hmove ih => exact move _ _ hmove ih

/-- What is true of a volume, and stays true in each move, is true of the volume reached. -/
theorem Reaches.volume_induction {I : P.volume.State → Prop} (hr : a.Reaches g h)
    (move : ∀ s s', P.volume.Moves a.paths a.streams s s' → I s → I s') (hg : I g.volume) :
    I h.volume := by
  have hv := hr.volume
  generalize h.volume = s at hv ⊢
  induction hv with
  | refl => exact hg
  | tail _ hmove ih => exact move _ _ hmove ih

/-- What is true of an interpreter, and stays true in each move, is true of the one reached. -/
theorem Reaches.interpreter_induction {I : P.interpreter.State → Prop} (hr : a.Reaches g h)
    (move : ∀ s s', P.interpreter.Moves a.scripts a.frames a.streams s s' → I s → I s')
    (hg : I g.interpreter) : I h.interpreter := by
  have hi := hr.interpreter
  generalize h.interpreter = s at hi ⊢
  induction hi with
  | refl => exact hg
  | tail _ hmove ih => exact move _ _ hmove ih

/-- Some of the connections, and all that may be asked of the volume and the interpreter. -/
def online (hears : P.Conn → Prop) (writes : P.Conn → Bytes → Prop) (closes : P.Conn → Prop) :
    Scope P :=
  ⟨hears, writes, closes, fun _ => True, fun _ => True, fun _ => True, True⟩

/-- All that may be asked of anyone. -/
def all (P : Platform) : Scope P := online (fun _ => True) (fun _ _ => True) fun _ => True

/-- Any connection may be closed, and nothing else is asked of one or by a path. -/
def closing (P : Platform) : Scope P := ⟨fun _ => False, fun _ _ => False, fun _ => True,
  fun _ => False, fun _ => False, fun _ => False, False⟩

/-- All that may be asked of the volume and the interpreter, and nothing of the network. -/
def offline (P : Platform) : Scope P := online (fun _ => False) (fun _ _ => False) fun _ => False

theorem Reaches.network_eq (hr : (offline P).Reaches g h) : h.network = g.network := by
  refine hr.network_induction (I := fun s => s = g.network) (fun s s' hmove _ => ?_) rfl
  cases hmove with
  | setTimeouts t hc => exact hc.elim
  | receive room hc => exact hc.elim
  | write hc => exact hc.elim
  | close hc => exact hc.elim

namespace Reaches

theorem refl (a : Scope P) (h : Host P) : a.Reaches h h :=
  ⟨.refl, .refl, .refl, rfl, List.suffix_refl _⟩

theorem note (hr : a.Reaches g h) (n : Notice) : a.Reaches g (h.note n) :=
  ⟨hr.network, hr.volume, hr.interpreter, hr.control, hr.log.trans (List.suffix_cons n h.log)⟩

/-! ### The network -/

theorem setTimeouts (hr : a.Reaches g h) {c : P.Conn} (hc : a.hears c) (t : Timeouts) :
    a.Reaches g (h.setTimeouts c t) :=
  ⟨hr.network.tail (.setTimeouts t hc), hr.volume, hr.interpreter, hr.control, hr.log⟩

theorem receive (hr : a.Reaches g h) {c : P.Conn} (hc : a.hears c) {room : Nat}
    {r : Except NetError Bytes} (heq : h.receive c room = (r, h')) : a.Reaches g h' := by
  obtain ⟨-, rfl⟩ := Prod.ext_iff.mp heq
  exact ⟨hr.network.tail (.receive room hc), hr.volume, hr.interpreter, hr.control, hr.log⟩

theorem write (hr : a.Reaches g h) {c : P.Conn} {bs : Bytes} (hc : a.writes c bs)
    {r : Except NetError Unit} (heq : h.write c bs = (r, h')) : a.Reaches g h' := by
  obtain ⟨-, rfl⟩ := Prod.ext_iff.mp heq
  exact ⟨hr.network.tail (.write hc), hr.volume, hr.interpreter, hr.control, hr.log⟩

theorem close (hr : a.Reaches g h) {c : P.Conn} (hc : a.closes c) : a.Reaches g (h.close c) :=
  ⟨hr.network.tail (.close hc), hr.volume, hr.interpreter, hr.control, hr.log⟩

/-! ### The volume -/

theorem openFile (hr : a.Reaches g h) {path : String} (hp : a.paths path)
    {r : Except VolumeError P.File} (heq : h.openFile path = (r, h')) : a.Reaches g h' := by
  obtain ⟨-, rfl⟩ := Prod.ext_iff.mp heq
  exact ⟨hr.network, hr.volume.tail (.openFile hp), hr.interpreter, hr.control, hr.log⟩

theorem readFile (hr : a.Reaches g h) (hs : a.streams) {f f' : P.File} {room : Nat}
    {r : Except VolumeError Bytes} (heq : h.readFile f room = ((r, f'), h')) :
    a.Reaches g h' := by
  obtain ⟨-, rfl⟩ := Prod.ext_iff.mp heq
  exact ⟨hr.network, hr.volume.tail (.read f room hs), hr.interpreter, hr.control, hr.log⟩

theorem fileSize (hr : a.Reaches g h) {f : P.File} {r : Except VolumeError Nat}
    (heq : h.fileSize f = (r, h')) : a.Reaches g h' := by
  obtain ⟨-, rfl⟩ := Prod.ext_iff.mp heq
  exact ⟨hr.network, hr.volume.tail (.size f), hr.interpreter, hr.control, hr.log⟩

theorem closeFile (hr : a.Reaches g h) (f : P.File) : a.Reaches g (h.closeFile f) :=
  ⟨hr.network, hr.volume.tail (.close f), hr.interpreter, hr.control, hr.log⟩

theorem isDirectory (hr : a.Reaches g h) {path : String} (hp : a.paths path) {r : Bool}
    (heq : h.isDirectory path = (r, h')) : a.Reaches g h' := by
  obtain ⟨-, rfl⟩ := Prod.ext_iff.mp heq
  exact ⟨hr.network, hr.volume.tail (.isDirectory hp), hr.interpreter, hr.control, hr.log⟩

/-! ### The interpreter -/

/-- A script is loaded with the parameters of a request. -/
theorem load (hr : a.Reaches g h) {path : String} (hp : a.scripts path) {q : Query}
    {r : Except ScriptError P.Script} (heq : (h.setQuery q).load path = (r, h')) :
    a.Reaches g h' := by
  obtain ⟨-, rfl⟩ := Prod.ext_iff.mp heq
  obtain ⟨-, hnetwork, hvolume, hinterpreter, hcontrol, hlog⟩ := (h.setQuery q).load_frame path
  refine ⟨hnetwork ▸ hr.network, hvolume ▸ hr.volume, ?_, hcontrol.trans hr.control,
    hr.log.trans hlog⟩
  rw [hinterpreter]
  exact hr.interpreter.tail (.load q hp)

theorem call (hr : a.Reaches g h) (hs : a.streams) {x x' : P.Script}
    {r : Except ScriptError (Option String)} (heq : h.call x = ((r, x'), h')) :
    a.Reaches g h' := by
  obtain ⟨-, rfl⟩ := Prod.ext_iff.mp heq
  exact ⟨hr.network, hr.volume, hr.interpreter.tail (.call x hs), hr.control, hr.log⟩

theorem release (hr : a.Reaches g h) (x : P.Script) : a.Reaches g (h.release x) :=
  ⟨hr.network, hr.volume, hr.interpreter.tail (.release x), hr.control, hr.log⟩

theorem collect (hr : a.Reaches g h) : a.Reaches g h.collect :=
  ⟨hr.network, hr.volume, hr.interpreter.tail .collect, hr.control, hr.log⟩

/-- A script is run for a frame. -/
theorem runForFrame (hr : a.Reaches g h) {path : String} (hp : a.frames path) (payload : String) :
    a.Reaches g (h.runForFrame path payload).2 := by
  obtain ⟨hnetwork, hvolume, hinterpreter, hcontrol, hlog⟩ := h.runForFrame_frame path payload
  refine ⟨hnetwork ▸ hr.network, hvolume ▸ hr.volume, ?_, hcontrol.trans hr.control,
    hr.log.trans hlog⟩
  rw [hinterpreter]
  exact hr.interpreter.tail (.serveFrame payload hp)

/-! ### The board -/

theorem command (hr : a.Reaches g h) {payload : Bytes} {r : Except CommandError String}
    (heq : h.command payload = (r, h')) : a.Reaches g h' := by
  obtain ⟨-, rfl⟩ := Prod.ext_iff.mp heq
  exact ⟨hr.network, hr.volume, hr.interpreter, hr.control, hr.log⟩

end Reaches

end Scope

end Microweb
