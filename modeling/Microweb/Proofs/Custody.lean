import Mathlib.Algebra.Group.Prod
import Mathlib.Algebra.Order.Group.Multiset
import Microweb.Server.Host

/-!
Custody of handles: what is said of a platform while certain connections, files and scripts are
out, in a form that each operation of the platform keeps as it hands one out or takes one back. A
host *covers* holdings if its platform says so of them; the lemmas here say what each operation of
a host leaves covered.
-/

namespace Microweb

variable {P : Platform}

/-! ### Holdings -/

/-- Handles of all three kinds, each as often as it is held. -/
abbrev Holdings (P : Platform) := Multiset P.Conn × Multiset P.File × Multiset P.Script

namespace Holdings

def conn (c : P.Conn) : Holdings P := ({c}, 0, 0)

def file (f : P.File) : Holdings P := (0, {f}, 0)

def script (s : P.Script) : Holdings P := (0, 0, {s})

end Holdings

/-! ### Custody -/

/-- What is said of the states of a network while certain connections are out. -/
structure Network.Custody (N : Network) where
  holds : Multiset N.Conn → N.State → Prop
  setTimeouts : ∀ {cs c t s}, holds cs s → holds cs (N.setTimeouts c t s)
  receive : ∀ {cs c room s}, holds cs s → holds cs (N.receive c room s).2
  write : ∀ {cs c bs s}, holds cs s → holds cs (N.write c bs s).2
  close : ∀ {cs c s}, holds ({c} + cs) s → holds cs (N.close c s)

/-- An accept hands a connection out, or nothing. -/
structure Network.Custody.Accepts {N : Network} (K : N.Custody) : Prop where
  ok : ∀ {cs wait s c s'}, K.holds cs s → N.accept wait s = (.ok c, s') → K.holds ({c} + cs) s'
  error : ∀ {cs wait s e s'}, K.holds cs s → N.accept wait s = (.error e, s') → K.holds cs s'

/-- What is said of the states of a volume while certain files are open. -/
structure Volume.Custody (V : Volume) where
  holds : Multiset V.File → V.State → Prop
  openFile_ok : ∀ {fs path s f s'}, holds fs s → V.openFile path s = (.ok f, s') →
    holds ({f} + fs) s'
  openFile_error : ∀ {fs path s e s'}, holds fs s → V.openFile path s = (.error e, s') →
    holds fs s'
  read : ∀ {fs f room s r f' s'}, holds ({f} + fs) s → V.read f room s = ((r, f'), s') →
    holds ({f'} + fs) s'
  size : ∀ {fs f s}, holds fs s → holds fs (V.size f s).2
  close : ∀ {fs f s}, holds ({f} + fs) s → holds fs (V.close f s)
  isDirectory : ∀ {fs path s}, holds fs s → holds fs (V.isDirectory path s).2

/-- What is said of the states of an interpreter while certain scripts are loaded. -/
structure Interpreter.Custody (I : Interpreter) where
  holds : Multiset I.Script → I.State → Prop
  setQuery : ∀ {ss q s}, holds ss s → holds ss (I.setQuery q s)
  setGlobal : ∀ {ss name value s}, holds ss s → holds ss (I.setGlobal name value s)
  load_ok : ∀ {ss path s x s'}, holds ss s → I.load path s = (.ok x, s') → holds ({x} + ss) s'
  load_error : ∀ {ss path s e s'}, holds ss s → I.load path s = (.error e, s') → holds ss s'
  call : ∀ {ss x s r x' s'}, holds ({x} + ss) s → I.call x s = ((r, x'), s') →
    holds ({x'} + ss) s'
  release : ∀ {ss x s}, holds ({x} + ss) s → holds ss (I.release x s)
  collect : ∀ {ss s}, holds ss s → holds ss (I.collect s)

namespace Network.Custody

/-- Nothing is said. -/
def any (N : Network) : N.Custody where
  holds _ _ := True
  setTimeouts h := h
  receive h := h
  write h := h
  close h := h

end Network.Custody

namespace Volume.Custody

/-- Nothing is said. -/
def any (V : Volume) : V.Custody where
  holds _ _ := True
  openFile_ok h _ := h
  openFile_error h _ := h
  read h _ := h
  size h := h
  close h := h
  isDirectory h := h

end Volume.Custody

namespace Interpreter.Custody

/-- Nothing is said. -/
def any (I : Interpreter) : I.Custody where
  holds _ _ := True
  setQuery h := h
  setGlobal h := h
  load_ok h _ := h
  load_error h _ := h
  call h _ := h
  release h := h
  collect h := h

end Interpreter.Custody

/-- What is said of a whole platform, and of the log, which may grow by any note but that all slots
are full. -/
structure Custody (P : Platform) where
  network : P.network.Custody
  volume : P.volume.Custody
  interpreter : P.interpreter.Custody
  log : List Notice → Prop
  note : ∀ {n ns}, (∀ a, n ≠ .slotsFull a) → log ns → log (n :: ns)

namespace Custody

variable {K : Custody P} {x : Holdings P} {h h' : Host P}

/-- **The host covers the holdings**: its platform says what custody says of them. -/
structure Covers (K : Custody P) (x : Holdings P) (h : Host P) : Prop where
  network : K.network.holds x.1 h.network
  volume : K.volume.holds x.2.1 h.volume
  interpreter : K.interpreter.holds x.2.2 h.interpreter
  log : K.log h.log

/-! ### A handle more -/

theorem covers_conn_add {c : P.Conn} : K.Covers (.conn c + x) h ↔
    K.network.holds ({c} + x.1) h.network ∧ K.volume.holds x.2.1 h.volume ∧
      K.interpreter.holds x.2.2 h.interpreter ∧ K.log h.log := by
  constructor
  · intro hc
    exact ⟨hc.network, by simpa [Holdings.conn] using hc.volume,
      by simpa [Holdings.conn] using hc.interpreter, hc.log⟩
  · rintro ⟨hn, hv, hi, hl⟩
    exact ⟨hn, by simpa [Holdings.conn] using hv, by simpa [Holdings.conn] using hi, hl⟩

theorem covers_file_add {f : P.File} : K.Covers (.file f + x) h ↔
    K.network.holds x.1 h.network ∧ K.volume.holds ({f} + x.2.1) h.volume ∧
      K.interpreter.holds x.2.2 h.interpreter ∧ K.log h.log := by
  constructor
  · intro hc
    exact ⟨by simpa [Holdings.file] using hc.network, hc.volume,
      by simpa [Holdings.file] using hc.interpreter, hc.log⟩
  · rintro ⟨hn, hv, hi, hl⟩
    exact ⟨by simpa [Holdings.file] using hn, hv, by simpa [Holdings.file] using hi, hl⟩

theorem covers_script_add {s : P.Script} : K.Covers (.script s + x) h ↔
    K.network.holds x.1 h.network ∧ K.volume.holds x.2.1 h.volume ∧
      K.interpreter.holds ({s} + x.2.2) h.interpreter ∧ K.log h.log := by
  constructor
  · intro hc
    exact ⟨by simpa [Holdings.script] using hc.network, by simpa [Holdings.script] using hc.volume,
      hc.interpreter, hc.log⟩
  · rintro ⟨hn, hv, hi, hl⟩
    exact ⟨by simpa [Holdings.script] using hn, by simpa [Holdings.script] using hv, hi, hl⟩

namespace Covers

theorem zeroAdd (hc : K.Covers x h) : K.Covers (0 + x) h := by
  rwa [zero_add]

theorem note (hc : K.Covers x h) {n : Notice} (hn : ∀ a, n ≠ .slotsFull a) :
    K.Covers x (h.note n) := ⟨hc.network, hc.volume, hc.interpreter, K.note hn hc.log⟩

/-! ### The network -/

theorem setTimeouts (hc : K.Covers x h) (c : P.Conn) (t : Timeouts) :
    K.Covers x (h.setTimeouts c t) :=
  ⟨K.network.setTimeouts hc.network, hc.volume, hc.interpreter, hc.log⟩

theorem receive (hc : K.Covers x h) {c : P.Conn} {room : Nat} {r : Except NetError Bytes}
    (heq : h.receive c room = (r, h')) : K.Covers x h' := by
  obtain ⟨-, rfl⟩ := Prod.ext_iff.mp heq
  exact ⟨K.network.receive hc.network, hc.volume, hc.interpreter, hc.log⟩

theorem write (hc : K.Covers x h) {c : P.Conn} {bs : Bytes} {r : Except NetError Unit}
    (heq : h.write c bs = (r, h')) : K.Covers x h' := by
  obtain ⟨-, rfl⟩ := Prod.ext_iff.mp heq
  exact ⟨K.network.write hc.network, hc.volume, hc.interpreter, hc.log⟩

theorem close {c : P.Conn} (hc : K.Covers (.conn c + x) h) : K.Covers x (h.close c) := by
  obtain ⟨hn, hv, hi, hl⟩ := covers_conn_add.mp hc
  exact ⟨K.network.close hn, hv, hi, hl⟩

theorem accept_ok (hK : K.network.Accepts) (hc : K.Covers x h) {wait : UInt64} {c : P.Conn}
    (heq : h.accept wait = (.ok c, h')) : K.Covers (.conn c + x) h' := by
  obtain ⟨hr, rfl⟩ := Prod.ext_iff.mp heq
  exact covers_conn_add.mpr
    ⟨hK.ok hc.network (Prod.ext hr rfl), hc.volume, hc.interpreter, hc.log⟩

theorem accept_error (hK : K.network.Accepts) (hc : K.Covers x h) {wait : UInt64} {e : NetError}
    (heq : h.accept wait = (.error e, h')) : K.Covers x h' := by
  obtain ⟨hr, rfl⟩ := Prod.ext_iff.mp heq
  exact ⟨hK.error hc.network (Prod.ext hr rfl), hc.volume, hc.interpreter, hc.log⟩

/-! ### The volume -/

theorem openFile_ok (hc : K.Covers x h) {path : String} {f : P.File}
    (heq : h.openFile path = (.ok f, h')) : K.Covers (.file f + x) h' := by
  obtain ⟨hr, rfl⟩ := Prod.ext_iff.mp heq
  exact covers_file_add.mpr
    ⟨hc.network, K.volume.openFile_ok hc.volume (Prod.ext hr rfl), hc.interpreter, hc.log⟩

theorem openFile_error (hc : K.Covers x h) {path : String} {e : VolumeError}
    (heq : h.openFile path = (.error e, h')) : K.Covers x h' := by
  obtain ⟨hr, rfl⟩ := Prod.ext_iff.mp heq
  exact ⟨hc.network, K.volume.openFile_error hc.volume (Prod.ext hr rfl), hc.interpreter, hc.log⟩

theorem readFile {f f' : P.File} (hc : K.Covers (.file f + x) h) {room : Nat}
    {r : Except VolumeError Bytes} (heq : h.readFile f room = ((r, f'), h')) :
    K.Covers (.file f' + x) h' := by
  obtain ⟨hr, rfl⟩ := Prod.ext_iff.mp heq
  obtain ⟨hn, hv, hi, hl⟩ := covers_file_add.mp hc
  exact covers_file_add.mpr ⟨hn, K.volume.read hv (Prod.ext hr rfl), hi, hl⟩

theorem fileSize (hc : K.Covers x h) {f : P.File} {r : Except VolumeError Nat}
    (heq : h.fileSize f = (r, h')) : K.Covers x h' := by
  obtain ⟨-, rfl⟩ := Prod.ext_iff.mp heq
  exact ⟨hc.network, K.volume.size hc.volume, hc.interpreter, hc.log⟩

theorem closeFile {f : P.File} (hc : K.Covers (.file f + x) h) : K.Covers x (h.closeFile f) := by
  obtain ⟨hn, hv, hi, hl⟩ := covers_file_add.mp hc
  exact ⟨hn, K.volume.close hv, hi, hl⟩

theorem isDirectory (hc : K.Covers x h) {path : String} {r : Bool}
    (heq : h.isDirectory path = (r, h')) : K.Covers x h' := by
  obtain ⟨-, rfl⟩ := Prod.ext_iff.mp heq
  exact ⟨hc.network, K.volume.isDirectory hc.volume, hc.interpreter, hc.log⟩

/-! ### The interpreter -/

theorem setQuery (hc : K.Covers x h) (q : Query) : K.Covers x (h.setQuery q) :=
  ⟨hc.network, hc.volume, K.interpreter.setQuery hc.interpreter, hc.log⟩

theorem setGlobal (hc : K.Covers x h) (name value : String) :
    K.Covers x (h.setGlobal name value) :=
  ⟨hc.network, hc.volume, K.interpreter.setGlobal hc.interpreter, hc.log⟩

/-- A host may note that it has no interpreter before it loads. -/
theorem beforeLoad (hc : K.Covers x h) (path : String) :
    K.Covers x (if P.interpreter.absent then h.note (.noInterpreter path) else h) := by
  split
  · exact hc.note nofun
  · exact hc

theorem load_ok (hc : K.Covers x h) {path : String} {s : P.Script}
    (heq : h.load path = (.ok s, h')) : K.Covers (.script s + x) h' := by
  obtain ⟨hr, rfl⟩ := Prod.ext_iff.mp heq
  have hb := hc.beforeLoad path
  exact covers_script_add.mpr
    ⟨hb.network, hb.volume, K.interpreter.load_ok hb.interpreter (Prod.ext hr rfl), hb.log⟩

theorem load_error (hc : K.Covers x h) {path : String} {e : ScriptError}
    (heq : h.load path = (.error e, h')) : K.Covers x h' := by
  obtain ⟨hr, rfl⟩ := Prod.ext_iff.mp heq
  have hb := hc.beforeLoad path
  exact ⟨hb.network, hb.volume, K.interpreter.load_error hb.interpreter (Prod.ext hr rfl), hb.log⟩

theorem call {s s' : P.Script} (hc : K.Covers (.script s + x) h)
    {r : Except ScriptError (Option String)} (heq : h.call s = ((r, s'), h')) :
    K.Covers (.script s' + x) h' := by
  obtain ⟨hr, rfl⟩ := Prod.ext_iff.mp heq
  obtain ⟨hn, hv, hi, hl⟩ := covers_script_add.mp hc
  exact covers_script_add.mpr ⟨hn, hv, K.interpreter.call hi (Prod.ext hr rfl), hl⟩

theorem release {s : P.Script} (hc : K.Covers (.script s + x) h) : K.Covers x (h.release s) := by
  obtain ⟨hn, hv, hi, hl⟩ := covers_script_add.mp hc
  exact ⟨hn, hv, K.interpreter.release hi, hl⟩

theorem collect (hc : K.Covers x h) : K.Covers x h.collect :=
  ⟨hc.network, hc.volume, K.interpreter.collect hc.interpreter, hc.log⟩

/-! ### The board and the control -/

theorem command (hc : K.Covers x h) {payload : Bytes} {r : Except CommandError String}
    (heq : h.command payload = (r, h')) : K.Covers x h' := by
  obtain ⟨-, rfl⟩ := Prod.ext_iff.mp heq
  exact ⟨hc.network, hc.volume, hc.interpreter, hc.log⟩

theorem control (hc : K.Covers x h) (control : Control) : K.Covers x { h with control } :=
  ⟨hc.network, hc.volume, hc.interpreter, hc.log⟩

end Covers

end Custody

end Microweb
