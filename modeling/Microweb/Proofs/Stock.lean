import Microweb.Bench.FaultyVolume
import Microweb.Bench.Flash
import Microweb.Proofs.Wiring.Server

/-!
Platforms on wires with a flash volume that may fail. Whatever a server does, the flash keeps its
files, its directories and its faults; what is opened and read is what is there.
-/

namespace Microweb

open Bench

/-! ### What is on a flash volume -/

namespace Bench

/-- The flash volume has the same files. It may fail in other ways than before. -/
def SameFiles (s s' : Faulty Flash) : Prop := s'.inner.files = s.inner.files

theorem SameFiles.refl (s : Faulty Flash) : SameFiles s s := rfl

/-- The flash volume is the same, but for what was opened and how often it was read. -/
structure SameStock (s s' : Faulty Flash) : Prop where
  files : s'.inner.files = s.inner.files
  directories : s'.inner.directories = s.inner.directories
  maxOpen : s'.inner.maxOpen = s.inner.maxOpen
  faults : s'.faults = s.faults

namespace SameStock

variable {s s' s'' : Faulty Flash}

theorem refl (s : Faulty Flash) : SameStock s s := ⟨rfl, rfl, rfl, rfl⟩

theorem trans (h : SameStock s s') (h' : SameStock s' s'') : SameStock s s'' :=
  ⟨h'.files.trans h.files, h'.directories.trans h.directories, h'.maxOpen.trans h.maxOpen,
    h'.faults.trans h.faults⟩

theorem symm (h : SameStock s s') : SameStock s' s :=
  ⟨h.files.symm, h.directories.symm, h.maxOpen.symm, h.faults.symm⟩

theorem content?_eq (h : SameStock s s') : s'.inner.content? = s.inner.content? := by
  unfold Flash.content?
  rw [h.files]

theorem openFile (path : String) (s : Faulty Flash) :
    SameStock s (Faulty.openFile Flash.volume path s).2 := by
  unfold Faulty.openFile
  split
  · exact refl s
  · simp only [Flash.openFile]
    split
    · exact refl s
    · split
      · exact refl s
      · split
        · exact refl s
        · exact ⟨rfl, rfl, rfl, rfl⟩

theorem read (f : FaultyFile OpenFile) (room : Nat) (s : Faulty Flash) :
    SameStock s (Faulty.read Flash.volume f room s).2 := by
  unfold Faulty.read
  simp only [Flash.read]
  split
  · exact ⟨rfl, rfl, rfl, rfl⟩
  · split <;> exact ⟨rfl, rfl, rfl, rfl⟩

theorem size (f : FaultyFile OpenFile) (s : Faulty Flash) :
    SameStock s (Faulty.size Flash.volume f s).2 := by
  unfold Faulty.size
  simp only [Flash.size]
  split
  · exact refl s
  · split <;> exact refl s

theorem moves {paths : String → Prop} {streams : Prop}
    (hm : (Faulty.volume Flash.volume).Moves paths streams s s') : SameStock s s' := by
  rcases hm with @⟨path, hp⟩ | ⟨f, room, -⟩ | f | f | @⟨path, hp⟩
  · exact openFile path s
  · exact read f room s
  · exact size f s
  · exact ⟨rfl, rfl, rfl, rfl⟩
  · exact ⟨rfl, rfl, rfl, rfl⟩

end SameStock

end Bench

/-- The pieces of a file and the next one are the file up to where the next one ends. -/
theorem Bench.flatten_next {content bs : Bytes} {pieces : List Bytes} {position n : Nat}
    (hpieces : pieces.flatten = content.take position)
    (hbs : bs = (content.drop position).take n) :
    (pieces ++ [bs]).flatten = content.take (position + bs.length) := by
  have htake : bs = (content.drop position).take bs.length := by
    conv_lhs => rw [hbs]
    rw [hbs, List.length_take, List.take_eq_take_iff]
    omega
  rw [List.flatten_append, hpieces, List.flatten_singleton, List.take_add, ← htake]

/-- A platform on wires, with a flash volume that may fail. -/
abbrev Platform.onFlash (I : Interpreter) (B : Peripherals) : Platform :=
  .wired (Faulty.volume Flash.volume) I B

variable {I : Interpreter} {B : Peripherals} {g h h' : Host (.onFlash I B)}

theorem Scope.Reaches.sameStock {a : Scope (.onFlash I B)} (hr : a.Reaches g h) :
    SameStock g.volume h.volume :=
  hr.volume_induction (fun _ _ hm ih => ih.trans (.moves hm)) (.refl _)

namespace Server

theorem sameStock_accept (s : Server (.onFlash I B)) :
    SameStock s.host.volume s.accept.host.volume := by
  rw [s.accept_frame.2.1]
  exact .refl _

theorem sameStock_tick (s : Server (.onFlash I B)) :
    SameStock s.host.volume s.tick.host.volume :=
  tick_induction (I := fun t : Server (.onFlash I B) => SameStock s.host.volume t.host.volume)
    (fun t ht => ht.trans t.sameStock_accept)
    (fun t i ht => ht.trans (t.reaches_stepSlot i).sameStock)
    (fun t ht => ht.trans t.reaches_poll.sameStock) (.refl _)

end Server

/-! ### Operations of a host -/

namespace Host

/-- A file that opens is there, and is read from its start. -/
theorem openFile_ok {path : String} {f : FaultyFile OpenFile}
    (heq : h.openFile path = (.ok f, h')) :
    f.inner = ⟨path, 0⟩ ∧ ∃ content, h.volume.inner.content? path = some content := by
  obtain ⟨hr, -⟩ := Prod.ext_iff.mp heq
  simp only [openFile, Faulty.openFile, Flash.openFile] at hr
  split at hr
  · cases hr
  · split at hr
    · cases hr
    · split at hr
      · cases hr
      · next hsome =>
        split at hr
        · cases hr
        · cases hr
          exact ⟨rfl, Option.ne_none_iff_exists'.mp (by simpa using hsome)⟩

/-- What is read is what comes next, if anything is. -/
theorem readFile_ok {f f' : FaultyFile OpenFile} {room : Nat} {bs : Bytes}
    (heq : h.readFile f room = ((.ok bs, f'), h')) : ∃ content n,
      h.volume.inner.content? f.inner.path = some content ∧
        bs = (content.drop f.inner.position).take n ∧
        f'.inner = ⟨f.inner.path, f.inner.position + bs.length⟩ := by
  obtain ⟨hr, -⟩ := Prod.ext_iff.mp heq
  simp only [readFile, Faulty.read, Flash.read] at hr
  split at hr
  · cases hr
  · split at hr
    · cases hr
    · next content hcontent =>
      cases hr
      exact ⟨content, _, hcontent, rfl, rfl⟩

variable {V : Volume} {g g' : Host (.wired V I B)} {c : Handle} {bs : Bytes}

theorem sent_write_ok (heq : g.write c bs = (.ok (), g')) :
    g'.network.sent c.number = g.network.sent c.number ++ [bs] := by
  obtain ⟨hr, rfl⟩ := Prod.ext_iff.mp heq
  obtain ⟨-, hsent⟩ | ⟨e, he⟩ := Wires.write_cases c bs g.network
  · exact hsent
  · rw [show (g.write c bs).1 = .error e from congrArg Prod.fst he] at hr
    cases hr

/-- Where writes do not fail, a write is sent. -/
theorem exists_write (hw : g.network.Writable c.number) (bs : Bytes) :
    ∃ g', g.write c bs = (.ok (), g') ∧
      g'.network.sent c.number = g.network.sent c.number ++ [bs] := by
  have hok : g.write c bs = (.ok (), (g.write c bs).2) := Prod.ext (hw.write bs) rfl
  exact ⟨_, hok, sent_write_ok hok⟩

/-- A receive takes from what the client sent, and adds nothing to what was sent to it. -/
theorem sent_receive {room : Nat} {r : Except NetError Bytes} (heq : g.receive c room = (r, g'))
    (k : Nat) : g'.network.sent k = g.network.sent k := by
  let hearing : Scope (.wired V I B) :=
    .online (fun _ => True) (fun _ _ => False) fun _ => False
  have hr : hearing.Reaches g g' := (Scope.Reaches.refl hearing g).receive trivial heq
  exact hr.sent_eq fun _ _ hw => hw.elim

/-- A write that fails leaves everything as it was. -/
theorem write_error {e : NetError} (heq : g.write c bs = (.error e, g')) : g' = g := by
  obtain ⟨hr, rfl⟩ := Prod.ext_iff.mp heq
  obtain ⟨hok, -⟩ | ⟨e', he⟩ := Wires.write_cases c bs g.network
  · rw [show (g.write c bs).1 = .ok () from hok] at hr
    cases hr
  · simp only [write, he]

end Host

/-! ### Servers on a bench -/

/-- What clients do may happen, if the volume may stay. -/
theorem Server.Aside.ofClient {V : Volume} {R : V.State → V.State → Prop} (hR : ∀ v, R v v)
    {s : Server (.wired V I B)} {f : Wires → Wires} (h : s.host.network.Acts (f s.host.network)) :
    Aside (.steady V I B R) s (s.onNetwork f) :=
  .onNetwork hR (fun _ => trivial) s f h

theorem Server.Step.ofClient {V : Volume} {R : V.State → V.State → Prop} (hR : ∀ v, R v v)
    {s : Server (.wired V I B)} {f : Wires → Wires} (h : s.host.network.Acts (f s.host.network)) :
    Step (.steady V I B R) s (s.onNetwork f) :=
  (Aside.ofClient hR h).step

namespace Bench

/-- A flash volume and scripts. -/
abbrev shelf : Platform := .onFlash Scripts.interpreter Registers.peripherals

/-- A server with a flash volume and scripts, before its first tick. -/
def onShelf (config : Config) (flash : Faulty Flash) (scripts : Scripts) : Server shelf where
  config
  slots := .free config.maxConnections
  peers := .empty config.maxPeers
  host := {
    network := .empty
    volume := flash
    interpreter := scripts
    board := .fresh 4
    control := .start config.timeouts
    uptime := 0
    log := [] }

theorem new_onShelf {config : Config} (h : config.Valid) (flash : Faulty Flash)
    (scripts : Scripts) : Server.new (P := shelf) config Wires.empty flash scripts
      (Registers.fresh 4) = .ok (onShelf config flash scripts) :=
  Server.new_eq_ok_iff.mpr ⟨h, rfl⟩

end Bench

end Microweb
