import Microweb.Proofs.Record

/-!
Records change nothing. A host on record with its records forgotten is a host on the platform
below, and each of its operations answers as the one of that host does; so does each step of a job.
-/

namespace Microweb

variable {P : Platform}

/-! ### Forgetting -/

def Host.forget (h : Host P.recorded) : Host P :=
  ⟨h.network, h.volume.inner, h.interpreter.inner, h.board, h.control, h.uptime, h.log⟩

def FileJob.forget (job : FileJob P.recorded) : FileJob P :=
  ⟨job.file.handle, job.size, job.sent, job.chunk⟩

def ScriptJob.forget (job : ScriptJob P.recorded) : ScriptJob P := ⟨job.script.handle, job.steps⟩

def Job.forget : Job P.recorded → Job P
  | .file job => .file job.forget
  | .script job => .script job.forget

/-- What the start of a response led to, its job being seen as another. -/
def Begun.map {J J' : Type} (f : J → J') : Begun J → Begun J'
  | .streaming job => .streaming (f job)
  | .done job => .done (job.map f)
  | .notFound => .notFound
  | .abort => .abort

def Stage.forget : Stage P.recorded → Stage P
  | .request => .request
  | .begin target => .begin target
  | .streaming job => .streaming job.forget
  | .ending job => .ending (job.map Job.forget)
  | .closed => .closed

def Client.forget (c : Client P.recorded) : Client P :=
  ⟨c.kind, c.address, c.conn, c.request, c.stage.forget, c.idle⟩

/-! ### The host -/

theorem Volume.openFile_inner (V : Volume) (path : String) (s : V.recorded.State) :
    V.openFile path s.inner =
      ((V.recorded.openFile path s).1.map Numbered.handle,
        (V.recorded.openFile path s).2.inner) := by
  dsimp only
  rcases V.openFile path s.inner with ⟨_ | f, inner⟩
  · rfl
  · rfl

theorem Interpreter.load_inner (I : Interpreter) (path : String) (s : I.recorded.State) :
    I.load path s.inner =
      ((I.recorded.load path s).1.map Numbered.handle, (I.recorded.load path s).2.inner) := by
  dsimp only
  rcases I.load path s.inner with ⟨_ | x, inner⟩
  · rfl
  · rfl

namespace Host

variable (h : Host P.recorded)

theorem forget_openFile (path : String) : h.forget.openFile path =
    ((h.openFile path).1.map Numbered.handle, (h.openFile path).2.forget) := by
  have hi := P.volume.openFile_inner path h.volume
  have hr := congrArg Prod.fst hi
  have hv := congrArg (fun p => { h.forget with volume := p.2 }) hi
  exact Prod.ext hr hv

theorem forget_fileSize (f : P.recorded.File) : h.forget.fileSize f.handle =
    ((h.fileSize f).1, (h.fileSize f).2.forget) := rfl

theorem forget_readFile (f : P.recorded.File) (room : Nat) : h.forget.readFile f.handle room =
    (((h.readFile f room).1.1, (h.readFile f room).1.2.handle), (h.readFile f room).2.forget) := rfl

theorem forget_isDirectory (path : String) : h.forget.isDirectory path =
    ((h.isDirectory path).1, (h.isDirectory path).2.forget) := rfl

theorem forget_call (x : P.recorded.Script) : h.forget.call x.handle =
    (((h.call x).1.1, (h.call x).1.2.handle), (h.call x).2.forget) := rfl

theorem forget_accept (wait : UInt64) : h.forget.accept wait =
    ((h.accept wait).1, (h.accept wait).2.forget) := rfl

theorem forget_receive (c : P.recorded.Conn) (room : Nat) : h.forget.receive c room =
    ((h.receive c room).1, (h.receive c room).2.forget) := rfl

theorem forget_write (c : P.recorded.Conn) (bs : Bytes) : h.forget.write c bs =
    ((h.write c bs).1, (h.write c bs).2.forget) := rfl

theorem forget_command (payload : Bytes) : h.forget.command payload =
    ((h.command payload).1, (h.command payload).2.forget) := rfl

theorem forget_load (path : String) : h.forget.load path =
    ((h.load path).1.map Numbered.handle, (h.load path).2.forget) := by
  unfold load
  have hn : (if P.interpreter.absent then h.forget.note (.noInterpreter path) else h.forget) =
      (if P.recorded.interpreter.absent then h.note (.noInterpreter path) else h).forget := by
    show (if P.interpreter.absent then _ else _) =
      Host.forget (if P.interpreter.absent then _ else _)
    split <;> rfl
  rw [hn]
  generalize (if P.recorded.interpreter.absent then h.note (.noInterpreter path) else h) = g
  have hi := P.interpreter.load_inner path g.interpreter
  have hr := congrArg Prod.fst hi
  have hv := congrArg (fun p => { g.forget with interpreter := p.2 }) hi
  exact Prod.ext hr hv

theorem forget_opensNonempty (path : String) : h.forget.opensNonempty path =
    ((h.opensNonempty path).1, (h.opensNonempty path).2.forget) := by
  unfold opensNonempty
  rw [forget_openFile]
  rcases h.openFile path with ⟨_ | f, h₁⟩
  · rfl
  · rfl

theorem forget_firstNonempty (dir : String) (names : List String) :
    firstNonempty dir names h.forget =
      ((firstNonempty dir names h).1, (firstNonempty dir names h).2.forget) := by
  induction names generalizing h with
  | nil => rfl
  | cons name names ih =>
    simp only [firstNonempty, forget_opensNonempty]
    rcases h.opensNonempty (dir ++ "/" ++ name) with ⟨_ | _, h₁⟩
    · exact ih h₁
    · rfl

theorem forget_runForFrame (path payload : String) : h.forget.runForFrame path payload =
    ((h.runForFrame path payload).1, (h.runForFrame path payload).2.forget) := by
  unfold runForFrame
  rw [show (h.forget.setQuery []).setGlobal frameGlobal payload =
    ((h.setQuery []).setGlobal frameGlobal payload).forget from rfl, forget_load]
  rcases ((h.setQuery []).setGlobal frameGlobal payload).load path with ⟨e | x, h₁⟩
  · rfl
  · simp only [Except.map, forget_call]
    rcases h₁.call x with ⟨⟨e | out, x'⟩, h₂⟩
    · rfl
    · rfl

end Host

/-! ### Jobs -/

theorem FileJob.forget_begin (conn : P.recorded.Conn) (path : String) (chunk : Nat)
    (h : Host P.recorded) : FileJob.begin (P := P) conn path chunk h.forget =
      ((FileJob.begin conn path chunk h).1.map forget,
        (FileJob.begin conn path chunk h).2.forget) := by
  unfold FileJob.begin
  rw [Host.forget_openFile]
  rcases h.openFile path with ⟨e | f, h₁⟩
  · cases e <;> rfl
  · simp only [Except.map, Host.forget_fileSize]
    rcases h₁.fileSize f with ⟨e | size, h₂⟩
    · rfl
    · simp only [Host.forget_write]
      rcases h₂.write conn _ with ⟨e | _, h₃⟩
      · rfl
      · rfl

theorem FileJob.forget_step (job : FileJob P.recorded) (conn : P.recorded.Conn)
    (h : Host P.recorded) : job.forget.step conn h.forget =
      ((job.step conn h).1, (job.step conn h).2.1.forget, (job.step conn h).2.2.forget) := by
  unfold FileJob.step
  by_cases hle : job.size ≤ job.sent
  · rw [if_pos (show job.forget.size ≤ job.forget.sent from hle), if_pos hle]
  · rw [if_neg (show ¬ job.forget.size ≤ job.forget.sent from hle), if_neg hle]
    simp only [forget, Host.forget_readFile]
    rcases h.readFile job.file job.chunk with ⟨⟨e | bs, f⟩, h₁⟩
    · rfl
    · cases bs with
      | nil => rfl
      | cons b bs =>
        simp only [Host.forget_write]
        rcases h₁.write conn (b :: bs) with ⟨e | _, h₂⟩
        · rfl
        · rfl

theorem ScriptJob.forget_begin (conn : P.recorded.Conn) (path : String) (query : Query)
    (h : Host P.recorded) : ScriptJob.begin (P := P) conn path query h.forget =
      ((ScriptJob.begin conn path query h).1.map forget,
        (ScriptJob.begin conn path query h).2.forget) := by
  unfold ScriptJob.begin
  rw [show h.forget.setQuery query = (h.setQuery query).forget from rfl, Host.forget_load]
  rcases (h.setQuery query).load path with ⟨e | x, h₁⟩
  · cases e <;> rfl
  · simp only [Except.map, Host.forget_write]
    rcases h₁.write conn _ with ⟨e | _, h₂⟩
    · rfl
    · rfl

theorem ScriptJob.forget_cut (bs : Bytes) (limit : Nat) (h : Host P.recorded) :
    cut bs limit h.forget = ((cut bs limit h).1, (cut bs limit h).2.forget) := by
  unfold cut
  split <;> rfl

theorem ScriptJob.forget_step (job : ScriptJob P.recorded) (conn : P.recorded.Conn)
    (outputSize : Nat) (stepLimit : UInt32) (h : Host P.recorded) :
    job.forget.step conn outputSize stepLimit h.forget =
      ((job.step conn outputSize stepLimit h).1, (job.step conn outputSize stepLimit h).2.1.forget,
        (job.step conn outputSize stepLimit h).2.2.forget) := by
  unfold ScriptJob.step
  by_cases hle : stepLimit ≤ job.steps
  · rw [if_pos (show stepLimit ≤ job.forget.steps from hle), if_pos hle]
    rfl
  · rw [if_neg (show ¬ stepLimit ≤ job.forget.steps from hle), if_neg hle]
    simp only [forget, Host.forget_call]
    rcases h.call job.script with ⟨⟨e | out, x⟩, h₁⟩
    · rfl
    · cases out with
      | none => rfl
      | some piece =>
        by_cases hempty : piece.isEmpty
        · simp only [hempty, if_true]
          rfl
        · simp only [hempty]
          rw [show h₁.forget.collect = h₁.collect.forget from rfl, forget_cut]
          simp only [Host.forget_write]
          rcases (cut (Utf8.encode piece) outputSize h₁.collect).2.write conn _ with ⟨e | _, h₂⟩
          · rfl
          · rfl

theorem Job.forget_finish (job : Job P.recorded) (h : Host P.recorded) :
    job.forget.finish h.forget = (job.finish h).forget := by
  cases job <;> rfl

end Microweb
