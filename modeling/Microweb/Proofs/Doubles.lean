import Microweb.Proofs.Concur
import Microweb.Server.Client

/-!
The log is only written. Hosts that differ in their logs alone are *doubles*, and every operation
and every step of a job has the same result on both and leaves doubles.
-/

namespace Microweb

variable {P : Platform}

namespace Host

/-- The host with nothing in its log. -/
def bare (h : Host P) : Host P := { h with log := [] }

/-- Hosts that differ in their logs alone. -/
def Doubles (g h : Host P) : Prop := g.bare = h.bare

namespace Doubles

variable {g h : Host P}

theorem symm (ht : Doubles g h) : Doubles h g := Eq.symm ht

/-- What is read off hosts without a look at their logs. -/
theorem view {α : Type} (f : Host P → α) (hf : ∀ h, f h.bare = f h) (ht : Doubles g h) :
    f g = f h :=
  (hf g).symm.trans ((congrArg f ht).trans (hf h))

/-- What changes hosts without a look at their logs. -/
theorem map (f : Host P → Host P) (hf : ∀ h, f h.bare = (f h).bare) (ht : Doubles g h) :
    Doubles (f g) (f h) := (hf g).symm.trans ((congrArg f ht).trans (hf h))

/-- An operation that neither reads nor writes the log. -/
theorem ask {α : Type} (f : Host P → α × Host P) (hf : ∀ h, f h.bare = ((f h).1, (f h).2.bare))
    (ht : Doubles g h) : ConcurIn Doubles (f g) (f h) where
  result := ht.view (fun h => (f h).1) fun h => by rw [hf]
  host := ht.view (fun h => (f h).2.bare) fun h => by rw [hf]; rfl

theorem control (ht : Doubles g h) : g.control = h.control := ht.view Host.control fun _ => rfl

theorem note (ht : Doubles g h) (n m : Notice) : Doubles (g.note n) (h.note m) := ht

/-! ### The operations of a host -/

theorem accept (ht : Doubles g h) (wait : UInt64) :
    ConcurIn Doubles (g.accept wait) (h.accept wait) :=
  ht.ask (fun h => h.accept wait) fun _ => rfl

theorem setTimeouts (ht : Doubles g h) (c : P.Conn) (t : Timeouts) :
    Doubles (g.setTimeouts c t) (h.setTimeouts c t) :=
  ht.map (fun h => h.setTimeouts c t) fun _ => rfl

theorem receive (ht : Doubles g h) (c : P.Conn) (room : Nat) :
    ConcurIn Doubles (g.receive c room) (h.receive c room) :=
  ht.ask (fun h => h.receive c room) fun _ => rfl

theorem write (ht : Doubles g h) (c : P.Conn) (bs : Bytes) :
    ConcurIn Doubles (g.write c bs) (h.write c bs) :=
  ht.ask (fun h => h.write c bs) fun _ => rfl

theorem close (ht : Doubles g h) (c : P.Conn) : Doubles (g.close c) (h.close c) :=
  ht.map (fun h => h.close c) fun _ => rfl

theorem openFile (ht : Doubles g h) (path : String) :
    ConcurIn Doubles (g.openFile path) (h.openFile path) :=
  ht.ask (fun h => h.openFile path) fun _ => rfl

theorem readFile (ht : Doubles g h) (f : P.File) (room : Nat) :
    ConcurIn Doubles (g.readFile f room) (h.readFile f room) :=
  ht.ask (fun h => h.readFile f room) fun _ => rfl

theorem fileSize (ht : Doubles g h) (f : P.File) :
    ConcurIn Doubles (g.fileSize f) (h.fileSize f) :=
  ht.ask (fun h => h.fileSize f) fun _ => rfl

theorem closeFile (ht : Doubles g h) (f : P.File) : Doubles (g.closeFile f) (h.closeFile f) :=
  ht.map (fun h => h.closeFile f) fun _ => rfl

theorem isDirectory (ht : Doubles g h) (path : String) :
    ConcurIn Doubles (g.isDirectory path) (h.isDirectory path) :=
  ht.ask (fun h => h.isDirectory path) fun _ => rfl

theorem setQuery (ht : Doubles g h) (q : Query) : Doubles (g.setQuery q) (h.setQuery q) :=
  ht.map (fun h => h.setQuery q) fun _ => rfl

theorem setGlobal (ht : Doubles g h) (name value : String) :
    Doubles (g.setGlobal name value) (h.setGlobal name value) :=
  ht.map (fun h => h.setGlobal name value) fun _ => rfl

theorem load (ht : Doubles g h) (path : String) : ConcurIn Doubles (g.load path) (h.load path) := by
  have hload := ht.ask (fun h => ((P.interpreter.load path h.interpreter).1,
    { h with interpreter := (P.interpreter.load path h.interpreter).2 })) fun _ => rfl
  unfold Host.load
  split
  · exact ⟨hload.result, hload.host⟩
  · exact hload

theorem call (ht : Doubles g h) (x : P.Script) : ConcurIn Doubles (g.call x) (h.call x) :=
  ht.ask (fun h => h.call x) fun _ => rfl

theorem release (ht : Doubles g h) (x : P.Script) : Doubles (g.release x) (h.release x) :=
  ht.map (fun h => h.release x) fun _ => rfl

theorem collect (ht : Doubles g h) : Doubles g.collect h.collect :=
  ht.map Host.collect fun _ => rfl

theorem command (ht : Doubles g h) (payload : Bytes) :
    ConcurIn Doubles (g.command payload) (h.command payload) :=
  ht.ask (fun h => h.command payload) fun _ => rfl

/-- What an answer is made of keeps hosts doubles. -/
theorem answersKeep (c : P.Conn) : AnswersKeep (Doubles (P := P)) c where
  note ht n := ht.note n n
  setQuery ht := ht.setQuery
  setGlobal ht := ht.setGlobal
  load ht := ht.load
  call ht := ht.call
  release ht := ht.release
  collect ht := ht.collect
  command ht := ht.command
  write ht := ht.write c

/-! ### Finding what is asked for -/

theorem opensNonempty (ht : Doubles g h) (path : String) :
    ConcurIn Doubles (g.opensNonempty path) (h.opensNonempty path) := by
  unfold Host.opensNonempty
  refine (ht.openFile path).elim fun r g₁ h₁ ht₁ => ?_
  cases r with
  | error e => exact ⟨rfl, ht₁⟩
  | ok file =>
    simp only
    refine (ht₁.fileSize file).elim fun size g₂ h₂ ht₂ => ?_
    exact ⟨rfl, ht₂.closeFile file⟩

theorem firstNonempty (ht : Doubles g h) (dir : String) (names : List String) :
    ConcurIn Doubles (Host.firstNonempty dir names g) (Host.firstNonempty dir names h) := by
  induction names generalizing g h with
  | nil => exact ⟨rfl, ht⟩
  | cons name names ih =>
    simp only [Host.firstNonempty]
    refine (ht.opensNonempty (dir ++ "/" ++ name)).elim fun found g₁ h₁ ht₁ => ?_
    cases found with
    | true => exact ⟨rfl, ht₁⟩
    | false => exact ih ht₁

theorem find (ht : Doubles g h) (config : Config) (uri : String) :
    ConcurIn Doubles (Route.find config uri g) (Route.find config uri h) := by
  unfold Route.find
  cases Content.pathUnder? config.contentRoot uri with
  | none => exact ⟨rfl, ht.note _ _⟩
  | some path =>
    have hdir : ConcurIn Doubles (Route.isDirectory path g) (Route.isDirectory path h) := by
      unfold Route.isDirectory
      split
      · exact ⟨rfl, ht⟩
      · exact ht.isDirectory path
    simp only
    refine hdir.elim fun isDir g₁ h₁ ht₁ => ?_
    cases isDir with
    | false => exact ⟨rfl, ht₁⟩
    | true =>
      simp only [Host.indexOf]
      refine (ht₁.firstNonempty _ _).elim fun index g₂ h₂ ht₂ => ?_
      cases index with
      | none => exact ⟨rfl, ht₂⟩
      | some index => exact ⟨rfl, ht₂⟩

/-! ### Jobs -/

theorem beginFile (ht : Doubles g h) (conn : P.Conn) (path : String) (chunk : Nat) :
    ConcurIn Doubles (FileJob.begin conn path chunk g) (FileJob.begin conn path chunk h) := by
  unfold FileJob.begin
  refine (ht.openFile path).elim fun r g₁ h₁ ht₁ => ?_
  cases r with
  | error e => cases e <;> exact ⟨rfl, ht₁.note _ _⟩
  | ok file =>
    simp only
    refine (ht₁.fileSize file).elim fun r g₂ h₂ ht₂ => ?_
    cases r with
    | error e => exact ⟨rfl, (ht₂.note _ _).closeFile file⟩
    | ok size =>
      simp only
      refine (ht₂.write conn _).elim fun r g₃ h₃ ht₃ => ?_
      cases r with
      | ok u => exact ⟨rfl, ht₃⟩
      | error e => exact ⟨rfl, ht₃.note _ _⟩

theorem beginScript (ht : Doubles g h) (conn : P.Conn) (path : String) (query : Query) :
    ConcurIn Doubles (ScriptJob.begin conn path query g) (ScriptJob.begin conn path query h) := by
  unfold ScriptJob.begin
  refine ((ht.setQuery query).load path).elim fun r g₁ h₁ ht₁ => ?_
  cases r with
  | error e =>
    cases e with
    | outOfMemory => exact ⟨rfl, (ht₁.note _ _).collect⟩
    | _ => exact ⟨rfl, ht₁.note _ _⟩
  | ok script =>
    simp only
    refine (ht₁.write conn _).elim fun r g₂ h₂ ht₂ => ?_
    cases r with
    | ok u => exact ⟨rfl, ht₂⟩
    | error e => exact ⟨rfl, ht₂.note _ _⟩

end Doubles

/-- The same results, and hosts that differ in their logs alone. -/
structure Concur₂ {α β : Type} (x y : α × β × Host P) : Prop where
  first : x.1 = y.1
  second : ConcurIn Doubles x.2 y.2

@[elab_as_elim]
theorem Concur₂.elim {α β : Type} {motive : α × β × Host P → α × β × Host P → Prop}
    {x y : α × β × Host P} (hxy : Concur₂ x y)
    (same : ∀ r s g h, Doubles g h → motive (r, s, g) (r, s, h)) : motive x y := by
  obtain ⟨r, s, g⟩ := x
  obtain ⟨r', s', h⟩ := y
  obtain ⟨hfirst, hsecond, ht⟩ := hxy
  obtain rfl : r = r' := hfirst
  obtain rfl : s = s' := hsecond
  exact same r s g h ht

namespace Doubles

variable {g h : Host P}

theorem stepFile (ht : Doubles g h) (job : FileJob P) (conn : P.Conn) :
    Concur₂ (job.step conn g) (job.step conn h) := by
  unfold FileJob.step
  split
  · exact ⟨rfl, rfl, ht⟩
  · refine (ht.readFile job.file job.chunk).elim fun r g₁ h₁ ht₁ => ?_
    obtain ⟨bs, file⟩ := r
    rcases bs with e | ⟨_ | ⟨b, bs⟩⟩
    · exact ⟨rfl, rfl, ht₁.note _ _⟩
    · exact ⟨rfl, rfl, ht₁⟩
    · simp only
      refine (ht₁.write conn (b :: bs)).elim fun r g₂ h₂ ht₂ => ?_
      cases r with
      | error e => exact ⟨rfl, rfl, ht₂.note _ _⟩
      | ok u => exact ⟨rfl, rfl, ht₂⟩

theorem cut (ht : Doubles g h) (bs : Bytes) (limit : Nat) :
    ConcurIn Doubles (ScriptJob.cut bs limit g) (ScriptJob.cut bs limit h) := by
  unfold ScriptJob.cut
  split
  · exact ⟨rfl, ht.note _ _⟩
  · exact ⟨rfl, ht⟩

theorem stepScript (ht : Doubles g h) (job : ScriptJob P) (conn : P.Conn) (outputSize : Nat)
    (stepLimit : UInt32) :
    Concur₂ (job.step conn outputSize stepLimit g) (job.step conn outputSize stepLimit h) := by
  unfold ScriptJob.step
  split
  · exact ⟨rfl, rfl, ht.note _ _⟩
  · refine (ht.call job.script).elim fun r g₁ h₁ ht₁ => ?_
    obtain ⟨result, script⟩ := r
    rcases result with e | ⟨_ | piece⟩
    · exact ⟨rfl, rfl, ht₁.collect.note _ _⟩
    · exact ⟨rfl, rfl, ht₁.collect⟩
    · simp only
      split
      · exact ⟨rfl, rfl, ht₁.collect⟩
      · refine (ht₁.collect.cut (Utf8.encode piece) outputSize).elim fun bs g₂ h₂ ht₂ => ?_
        refine (ht₂.write conn bs).elim fun r g₃ h₃ ht₃ => ?_
        cases r with
        | ok u => exact ⟨rfl, rfl, ht₃⟩
        | error e => exact ⟨rfl, rfl, ht₃.note _ _⟩

theorem finish (ht : Doubles g h) (job : Job P) : Doubles (job.finish g) (job.finish h) := by
  cases job with
  | file job => exact ht.closeFile job.file
  | script job => exact (ht.release job.script).collect

end Doubles

end Host

end Microweb
