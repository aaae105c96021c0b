import Microweb.Proofs.Overheard
import Microweb.Proofs.Run
import Microweb.Proofs.Steps
import Microweb.Proofs.Stock

/-!
How much of a file is written. The size of a file is taken once, for the head, and the body is what
the reads bring afterwards, on a volume that may say one thing and read another. Each piece is begun
within the size; but a piece is written as it was read, and so the last one may pass it.
-/

namespace Microweb

variable {P : Platform}

/-! ### One step -/

namespace FileJob

/-- What a step reads. -/
def brings (job : FileJob P) (h : Host P) : Bytes :=
  if job.size ≤ job.sent then []
  else match (h.readFile job.file job.chunk).1.1 with
    | .ok bs => bs
    | .error _ => []

/-- **A step writes all that it reads**, and reads only while less than the size is sent. -/
structure Writes (conn : P.Conn) (job : FileJob P.overheard) (h : Host P.overheard)
    (r : Progress × FileJob P.overheard × Host P.overheard) : Prop where
  size : r.2.1.size = job.size
  chunk : r.2.1.chunk = job.chunk
  trace : r.2.2.network.trace =
    ((if (job.brings h).isEmpty then [] else [(conn, job.brings h)]) : List (P.Conn × Bytes)) ++
      h.network.trace
  within : job.brings h ≠ [] → job.sent < job.size
  more : r.1 = .more → r.2.1.sent = job.sent + (job.brings h).length

theorem writes_step (conn : P.Conn) (job : FileJob P.overheard) (h : Host P.overheard) :
    job.Writes conn h (job.step conn h) := by
  by_cases hsent : job.size ≤ job.sent
  · have hnone : job.brings h = [] := if_pos hsent
    have hstep : job.step conn h = (.done, job, h) := by
      unfold step
      exact if_pos hsent
    rw [hstep]
    refine ⟨rfl, rfl, ?_, fun hne => absurd hnone hne, by nofun⟩
    rw [hnone]
    rfl
  · have hbrings : job.brings h = match (h.readFile job.file job.chunk).1.1 with
        | .ok bs => bs
        | .error _ => [] := if_neg hsent
    have hlt : job.sent < job.size := by omega
    have htrace : (h.readFile job.file job.chunk).2.network = h.network := rfl
    unfold step
    rw [if_neg hsent]
    split
    · next e file h₁ heq =>
      rw [heq] at hbrings htrace
      refine ⟨rfl, rfl, ?_, fun _ => hlt, by nofun⟩
      rw [hbrings]
      exact congrArg Recorded.trace htrace
    · next file h₁ heq =>
      rw [heq] at hbrings htrace
      refine ⟨rfl, rfl, ?_, fun _ => hlt, by nofun⟩
      rw [hbrings]
      exact congrArg Recorded.trace htrace
    · next bs file h₁ hne heq =>
      rw [heq] at hbrings htrace
      have hnonempty : bs ≠ [] := by
        intro hnil
        subst hnil
        exact hne rfl
      have hwritten : (h₁.write conn bs).2.network.trace = (conn, bs) :: h.network.trace :=
        congrArg (fun n => (conn, bs) :: Recorded.trace n) htrace
      have hentry : (if (job.brings h).isEmpty then [] else [(conn, job.brings h)] :
          List (P.Conn × Bytes)) = [(conn, bs)] := by
        rw [hbrings, if_neg (by simpa using hnonempty)]
      split
      · next e h₂ heq₂ =>
        rw [heq₂] at hwritten
        refine ⟨rfl, rfl, ?_, fun _ => hlt, by nofun⟩
        rw [hentry]
        exact hwritten
      · next h₂ heq₂ =>
        rw [heq₂] at hwritten
        refine ⟨rfl, rfl, ?_, fun _ => hlt, fun _ => ?_⟩
        · rw [hentry]
          exact hwritten
        · rw [hbrings]

/-! ### The life of a job -/

/-- **The life of a file job** on a connection, while anything else may happen between its steps:
the size that it took for the head, what each of its steps read, what it wrote, and whether it has
more to come. -/
inductive Life (conn : P.Conn) (path : String) (chunk : Nat) :
    Nat → List Bytes → List (P.Conn × Bytes) → FileJob P.overheard → Progress → Prop
  | begin {h h' : Host P.overheard} {job : FileJob P.overheard} {new : List (P.Conn × Bytes)}
    (heq : FileJob.begin (P := P.overheard) conn path chunk h = (.streaming job, h'))
    (hgrew : h'.network.trace = new ++ h.network.trace) :
    Life conn path chunk job.size [] new.reverse job .more
  | step {size : Nat} {brought : List Bytes} {written new : List (P.Conn × Bytes)}
    {job : FileJob P.overheard} (hlife : Life conn path chunk size brought written job .more)
    (h : Host P.overheard)
    (hgrew : (job.step conn h).2.2.network.trace = new ++ h.network.trace) :
    Life conn path chunk size (brought ++ [job.brings h]) (written ++ new.reverse)
      (job.step conn h).2.1 (job.step conn h).1

/-- Each piece is begun within the size. -/
def BegunWithin (size : Nat) (pieces : List Bytes) : Prop :=
  ∀ before piece after, pieces = before ++ piece :: after → before.flatten.length < size

theorem BegunWithin.concat {size : Nat} {pieces : List Bytes} {piece : Bytes}
    (hp : BegunWithin size pieces) (hlt : pieces.flatten.length < size) :
    BegunWithin size (pieces ++ [piece]) := by
  intro before p after heq
  rcases List.eq_nil_or_concat after with rfl | ⟨rest, last, rfl⟩
  · obtain ⟨rfl, -⟩ := List.append_inj' heq rfl
    exact hlt
  · have hsplit : pieces ++ [piece] = (before ++ p :: rest) ++ [last] := by
      rw [heq]
      simp
    obtain ⟨rfl, -⟩ := List.append_inj' hsplit rfl
    exact hp before p rest rfl

/-- The pieces that a job has written behind the head. -/
structure Streams (conn : P.Conn) (path : String) (chunk size : Nat) (brought : List Bytes)
    (written : List (P.Conn × Bytes)) (job : FileJob P.overheard) (progress : Progress)
    (pieces : List Bytes) : Prop where
  size_eq : job.size = size
  chunk_eq : job.chunk = chunk
  written_eq : written =
    (conn, Reply.contentHead (Content.typeOf (Content.suffix? path)) (some size)) ::
      pieces.map fun piece => (conn, piece)
  flatten_eq : pieces.flatten = brought.flatten
  begun : BegunWithin size pieces
  subset : pieces ⊆ brought
  sent_eq : progress = .more → job.sent = pieces.flatten.length

variable {conn : P.Conn} {path : String} {chunk size : Nat} {brought : List Bytes}
  {written : List (P.Conn × Bytes)} {job : FileJob P.overheard} {progress : Progress}

/-- A job that streams has written the head, and nothing else. -/
theorem trace_begin {h h' : Host P.overheard}
    (heq : FileJob.begin (P := P.overheard) conn path chunk h = (.streaming job, h')) :
    job.chunk = chunk ∧ job.sent = 0 ∧ h'.network.trace =
      (conn, Reply.contentHead (Content.typeOf (Content.suffix? path)) (some job.size)) ::
        h.network.trace := by
  unfold FileJob.begin at heq
  split at heq
  · cases heq
  · cases heq
  · next file h₁ hopen =>
    obtain ⟨-, rfl⟩ := Prod.ext_iff.mp hopen
    split at heq
    · cases heq
    · next n h₂ hsize =>
      obtain ⟨-, rfl⟩ := Prod.ext_iff.mp hsize
      simp only at heq
      split at heq
      · next h₃ hwrite =>
        obtain ⟨-, rfl⟩ := Prod.ext_iff.mp hwrite
        cases heq
        exact ⟨rfl, rfl, rfl⟩
      · cases heq

theorem streams_of_life (hlife : Life conn path chunk size brought written job progress) :
    ∃ pieces, Streams conn path chunk size brought written job progress pieces := by
  induction hlife with
  | @begin h h' job new heq hgrew =>
    obtain ⟨hchunk, hsent, htrace⟩ := trace_begin heq
    rw [htrace, ← List.singleton_append] at hgrew
    obtain rfl := List.append_cancel_right hgrew
    exact ⟨[], rfl, hchunk, rfl, rfl, by simp [BegunWithin], List.Subset.refl _, fun _ => hsent⟩
  | @step size brought written new job _ h hgrew ih =>
    obtain ⟨pieces, hs⟩ := ih
    have hw := writes_step conn job h
    rw [hw.trace] at hgrew
    obtain rfl := List.append_cancel_right hgrew
    by_cases hnone : job.brings h = []
    · refine ⟨pieces, hw.size.trans hs.size_eq, hw.chunk.trans hs.chunk_eq, ?_, ?_, hs.begun, ?_,
        fun hmore => ?_⟩
      · rw [hnone]
        simpa using hs.written_eq
      · rw [hnone]
        simpa using hs.flatten_eq
      · exact List.Subset.trans hs.subset (List.subset_append_left _ _)
      · rw [hw.more hmore, hnone, hs.sent_eq rfl]
        rfl
    · refine ⟨pieces ++ [job.brings h], hw.size.trans hs.size_eq, hw.chunk.trans hs.chunk_eq, ?_,
        ?_, hs.begun.concat ?_, ?_, fun hmore => ?_⟩
      · rw [if_neg (by simpa using hnone), hs.written_eq]
        simp
      · simp [hs.flatten_eq]
      · rw [← hs.sent_eq rfl, ← hs.size_eq]
        exact hw.within hnone
      · exact List.append_subset.mpr ⟨List.Subset.trans hs.subset (List.subset_append_left _ _),
          List.subset_append_right _ _⟩
      · rw [hw.more hmore, hs.sent_eq rfl]
        simp

/-- What a step reads has the room that it was given. -/
theorem length_brings_le (hV : P.volume.Lawful) (job : FileJob P) (h : Host P) :
    (job.brings h).length ≤ job.chunk := by
  unfold brings
  split
  · exact Nat.zero_le _
  · split
    · next bs heq => exact hV.length_read _ _ _ _ _ _ (Prod.ext (Prod.ext heq rfl) rfl)
    · exact Nat.zero_le _

theorem length_le_of_life (hV : P.volume.Lawful)
    (hlife : Life conn path chunk size brought written job progress) :
    ∀ bs ∈ brought, bs.length ≤ chunk := by
  induction hlife with
  | begin => nofun
  | @step size brought written new job hlife h _ ih =>
    obtain ⟨pieces, hs⟩ := streams_of_life hlife
    intro bs hbs
    obtain hbs | hbs := List.mem_append.mp hbs
    · exact ih bs hbs
    · obtain rfl := List.mem_singleton.mp hbs
      rw [← hs.chunk_eq]
      exact length_brings_le (P := P.overheard) ⟨hV.length_read⟩ job h

/-- **How much of a file is written.** Whatever the volume says of the size of the file and whatever
its reads bring afterwards, whatever becomes of the writes, and whatever happens between two steps,
a job writes the head with the size, and then just what it reads, piece by piece. So the body keeps
to the size exactly if its reads do not bring more altogether. In any case each piece is begun
within the size: all but the last stay within it, and if reads keep to the room they are given, the
last passes it by less than that room. -/
theorem body_begun_within (hlife : Life conn path chunk size brought written job progress) :
    ∃ pieces : List Bytes,
      written = (conn, Reply.contentHead (Content.typeOf (Content.suffix? path)) (some size)) ::
        pieces.map (fun piece => (conn, piece)) ∧
      pieces.flatten = brought.flatten ∧
      (pieces.flatten.length ≤ size ↔ brought.flatten.length ≤ size) ∧
      (∀ before piece after, pieces = before ++ piece :: after → before.flatten.length < size) ∧
      (P.volume.Lawful → pieces ≠ [] → pieces.flatten.length < size + chunk) := by
  obtain ⟨pieces, hs⟩ := streams_of_life hlife
  refine ⟨pieces, hs.written_eq, hs.flatten_eq, by rw [hs.flatten_eq], hs.begun, fun hV hne => ?_⟩
  obtain ⟨before, last, rfl⟩ := (List.eq_nil_or_concat pieces).resolve_left hne
  have hlast : last.length ≤ chunk :=
    length_le_of_life hV hlife last (hs.subset (by simp))
  have hbefore : before.flatten.length < size := hs.begun before last [] (by simp)
  simp only [List.concat_eq_append, List.flatten_append, List.flatten_cons, List.flatten_nil,
    List.append_nil, List.length_append]
  omega

end FileJob

/-! ### The jobs of a server -/

namespace Client

/-- The job of a connection, if it is one for a file, lives on it. A job whose head could not be
written is ended at once. -/
def FileLives (chunk : Nat) (c : Client P.overheard) : Prop :=
  match c.stage with
  | .streaming (.file job) => ∃ conn path size brought written, c.conn = some conn ∧
    FileJob.Life (P := P) conn path chunk size brought written job .more
  | .ending (some (.file job)) => ∃ conn path, c.conn = some conn ∧
    ((∃ size brought written progress,
        FileJob.Life (P := P) conn path chunk size brought written job progress) ∨
      ∃ h h', FileJob.begin (P := P.overheard) conn path chunk h = (.done (some job), h'))
  | _ => True

variable {c : Client P.overheard} {config : Config}

theorem fileLives_step (hc : c.FileLives config.chunkSize) (peers : Peers P.Conn)
    (h : Host P.overheard) : (c.step config peers h).1.FileLives config.chunkSize := by
  unfold Client.step
  split
  · have hr := c.received_receive config peers h
    generalize c.receive config peers h = r at hr ⊢
    obtain ⟨c', r⟩ := r
    cases hr <;> trivial
  · next target _ =>
    have hs := c.started_start config target h
    generalize c.start config target h = r at hs ⊢
    cases hs with
    | @file path conn job h' hconn heq =>
      obtain ⟨-, -, htrace⟩ := FileJob.trace_begin heq
      exact ⟨conn, path, _, _, _, hconn, .begin heq (htrace.trans List.singleton_append.symm)⟩
    | @fileEnds path conn job h' hconn heq => exact ⟨conn, path, hconn, .inr ⟨h, h', heq⟩⟩
    | _ => trivial
  · next job hstage =>
    unfold FileLives at hc
    rw [hstage] at hc
    cases job with
    | script job =>
      split
      · have hs := c.streamed_stream config (.script job) h
        generalize c.stream config (.script job) h = r at hs ⊢
        cases hs <;> trivial
      · trivial
    | file job =>
      obtain ⟨conn, path, size, brought, written, hconn, hlife⟩ := hc
      have hnext := hlife.step h (FileJob.writes_step (P := P) conn job h).trace
      split
      · have hs := c.streamed_stream config (.file job) h
        generalize c.stream config (.file job) h = r at hs ⊢
        cases hs with
        | left => exact ⟨conn, path, hconn, .inl ⟨size, brought, written, _, hlife⟩⟩
        | @file conn' hconn' _ hmore =>
          obtain rfl := Option.some.inj (hconn.symm.trans hconn')
          rw [hmore] at hnext
          exact ⟨conn, path, _, _, _, hconn, hnext⟩
        | @fileEnds conn' hconn' =>
          obtain rfl := Option.some.inj (hconn.symm.trans hconn')
          exact ⟨conn, path, hconn, .inl ⟨_, _, _, _, hnext⟩⟩
      · exact ⟨conn, path, hconn, .inl ⟨size, brought, written, _, hlife⟩⟩
  · trivial
  · trivial
  · exact hc

end Client

namespace Server

variable {A : Surroundings P.overheard} {s s₀ : Server P.overheard}

/-- **Every file job of a server lives**, at every moment of every run. -/
theorem fileLives_runs {config : Config} {network : P.overheard.network.State}
    {volume : P.volume.State} {interpreter : P.interpreter.State} {board : P.peripherals.State}
    (hnew : Server.new (P := P.overheard) config network volume interpreter board = .ok s₀)
    (hrun : Runs A s₀ s) : ∀ c ∈ s.slots.items, c.FileLives config.chunkSize := by
  obtain ⟨-, rfl⟩ := new_eq_ok_iff.mp hnew
  have hall := forall_items_runs (I := fun config c => c.FileLives config.chunkSize)
    (fun _ _ => trivial) (fun _ _ peers h hc _ => Client.fileLives_step hc peers h)
    (fun c hc => ?_) hrun
  · rwa [Runs.config_eq hrun] at hall
  · rw [Slots.items_free] at hc
    cases hc

end Server

/-! ### A file that has grown -/

namespace Bench

theorem Flash.lawful : Flash.volume.Lawful where
  length_read file file' room flash flash' bs heq := by
    simp only [Flash.volume, Flash.read] at heq
    split at heq
    · cases heq
    · cases heq
      exact List.length_take_le _ _

theorem Faulty.lawful {V : Volume} (hV : V.Lawful) : (Faulty.volume V).Lawful where
  length_read file file' room s s' bs heq := by
    simp only [Faulty.volume, Faulty.read] at heq
    split at heq
    · cases heq
    · simp only [Prod.mk.injEq] at heq
      have hread := hV.length_read _ _ _ _ _ _ (Prod.ext (Prod.ext heq.1.1 rfl) rfl)
      refine hread.trans ?_
      split
      · exact Nat.min_le_right _ _
      · exact Nat.le_refl _

end Bench

namespace Overrun

open Bench

/-- The flash has ten bytes of a file, of which it says that they are eight, and reads six at most
at a time. -/
def flash : Faulty Flash :=
  ⟨Flash.empty.withFile "/html/a.txt" (Utf8.encode "0123456789"),
    { VolumeFaults.none with sizes := [("/html/a.txt", .ok 8)], readLimit := some 6 }, 0⟩

/-- A client asks for the file. -/
def queue : Server shelf :=
  ((onShelf Config.default flash .empty).onNetwork fun ws =>
    ws.connect (clientAddress 1)).onNetwork (ask 0 "/a.txt")

/-- The body is longer than the head says. -/
theorem not_within_size :
    (Server.tick^[5] queue).host.network.list.map (fun w => (w.closed, w.written.reverse)) =
        [(true, [Reply.contentHead "text/plain" (some 8), Utf8.encode "012345",
          Utf8.encode "6789"])] ∧
      ¬ [Utf8.encode "012345", Utf8.encode "6789"].flatten.length ≤ 8 := by
  decide +kernel

def conn : Handle := ⟨0, clientAddress 1⟩

/-- A host on which that client has connected. -/
def host : Host shelf.overheard where
  network := .start (Wires.empty.connect (clientAddress 1))
  volume := flash
  interpreter := .empty
  board := .fresh 4
  control := .start Config.default.timeouts
  uptime := 0
  log := []

def job : FileJob shelf.overheard := ⟨⟨⟨"/html/a.txt", 0⟩, "/html/a.txt"⟩, 8, 0, 1024⟩

/-- The host after the head, and after a piece. -/
def opened : Host shelf.overheard :=
  (FileJob.begin (P := shelf.overheard) conn "/html/a.txt" 1024 host).2

def half : Progress × FileJob shelf.overheard × Host shelf.overheard := job.step conn opened

theorem body_begun_within_grown : ∃ written ended progress, ∃ pieces : List Bytes,
    FileJob.Life (P := shelf) conn "/html/a.txt" 1024 8
        [Utf8.encode "012345", Utf8.encode "6789"] written ended progress ∧
      written = (conn, Reply.contentHead "text/plain" (some 8)) ::
        pieces.map (fun piece => (conn, piece)) ∧
      pieces.flatten = Utf8.encode "0123456789" ∧ pieces.flatten.length < 8 + 1024 := by
  have hbegin : FileJob.begin (P := shelf.overheard) conn "/html/a.txt" 1024 host =
      (.streaming job, opened) := Prod.ext rfl rfl
  obtain ⟨-, -, htrace⟩ := FileJob.trace_begin (P := shelf) hbegin
  have hlife : FileJob.Life (P := shelf) conn "/html/a.txt" 1024 8 [] _ job .more :=
    .begin hbegin (htrace.trans List.singleton_append.symm)
  have hfirst := hlife.step opened (FileJob.writes_step (P := shelf) conn job opened).trace
  have hmore : (job.step conn opened).1 = .more := by decide +kernel
  rw [hmore] at hfirst
  have hbrought : [] ++ [job.brings opened] ++ [half.2.1.brings half.2.2] =
      [Utf8.encode "012345", Utf8.encode "6789"] := by decide +kernel
  have htype : Content.typeOf (Content.suffix? "/html/a.txt") = "text/plain" := by decide +kernel
  have hcontent : [Utf8.encode "012345", Utf8.encode "6789"].flatten =
      Utf8.encode "0123456789" := by decide +kernel
  have hlast : FileJob.Life (P := shelf) conn "/html/a.txt" 1024 8
      ([] ++ [job.brings opened] ++ [half.2.1.brings half.2.2]) _ _ _ :=
    hfirst.step half.2.2 (FileJob.writes_step (P := shelf) conn half.2.1 half.2.2).trace
  rw [hbrought] at hlast
  obtain ⟨pieces, hwritten, hflatten, -, -, hlawful⟩ := FileJob.body_begun_within hlast
  rw [htype] at hwritten
  rw [hcontent] at hflatten
  refine ⟨_, _, _, pieces, hlast, hwritten, hflatten, ?_⟩
  refine hlawful (Faulty.lawful Flash.lawful) fun hnil => ?_
  rw [hnil] at hflatten
  exact absurd hflatten (by decide +kernel)

end Overrun

end Microweb
