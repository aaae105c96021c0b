import Microweb.Proofs.Routes

/-!
No script is sent as a file. What is read of the volume is read of files that were opened for a
response, on paths that name no script: index files that are looked for are opened and closed without
a read, whatever their suffix.
-/

namespace Microweb

/-! ### Files by number -/

namespace FileEvent

/-- The file of a number was opened on a path. -/
def OpenedOn (t : List FileEvent) (n : Nat) (path : String) : Prop :=
  ∃ earlier, .opened path :: earlier <:+ t ∧ (ledger earlier).issued = n

variable {t t' : List FileEvent} {n : Nat} {path path' : String}

theorem OpenedOn.mono (h : OpenedOn t n path) (ht : t <:+ t') : OpenedOn t' n path := by
  obtain ⟨earlier, hsuffix, hn⟩ := h
  exact ⟨earlier, hsuffix.trans ht, hn⟩

/-- A file was opened on one path. -/
theorem OpenedOn.unique (h : OpenedOn t n path) (h' : OpenedOn t n path') : path = path' := by
  obtain ⟨earlier, hsuffix, hn⟩ := h
  obtain ⟨earlier', hsuffix', hn'⟩ := h'
  -- Of two openings the later one has the greater number.
  have hlater : ∀ {e e' : List FileEvent} {p q : String}, .opened p :: e <:+ .opened q :: e' →
      (ledger e).issued = (ledger e').issued → p = q := by
    intro e e' p q hle hnumber
    rcases List.suffix_cons_iff.mp hle with heq | hlt
    · obtain ⟨hp, -⟩ := List.cons.inj heq
      exact FileEvent.opened.inj hp
    · have hmore := ledger_issued_le hlt
      rw [ledger_opened] at hmore
      have : (ledger e).issued + 1 ≤ (ledger e').issued := hmore
      omega
  rcases List.suffix_or_suffix_of_suffix hsuffix hsuffix' with hle | hle
  · exact hlater hle (hn.trans hn'.symm)
  · exact (hlater hle (hn'.trans hn.symm)).symm

/-- The file of a number was opened on a path that names no script. -/
def Static (t : List FileEvent) (n : Nat) : Prop :=
  ∃ path, OpenedOn t n path ∧ ¬ Content.NamesScript path

theorem Static.mono (h : Static t n) (ht : t <:+ t') : Static t' n := by
  obtain ⟨path, hopened, hstatic⟩ := h
  exact ⟨path, hopened.mono ht, hstatic⟩

/-- All that was read was read of such files. -/
def ReadsStatic (t : List FileEvent) : Prop := ∀ n, .read n ∈ t → Static t n

/-- The entry is no read, unless of a file of such a number. -/
def ReadsOf (such : Nat → Prop) (e : FileEvent) : Prop := ∀ n, e = .read n → such n

theorem ReadsStatic.grew {such : Nat → Prop} (h : ReadsStatic t)
    (hgrew : Grew (fun e _ => ReadsOf such e) t t') (hsuch : ∀ n, such n → Static t' n) :
    ReadsStatic t' := by
  intro n hmem
  obtain ⟨since, earlier, rfl⟩ := List.append_of_mem hmem
  rcases List.suffix_or_suffix_of_suffix hgrew.suffix
    (List.suffix_append since (.read n :: earlier)) with hold | hnew
  · rcases List.suffix_cons_iff.mp hold with rfl | hold
    · exact (h n List.mem_cons_self).mono hgrew.suffix
    · exact hsuch n (hgrew.entries _ earlier (List.suffix_append _ _) hold n rfl)
  · exact (h n (hnew.subset List.mem_cons_self)).mono hgrew.suffix

theorem readsOf_within {paths : String → Prop} {such : Nat → Prop} {e : FileEvent}
    (he : Within paths False e) : ReadsOf such e := by
  rintro n rfl
  cases he with
  | read n hs => exact hs.elim

end FileEvent

/-! ### What a step reads -/

variable {P : Platform}

/-- All may be asked of anyone, but nothing is read and nothing is called for a request. -/
def Scope.still (P : Platform) : Scope P :=
  ⟨fun _ => True, fun _ _ => True, fun _ => True, fun _ => True, fun _ => True, fun _ => True, False⟩

theorem Scope.uses_still (c : P.Conn) : (still P).Uses false c := ⟨trivial, fun _ _ => trivial, nofun⟩

theorem Scope.serves_still (config : Config) : (still P).Serves config :=
  ⟨config.leadsTo_true, fun _ _ _ => trivial⟩

/-- Where nothing is read, nothing on record is a read. -/
theorem Scope.Reaches.unread {g h : Host P.recorded} (hr : (Scope.still _).Reaches g h)
    (such : Nat → Prop) :
    Grew (fun e _ => FileEvent.ReadsOf such e) g.volume.trace h.volume.trace :=
  hr.files.mono fun _ _ he => FileEvent.readsOf_within he

/-- **A job that is begun** has the file that was opened for it. -/
theorem FileJob.openedOn_begin {conn : P.recorded.Conn} {path : String} {chunk : Nat}
    {h h' : Host P.recorded} {job : FileJob P.recorded}
    (heq : begin conn path chunk h = (.streaming job, h')) :
    FileEvent.OpenedOn h'.volume.trace job.file.number path := by
  unfold begin at heq
  split at heq
  · cases heq
  · cases heq
  · next f h₁ hopen =>
    have hvolume : P.volume.recorded.openFile path h.volume = (.ok f, h₁.volume) := by
      obtain ⟨hresult, rfl⟩ := Prod.ext_iff.mp hopen
      exact Prod.ext hresult rfl
    obtain ⟨hnumber, htrace⟩ := Volume.recorded_openFile_ok hvolume
    have hopened : FileEvent.OpenedOn h₁.volume.trace f.number path :=
      ⟨h.volume.trace, htrace ▸ List.suffix_refl _, hnumber.symm⟩
    split at heq
    · cases heq
    · next size h₂ hsize =>
      obtain ⟨-, rfl⟩ := Prod.ext_iff.mp hsize
      simp only at heq
      split at heq
      · next h₃ hwrite =>
        obtain ⟨-, rfl⟩ := Prod.ext_iff.mp hwrite
        cases heq
        exact hopened.mono (List.suffix_cons _ _)
      · cases heq

/-- **A piece of a file** is read of the file of its job. -/
theorem FileJob.reads_step (job : FileJob P.recorded) (conn : P.recorded.Conn)
    (h : Host P.recorded) : (job.step conn h).2.1.file.number = job.file.number ∧
      Grew (fun e _ => FileEvent.ReadsOf (· = job.file.number) e) h.volume.trace
        (job.step conn h).2.2.volume.trace := by
  have hread : Grew (fun e _ => FileEvent.ReadsOf (· = job.file.number) e) h.volume.trace
      (.read job.file.number :: h.volume.trace) := by
    refine (Grew.refl _ _).cons ?_
    rintro n ⟨⟩
    rfl
  unfold step
  split
  · exact ⟨rfl, .refl _ _⟩
  · split
    · next e f h₁ heq =>
      obtain ⟨hresult, rfl⟩ := Prod.ext_iff.mp heq
      obtain ⟨-, rfl⟩ := Prod.ext_iff.mp hresult
      exact ⟨rfl, hread⟩
    · next f h₁ heq =>
      obtain ⟨hresult, rfl⟩ := Prod.ext_iff.mp heq
      obtain ⟨-, rfl⟩ := Prod.ext_iff.mp hresult
      exact ⟨rfl, hread⟩
    · next bs f h₁ _ heq =>
      obtain ⟨hresult, rfl⟩ := Prod.ext_iff.mp heq
      obtain ⟨-, rfl⟩ := Prod.ext_iff.mp hresult
      split
      · next e h₂ hwrite =>
        obtain ⟨-, rfl⟩ := Prod.ext_iff.mp hwrite
        exact ⟨rfl, hread⟩
      · next h₂ hwrite =>
        obtain ⟨-, rfl⟩ := Prod.ext_iff.mp hwrite
        exact ⟨rfl, hread⟩

/-- A step of a script leaves the volume alone. -/
theorem ScriptJob.volume_step (job : ScriptJob P) (conn : P.Conn) (outputSize : Nat)
    (stepLimit : UInt32) (h : Host P) :
    (job.step conn outputSize stepLimit h).2.2.volume = h.volume := by
  unfold step
  split
  · rfl
  · simp only
    split
    · rfl
    · rfl
    · next piece _ =>
      split
      · rfl
      · obtain ⟨-, -, hcut, -⟩ :=
          cut_frame (Utf8.encode piece) outputSize (h.call job.script).2.collect
        split
        · next h₁ hwrite =>
          obtain ⟨-, rfl⟩ := Prod.ext_iff.mp hwrite
          exact hcut
        · next e h₁ hwrite =>
          obtain ⟨-, rfl⟩ := Prod.ext_iff.mp hwrite
          exact hcut

namespace Client

/-- A file is being sent, which has the number. -/
def Sends (c : Client P.recorded) (n : Nat) : Prop :=
  ∃ job, c.stage = .streaming (.file job) ∧ job.file.number = n

variable {c : Client P.recorded} {config : Config} {peers : Peers P.recorded.Conn}
  {h : Host P.recorded}

/-- **A step reads** of the file that is being sent alone. -/
theorem reads_step (c : Client P.recorded) (config : Config) (peers : Peers P.recorded.Conn)
    (h : Host P.recorded) : Grew (fun e _ => FileEvent.ReadsOf c.Sends e) h.volume.trace
      (c.step config peers h).2.2.volume.trace := by
  have hstart := Scope.Reaches.refl (Scope.still P.recorded) h
  unfold step
  split
  · exact (hstart.clientReceive (fun conn _ => Scope.uses_still conn) (fun _ _ => trivial)
      (Scope.serves_still config)).unread _
  · next target _ =>
    have haim : (Scope.still P.recorded).Admits target := by
      cases target <;> trivial
    exact (hstart.start (fun conn _ => Scope.uses_still conn) haim config).unread _
  · next job hstage =>
    split
    · have hs := streamed_stream c config job h
      generalize c.stream config job h = p at hs ⊢
      cases hs with
      | left => exact .refl _ _
      | @file conn hconn job =>
        refine (job.reads_step conn h).2.mono fun e _ he n hn => ?_
        exact ⟨job, hstage, (he n hn).symm⟩
      | @fileEnds conn hconn job =>
        refine (job.reads_step conn h).2.mono fun e _ he n hn => ?_
        exact ⟨job, hstage, (he n hn).symm⟩
      | script hconn job =>
        dsimp only
        rw [ScriptJob.volume_step]
        exact .refl _ _
      | scriptEnds hconn job =>
        dsimp only
        rw [ScriptJob.volume_step]
        exact .refl _ _
    · exact .refl _ _
  · exact .refl _ _
  · next job _ => exact (hstart.finish job).unread _
  · exact .refl _ _

/-- **What is sent after a step** is the file that was sent before, or the one that was opened in
that step. -/
theorem sends_step {n : Nat} (hsends : (c.step config peers h).1.Sends n) :
    c.Sends n ∨ ∃ path, c.stage = .begin (.file path) ∧
      FileEvent.OpenedOn (c.step config peers h).2.2.volume.trace n path := by
  obtain ⟨job, hjob, hnumber⟩ := hsends
  unfold step at hjob ⊢
  split at hjob
  · have hr := received_receive c config peers h
    generalize (c.receive config peers h).1 = c' at hr hjob
    cases hr <;> cases hjob
  · next target hstage =>
    have hs := started_start c config target h
    generalize c.start config target h = p at hs hjob ⊢
    cases hs with
    | @file path conn job' h' hconn heq =>
      obtain rfl : job' = job := by
        cases hjob
        rfl
      right
      exact ⟨path, hstage, hnumber ▸ FileJob.openedOn_begin heq⟩
    | _ => cases hjob
  · next job' hstage =>
    left
    split at hjob
    · have hs := streamed_stream c config job' h
      generalize c.stream config job' h = p at hs hjob
      cases hs with
      | @file conn hconn job' =>
        cases hjob
        rw [(job'.reads_step conn h).1] at hnumber
        exact ⟨job', hstage, hnumber⟩
      | _ => cases hjob
    · cases hjob
  · cases hjob
  · cases hjob
  · next hstage =>
    rw [hstage] at hjob
    cases hjob

/-- **What is about to be sent after a step** was routed to. -/
theorem find_of_step {target : Target} (hstage : (c.step config peers h).1.stage = .begin target) :
    ∃ uri g, (Route.find config uri (g : Host P.recorded)).1.target? = some target := by
  unfold step at hstage
  split at hstage
  · exact find_of_receive hstage
  · next target' _ =>
    have hs := started_start c config target' h
    generalize c.start config target' h = p at hs hstage
    cases hs <;> cases hstage
  · next job _ =>
    split at hstage
    · have hs := streamed_stream c config job h
      generalize c.stream config job h = p at hs hstage
      cases hs <;> cases hstage
    · cases hstage
  · cases hstage
  · cases hstage
  · next hclosed =>
    rw [hclosed] at hstage
    cases hstage

/-- What the response of a connection is about to be made from is a file that is no script, and what
is being sent was opened on a path that names none. -/
structure SendsStatic (t : List FileEvent) (c : Client P.recorded) : Prop where
  begins : ∀ path, c.stage = .begin (.file path) → ¬ Content.NamesScript path
  sends : ∀ n, c.Sends n → FileEvent.Static t n

theorem SendsStatic.mono {t t' : List FileEvent} (hc : c.SendsStatic t) (ht : t <:+ t') :
    c.SendsStatic t' := ⟨hc.begins, fun n hn => (hc.sends n hn).mono ht⟩

/-- **One step of a connection** goes on with files that are no scripts. -/
theorem SendsStatic.step (hc : c.SendsStatic h.volume.trace) :
    (c.step config peers h).1.SendsStatic (c.step config peers h).2.2.volume.trace := by
  refine ⟨fun path hstage => ?_, fun n hn => ?_⟩
  · obtain ⟨uri, g, hfind⟩ := find_of_step hstage
    have hroute : (Route.find config uri g).1 = .file path := by
      cases hroute : (Route.find config uri g).1 <;> rw [hroute] at hfind <;> cases hfind
      rfl
    exact Route.not_namesScript_of_find hroute
  · rcases sends_step hn with hn | ⟨path, hstage, hopened⟩
    · exact (hc.sends n hn).mono (c.reads_step config peers h).suffix
    · exact ⟨path, hopened, hc.begins path hstage⟩

end Client

/-! ### Runs -/

namespace Server

variable {s s₀ : Server P.recorded}

/-- **Nothing that names a script was read**, and nothing will be for responses under way. -/
structure SendsStatic (s : Server P.recorded) : Prop where
  host : FileEvent.ReadsStatic s.host.volume.trace
  slots : ∀ c ∈ s.slots.items, c.SendsStatic s.host.volume.trace

namespace SendsStatic

/-- Where nothing is read, the record stays such. -/
theorem unread (hs : s.SendsStatic) {h : Host P.recorded}
    (hr : (Scope.still _).Reaches s.host h) : FileEvent.ReadsStatic h.volume.trace :=
  hs.host.grew (hr.unread fun _ => False) fun _ hn => hn.elim

theorem accept (hs : s.SendsStatic) : s.accept.SendsStatic := by
  rcases s.accept_frame with ⟨-, hvolume, -⟩
  refine ⟨by rw [hvolume]; exact hs.host, ?_⟩
  rw [hvolume]
  refine s.forall_items_accept (fun conn => ⟨nofun, ?_⟩) hs.slots
  rintro n ⟨job, ⟨⟩, -⟩

/-- What the step of a slot leaves on record is what the step of the connection in it does. -/
theorem volume_stepSlot {i : Nat} {c : Client P.recorded} (hget : s.slots.get? i = some c) :
    (s.stepSlot i).host.volume = (c.step s.config s.peers s.host).2.2.volume := by
  rcases s.stepSlot_cases i with ⟨hnone, -⟩ | ⟨c', d, peers, h, hget', hstep, hcases⟩
  · rw [hget] at hnone
    cases hnone
  · obtain rfl : c = c' := Option.some.inj (hget.symm.trans hget')
    rw [hstep]
    rcases hcases with ⟨-, ht⟩ | ⟨-, ht⟩
    · rw [ht]
      dsimp only
      unfold Client.release
      split <;> rfl
    · rw [ht]

theorem stepSlot (hs : s.SendsStatic) (i : Nat) : (s.stepSlot i).SendsStatic := by
  cases hget : s.slots.get? i with
  | none =>
    have ht : s.stepSlot i = s := by
      rcases s.stepSlot_cases i with ⟨-, ht⟩ | ⟨c, d, peers, h, hget', -⟩
      · exact ht
      · rw [hget] at hget'
        cases hget'
    rwa [ht]
  | some c =>
    have hc := hs.slots c (Slots.mem_items_of_get? hget)
    have hreads := c.reads_step s.config s.peers s.host
    have hvolume := volume_stepSlot hget
    refine ⟨?_, s.forall_items_stepSlot i (fun d hd _ => ?_) fun d hd => ?_⟩
    · rw [hvolume]
      exact hs.host.grew hreads fun n hn => (hc.sends n hn).mono hreads.suffix
    · obtain rfl : c = d := Option.some.inj (hget.symm.trans hd)
      rw [hvolume]
      exact hc.step
    · rw [hvolume]
      exact (hs.slots d hd).mono hreads.suffix

theorem poll (hs : s.SendsStatic) : s.poll.SendsStatic := by
  have hr : (Scope.still P.recorded).Reaches s.host s.poll.host :=
    (Scope.Reaches.refl _ _).poll
      (fun p _ => ⟨trivial, fun _ _ => trivial, fun _ _ _ => trivial⟩) fun _ _ => trivial
  exact ⟨hs.unread hr, fun c hc => (hs.slots c hc).mono (hr.unread fun _ => False).suffix⟩

theorem tick (hs : s.SendsStatic) : s.tick.SendsStatic :=
  tick_induction (fun _ ht => ht.accept) (fun _ i ht => ht.stepSlot i) (fun _ ht => ht.poll) hs

theorem shutdown (hs : s.SendsStatic) : s.shutdown.SendsStatic := by
  obtain ⟨h, hr, heq⟩ := Scope.Reaches.shutdown (s := s)
    (Scope.Reaches.refl (Scope.still _) _) (fun _ _ _ _ => trivial) fun _ _ => trivial
  have hstop : { s with host := { s.host with control := s.host.control.stop } }.SendsStatic :=
    ⟨hs.host, hs.slots⟩
  refine ⟨?_, fun c hc => ?_⟩
  · rw [heq]
    exact hstop.unread (h := h) hr
  · rw [show s.shutdown.slots.items = [] from Slots.items_drain] at hc
    cases hc

/-- **Every run** reads of files alone that were opened on paths that name no script. -/
theorem runs (hs : s₀.SendsStatic) (hrun : Runs (.recorded P) s₀ s) : s.SendsStatic := by
  induction hrun with
  | refl => exact hs
  | tail hrun hevent ih =>
    cases hevent with
    | step hstep =>
      cases hstep with
      | tick => exact ih.tick
      | stop => exact ⟨ih.host, ih.slots⟩
      | setTimeouts => exact ⟨ih.host, ih.slots⟩
      | around board uptime hn hv hi =>
        refine ⟨?_, fun c hc => ?_⟩
        · rw [hv]
          exact ih.host
        · rw [hv]
          exact ih.slots c hc
    | shutdown => exact ih.shutdown

end SendsStatic

/-- **Requests are routed by what is there, and scripts are not disclosed.** The path of a request
stands under the content root. Nothing is found if a segment leads up; or if the path is that of a
directory, as it ends with a slash or the volume says so, and none of the index files under it opens
with a size that is known and not zero, each being tried when those before it have been. Otherwise
the request comes down to a path: that one, or the first index file that so opens; it is a script if
what follows the first dot of the last segment is `lua` or `cgi`, in letters of either case, and a
file if not; the suffix that a request is read with says the same of a path that is not that of a
directory. Whatever is found, all files that were opened for it are closed again, each once, and the
same files are open as before. And on every run, whatever clients send and whatever the platform
does, all that is read of the volume is read of files that were opened on paths which name no script,
and so is every file that is being sent. -/
theorem routed (config : Config) :
    (∀ (uri : String) (h : Host P),
      let path := Content.trimSlashes config.contentRoot ++
        (if uri.toList.head? = some '/' then "" else "/") ++ uri
      let up := ['.', '.'] ∈ Content.segments uri
      ((Route.find config uri h).1 = .notFound ↔ up ∨ P.volume.IsDirectory path h.volume ∧
        P.volume.NoneFills (config.indexPaths path) (P.volume.asked path h.volume)) ∧
      (∀ p, (Route.find config uri h).1 = .script p ↔
        ¬ up ∧ Route.Final config path h.volume p ∧ Content.NamesScript p) ∧
      (∀ p, (Route.find config uri h).1 = .file p ↔
        ¬ up ∧ Route.Final config path h.volume p ∧ ¬ Content.NamesScript p) ∧
      ∀ head maxPath r, Request.parse head maxPath = .ok r → r.uri = uri →
        ¬ P.volume.IsDirectory path h.volume → ¬ up →
        (Route.find config uri h).1 =
          if r.suffix = some "lua" ∨ r.suffix = some "cgi" then .script path else .file path) ∧
    (∀ (uri : String) (h : Host P.recorded),
      let before := FileEvent.ledger h.volume.trace
      let after := FileEvent.ledger (Route.find config uri h).2.volume.trace
      (∃ k, after.issued = before.issued + k ∧
        after.returned = (List.range' before.issued k).reverse ++ before.returned) ∧
      after.outstanding = before.outstanding) ∧
    ∀ (network : P.network.State) (volume : P.volume.State) (interpreter : P.interpreter.State)
      (board : P.peripherals.State) (s₀ s : Server P.recorded),
      Server.new (P := P.recorded) config network (.start volume) (.start interpreter) board =
        .ok s₀ → Runs (.recorded P) s₀ s →
          ∀ n, (.read n ∈ s.host.volume.trace ∨ ∃ c ∈ s.slots.items, c.Sends n) →
          (∃ path, FileEvent.OpenedOn s.host.volume.trace n path) ∧
          ∀ path, FileEvent.OpenedOn s.host.volume.trace n path → ¬ Content.NamesScript path := by
  refine ⟨fun uri h => ?_, fun uri h => ?_, ?_⟩
  · intro path up
    by_cases hup : up
    · have hfind : (Route.find config uri h).1 = .notFound :=
        Route.find_of_up h (Content.pathUnder?_of_up hup)
      rw [hfind]
      refine ⟨⟨fun _ => .inl hup, fun _ => rfl⟩, fun p => ⟨nofun, fun hp => absurd hup hp.1⟩,
        fun p => ⟨nofun, fun hp => absurd hup hp.1⟩, fun head maxPath r _ _ _ hno => absurd hup hno⟩
    · obtain ⟨hnone, hscript, hfile⟩ := Route.find_verdict h (Content.pathUnder?_of_not_up hup)
      refine ⟨hnone.trans (or_iff_right hup).symm,
        fun p => (hscript p).trans (and_iff_right hup).symm,
        fun p => (hfile p).trans (and_iff_right hup).symm, ?_⟩
      intro head maxPath r hparse huri hdirectory _
      have hfinal : Route.Final config path h.volume path := .inl ⟨hdirectory, rfl⟩
      have hsuffix : Content.NamesScript path ↔ r.suffix = some "lua" ∨ r.suffix = some "cgi" := by
        rw [Content.namesScript_pathUnder? (Content.pathUnder?_of_not_up hup), ← huri,
          Content.namesScript_iff_suffix?, Request.suffix_of_parse hparse]
      split_ifs with hnames
      · exact (hscript path).mpr ⟨hfinal, hsuffix.mpr hnames⟩
      · exact (hfile path).mpr ⟨hfinal, mt hsuffix.mp hnames⟩
  · obtain ⟨k, hk⟩ := Route.lends_find config uri h
    refine ⟨⟨k, ?_, ?_⟩, (Route.lends_find config uri h).outstanding_eq⟩
    · rw [hk]
    · rw [hk]
  · intro network volume interpreter board s₀ s hnew hrun n hread
    have hstart : s₀.SendsStatic := by
      obtain ⟨-, rfl⟩ := new_eq_ok_iff.mp hnew
      refine ⟨nofun, fun c hc => ?_⟩
      rw [Slots.items_free] at hc
      cases hc
    have hend := hstart.runs hrun
    obtain ⟨path, hopened, hstatic⟩ : FileEvent.Static s.host.volume.trace n := by
      rcases hread with hread | ⟨c, hc, hsends⟩
      · exact hend.host n hread
      · exact (hend.slots c hc).sends n hsends
    exact ⟨⟨path, hopened⟩, fun path' hopened' => hopened.unique hopened' ▸ hstatic⟩

end Server

/-! ### An index file that is a script -/

namespace Disclosure

open Bench

def config : Config := { Config.default with maxConnections := 2 }

/-- A server with an empty page and a script, both of which are index files, and a text. -/
def idle : Server kit :=
  onRecord config
    (((Flash.empty.withFile "/html/index.htm" []).withFile "/html/index.lua" [0x68]).withFile
      "/html/a.txt" [0x68, 0x69])
    (Scripts.empty.withScript "/html/index.lua" (.echoGlobal frameGlobal))

/-- The first client asks for the root, and the second for the text. -/
def queue : Server kit :=
  idle.onNetwork fun ws => ask 0 "/" (ask 1 "/a.txt"
    ((ws.connect (clientAddress 1)).connect (clientAddress 2)))

/-- The text has been read. -/
def served : Server kit := queue.tick.tick.tick.tick

theorem runs_served : Server.Runs (.recorded _) idle served :=
  ((((Relation.ReflTransGen.refl.tail (.step (.ofNetwork _ _))).tail (.step (.tick _))).tail
    (.step (.tick _))).tail (.step (.tick _))).tail (.step (.tick _))

/-- The root comes down to the script, as the page is empty, and both are closed again; what is read
is the text, which is the third file that was opened. -/
theorem routed_index :
    (Route.find config "/" idle.host).1 = .script "/html/index.lua" ∧
      Route.Final config "/html/" idle.host.volume "/html/index.lua" ∧
      (FileEvent.ledger (Route.find config "/" idle.host).2.volume.trace).outstanding = [] ∧
      served.host.volume.trace.take 3 = [.read 2, .sized 2, .opened "/html/a.txt"] ∧
      ∀ path, FileEvent.OpenedOn served.host.volume.trace 2 path →
        ¬ Content.NamesScript path := by
  have hfind : (Route.find config "/" idle.host).1 = .script "/html/index.lua" := by
    decide +kernel
  have htrace : served.host.volume.trace.take 3 = [.read 2, .sized 2, .opened "/html/a.txt"] := by
    decide +kernel
  have hrun := runs_served
  -- From here on the server need not be computed.
  generalize served = s at htrace hrun ⊢
  have hread : .read 2 ∈ s.host.volume.trace := by
    apply List.mem_of_mem_take
    rw [htrace]
    exact List.mem_cons_self
  have hunder : Content.trimSlashes config.contentRoot ++
      (if "/".toList.head? = some '/' then "" else "/") ++ "/" = "/html/" := by decide +kernel
  obtain ⟨-, hfinal, -⟩ := (((Server.routed (P := kit) config).1 "/" idle.host).2.1 _).mp hfind
  rw [hunder] at hfinal
  obtain ⟨-, hhandles, hruns⟩ :=
    Server.routed (P := platform Flash.volume Scripts.interpreter) config
  refine ⟨hfind, hfinal, ?_, htrace, ?_⟩
  · rw [(hhandles "/" idle.host).2]
    rfl
  · exact (hruns _ _ _ _ _ _ (new_onRecord (by decide) _ _) hrun 2 (.inl hread)).2

end Disclosure

end Microweb
