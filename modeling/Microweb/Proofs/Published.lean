import Microweb.Proofs.Bench
import Microweb.Proofs.Custody.Server
import Microweb.Proofs.Scope
import Microweb.Proofs.Steps

/-!
The parameters that are in force when a script is called for a request. They are published once,
when the script is loaded, and the calls come in later ticks; whatever is published in between, for
another connection or for a frame, is in force instead.
-/

namespace Microweb

variable {P : Platform}

namespace ScriptEvent

def published? : ScriptEvent → Option Query
  | published q => some q
  | _ => none

/-- The parameters published last. -/
def inForce (t : List ScriptEvent) : Option Query := t.findSome? published?

/-- The script with that number was loaded right after those parameters were published. -/
def LoadedWith (q : Query) (number : Nat) (t : List ScriptEvent) : Prop :=
  ∃ path since earlier, t = since ++ loaded path :: published q :: earlier ∧
    (ledger earlier).issued = number

variable {t t' : List ScriptEvent} {q : Query} {n : Nat}

theorem LoadedWith.mono (h : LoadedWith q n t) (hsuffix : t <:+ t') : LoadedWith q n t' := by
  obtain ⟨path, since, earlier, rfl, hn⟩ := h
  obtain ⟨more, rfl⟩ := hsuffix
  exact ⟨path, more ++ since, earlier, by rw [List.append_assoc], hn⟩

/-- **What is in force after a load**: what was published since, or else what was published for
it. -/
theorem inForce_since (since earlier : List ScriptEvent) (path : String) :
    inForce (since ++ loaded path :: published q :: earlier) = some ((inForce since).getD q) := by
  unfold inForce
  rw [List.findSome?_append]
  cases List.findSome? published? since <;> rfl

end ScriptEvent

open ScriptEvent

/-! ### The record of one connection -/

/-- A connection that goes on to a response has its request, and the script of a response was
loaded with the parameters of that. -/
def Client.OnRecord (c : Client P.recorded) (t : List ScriptEvent) : Prop :=
  match c.stage with
  | .begin _ => c.request.isSome
  | .streaming (.script job) => ∃ r, c.request = some r ∧ LoadedWith r.query job.script.number t
  | .ending (some (.script job)) =>
    ∃ r, c.request = some r ∧ LoadedWith r.query job.script.number t
  | _ => True

namespace Client

variable {c : Client P.recorded} {t t' : List ScriptEvent}

theorem OnRecord.mono (h : c.OnRecord t) (hsuffix : t <:+ t') : c.OnRecord t' := by
  unfold OnRecord at *
  split at h
  · exact h
  · obtain ⟨r, hr, hl⟩ := h
    exact ⟨r, hr, hl.mono hsuffix⟩
  · obtain ⟨r, hr, hl⟩ := h
    exact ⟨r, hr, hl.mono hsuffix⟩
  · trivial

theorem Received.onRecord {config : Config} {c' : Client P.recorded} (h : c.Received config c') :
    c'.OnRecord t := by
  cases h with
  | waits => trivial
  | routed r => exact rfl
  | refused => trivial
  | upgraded => trivial
  | givenUp => trivial

end Client

/-! ### The script of a response -/

/-- A job that comes of a start was loaded with the parameters of its request. -/
theorem ScriptJob.loadedWith_begin {conn : P.recorded.Conn} {path : String} {query : Query}
    {h h' : Host P.recorded} {job : ScriptJob P.recorded} {begun : Begun (ScriptJob P.recorded)}
    (hjob : begun = .streaming job ∨ begun = .done (some job))
    (heq : ScriptJob.begin conn path query h = (begun, h')) :
    LoadedWith query job.script.number h'.interpreter.trace := by
  unfold ScriptJob.begin at heq
  split at heq
  · cases heq
    rcases hjob with hj | hj <;> cases hj
  · cases heq
    rcases hjob with hj | hj <;> cases hj
  · next x h₁ hload =>
    obtain ⟨hnumber, htrace⟩ :=
      Interpreter.recorded_load_ok (I := P.interpreter) (Host.load_interpreter hload)
    have hl : LoadedWith query x.number h₁.interpreter.trace :=
      ⟨path, [], h.interpreter.trace, htrace, hnumber.symm⟩
    simp only at heq
    split at heq
    · next h₂ hwrite =>
      obtain ⟨-, rfl⟩ := Prod.ext_iff.mp hwrite
      cases heq
      rcases hjob with hj | hj <;> cases hj
      exact hl
    · next e h₂ hwrite =>
      obtain ⟨-, rfl⟩ := Prod.ext_iff.mp hwrite
      cases heq
      rcases hjob with hj | hj <;> cases hj
      exact hl

theorem ScriptJob.number_step (job : ScriptJob P.recorded) (conn : P.recorded.Conn)
    (outputSize : Nat) (stepLimit : UInt32) (h : Host P.recorded) :
    (job.step conn outputSize stepLimit h).2.1.script.number = job.script.number := by
  unfold ScriptJob.step
  split
  · rfl
  · simp only
    split
    · rfl
    · rfl
    · split
      · rfl
      · split <;> rfl

/-- A step of a script that may still be called is a call, and then what it left is collected. -/
theorem ScriptJob.trace_step (job : ScriptJob P.recorded) (conn : P.recorded.Conn)
    (outputSize : Nat) {stepLimit : UInt32} (h : Host P.recorded) (hlt : job.steps < stepLimit) :
    (job.step conn outputSize stepLimit h).2.2.interpreter.trace =
      .collected :: .called job.script.number :: h.interpreter.trace := by
  unfold ScriptJob.step
  rw [if_neg (by simpa using hlt)]
  simp only
  split
  · rfl
  · rfl
  · next piece _ =>
    split
    · rfl
    · obtain ⟨-, -, -, hcut⟩ := cut_frame (Utf8.encode piece) outputSize (h.call job.script).2.collect
      split
      · next h₂ heq =>
        obtain ⟨-, rfl⟩ := Prod.ext_iff.mp heq
        exact congrArg Recorded.trace hcut
      · next e h₂ heq =>
        obtain ⟨-, rfl⟩ := Prod.ext_iff.mp heq
        exact congrArg Recorded.trace hcut

namespace Client

variable {c : Client P.recorded} {t : List ScriptEvent}

theorem Started.onRecord {config : Config} {h : Host P.recorded} {target : Target}
    {p : Client P.recorded × Host P.recorded} (hp : Started config h c target p)
    (hr : c.request.isSome) : p.1.OnRecord p.2.interpreter.trace := by
  obtain ⟨r, hr⟩ := Option.isSome_iff_exists.mp hr
  cases hp with
  | file => trivial
  | fileEnds => trivial
  | @script path conn job h' _ heq =>
    rw [hr] at heq
    exact ⟨r, hr, ScriptJob.loadedWith_begin (.inl rfl) heq⟩
  | @scriptEnds path conn job h' _ heq =>
    rw [hr] at heq
    exact ⟨r, hr, ScriptJob.loadedWith_begin (.inr rfl) heq⟩
  | nothing => trivial
  | givenUp => trivial

theorem Streamed.onRecord {config : Config} {h : Host P.recorded} {job : Job P.recorded}
    {p : Client P.recorded × Host P.recorded} (hp : Streamed config h c job p)
    (hc : (c.goTo (.streaming job)).OnRecord t) : p.1.OnRecord t := by
  cases hp with
  | left => cases job <;> exact hc
  | file => trivial
  | fileEnds => trivial
  | script _ job =>
    obtain ⟨r, hr, hl⟩ := hc
    exact ⟨r, hr, by rwa [job.number_step]⟩
  | scriptEnds _ job =>
    obtain ⟨r, hr, hl⟩ := hc
    exact ⟨r, hr, by rwa [job.number_step]⟩

/-- **One step of a connection** keeps it on record. -/
theorem OnRecord.step {h : Host P.recorded} (hc : c.OnRecord h.interpreter.trace) (config : Config)
    (peers : Peers P.recorded.Conn) :
    (c.step config peers h).1.OnRecord (c.step config peers h).2.2.interpreter.trace := by
  have hgrows := (Custody.Covers.since h (c.holdings + (peers.holdings + 0))).step config
  have hsuffix : h.interpreter.trace <:+ (c.step config peers h).2.2.interpreter.trace :=
    hgrows.interpreter
  unfold Client.step at hsuffix ⊢
  split
  · exact (received_receive _ _ _ _).onRecord
  · next target heq =>
    unfold OnRecord at hc
    rw [heq] at hc
    exact (started_start c config target h).onRecord hc
  · next job heq =>
    rw [heq] at hsuffix
    simp only at hsuffix
    have hjob : (c.goTo (.streaming job)).OnRecord h.interpreter.trace := by
      unfold OnRecord at hc ⊢
      rwa [heq] at hc
    split
    · next hrun =>
      rw [if_pos hrun] at hsuffix
      exact (streamed_stream c config job h).onRecord (hjob.mono hsuffix)
    · cases job <;> exact hjob
  · trivial
  · trivial
  · exact hc

end Client

/-! ### The record of a server -/

namespace Server

variable {s s₀ : Server P.recorded}

/-- All connections in slots are on record. -/
def OnRecord (s : Server P.recorded) : Prop :=
  ∀ c ∈ s.slots.items, c.OnRecord s.host.interpreter.trace

theorem OnRecord.accept (hs : s.OnRecord) : s.accept.OnRecord := by
  have hgrows : (Custody.since s.host).Sound s.accept :=
    Custody.Sound.accept (Custody.accepts_since _) (Custody.Covers.since _ _)
  exact s.forall_items_accept (fun _ => trivial) fun c hc => (hs c hc).mono hgrows.interpreter

theorem OnRecord.stepSlot (hs : s.OnRecord) (i : Nat) : (s.stepSlot i).OnRecord := by
  have hgrows : (Custody.since s.host).Sound (s.stepSlot i) :=
    Custody.Sound.stepSlot (Custody.Covers.since _ _) i
  refine s.forall_items_stepSlot i (fun c hget hopen => ?_) fun c hc =>
    (hs c hc).mono hgrows.interpreter
  have hown := (hs c (Slots.mem_items_of_get? hget)).step s.config s.peers
  rwa [stepSlot_of_open hget hopen]

theorem OnRecord.poll (hs : s.OnRecord) : s.poll.OnRecord := by
  have hgrows : (Custody.since s.host).Sound s.poll :=
    Custody.Sound.poll (Custody.Covers.since _ _)
  intro c hc
  exact (hs c hc).mono hgrows.interpreter

theorem OnRecord.midTick (hs : s.OnRecord) (k : Nat) : (s.midTick k).OnRecord :=
  midTick_induction (I := OnRecord) (fun _ hs => hs.accept) (fun _ i hs => hs.stepSlot i) hs k

theorem OnRecord.tick (hs : s.OnRecord) : s.tick.OnRecord := by
  rw [tick_eq]
  exact (hs.midTick _).poll

theorem OnRecord.runs (hs : s₀.OnRecord) (hrun : Runs (.recorded P) s₀ s) : s.OnRecord := by
  induction hrun with
  | refl => exact hs
  | tail _ hevent ih =>
    cases hevent with
    | step hstep =>
      cases hstep with
      | tick => exact ih.tick
      | stop => exact ih
      | setTimeouts => exact ih
      | around board uptime hn hv hi =>
        intro c hc
        have hr := ih c hc
        rwa [← hi] at hr
    | shutdown =>
      intro c hc
      rw [show (shutdown _).slots.items = [] from Slots.items_drain] at hc
      cases hc

/-! ### Calls -/

/-- The unit of work of a slot is a call of a script for the connection in it. -/
structure CallsFor (s : Server P) (i : Nat) (c : Client P) (job : ScriptJob P) : Prop where
  get : s.slots.get? i = some c
  stage : c.stage = .streaming (.script job)
  conn : c.conn.isSome
  running : s.isRunning
  steps : job.steps < s.config.scriptStepLimit

/-- Such a unit of work calls the script, and asks the interpreter for nothing else before. -/
theorem CallsFor.trace_stepSlot {i : Nat} {c : Client P.recorded} {job : ScriptJob P.recorded}
    (h : s.CallsFor i c job) : (s.stepSlot i).host.interpreter.trace =
      .collected :: .called job.script.number :: s.host.interpreter.trace := by
  have hstep : (c.step s.config s.peers s.host).2.2.interpreter.trace =
      .collected :: .called job.script.number :: s.host.interpreter.trace := by
    obtain ⟨conn, hconn⟩ := Option.isSome_iff_exists.mp h.conn
    have hrun : s.host.control.running := h.running
    have htrace := job.trace_step conn s.config.outputSize s.host h.steps
    simp only [Client.step, h.stage, hrun, if_true, Client.stream, hconn]
    split <;> exact htrace
  have hrelease : ∀ (c : Client P.recorded) (g : Host P.recorded),
      (c.release g).interpreter = g.interpreter := by
    intro c g
    unfold Client.release
    split <;> rfl
  obtain ⟨hnone, -⟩ | ⟨c', d, peers, g, hget, hd, ⟨-, ht⟩ | ⟨-, ht⟩⟩ := s.stepSlot_cases i
  · rw [h.get] at hnone
    cases hnone
  · rw [h.get] at hget
    cases hget
    rw [hd] at hstep
    rw [ht]
    exact (congrArg Recorded.trace (hrelease _ _)).trans hstep
  · rw [h.get] at hget
    cases hget
    rw [hd] at hstep
    rw [ht]
    exact hstep

/-- **The parameters at a call.** Whenever a script is called for a connection, the record goes
back to the load of that very script, right after the parameters of that connection's own request
were published. Those are in force at the call just if nothing else was published since, or the
same. -/
theorem inForce_at_call {config : Config} {network : P.network.State} {volume : P.volume.State}
    {interpreter : P.interpreter.State} {board : P.peripherals.State}
    (hnew : Server.new (P := P.recorded) config network (.start volume) (.start interpreter) board =
      .ok s₀) (hrun : Runs (.recorded P) s₀ s) (k i : Nat) {c : Client P.recorded}
    {job : ScriptJob P.recorded} (hcall : (s.midTick k).CallsFor i c job) :
    ∃ r path since earlier, c.request = some r ∧
      (s.midTick k).host.interpreter.trace =
        since ++ .loaded path :: .published r.query :: earlier ∧
      (ledger earlier).issued = job.script.number ∧
      ((s.midTick k).stepSlot i).host.interpreter.trace =
        .collected :: .called job.script.number :: (s.midTick k).host.interpreter.trace ∧
      (inForce (s.midTick k).host.interpreter.trace = some r.query ↔
        ∀ q, inForce since = some q → q = r.query) := by
  have hs₀ : s₀.OnRecord := by
    obtain ⟨-, rfl⟩ := new_eq_ok_iff.mp hnew
    intro c hc
    rw [Slots.items_free] at hc
    cases hc
  have hc := (hs₀.runs hrun).midTick k c (Slots.mem_items_of_get? hcall.get)
  unfold Client.OnRecord at hc
  rw [hcall.stage] at hc
  obtain ⟨r, hr, path, since, earlier, htrace, hnumber⟩ := hc
  refine ⟨r, path, since, earlier, hr, htrace, hnumber, hcall.trace_stepSlot, ?_⟩
  rw [htrace, inForce_since]
  cases inForce since with
  | none => simp
  | some q => simp

end Server

/-! ### Two scripts at a time -/

/-- The script that a connection runs. -/
def Client.scriptJob? (c : Client P) : Option (ScriptJob P) :=
  match c.stage with
  | .streaming (.script job) => some job
  | _ => none

theorem Client.scriptJob?_eq_some_iff {c : Client P} {job : ScriptJob P} :
    c.scriptJob? = some job ↔ c.stage = .streaming (.script job) := by
  unfold scriptJob?
  split
  · next job' hstage => simp [hstage]
  · next hne =>
    constructor
    · intro h
      cases h
    · intro h
      exact absurd h (hne job)

namespace Published

open Bench

/-- A server with two slots and two scripts that answer with a parameter of the request. -/
def idle : Server kit :=
  onRecord { Config.default with maxConnections := 2 } .empty
    ((Scripts.empty.withScript "/html/a.lua" (.echoQuery "x")).withScript "/html/b.lua"
      (.echoQuery "x"))

/-- Both scripts were loaded in one tick, the second after the first. -/
def crossed : Server kit :=
  ((idle.onNetwork fun ws => ws.connect (clientAddress 1)).tick.onNetwork fun ws =>
    ask 1 "/b.lua?x=2" ((ask 0 "/a.lua?x=1" ws).connect (clientAddress 2))).tick.tick

theorem runs_crossed : Server.Runs (.recorded _) idle crossed :=
  ((((Relation.ReflTransGen.refl.tail (.step (.ofNetwork _ _))).tail (.step (.tick _))).tail
    (.step (.ofNetwork _ _))).tail (.step (.tick _))).tail (.step (.tick _))

/-- The first unit of work of the next tick is a call for the first client, ... -/
theorem callsFor_crossed : ∃ c job r, (crossed.midTick 0).CallsFor 0 c job ∧
    c.request = some r ∧ r.query = [⟨"x", "1"⟩] := by
  have h : (((crossed.midTick 0).slots.get? 0).any fun c => c.conn.isSome &&
      c.scriptJob?.any (fun job => job.steps < (crossed.midTick 0).config.scriptStepLimit) &&
      c.request.any (fun r => r.query = [⟨"x", "1"⟩])) = true := by
    decide +kernel
  obtain ⟨c, hget, hc⟩ := (Option.any_eq_true _ _).mp h
  simp only [Bool.and_eq_true, Option.any_eq_true, decide_eq_true_eq] at hc
  obtain ⟨⟨hconn, job, hjob, hsteps⟩, r, hr, hquery⟩ := hc
  have hstage := Client.scriptJob?_eq_some_iff.mp hjob
  exact ⟨c, job, r, ⟨hget, hstage, hconn, by decide +kernel, hsteps⟩, hr, hquery⟩

/-- ... and what is in force then are the parameters of the second. -/
theorem inForce_crossed :
    inForce (crossed.midTick 0).host.interpreter.trace = some [⟨"x", "2"⟩] := by
  decide +kernel

/-- **Parameters are not kept apart.** Not at every call the parameters in force are those of the
request that the script is called for. -/
theorem not_queries_apart : ¬ ∀ s : Server kit, Server.Runs (.recorded _) idle s → ∀ k i c job,
    (s.midTick k).CallsFor i c job → ∃ r, c.request = some r ∧
      inForce (s.midTick k).host.interpreter.trace = some r.query := by
  intro h
  obtain ⟨c, job, r, hcall, hr, hquery⟩ := callsFor_crossed
  obtain ⟨r', hr', hforce⟩ := h crossed runs_crossed 0 0 c job hcall
  cases hr.symm.trans hr'
  rw [inForce_crossed, hquery] at hforce
  exact absurd hforce (by decide)

/-- What is on record at that call. -/
theorem inForce_at_call_crossed : ∃ (r : Request) (path : String)
    (since earlier : List ScriptEvent), r.query = [⟨"x", "1"⟩] ∧
      (crossed.midTick 0).host.interpreter.trace =
        since ++ .loaded path :: .published r.query :: earlier ∧
      inForce since ≠ none := by
  have hrun := runs_crossed
  have hforce := inForce_crossed
  obtain ⟨c, job, r, hcall, hr, hquery⟩ := callsFor_crossed
  -- From here on the server need not be computed.
  generalize crossed = s at hrun hforce hcall ⊢
  obtain ⟨r', path, since, earlier, hr', htrace, -, -, hiff⟩ :=
    Server.inForce_at_call (new_onRecord (by decide) _ _) hrun 0 0 hcall
  cases hr.symm.trans hr'
  refine ⟨r, path, since, earlier, hquery, htrace, fun hnone => ?_⟩
  have hown := hiff.mpr (by simp [hnone])
  rw [hforce, hquery] at hown
  exact absurd hown (by decide)

end Published

end Microweb
