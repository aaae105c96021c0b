import Microweb.Proofs.Polls
import Microweb.Proofs.Run
import Microweb.Proofs.Scope.Client

/-!
What each part of a tick asks of the platform, and what a shutdown asks: the connections in slots
are used and closed, those of peers are answered and closed, and the paths are those that the
configuration leads to.
-/

namespace Microweb

variable {P : Platform} {a : Scope P} {g h h' : Host P} {config : Config}

/-- The script on a path of a peer may be run for its frames, unless they go to the board. -/
def Scope.MayRun (a : Scope P) (config : Config) (uri : String) : Prop :=
  uri ≠ Polling.boardPath →
    ∀ path, Content.pathUnder? config.contentRoot uri = some path → a.frames path

/-- A peer that may be heard, and be answered with frames. -/
structure Scope.Answers (a : Scope P) (config : Config) (p : Peer P.Conn) : Prop where
  hears : a.hears p.handle
  writes : ∀ bs, Frame.FromServer config.outputSize bs → a.writes p.handle bs
  runs : a.MayRun config p.uri

theorem Scope.mayRun_online {hears : P.Conn → Prop} {writes : P.Conn → Bytes → Prop}
    {closes : P.Conn → Prop} (config : Config) (uri : String) :
    (online hears writes closes).MayRun config uri := fun _ _ _ => trivial

theorem Client.aimsAt_online {hears : P.Conn → Prop} {writes : P.Conn → Bytes → Prop}
    {closes : P.Conn → Prop} (c : Client P) : c.AimsAt (.online hears writes closes) :=
  fun target _ => by cases target <;> trivial

theorem Scope.serves_online {hears : P.Conn → Prop} {writes : P.Conn → Bytes → Prop}
    {closes : P.Conn → Prop} (config : Config) : (online hears writes closes).Serves config :=
  ⟨config.leadsTo_true, fun _ _ _ => trivial⟩

namespace Scope.Reaches

/-! ### A round of polls -/

theorem respond (hr : a.Reaches g h) {uri : String} (hruns : a.MayRun config uri)
    (payload : Bytes) : a.Reaches g (Polling.respond config uri payload h).2 := by
  unfold Polling.respond
  split
  · split
    · next reply h₁ heq => exact hr.command heq
    · next e h₁ heq => exact (hr.command heq).note _
  · next hboard =>
    split
    · exact hr
    · next path hpath => exact hr.runForFrame (hruns hboard path hpath) _

theorem answerMessage (hr : a.Reaches g h) {p : Peer P.Conn} (hruns : a.MayRun config p.uri)
    (payload : Bytes) : a.Reaches g (Polling.answerMessage config p payload h).2 := by
  have hresp := (hr.note (.frame p.address payload.length p.uri)).respond hruns payload
  unfold Polling.answerMessage
  split
  · next h₁ heq => rwa [heq] at hresp
  · next text h₁ heq =>
    rw [heq] at hresp
    simp only
    split
    · exact hresp
    · exact hresp.note _

theorem answer (hr : a.Reaches g h) {p : Peer P.Conn} (hruns : a.MayRun config p.uri)
    (f : Frame) : a.Reaches g (Polling.answer config p f h).2 := by
  cases f with
  | ping payload => exact hr
  | text payload => exact hr.answerMessage hruns payload
  | binary payload => exact hr.answerMessage hruns payload
  | close => exact hr

theorem send (hr : a.Reaches g h) {p : Peer P.Conn} {reply : Option Bytes}
    (hw : ∀ bs, reply = some bs → a.writes p.handle bs) :
    a.Reaches g (Polling.send p reply h).2 := by
  unfold Polling.send
  split
  · exact hr
  · next bs =>
    split
    · next h₁ heq => exact hr.write (hw bs rfl) heq
    · next e h₁ heq => exact (hr.write (hw bs rfl) heq).note _

theorem serveFrames (hr : a.Reaches g h) {p : Peer P.Conn}
    (hwrites : ∀ bs, Frame.FromServer config.outputSize bs → a.writes p.handle bs)
    (hruns : a.MayRun config p.uri) (fuel : Nat) (any : Bool) (rest : Bytes) :
    a.Reaches g (Polling.serveFrames config p fuel any rest h).2.2 := by
  induction fuel generalizing any rest h with
  | zero => exact hr
  | succ fuel ih =>
    unfold Polling.serveFrames
    split
    · exact hr
    · split
      · exact hr.note _
      · exact hr.note _
      · next f used rest' _ _ =>
        have hreply : ∀ bs, (Polling.answer config p f h).1 = some bs → a.writes p.handle bs :=
          fun bs heq => hwrites bs (Polling.fromServer_of_answer heq)
        have hs := (hr.answer hruns f).send hreply
        simp only
        split
        · next h₁ heq => rwa [heq] at hs
        · next h₁ heq =>
          rw [heq] at hs
          exact ih hs true (rest'.drop used)

theorem pollPeer (hr : a.Reaches g h) {p : Peer P.Conn} (hp : a.Answers config p) (buf : Bytes) :
    a.Reaches g (Polling.pollPeer config p buf h).2.2 := by
  unfold Polling.pollPeer
  split
  · next e h₁ heq =>
    split
    · exact (hr.receive hp.hears heq).note _
    · exact hr.receive hp.hears heq
  · next bs h₁ heq =>
    exact (hr.receive hp.hears heq).serveFrames hp.writes hp.runs bs.length false _

theorem pollEach (hr : a.Reaches g h) {ps : List (Peer P.Conn)}
    (hps : ∀ p ∈ ps, a.Answers config p) (buf : Bytes) :
    a.Reaches g (Polling.pollEach config ps buf h).2 := by
  induction ps generalizing buf h with
  | nil => exact hr
  | cons p ps ih =>
    exact ih (hr.pollPeer (hps p List.mem_cons_self) buf)
      (fun q hq => hps q (List.mem_cons_of_mem _ hq)) _

/-- **A round of polls** answers peers and closes some of them. -/
theorem round (hr : a.Reaches g h) {peers : Peers P.Conn}
    (hanswers : ∀ p ∈ peers.list, a.Answers config p)
    (hcloses : ∀ p ∈ peers.list, a.closes p.handle) :
    a.Reaches g (Polling.round config peers h).2 := by
  rw [Polling.round_eq]
  refine closeEach (fun q hq hr => (hr.note _).close ?_) (hr.pollEach hanswers _)
  obtain ⟨p, hp, heq⟩ := Polling.exists_mem_of_withFate hq
  rw [heq]
  exact hcloses p hp

/-! ### The parts of a tick -/

variable {s : Server P}

/-- **The unit of work of a slot** uses the connection in it, closes that one and peers, and asks
for paths that the configuration leads to. -/
theorem stepSlot (hr : a.Reaches g s.host) {i : Nat}
    (hown : ∀ c, s.slots.get? i = some c → c.AimsAt a ∧
      ∀ conn, c.conn = some conn → a.Uses s.host.control.running conn ∧ a.closes conn)
    (hpeers : ∀ p ∈ s.peers.list, a.closes p.handle) (hserves : a.Serves s.config) :
    a.Reaches g (s.stepSlot i).host := by
  obtain ⟨-, ht⟩ | ⟨c, c', peers, h, hget, hstep, hcases⟩ := s.stepSlot_cases i
  · rwa [ht]
  · obtain ⟨haim, hconn⟩ := hown c hget
    have hs := hr.step (fun conn heq => (hconn conn heq).1) hpeers hserves haim
    have hp := c.pooled_step s.config s.peers s.host
    rw [hstep] at hs hp
    obtain ⟨-, ht⟩ | ⟨-, ht⟩ := hcases
    · rw [ht]
      refine (hs.note _).clientRelease fun conn heq => ?_
      cases hp with
      | stays h hkind hsame => exact (hconn conn (hsame ▸ heq)).2
      | joins uri h heq' => cases heq
    · rwa [ht]

/-- **The polls** of a tick. -/
theorem poll (hr : a.Reaches g s.host)
    (hanswers : ∀ p ∈ s.peers.list, a.Answers s.config p)
    (hcloses : ∀ p ∈ s.peers.list, a.closes p.handle) : a.Reaches g s.poll.host :=
  hr.round hanswers hcloses

theorem abortEach {cs : List (Client P)}
    (hcloses : ∀ c ∈ cs, ∀ conn, c.conn = some conn → a.closes conn) (hr : a.Reaches g h) :
    a.Reaches g (cs.foldl (fun h c => c.abort h) h) := by
  induction cs generalizing h with
  | nil => exact hr
  | cons c cs ih =>
    exact ih (fun d hd => hcloses d (List.mem_cons_of_mem _ hd))
      (hr.abort (hcloses c List.mem_cons_self))

/-- **A shutdown** closes connections of slots and of peers, and then the listener. -/
theorem shutdown (hr : a.Reaches g { s.host with control := s.host.control.stop })
    (hslots : ∀ c ∈ s.slots.items, ∀ conn, c.conn = some conn → a.closes conn)
    (hpeers : ∀ p ∈ s.peers.list, a.closes p.handle) :
    ∃ h, a.Reaches g h ∧ s.shutdown.host = h.closeListener.note .stopped := by
  refine ⟨_, ?_, rfl⟩
  exact closeEach (fun p hp hr => hr.close (hpeers p hp)) (hr.abortEach hslots)

end Scope.Reaches

namespace Server

/-- The unit of work of a slot asks for nothing but operations. -/
theorem reaches_stepSlot (s : Server P) (i : Nat) :
    (Scope.all P).Reaches s.host (s.stepSlot i).host :=
  (Scope.Reaches.refl (.all P) s.host).stepSlot
    (fun c _ =>
      ⟨c.aimsAt_online, fun _ _ => ⟨.of_writes trivial trivial fun _ => trivial, trivial⟩⟩)
    (fun _ _ => trivial) (Scope.serves_online s.config)

/-- And so do the polls. -/
theorem reaches_poll (s : Server P) : (Scope.all P).Reaches s.host s.poll.host :=
  (Scope.Reaches.refl (.all P) s.host).poll
    (fun p _ => ⟨trivial, fun _ _ => trivial, Scope.mayRun_online s.config p.uri⟩)
    fun _ _ => trivial

/-- A shutdown closes connections, and then the listener. -/
theorem reaches_shutdown (s : Server P) : ∃ h,
    (Scope.closing P).Reaches { s.host with control := s.host.control.stop } h ∧
      s.shutdown.host = h.closeListener.note .stopped :=
  (Scope.Reaches.refl (.closing P) _).shutdown (fun _ _ _ _ => trivial) fun _ _ => trivial

end Server

end Microweb
