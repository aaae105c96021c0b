import Microweb.Proofs.Forget.Client

/-!
A server on record, with the records forgotten: each moment of its ticks is that of a server on the
platform below, and the runs of such a server are those of one on record.
-/

namespace Microweb

variable {P : Platform}

/-! ### A round of polls -/

namespace Polling

theorem forget_respond (config : Config) (uri : String) (payload : Bytes) (h : Host P.recorded) :
    respond config uri payload h.forget =
      ((respond config uri payload h).1, (respond config uri payload h).2.forget) := by
  unfold respond
  by_cases hboard : uri = boardPath
  · rw [if_pos hboard, if_pos hboard, Host.forget_command]
    rcases h.command payload with ⟨e | reply, h₁⟩
    · rfl
    · rfl
  · rw [if_neg hboard, if_neg hboard]
    cases Content.pathUnder? config.contentRoot uri with
    | none => rfl
    | some path => exact h.forget_runForFrame path _

theorem forget_answerMessage (config : Config) (p : Peer P.recorded.Conn) (payload : Bytes)
    (h : Host P.recorded) : answerMessage (P := P) config p payload h.forget =
      ((answerMessage config p payload h).1, (answerMessage config p payload h).2.forget) := by
  unfold answerMessage
  have hr := forget_respond config p.uri payload (h.note (.frame p.address payload.length p.uri))
  rw [show h.forget.note (.frame p.address payload.length p.uri) =
    (h.note (.frame p.address payload.length p.uri)).forget from rfl, hr]
  rcases respond config p.uri payload _ with ⟨_ | text, h₁⟩
  · rfl
  · simp only
    split <;> rfl

theorem forget_answer (config : Config) (p : Peer P.recorded.Conn) (f : Frame)
    (h : Host P.recorded) : answer (P := P) config p f h.forget =
      ((answer config p f h).1, (answer config p f h).2.forget) := by
  cases f with
  | ping payload => rfl
  | text payload => exact forget_answerMessage config p payload h
  | binary payload => exact forget_answerMessage config p payload h
  | close => rfl

theorem forget_send (p : Peer P.recorded.Conn) (reply : Option Bytes) (h : Host P.recorded) :
    send (P := P) p reply h.forget = ((send p reply h).1, (send p reply h).2.forget) := by
  cases reply with
  | none => rfl
  | some bs =>
    simp only [send, Host.forget_write]
    rcases h.write p.handle bs with ⟨e | _, h₁⟩
    · rfl
    · rfl

theorem forget_serveFrames (config : Config) (p : Peer P.recorded.Conn) (fuel : Nat) (any : Bool)
    (rest : Bytes) (h : Host P.recorded) : serveFrames (P := P) config p fuel any rest h.forget =
      ((serveFrames config p fuel any rest h).1, (serveFrames config p fuel any rest h).2.1,
        (serveFrames config p fuel any rest h).2.2.forget) := by
  induction fuel generalizing any rest h with
  | zero => rfl
  | succ fuel ih =>
    unfold serveFrames
    by_cases hempty : rest.isEmpty
    · rw [if_pos hempty, if_pos hempty]
    · rw [if_neg hempty, if_neg hempty]
      rcases Frame.parse rest with ⟨e | ⟨f, used⟩, rest'⟩
      · rfl
      · cases f with
        | close => rfl
        | _ =>
          simp only [forget_answer, forget_send]
          rcases send p (answer config p _ h).1 (answer config p _ h).2 with ⟨_ | _, h₁⟩
          · rfl
          · simp only [ih]

theorem forget_pollPeer (config : Config) (p : Peer P.recorded.Conn) (buf : Bytes)
    (h : Host P.recorded) : pollPeer (P := P) config p buf h.forget =
      ((pollPeer config p buf h).1, (pollPeer config p buf h).2.1,
        (pollPeer config p buf h).2.2.forget) := by
  unfold pollPeer
  rw [Host.forget_receive]
  rcases h.receive p.handle buf.length with ⟨e | bs, h₁⟩
  · by_cases hfatal : e.isFatal
    · simp only [hfatal, if_true]
      rfl
    · simp only [hfatal]
      rfl
  · simp only [forget_serveFrames]

theorem forget_pollEach (config : Config) (ps : List (Peer P.recorded.Conn)) (buf : Bytes)
    (h : Host P.recorded) : pollEach (P := P) config ps buf h.forget =
      ((pollEach config ps buf h).1, (pollEach config ps buf h).2.forget) := by
  induction ps generalizing buf h with
  | nil => rfl
  | cons p ps ih => simp only [pollEach, forget_pollPeer, ih]

/-- **A round of polls** is the same with records and without. -/
theorem forget_round (config : Config) (peers : Peers P.recorded.Conn) (h : Host P.recorded) :
    round (P := P) config peers h.forget =
      ((round config peers h).1, (round config peers h).2.forget) := by
  unfold round
  by_cases hempty : peers.isEmpty
  · rw [if_pos hempty, if_pos hempty]
  · rw [if_neg hempty, if_neg hempty]
    simp only [forget_pollEach]
    exact Prod.ext rfl (Host.forget_closeEach _ _)

end Polling

/-! ### The server -/

namespace Server

variable (s : Server P.recorded)

def forget (s : Server P.recorded) : Server P :=
  ⟨s.config, s.slots.map Client.forget, s.peers, s.host.forget⟩

theorem forget_acceptWait : s.forget.acceptWait = s.acceptWait := by
  unfold acceptWait
  rw [show s.forget.slots.isEmpty = s.slots.isEmpty from Slots.isEmpty_map _ _]
  rfl

theorem forget_place (conn : P.recorded.Conn) (h : Host P.recorded) :
    s.forget.place conn h.forget = (s.place conn h).forget := by
  have hins : s.forget.slots.insert? (Client.fresh conn) =
      (s.slots.insert? (Client.fresh conn)).map fun p => (p.1, p.2.map Client.forget) :=
    s.slots.insert?_map Client.forget (Client.fresh conn)
  simp only [place, hins]
  rcases s.slots.insert? (Client.fresh conn) with _ | ⟨i, slots⟩
  · rfl
  · rfl

theorem forget_accept : s.forget.accept = s.accept.forget := by
  unfold accept
  rw [show s.forget.slots.isFull = s.slots.isFull from Slots.isFull_map _ _, forget_acceptWait]
  by_cases hfull : s.slots.isFull
  · rw [if_pos hfull, if_pos hfull]
  · rw [if_neg hfull, if_neg hfull, show s.forget.host = s.host.forget from rfl,
      Host.forget_accept]
    rcases s.host.accept s.acceptWait with ⟨e | conn, h⟩
    · simp only
      by_cases ht : e.isTransient
      · rw [if_pos ht, if_pos ht]
        rfl
      · rw [if_neg ht, if_neg ht]
        split <;> rfl
    · exact s.forget_place conn h

theorem forget_stepSlot (i : Nat) : s.forget.stepSlot i = (s.stepSlot i).forget := by
  unfold stepSlot
  rw [show s.forget.slots.get? i = (s.slots.get? i).map Client.forget from Slots.get?_map _ _ _]
  cases s.slots.get? i with
  | none => rfl
  | some c =>
    have hstep : c.forget.step s.forget.config s.forget.peers s.forget.host =
        ((c.step s.config s.peers s.host).1.forget, (c.step s.config s.peers s.host).2.1,
          (c.step s.config s.peers s.host).2.2.forget) := c.forget_step s.config s.peers s.host
    simp only [Option.map_some, hstep, Client.forget_phase]
    rcases c.step s.config s.peers s.host with ⟨c', peers, h⟩
    by_cases hclosed : c'.phase = .closed
    · rw [if_pos hclosed, if_pos hclosed]
      have hslots := s.slots.map_remove Client.forget i
      have hhost := c'.forget_release (h.note (.slotFree i c'.kind))
      exact congrArg₂ (fun slots host => ({ s.forget with slots, peers, host } : Server P))
        hslots.symm hhost
    · rw [if_neg hclosed, if_neg hclosed]
      have hslots := s.slots.map_set Client.forget i c'
      exact congrArg (fun slots => ({ s.forget with slots, peers, host := h.forget } : Server P))
        hslots.symm

theorem forget_foldl_stepSlot (l : List Nat) :
    l.foldl stepSlot s.forget = (l.foldl stepSlot s).forget := by
  induction l generalizing s with
  | nil => rfl
  | cons i l ih =>
    rw [List.foldl_cons, List.foldl_cons, forget_stepSlot]
    exact ih (s.stepSlot i)

/-- Every moment of a tick is the same with records and without. -/
theorem forget_midTick (k : Nat) : s.forget.midTick k = (s.midTick k).forget := by
  unfold midTick
  rw [forget_accept, show s.accept.forget.slots.occupied = s.accept.slots.occupied from
    Slots.occupied_map _ _]
  exact s.accept.forget_foldl_stepSlot _

theorem forget_poll : s.forget.poll = s.poll.forget := by
  unfold poll
  have hr : Polling.round s.forget.config s.forget.peers s.forget.host =
      ((Polling.round s.config s.peers s.host).1,
        (Polling.round s.config s.peers s.host).2.forget) :=
    Polling.forget_round s.config s.peers s.host
  rw [hr]
  rfl

/-- **A tick** is the same with records and without. -/
theorem forget_tick : s.forget.tick = s.tick.forget := by
  rw [tick_eq, tick_eq, forget_accept, forget_midTick, forget_poll,
    show s.accept.forget.slots.occupied = s.accept.slots.occupied from Slots.occupied_map _ _]

theorem forget_shutdown : s.forget.shutdown = s.shutdown.forget := by
  have hslots : (s.slots.drain).2.map Client.forget = (s.forget.slots.drain).2 :=
    s.slots.map_drain Client.forget
  have hitems : s.forget.slots.items = s.slots.items.map Client.forget := Slots.items_map _ _
  have ha := Client.forget_abortEach s.slots.items { s.host with control := s.host.control.stop }
  have hc := Host.forget_closeHandles (P := P) s.peers.list
    (s.slots.items.foldl (fun h c => c.abort h) { s.host with control := s.host.control.stop })
  rw [← ha, ← hitems] at hc
  exact congrArg₂ (fun slots (h : Host P) => ({ s.forget with
    slots, peers := { s.peers with list := [] },
    host := h.closeListener.note .stopped } : Server P))
    hslots.symm hc

end Server

/-! ### Runs -/

/-- Around a platform without records anything may happen. -/
def Surroundings.any (P : Platform) : Surroundings P where
  network _ _ := True
  volume _ _ := True
  interpreter _ _ := True

namespace Server

variable {s s' : Server P.recorded} {t : Server P}

theorem Event.forget (h : Event (.recorded P) s s') : Event (.any P) s.forget s'.forget := by
  cases h with
  | step h =>
    cases h with
    | tick =>
      rw [← forget_tick]
      exact .step (.tick _)
    | stop => exact .step (.stop _)
    | setTimeouts receive send => exact .step (.setTimeouts _ receive send)
    | @around network volume interpreter board uptime =>
      exact .step (@Step.around P (.any P) s.forget network volume.inner interpreter.inner board
        uptime trivial trivial trivial)
  | shutdown =>
    rw [← forget_shutdown]
    exact .shutdown _

/-- What happens to a server can be put on record. -/
theorem Event.exists_recorded (h : Event (.any P) s.forget t) :
    ∃ s', Event (.recorded P) s s' ∧ s'.forget = t := by
  generalize hs : s.forget = u at h
  cases h with
  | step h =>
    cases h with
    | tick => exact ⟨s.tick, .step (.tick s), by rw [← hs, forget_tick]⟩
    | stop => exact ⟨s.stop, .step (.stop s), by rw [← hs]; rfl⟩
    | setTimeouts receive send =>
      exact ⟨s.setTimeouts receive send, .step (.setTimeouts s receive send), by rw [← hs]; rfl⟩
    | @around network volume interpreter board uptime =>
      refine ⟨{ s with host := { s.host with
        network, volume := { s.host.volume with inner := volume }
        interpreter := { s.host.interpreter with inner := interpreter }, board, uptime } },
        .step (.around s board uptime trivial rfl rfl), ?_⟩
      rw [← hs]
      rfl
  | shutdown => exact ⟨s.shutdown, .shutdown s, by rw [← hs, forget_shutdown]⟩

section New

variable {config : Config} {network : P.network.State} {volume : P.volume.State}
  {interpreter : P.interpreter.State} {board : P.peripherals.State} {s₀ : Server P.recorded}
  {t₀ : Server P}

theorem forget_of_new (hs : Server.new (P := P.recorded) config network (.start volume)
    (.start interpreter) board = .ok s₀)
    (ht : Server.new config network volume interpreter board = .ok t₀) : s₀.forget = t₀ := by
  obtain ⟨-, rfl⟩ := new_eq_ok_iff.mp hs
  obtain ⟨-, rfl⟩ := new_eq_ok_iff.mp ht
  exact congrArg (fun slots => (⟨config, slots, _, _⟩ : Server P)) (Slots.map_free _ _)

/-- **Records change nothing.** The runs of a new server are those of the same server on record,
with the records forgotten. -/
theorem runs_iff_exists_recorded
    (hnew : Server.new config network volume interpreter board = .ok t₀) :
    Runs (.any P) t₀ t ↔ ∃ s₀ s, Server.new (P := P.recorded) config network (.start volume)
      (.start interpreter) board = .ok s₀ ∧ Runs (.recorded P) s₀ s ∧ s.forget = t := by
  constructor
  · intro hrun
    induction hrun with
    | refl =>
      obtain ⟨hvalid, -⟩ := new_eq_ok_iff.mp hnew
      obtain ⟨s₀, hs⟩ : ∃ s₀, Server.new (P := P.recorded) config network (.start volume)
          (.start interpreter) board = .ok s₀ := ⟨_, new_eq_ok_iff.mpr ⟨hvalid, rfl⟩⟩
      exact ⟨s₀, s₀, hs, .refl, forget_of_new hs hnew⟩
    | tail _ hevent ih =>
      obtain ⟨s₀, s, hs₀, hs, rfl⟩ := ih
      obtain ⟨s', hs', rfl⟩ := hevent.exists_recorded
      exact ⟨s₀, s', hs₀, hs.tail hs', rfl⟩
  · rintro ⟨s₀, s, hs₀, hrun, rfl⟩
    induction hrun with
    | refl => rw [forget_of_new hs₀ hnew]
    | tail _ hevent ih => exact ih.tail hevent.forget

end New

end Server

end Microweb
