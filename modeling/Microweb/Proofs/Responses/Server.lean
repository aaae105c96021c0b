import Microweb.Proofs.Responses.Client

/-!
One response for each connection: on every run, what the server has written to a connection is of
one form. The invariant says what was written to whom, by where its owner stands; as no two owners
share a wire, what one of them writes leaves all others as they are.
-/

namespace Microweb

open Bench
open Relation (ReflTransGen)

variable {I : Interpreter} {B : Peripherals} {content? : String → Option Bytes} {room : Nat}
  {around : I.State → I.State → Prop} {origin : I.State} {returns : String → List String → Prop}

theorem Written.more {bss more : List Bytes} (h : Written content? returns room .socket bss)
    (hmore : ∀ f ∈ more, Frame.FromServer room f) :
    Written content? returns room .socket (bss ++ more) := by
  cases h with
  | socket accept hframes =>
    refine .socket accept fun f hf => ?_
    obtain hf | hf := List.mem_append.mp hf
    · exact hframes f hf
    · exact hmore f hf

theorem Client.sent_release (c : Client (.onFlash I B)) (h : Host (.onFlash I B)) (k : Nat) :
    (c.release h).network.sent k = h.network.sent k :=
  ((Scope.Reaches.refl (.closing _) h).clientRelease fun _ _ => trivial).sent_eq
    fun _ _ hw => hw.elim

theorem Client.changes_release (c : Client (.onFlash I B)) (h : Host (.onFlash I B)) :
    ReflTransGen (I.Changes around) h.interpreter (c.release h).interpreter :=
  ((Scope.Reaches.refl (.closing _) h).clientRelease fun _ _ => trivial).changes

namespace Server

variable {s s' s₀ : Server (.onFlash I B)}

/-- **What was written to whom**: to every connection a response of one form, to those that wait
nothing, to those in slots what their stages tell, and to peers the answer to their handshake and
frames. Pages are what scripts have returned since the interpreter was at a state. -/
structure Told (content? : String → Option Bytes) (around : I.State → I.State → Prop)
    (origin : I.State) (s : Server (.onFlash I B)) : Prop where
  owned : s.Owned
  content : s.host.volume.inner.content? = content?
  changes : ReflTransGen (I.Changes around) origin s.host.interpreter
  written : ∀ k, ∃ form, Written content? (I.Returns around origin s.host.interpreter)
    s.config.outputSize form (s.host.network.sent k)
  pending : ∀ c ∈ s.host.network.pending, s.host.network.sent c.number = []
  slots : ∀ i c, s.slots.get? i = some c → ∀ conn, c.conn = some conn →
    c.stage.Told content? around origin s.config.outputSize (s.host.network.sent conn.number)
      s.host.interpreter
  peers : ∀ p ∈ s.peers.list, Written content? (I.Returns around origin s.host.interpreter)
    s.config.outputSize .socket (s.host.network.sent p.handle.number)

namespace Told

/-- What was written stays of one form, whatever becomes of the interpreter. -/
theorem written_since (ht : s.Told content? around origin) {now : I.State}
    (hs : ReflTransGen (I.Changes around) s.host.interpreter now) (k : Nat) :
    ∃ form, Written content? (I.Returns around origin now) s.config.outputSize form
      (s.host.network.sent k) := by
  obtain ⟨form, hform⟩ := ht.written k
  exact ⟨form, hform.since hs⟩

/-! ### The parts of a tick -/

theorem accept (ht : s.Told content? around origin) : s.accept.Told content? around origin := by
  obtain ⟨hpeers, hvolume, hinterpreter⟩ := s.accept_frame
  refine ⟨Custody.Sound.accept Custody.accepts_owned ht.owned, ?_, hinterpreter ▸ ht.changes,
    fun k => ?_, fun c hc => ?_, fun i c hget conn hconn => ?_, fun p hp => ?_⟩
  · rw [hvolume]
    exact ht.content
  · rw [sent_accept, config_accept, hinterpreter]
    exact ht.written k
  · rw [sent_accept]
    obtain ⟨-, hpending, -⟩ | ⟨conn, i, t, -, hpending, -⟩ := s.accept_wires
    · exact ht.pending c (hpending ▸ hc)
    · exact ht.pending c (by rw [hpending]; exact List.mem_cons_of_mem _ hc)
  · rw [sent_accept, config_accept, hinterpreter]
    obtain ⟨hslots, -, -⟩ | ⟨conn', j, t, hins, hpending, -⟩ := s.accept_wires
    · exact ht.slots i c (hslots ▸ hget) conn hconn
    · obtain rfl | hget := Slots.get?_insert?_cases hins hget
      · -- The one that was accepted has waited until now.
        cases hconn
        exact ht.pending conn (by rw [hpending]; exact List.mem_cons_self)
      · exact ht.slots i c hget conn hconn
  · rw [sent_accept, config_accept, hinterpreter]
    exact ht.peers p (hpeers ▸ hp)

/-- What the unit of work of a slot makes of its own connection. -/
theorem stepSlot_own (ht : s.Told content? around origin) {i : Nat} {c : Client (.onFlash I B)}
    (hget : s.slots.get? i = some c) :
    (∀ conn, c.conn = some conn → ∃ form,
        Written content? (I.Returns around origin (s.stepSlot i).host.interpreter)
          s.config.outputSize form ((s.stepSlot i).host.network.sent conn.number)) ∧
      (∀ c', (s.stepSlot i).slots.get? i = some c' → ∀ conn, c'.conn = some conn →
        c.conn = some conn ∧ c'.stage.Told content? around origin s.config.outputSize
          ((s.stepSlot i).host.network.sent conn.number) (s.stepSlot i).host.interpreter) ∧
      ∀ p ∈ (s.stepSlot i).peers.list, p ∈ s.peers.list ∨ c.conn = some p.handle ∧
        Written content? (I.Returns around origin (s.stepSlot i).host.interpreter)
          s.config.outputSize .socket ((s.stepSlot i).host.network.sent p.handle.number) := by
  obtain ⟨hnone, -⟩ | ⟨c₁, c', peers, h, hget₁, hstep, hcases⟩ := s.stepSlot_cases i
  · cases hget.symm.trans hnone
  · cases hget.symm.trans hget₁
    have htold : ∀ conn, c.conn = some conn →
        (c.step s.config s.peers s.host).1.Told content? around origin s.config.outputSize conn
          (c.step s.config s.peers s.host).2.2 := fun conn hconn =>
      Client.told_step hconn ht.content ht.changes (ht.written _) (ht.slots i c hget conn hconn)
    have hpooled := c.pooled_step s.config s.peers s.host
    rw [hstep] at htold hpooled
    have hsent : ∀ k, (s.stepSlot i).host.network.sent k = h.network.sent k := by
      intro k
      obtain ⟨-, hs⟩ | ⟨-, hs⟩ := hcases
      · rw [hs]
        exact c'.sent_release _ k
      · rw [hs]
    have hchanges : ReflTransGen (I.Changes around) h.interpreter
        (s.stepSlot i).host.interpreter := by
      obtain ⟨-, hs⟩ | ⟨-, hs⟩ := hcases
      · rw [hs]
        exact c'.changes_release (h.note _)
      · rw [hs]
    have hpeers : (s.stepSlot i).peers = peers := by
      obtain ⟨-, hs⟩ | ⟨-, hs⟩ := hcases <;> rw [hs]
    rw [hpeers]
    refine ⟨fun conn hconn => ?_, fun d hget' conn hconn => ?_, fun p hp => ?_⟩
    · obtain ⟨form, hform⟩ := (htold conn hconn).written
      rw [hsent]
      exact ⟨form, hform.since hchanges⟩
    · obtain ⟨-, hs⟩ | ⟨-, hs⟩ := hcases
      · rw [hs] at hget'
        cases Slots.get?_remove_self.symm.trans hget'
      · have hd : d = c' := by
          rw [hs] at hget'
          exact Option.some.inj (hget'.symm.trans (Slots.get?_set_self (Slots.lt_of_get? hget)))
        rw [hd] at hconn ⊢
        rw [hsent]
        cases hpooled with
        | stays _ _ hsame =>
          exact ⟨hsame ▸ hconn, (htold conn (hsame ▸ hconn)).stage.since hchanges⟩
        | joins => cases hconn
    · cases hpooled with
      | stays => exact .inl hp
      | joins uri _ hconn =>
        obtain rfl | hp := Peers.eq_or_mem_of_enrol hp
        · rw [hsent]
          exact .inr ⟨hconn, ((htold _ hconn).left rfl).since hchanges⟩
        · exact .inl hp

theorem stepSlot (ht : s.Told content? around origin) (i : Nat) :
    (s.stepSlot i).Told content? around origin := by
  cases hget : s.slots.get? i with
  | none =>
    obtain ⟨-, hs⟩ | ⟨c, -, -, -, hget', -⟩ := s.stepSlot_cases i
    · rwa [hs]
    · cases hget.symm.trans hget'
  | some c =>
    obtain ⟨hwritten, hslot, hpeers⟩ := ht.stepSlot_own hget
    have hothers : ∀ k, (∀ conn, c.conn = some conn → conn.number ≠ k) →
        (s.stepSlot i).host.network.sent k = s.host.network.sent k := by
      refine fun k hk => s.sent_stepSlot fun c' hget' => ?_
      cases hget.symm.trans hget'
      exact hk
    have hchanges : ReflTransGen (I.Changes around) s.host.interpreter
        (s.stepSlot i).host.interpreter := (s.reaches_stepSlot i).changes
    refine ⟨Custody.Sound.stepSlot ht.owned i, ?_, ht.changes.trans hchanges, fun k => ?_,
      fun d hd => ?_, fun j c' hget' conn hconn => ?_, fun p hp => ?_⟩
    · rw [(s.reaches_stepSlot i).sameStock.content?_eq]
      exact ht.content
    · rw [config_stepSlot]
      by_cases hk : ∃ conn, c.conn = some conn ∧ conn.number = k
      · obtain ⟨conn, hconn, rfl⟩ := hk
        exact hwritten conn hconn
      · rw [hothers k fun conn hconn hnumber => hk ⟨conn, hconn, hnumber⟩]
        exact ht.written_since hchanges k
    · rw [pending_stepSlot] at hd
      rw [hothers _ fun conn hconn => ((ht.owned.apart hget hconn).1 d hd).symm]
      exact ht.pending d hd
    · rw [config_stepSlot]
      by_cases hj : j = i
      · subst hj
        exact (hslot c' hget' conn hconn).2
      · rw [s.get?_stepSlot_of_ne (Ne.symm hj)] at hget'
        rw [hothers _ fun own hown =>
          ((ht.owned.apart hget hown).2.1 j c' hj hget' conn hconn).symm]
        exact (ht.slots j c' hget' conn hconn).since hchanges
    · rw [config_stepSlot]
      obtain hp | ⟨-, hsocket⟩ := hpeers p hp
      · rw [hothers _ fun own hown => ((ht.owned.apart hget hown).2.2 p hp).symm]
        exact (ht.peers p hp).since hchanges
      · exact hsocket

theorem poll (ht : s.Told content? around origin) : s.poll.Told content? around origin := by
  have hchanges : ReflTransGen (I.Changes around) s.host.interpreter s.poll.host.interpreter :=
    s.reaches_poll.changes
  refine ⟨Custody.Sound.poll ht.owned, ?_, ht.changes.trans hchanges, fun k => ?_, fun d hd => ?_,
    fun i c hget conn hconn => ?_, fun q hq => ?_⟩
  · rw [s.reaches_poll.sameStock.content?_eq]
    exact ht.content
  · by_cases hk : ∃ p ∈ s.peers.list, p.handle.number = k
    · obtain ⟨p, hp, rfl⟩ := hk
      obtain ⟨more, hsent, hmore⟩ := s.sent_poll p.handle.number
      rw [hsent]
      exact ⟨.socket, ((ht.peers p hp).since hchanges).more fun f hf => (hmore f hf).1⟩
    · rw [s.sent_poll_of_ne fun p hp hnumber => hk ⟨p, hp, hnumber⟩]
      exact ht.written_since hchanges k
  · rw [pending_poll] at hd
    rw [s.sent_poll_of_ne fun p hp => ht.owned.peer_ne_pending hp hd]
    exact ht.pending d hd
  · rw [s.sent_poll_of_ne (ht.owned.apart hget hconn).2.2]
    exact (ht.slots i c hget conn hconn).since hchanges
  · obtain ⟨p, hp, heq⟩ := Polling.exists_mem_of_round hq
    obtain ⟨more, hsent, hmore⟩ := s.sent_poll p.handle.number
    rw [show q.handle = p.handle by rw [heq], hsent]
    exact ((ht.peers p hp).since hchanges).more fun f hf => (hmore f hf).1

/-- **A tick** keeps what was written to whom in form. -/
theorem tick (ht : s.Told content? around origin) : s.tick.Told content? around origin :=
  tick_induction (I := fun t => t.Told content? around origin) (fun _ => accept)
    (fun _ i h => h.stepSlot i) (fun _ => poll) ht

/-! ### What happens around a server, and its end -/

theorem aside {R : Faulty Flash → Faulty Flash → Prop} (hR : ∀ {v v'}, R v v' → SameFiles v v')
    (ht : s.Told content? around origin) (ha : Aside (.tended _ I B R around) s s') :
    s'.Told content? around origin := by
  obtain ⟨hconfig, hslots, hpeers⟩ := ha.frame
  obtain ⟨hsent, hpending⟩ := ha.steady.wires
  have hchanges : ReflTransGen (I.Changes around) s.host.interpreter s'.host.interpreter := by
    cases ha with
    | stop => exact .refl
    | setTimeouts => exact .refl
    | around board uptime hn hv hi => exact .single (.besides hi)
  refine ⟨ht.owned.step ha.steady.step, ?_, ht.changes.trans hchanges, fun k => ?_, fun c hc => ?_,
    fun i c hget conn hconn => ?_, fun p hp => ?_⟩
  · cases ha with
    | stop => exact ht.content
    | setTimeouts => exact ht.content
    | around board uptime hn hv =>
      rw [← ht.content]
      exact congrArg (fun files path => List.lookup path files) (hR hv)
  · rw [hsent, hconfig]
    exact ht.written_since hchanges k
  · rw [hsent]
    obtain hc | hnil := hpending c hc
    · exact ht.pending c hc
    · exact hnil
  · rw [hsent, hconfig]
    exact (ht.slots i c (hslots ▸ hget) conn hconn).since hchanges
  · rw [hsent, hconfig]
    exact (ht.peers p (hpeers ▸ hp)).since hchanges

theorem shutdown (ht : s.Told content? around origin) : s.shutdown.Told content? around origin := by
  obtain ⟨h, hr, heq⟩ := s.reaches_shutdown
  have hchanges : ReflTransGen (I.Changes around) s.host.interpreter
      s.shutdown.host.interpreter := by
    rw [heq]
    exact hr.changes
  refine ⟨ht.owned.shutdown, ?_, ht.changes.trans hchanges, fun k => ?_, fun c hc => ?_,
    fun i c hget => ?_, fun p hp => by cases hp⟩
  · rw [heq, ← ht.content]
    exact hr.sameStock.content?_eq
  · rw [sent_shutdown]
    exact ht.written_since hchanges k
  · rw [heq] at hc
    cases hc
  · have hmem := Slots.mem_items_of_get? hget
    rw [show s.shutdown.slots.items = [] from Slots.items_drain] at hmem
    cases hmem

/-- **Every run** keeps what was written to whom in form. -/
theorem runs {R : Faulty Flash → Faulty Flash → Prop} (hR : ∀ {v v'}, R v v' → SameFiles v v')
    (hs : s₀.Told content? around origin) (hrun : Runs (.tended _ I B R around) s₀ s) :
    s.Told content? around origin := by
  induction hrun with
  | refl => exact hs
  | tail _ hevent ih =>
    cases hevent with
    | step hstep =>
      obtain rfl | ha := hstep.tick_or_aside
      · exact ih.tick
      · exact ih.aside hR ha
    | shutdown => exact ih.shutdown

end Told

theorem told_new {config : Config} {flash : Faulty Flash} {interpreter : I.State}
    {board : B.State} (hnew : Server.new (P := .onFlash I B) config Wires.empty flash interpreter
      board = .ok s₀) (around : I.State → I.State → Prop) :
    s₀.Told flash.inner.content? around interpreter := by
  have howned := owned_new hnew
  obtain ⟨-, rfl⟩ := new_eq_ok_iff.mp hnew
  refine ⟨howned, rfl, .refl, fun k => ⟨.nothing, .nothing⟩, by nofun, fun i c hget => ?_, by nofun⟩
  have hmem := Slots.mem_items_of_get? hget
  rw [Slots.items_free] at hmem
  cases hmem

/-- **One response for each connection.** On every run on wires, whatever clients do, wherever
writes, receives and reads fail, however the interpreter changes between ticks and whatever the
board says, what was written to a connection is nothing, the page for what is not there, a head with
a length and what a file starts with, a head without a length and pages of a script, or the answer
to a handshake and frames. The pages are those that one script, which was loaded in the course of
the run, has returned since, at the states that the interpreter came to from the one it had at
first. And the bytes alone tell which of these was written, whatever pages scripts may return. -/
theorem one_response {config : Config} {flash : Faulty Flash} {interpreter : I.State}
    {board : B.State} (hnew : Server.new (P := .onFlash I B) config Wires.empty flash interpreter
      board = .ok s₀) (hrun : Runs (.tended _ I B SameFiles around) s₀ s) :
    ∀ (n : Nat) (w : Wire), s.host.network.list[n]? = some w →
      ∃ form, Written flash.inner.content? (I.Returns around interpreter s.host.interpreter)
          config.outputSize form w.written.reverse ∧
        ∀ returns form' writes,
          Written flash.inner.content? returns config.outputSize form' writes →
            writes.flatten = w.output → form' = form := by
  have hconfig : s.config = config := by
    obtain ⟨-, rfl⟩ := new_eq_ok_iff.mp hnew
    exact Runs.config_eq hrun
  intro n w hw
  obtain ⟨form, hform⟩ := ((told_new hnew around).runs id hrun).written n
  rw [Wires.sent, hw, hconfig] at hform
  refine ⟨form, hform, fun returns form' writes hform' houtput => ?_⟩
  rw [← Form.read_of_written hform', ← Form.read_of_written hform, houtput]
  rfl

end Server

/-! ### Pages of a table of scripts -/

namespace Bench.Scripts

/-- The scripts that there are to load are the same. -/
def SameTable (s s' : Scripts) : Prop := s'.scripts = s.scripts

theorem SameTable.refl (s : Scripts) : SameTable s s := rfl

variable {origin s s' : interpreter.State} {path : String} {pages : List String}
  {x : interpreter.Script}

theorem sameTable_load (path : String) (s : Scripts) : SameTable s (load path s).2 := by
  unfold load
  split <;> rfl

theorem sameTable_serveFrame (path payload : String) (s : Scripts) :
    SameTable s (interpreter.serveFrame path payload s) := by
  have hload : SameTable s (interpreter.load path (interpreter.prepare payload s)).2 :=
    sameTable_load path (interpreter.prepare payload s)
  unfold Interpreter.serveFrame
  generalize interpreter.load path (interpreter.prepare payload s) = r at hload ⊢
  obtain ⟨e | x, s'⟩ := r
  · exact hload
  · exact hload

/-- Whatever is asked of the interpreter, the table stays. -/
theorem sameTable_of_changes (hc : interpreter.Changes SameTable s s') : SameTable s s' := by
  cases hc with
  | besides hs => exact hs
  | asked hm =>
    cases hm with
    | load q hp => exact sameTable_load _ _
    | call x hs => rfl
    | release x => rfl
    | collect => rfl
    | serveFrame payload hp => exact sameTable_serveFrame _ payload s

theorem scripts_eq_of_changes (hs : ReflTransGen (interpreter.Changes SameTable) origin s) :
    s.scripts = origin.scripts := by
  induction hs with
  | refl => rfl
  | tail _ hlast ih => exact (sameTable_of_changes hlast).trans ih

/-- **A script of a table** behaves as is laid down for its path, and the pages that it returns are
the results of its calls from the first on. -/
theorem returned_of_table (h : interpreter.Returned SameTable origin path pages x s) :
    origin.scripts.lookup path = some x.behavior ∧ x.calls = pages.length ∧
      ∀ n page, pages[n]? = some page → ∃ t, result x.behavior n t = .ok (some page) := by
  induction h with
  | load hs q heq =>
    have htable := scripts_eq_of_changes hs
    dsimp only [interpreter, load] at heq
    rw [htable] at heq
    split at heq
    · cases heq
    · cases heq
    · next b _ hlookup =>
      cases heq
      exact ⟨hlookup, rfl, nofun⟩
  | @call pages x x' page s s' _ heq ih =>
    obtain ⟨hlookup, hcalls, hpages⟩ := ih
    obtain ⟨hr, -⟩ := Prod.ext_iff.mp heq
    obtain ⟨hresult, rfl⟩ := Prod.ext_iff.mp hr
    refine ⟨hlookup, ?_, fun n p hp => ?_⟩
    · rw [List.length_append, ← hcalls]
      rfl
    · by_cases hn : n < pages.length
      · rw [List.getElem?_append_left hn] at hp
        exact hpages n p hp
      · -- it is the page of this call
        rw [List.getElem?_append_right (Nat.le_of_not_lt hn)] at hp
        obtain ⟨hzero, rfl⟩ : n - pages.length = 0 ∧ page = p := by
          simpa [List.getElem?_singleton] using hp
        obtain rfl : n = x.calls := by omega
        exact ⟨s, hresult⟩
  | meanwhile _ _ ih => exact ih

/-- Of pages that are laid down the first are returned. -/
theorem isPrefix_of_returned {laid : List String}
    (h : interpreter.Returned SameTable origin path pages x s)
    (hlaid : origin.scripts.lookup path = some (.pages laid)) : pages <+: laid := by
  obtain ⟨hlookup, -, hpages⟩ := returned_of_table h
  rw [hlaid] at hlookup
  cases hb : x.behavior with
  | pages ps =>
    rw [hb] at hlookup hpages
    cases hlookup
    refine List.prefix_iff_getElem?.mpr fun n hn => ?_
    obtain ⟨t, ht⟩ := hpages n _ (List.getElem?_eq_getElem hn)
    simpa [result] using ht
  | _ =>
    rw [hb] at hlookup
    cases hlookup

end Bench.Scripts

/-! ### Clients of all kinds -/

namespace Responses

/-- A server that sends files and pages in pieces of eight bytes, with a script of three pages. -/
def idle : Server shelf :=
  onShelf { Config.default with maxConnections := 5, maxUriLength := 256, outputSize := 8 }
    ⟨Flash.empty.withFile "/html/a.txt" (List.replicate 20 0x61), .none, 0⟩
    (Scripts.empty.withScript "/html/b.lua" (.pages ["one", "two and more", "three"]))

/-- Five clients connect. -/
def visited : Server shelf :=
  ((((idle.onNetwork fun ws => ws.connect (clientAddress 1)).onNetwork
    fun ws => ws.connect (clientAddress 2)).onNetwork
    fun ws => ws.connect (clientAddress 3)).onNetwork
    fun ws => ws.connect (clientAddress 4)).onNetwork
    fun ws => ws.connect (clientAddress 5)

/-- The first client asks for a file, the second for an upgrade, and it sends a frame at once; the
third asks for a script and the fourth for what is not there. The fifth asks for nothing. -/
def queue : Server shelf :=
  ((((visited.onNetwork (ask 0 "/a.txt")).onNetwork
    fun ws => ws.update 1 fun w =>
      w.send (upgradeRequest "/" "dGhlIHNhbXBsZSBub25jZQ==")).onNetwork
    fun ws => ws.update 1 fun w => w.send (Frame.encodeMasked Opcode.ping [0x68] ⟨1, 2, 3, 4⟩)).onNetwork
    (ask 2 "/b.lua")).onNetwork (ask 3 "/c.txt")

/-- After the first piece of the file no more could be written of it, and after the second page of
the script no third was called for yet. -/
def served : Server shelf :=
  (queue.tick.tick.tick.onNetwork fun ws => ws.update 0 fun w => w.failWrites .reset).tick.tick.tick

/-- What clients do leaves the files and the scripts. -/
theorem step_client {s : Server shelf} {f : Wires → Wires}
    (h : s.host.network.Acts (f s.host.network)) :
    Server.Step (.tended _ _ _ SameFiles Scripts.SameTable) s (s.onNetwork f) :=
  .onNetwork SameFiles.refl Scripts.SameTable.refl s f h

theorem serves_visited :
    Server.Serves (.tended _ _ _ SameFiles Scripts.SameTable) idle visited := by
  unfold visited
  refine ReflTransGen.tail ?_ (step_client (.connect (clientAddress 5)))
  refine ReflTransGen.tail ?_ (step_client (.connect (clientAddress 4)))
  refine ReflTransGen.tail ?_ (step_client (.connect (clientAddress 3)))
  refine ReflTransGen.tail ?_ (step_client (.connect (clientAddress 2)))
  exact ReflTransGen.single (step_client (.connect (clientAddress 1)))

theorem serves_queue :
    Server.Serves (.tended _ _ _ SameFiles Scripts.SameTable) idle queue := by
  unfold queue
  refine ReflTransGen.tail ?_ (step_client (.send 3 _))
  refine ReflTransGen.tail ?_ (step_client (.send 2 _))
  refine ReflTransGen.tail ?_ (step_client (.send 1 _))
  refine ReflTransGen.tail ?_ (step_client (.send 1 _))
  exact serves_visited.tail (step_client (.send 0 _))

theorem serves_served :
    Server.Serves (.tended _ _ _ SameFiles Scripts.SameTable) idle served := by
  unfold served
  refine ReflTransGen.tail (ReflTransGen.tail (ReflTransGen.tail ?_ (.tick _)) (.tick _)) (.tick _)
  refine ReflTransGen.tail ?_ (step_client (.failWrites 0 .reset))
  exact ((serves_queue.tail (.tick _)).tail (.tick _)).tail (.tick _)

/-- Each client was sent what it asked for: the script sent the first of the pages that are laid down
for it, and the second of these was cut. -/
theorem one_response_served :
    (served.host.network.list.map fun w => (Form.read w.output, w.written.length)) =
        [(.file, 2), (.socket, 2), (.script, 3), (.page, 1), (.nothing, 0)] ∧
      ∀ (n : Nat) (w : Wire), served.host.network.list[n]? = some w →
        Written idle.host.volume.inner.content?
            (fun path pages => path = "/html/b.lua" ∧ pages <+: ["one", "two and more", "three"]) 8
            (Form.read w.output) w.written.reverse ∧
          ∀ returns form writes, Written idle.host.volume.inner.content? returns 8 form writes →
            writes.flatten = w.output → form = Form.read w.output := by
  have hforms : (served.host.network.list.map fun w => (Form.read w.output, w.written.length)) =
      [(.file, 2), (.socket, 2), (.script, 3), (.page, 1), (.nothing, 0)] := by decide +kernel
  have hrun := serves_served.runs
  -- From here on the server need not be computed.
  generalize served = s at hforms hrun ⊢
  refine ⟨hforms, fun n w hw => ?_⟩
  obtain ⟨form, hform, hunique⟩ :=
    Server.one_response (new_onShelf (by decide) _ _) hrun n w hw
  rw [show Form.read w.output = form from Form.read_of_written hform]
  refine ⟨hform.mono fun path pages ⟨x, hreturned⟩ => ?_, hunique⟩
  obtain ⟨hlookup, -⟩ := Scripts.returned_of_table hreturned
  obtain rfl : path = "/html/b.lua" := by
    obtain ⟨before, after, heq, -⟩ := List.lookup_eq_some_iff.mp hlookup
    have hmem : (path, x.behavior) ∈ idle.host.interpreter.scripts := by
      rw [show idle.host.interpreter.scripts = _ from heq]
      simp
    exact congrArg Prod.fst (List.mem_singleton.mp hmem)
  exact ⟨rfl, Scripts.isPrefix_of_returned hreturned rfl⟩

end Responses

end Microweb
