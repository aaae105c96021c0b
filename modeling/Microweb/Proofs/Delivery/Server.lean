import Microweb.Proofs.Delivery.Client
import Microweb.Proofs.Responses.Server

/-!
A file is sent as it is, whatever other connections and peers do meanwhile. Within a tick the unit
of work of the slot takes the response one step on; the accept, the other slots and the polls leave
the slot and its wire alone.
-/

namespace Microweb

open Bench

variable {I : Interpreter} {B : Peripherals}

/-- A connection that is released is closed, and nothing more was sent. -/
theorem Client.ended_release {c : Client (.onFlash I B)} {conn : Handle}
    {h : Host (.onFlash I B)} {bss : List Bytes} (hconn : c.conn = some conn)
    (hlt : conn.number < (c.release h).network.list.length)
    (hsent : h.network.sent conn.number = bss) :
    (c.release h).network.Ended conn.number bss := by
  refine ⟨?_, by rw [c.sent_release, hsent]⟩
  unfold release at hlt ⊢
  rw [hconn] at hlt ⊢
  have hlt : conn.number < (h.network.update conn.number Wire.close).list.length := hlt
  rw [Wires.length_update] at hlt
  show (h.network.update conn.number Wire.close).isClosed conn.number = true
  rw [Wires.isClosed_close]
  simp [hlt]

namespace Server

/-! ### Servers that run -/

section Able

variable {V : Volume} {R : V.State → V.State → Prop} {s s' : Server (.wired V I B)} {k : Nat}

/-- The server is to go on, and there is no error on the wire that writes would meet. -/
structure Able (s : Server (.wired V I B)) (k : Nat) : Prop where
  running : s.host.control.running = true
  fine : s.host.network.failure? k = none

theorem Able.of_accept (h : s.accept.Able k) : s.Able k := by
  refine ⟨?_, (s.wire_accept k).2.2 ▸ h.fine⟩
  by_contra hstop
  exact Bool.false_ne_true ((isRunning_accept (eq_false_of_ne_true hstop)).symm.trans h.running)

theorem Able.of_stepSlot {i : Nat} (h : (s.stepSlot i).Able k) : s.Able k :=
  ⟨(s.reaches_stepSlot i).control ▸ h.running, (s.reaches_stepSlot i).failure?_eq k ▸ h.fine⟩

theorem Able.of_foldl {l : List Nat} (h : (l.foldl stepSlot s).Able k) : s.Able k := by
  induction l generalizing s with
  | nil => exact h
  | cons i l ih => exact (ih h).of_stepSlot

theorem Able.of_poll (h : s.poll.Able k) : s.Able k :=
  ⟨s.reaches_poll.control ▸ h.running, s.reaches_poll.failure?_eq k ▸ h.fine⟩

theorem Able.of_tick (h : s.tick.Able k) : s.Able k :=
  h.of_poll.of_foldl.of_accept

theorem Able.of_aside (ha : Aside (.steady V I B R) s s') (h : s'.Able k) : s.Able k := by
  cases ha with
  | stop => cases h.running
  | setTimeouts => exact ⟨h.running, h.fine⟩
  | around board uptime hn => exact ⟨h.running, Wires.failure?_of_acts hn h.fine⟩

end Able

/-! ### A file under way -/

variable {s s' t s₀ : Server (.onFlash I B)} {flash : Faulty Flash} {config : Config} {i n : Nat}
  {conn : Handle} {path : String} {content : Bytes}

/-- **A file under way** from a slot to a connection, with so many ticks still to come. At the end
the connection is closed, and all was sent. -/
structure Delivers (flash : Faulty Flash) (config : Config) (i : Nat) (conn : Handle)
    (path : String) (content : Bytes) (n : Nat) (s : Server (.onFlash I B)) : Prop where
  owned : s.Owned
  stock : SameStock flash s.host.volume
  config_eq : s.config = config
  stands : n ≠ 0 → ∃ c, s.slots.get? i = some c ∧ c.conn = some conn ∧
    Stands path content config.chunkSize (pieceSize flash.faults config.chunkSize) c.stage
      (s.host.network.sent conn.number) n
  ended : n = 0 → ∃ pieces, pieces.flatten = content ∧
    s.host.network.Ended conn.number (fileHead path content :: pieces)

namespace Delivers

/-- What leaves the slot and its wire alone leaves the file under way. -/
theorem keep (hd : Delivers flash config i conn path content n s) (howned : t.Owned)
    (hstock : SameStock s.host.volume t.host.volume) (hconfig : t.config = s.config)
    (hslot : ∀ c, n ≠ 0 → s.slots.get? i = some c → c.conn = some conn →
      t.slots.get? i = some c ∧
        t.host.network.sent conn.number = s.host.network.sent conn.number)
    (hended : ∀ bss, s.host.network.Ended conn.number bss →
      t.host.network.Ended conn.number bss) :
    Delivers flash config i conn path content n t := by
  refine ⟨howned, hd.stock.trans hstock, hconfig.trans hd.config_eq, fun hn => ?_, fun hn => ?_⟩
  · obtain ⟨c, hget, hconn, hstands⟩ := hd.stands hn
    obtain ⟨hget', hsent⟩ := hslot c hn hget hconn
    exact ⟨c, hget', hconn, by rwa [hsent]⟩
  · obtain ⟨pieces, hpieces, hend⟩ := hd.ended hn
    exact ⟨pieces, hpieces, hended _ hend⟩

theorem accept (hd : Delivers flash config i conn path content n s) :
    Delivers flash config i conn path content n s.accept := by
  obtain ⟨hsent, hclosed, -⟩ := s.wire_accept conn.number
  exact hd.keep (Custody.Sound.accept Custody.accepts_owned hd.owned) s.sameStock_accept
    s.config_accept (fun c _ hget _ => ⟨get?_accept hget, hsent⟩)
    fun bss hend => ⟨by rw [hclosed, hend.1], by rw [hsent, hend.2]⟩

/-- The units of work of other slots. Once all was sent the slot may be another's. -/
theorem stepSlot_of_ne (hd : Delivers flash config i conn path content n s) {j : Nat}
    (hj : n ≠ 0 → j ≠ i) : Delivers flash config i conn path content n (s.stepSlot j) := by
  have hr := s.reaches_stepSlot j
  refine hd.keep (Custody.Sound.stepSlot hd.owned j) hr.sameStock (s.config_stepSlot j)
    (fun c hn hget hconn => ⟨?_, ?_⟩) fun bss hend => hr.ended hend
  · rw [s.get?_stepSlot_of_ne (hj hn), hget]
  · exact s.sent_stepSlot fun c' hget' d hd' =>
      (hd.owned.apart hget hconn).2.1 j c' (hj hn) hget' d hd'

theorem poll (hd : Delivers flash config i conn path content n s) :
    Delivers flash config i conn path content n s.poll := by
  have hr := s.reaches_poll
  refine hd.keep (Custody.Sound.poll hd.owned) hr.sameStock rfl (fun c _ hget hconn => ?_)
    fun bss hend => hr.ended hend
  exact ⟨hget, s.sent_poll_of_ne (hd.owned.apart hget hconn).2.2⟩

theorem aside (hd : Delivers flash config i conn path content n s)
    (ha : Aside (.steady _ I B SameStock) s s') :
    Delivers flash config i conn path content n s' := by
  obtain ⟨hconfig, hslots, -⟩ := ha.frame
  obtain ⟨hsent, -⟩ := ha.wires
  refine hd.keep (hd.owned.step ha.step) ?_ hconfig
    (fun c _ hget _ => ⟨by rw [hslots, hget], hsent _⟩) fun bss hend => ?_
  · cases ha with
    | stop => exact .refl _
    | setTimeouts => exact .refl _
    | around board uptime hn hv => exact hv
  · refine ⟨?_, by rw [hsent, hend.2]⟩
    cases ha with
    | stop => exact hend.1
    | setTimeouts => exact hend.1
    | around board uptime hn => exact (Wires.acts_frame hn conn.number).2 hend.1

/-- **The unit of work of the slot** takes the file one step on. -/
theorem stepSlot (hd : Delivers flash config i conn path content (n + 1) s)
    (hheld : Holds flash path content) (hdir : flash.inner.isDirectory path = false)
    (hchunk : 0 < config.chunkSize) (hable : s.Able conn.number) :
    Delivers flash config i conn path content n (s.stepSlot i) := by
  obtain rfl := hd.config_eq
  obtain ⟨c, hget, hconn, hstands⟩ := hd.stands (Nat.succ_ne_zero n)
  obtain ⟨hlt, hopen⟩ := hd.owned.isClosed_eq_false (mem_handles hget hconn)
  have hpiece : pieceSize s.host.volume.faults s.config.chunkSize =
      pieceSize flash.faults s.config.chunkSize := by rw [hd.stock.faults]
  have hdir' : s.host.volume.inner.isDirectory path = false := by
    rw [Flash.isDirectory, hd.stock.directories]
    exact hdir
  obtain ⟨hconn', hstands'⟩ := hstands.step hconn (hheld.same hd.stock) hdir' hable.running
    hpiece (pieceSize_pos hheld.limit hchunk) ⟨hlt, hopen, hable.fine⟩ s.peers
  have hr := s.reaches_stepSlot i
  refine ⟨Custody.Sound.stepSlot hd.owned i, hd.stock.trans hr.sameStock, s.config_stepSlot i,
    fun hn => ?_, fun hn => ?_⟩
  · rw [stepSlot_of_open hget (mt hstands'.closed_iff.mp hn)]
    exact ⟨_, Slots.get?_set_self (Slots.lt_of_get? hget), hconn', hstands'⟩
  · subst hn
    obtain ⟨pieces, hpieces, hsent⟩ := hstands'.of_zero
    refine ⟨pieces, hpieces, ?_⟩
    have hlen := hr.length_eq
    obtain ⟨hnone, -⟩ | ⟨c₁, c', peers, h, hget₁, hstep, ⟨-, ht⟩ | ⟨hphase, -⟩⟩ :=
      s.stepSlot_cases i
    · cases hget.symm.trans hnone
    · cases hget.symm.trans hget₁
      rw [hstep] at hconn' hsent
      rw [ht] at hlen ⊢
      exact Client.ended_release hconn' (hlen.symm ▸ hlt) hsent
    · cases hget.symm.trans hget₁
      rw [hstep] at hstands'
      exact absurd (hstands'.closed_iff.mpr rfl) hphase

/-- **A tick** takes the file one step on, unless it stops the server or the wire failed. -/
theorem tick (hd : Delivers flash config i conn path content n s)
    (hheld : Holds flash path content) (hdir : flash.inner.isDirectory path = false)
    (hchunk : 0 < config.chunkSize) (hable : s.tick.Able conn.number) :
    Delivers flash config i conn path content (n - 1) s.tick := by
  cases n with
  | zero =>
    -- The connection is closed; whoever has its slot by now is on another wire.
    exact tick_induction (I := fun t => Delivers flash config i conn path content 0 t)
      (fun _ ht => ht.accept) (fun _ _ ht => ht.stepSlot_of_ne fun h => absurd rfl h)
      (fun _ ht => ht.poll) hd
  | succ n =>
    obtain ⟨c, hget, -, -⟩ := hd.accept.stands (Nat.succ_ne_zero n)
    obtain ⟨before, after, hbefore, hafter, htick⟩ := exists_tick_eq hget
    rw [htick] at hable ⊢
    have hb := foldl_stepSlot_induction
      (I := fun t => Delivers flash config i conn path content (n + 1) t) hbefore
      (fun _ j hj ht => ht.stepSlot_of_ne fun _ => hj) hd.accept
    -- What comes after in the tick starts no server and mends no wire, so both were fine here.
    have ho := hb.stepSlot hheld hdir hchunk hable.of_poll.of_foldl.of_stepSlot
    have ha := foldl_stepSlot_induction
      (I := fun t => Delivers flash config i conn path content n t) hafter
      (fun _ j hj ht => ht.stepSlot_of_ne fun _ => hj) ho
    exact ha.poll

/-- **So many ticks** take the file so many steps on. -/
theorem passes {m : Nat} (hd : Delivers flash config i conn path content n s)
    (hheld : Holds flash path content) (hdir : flash.inner.isDirectory path = false)
    (hchunk : 0 < config.chunkSize) (hp : Passes (.steady _ I B SameStock) s m s')
    (hable : s'.Able conn.number) : Delivers flash config i conn path content (n - m) s' := by
  induction hp with
  | refl => exact hd
  | tick _ ih => exact (ih hable.of_tick).tick hheld hdir hchunk hable
  | aside _ ha ih => exact (ih (hable.of_aside ha)).aside ha

/-- The connection is closed exactly if no more ticks are to come. -/
theorem isClosed_iff (hd : Delivers flash config i conn path content n s) :
    s.host.network.isClosed conn.number = true ↔ n = 0 := by
  by_cases hn : n = 0
  · obtain ⟨pieces, -, hclosed, -⟩ := hd.ended hn
    exact ⟨fun _ => hn, fun _ => hclosed⟩
  · obtain ⟨c, hget, hconn, -⟩ := hd.stands hn
    rw [(hd.owned.isClosed_eq_false (mem_handles hget hconn)).2]
    exact ⟨(by nofun), fun h => absurd h hn⟩

end Delivers

/-! ### The request -/

/-- That request is what the slot is about to receive from the connection. -/
structure Receives (s : Server (.onFlash I B)) (i : Nat) (conn : Handle) (r : Request) :
    Prop where
  slot : ∃ c, s.slots.get? i = some c ∧ c.conn = some conn ∧ c.stage = .request
  request : ∃ head, (Wires.receive conn s.config.requestRoom s.host.network).1 = .ok head ∧
    Request.parse head s.config.maxUriLength = .ok r

variable {r : Request} {around : I.State → I.State → Prop} {origin : I.State}

/-- Other slots do not change what is received. -/
theorem Receives.stepSlot_of_ne (h : s.Receives i conn r) (howned : s.Owned) {j : Nat}
    (hj : j ≠ i) : (s.stepSlot j).Receives i conn r := by
  obtain ⟨⟨c, hget, hconn, hstage⟩, head, hhead, hparse⟩ := h
  obtain ⟨-, hslots, hpeers⟩ := howned.apart hget hconn
  have hwire := s.wire_stepSlot (fun c' hget' d hd => hslots j c' hj hget' d hd) hpeers
  refine ⟨⟨c, ?_, hconn, hstage⟩, head, ?_, ?_⟩
  · rw [s.get?_stepSlot_of_ne hj, hget]
  · rw [config_stepSlot, Wires.receive_congr hwire, hhead]
  · rw [config_stepSlot, hparse]

theorem Receives.stepSlot (h : s.Receives i conn r)
    (ht : s.Told flash.inner.content? around origin)
    (hstock : SameStock flash s.host.volume) (hplain : r.wantsUpgrade = false)
    (hroute : (Route.find s.config r.uri s.host).1 = .file path)
    (hmax : flash.inner.maxOpen = none) (content : Bytes) :
    Delivers flash s.config i conn path content
      (rounds (pieceSize flash.faults s.config.chunkSize) content.length + 2)
      (s.stepSlot i) := by
  obtain ⟨⟨c, hget, hconn, hstage⟩, head, hhead, hparse⟩ := h
  have hsent : s.host.network.sent conn.number = [] := by
    have hnil := ht.slots i c hget conn hconn
    rwa [hstage] at hnil
  obtain ⟨hconn', hstands⟩ : (c.step s.config s.peers s.host).1.conn = some conn ∧
      Stands path content s.config.chunkSize (pieceSize flash.faults s.config.chunkSize)
        (c.step s.config s.peers s.host).1.stage _ _ :=
    Stands.receive hconn hstage hhead hparse hplain hroute (hstock.maxOpen.trans hmax) hsent s.peers
  refine ⟨Custody.Sound.stepSlot ht.owned i, hstock.trans (s.reaches_stepSlot i).sameStock,
    s.config_stepSlot i, fun hn => ?_, fun hn => absurd hn (Nat.succ_ne_zero _)⟩
  rw [stepSlot_of_open hget (mt hstands.closed_iff.mp hn)]
  exact ⟨_, Slots.get?_set_self (Slots.lt_of_get? hget), hconn', hstands⟩

/-- **The tick that receives the request** puts the file under way. -/
theorem Receives.tick (h : s.accept.Receives i conn r)
    (ht : s.Told flash.inner.content? around origin)
    (hstock : SameStock flash s.host.volume) (hplain : r.wantsUpgrade = false)
    (hroute : (Route.find s.config r.uri s.host).1 = .file path)
    (hmax : flash.inner.maxOpen = none) (content : Bytes) :
    Delivers flash s.config i conn path content
      (rounds (pieceSize flash.faults s.config.chunkSize) content.length + 2) s.tick := by
  obtain ⟨c, hget, -, -⟩ := h.slot
  obtain ⟨before, after, hbefore, hafter, htick⟩ := exists_tick_eq hget
  have hb := foldl_stepSlot_induction
    (I := fun t => t.Told flash.inner.content? around origin ∧
      SameStock s.host.volume t.host.volume ∧ t.config = s.config ∧ t.Receives i conn r) hbefore
    (fun t j hj ⟨ht, hs, hc, hr⟩ => ⟨ht.stepSlot j, hs.trans (t.reaches_stepSlot j).sameStock,
      (t.config_stepSlot j).trans hc, hr.stepSlot_of_ne ht.owned hj⟩)
    ⟨ht.accept, s.sameStock_accept, s.config_accept, h⟩
  rw [htick]
  generalize before.foldl Server.stepSlot s.accept = t at hb
  obtain ⟨htold, hsame, hconfig, hreceives⟩ := hb
  have hroute' : (Route.find t.config r.uri t.host).1 = .file path := by
    rw [hconfig, ← hroute]
    exact Host.agree_route hsame (hstock.maxOpen.trans hmax) s.config r.uri
  have ho := hreceives.stepSlot htold (hstock.trans hsame) hplain hroute' hmax content
  rw [hconfig] at ho
  have ha := foldl_stepSlot_induction
    (I := fun t => Delivers flash s.config i conn path content
      (rounds (pieceSize flash.faults s.config.chunkSize) content.length + 2) t) hafter
    (fun _ j hj ht => ht.stepSlot_of_ne fun _ => hj) ho
  exact ha.poll

/-! ### Runs -/

/-- On a run around which the stock stays, it stays on the flash. -/
theorem sameStock_serves (hrun : Serves (.steady _ I B SameStock) s s') :
    SameStock s.host.volume s'.host.volume := by
  induction hrun with
  | refl => exact .refl _
  | @tail t t' _ hstep ih =>
    obtain rfl | ha := hstep.tick_or_aside
    · exact ih.trans t.sameStock_tick
    · cases ha with
      | stop => exact ih
      | setTimeouts => exact ih
      | around board uptime hn hv => exact ih.trans hv

/-- **A file is sent as it is.** When a connection of a server that runs is about to receive a
request that asks for no upgrade and is routed to a file which the flash holds, then whatever
happens on other connections and to peers, to the interpreter and the board, the server closes the
connection in the tick which is its third and as many more as it takes to read the file piece by
piece, one at least, and what it has then written is the head of the response and the content. The
server must be running in the end, and writes to the connection must not have been made to fail. -/
theorem file_delivered {interpreter : I.State} {board : B.State}
    (hnew : Server.new (P := .onFlash I B) config Wires.empty flash interpreter board = .ok s₀)
    (hrun : Serves (.steady _ I B SameStock) s₀ s) (hreceives : s.accept.Receives i conn r)
    (hplain : r.wantsUpgrade = false) (hroute : (Route.find config r.uri s.host).1 = .file path)
    (hheld : Holds flash path content) (hpasses : Passes (.steady _ I B SameStock) s.tick n s')
    (hrunning : s'.isRunning = true) (hfine : s'.host.network.failure? conn.number = none) :
    (s'.host.network.isClosed conn.number = true ↔
        3 + max 1 (content.length ⌈/⌉ pieceSize flash.faults config.chunkSize) ≤ n + 1) ∧
      (s'.host.network.isClosed conn.number = true →
        ∀ w, s'.host.network.list[conn.number]? = some w →
          w.output = Reply.contentHead (Content.typeOf (Content.suffix? path))
            (some content.length) ++ content) := by
  obtain ⟨hvalid, hs₀⟩ := new_eq_ok_iff.mp hnew
  have hflash : s₀.host.volume = flash := by rw [hs₀]
  have hconfig : s.config = config := by
    rw [Runs.config_eq hrun.runs, hs₀]
  have hstock : SameStock flash s.host.volume := hflash ▸ sameStock_serves hrun
  have htold : s.Told flash.inner.content? (fun _ _ => True) interpreter :=
    (told_new hnew _).runs (fun h => h.files) hrun.runs
  subst hconfig
  have hchunk : 0 < s.config.chunkSize := by
    have hroom := (s.config.valid_iff.mp hvalid).2.2.1
    unfold Config.chunkSize
    omega
  have hdir : flash.inner.isDirectory path = false := by
    rw [Flash.isDirectory, ← hstock.directories]
    exact Route.isDirectory_of_find hroute
  have hd := (hreceives.tick htold hstock hplain hroute hheld.maxOpen content).passes hheld hdir
    hchunk hpasses ⟨hrunning, hfine⟩
  refine ⟨?_, fun hclosed w hw => ?_⟩
  · rw [hd.isClosed_iff, rounds]
    omega
  · obtain ⟨pieces, hpieces, -, hsent⟩ := hd.ended (hd.isClosed_iff.mp hclosed)
    rw [Wires.sent, hw] at hsent
    have houtput : w.output = (fileHead path content :: pieces).flatten :=
      congrArg List.flatten hsent
    rw [houtput, List.flatten_cons, hpieces]
    rfl

end Server

/-! ### A file in four pieces -/

namespace Delivery

def config : Config := { Config.default with maxConnections := 2, outputSize := 4 }

def content : Bytes := [1, 2, 3, 4, 5, 6, 7, 8, 9, 10]

/-- The flash reads three bytes at a time. -/
def flash : Faulty Flash :=
  ⟨Flash.empty.withFile "/html/a.txt" content, { VolumeFaults.none with readLimit := some 3 }, 0⟩

def idle : Server shelf := onShelf config flash .empty

/-- Two clients, of which the first asks for the file. -/
def queue : Server shelf :=
  ((idle.onNetwork fun ws => ws.connect (clientAddress 1)).onNetwork
    fun ws => ws.connect (clientAddress 2)).onNetwork (ask 0 "/a.txt")

theorem serves_queue : Server.Serves (.steady _ _ _ SameStock) idle queue := by
  unfold queue
  refine Relation.ReflTransGen.tail ?_ (.ofClient SameStock.refl (.send 0 _))
  refine Relation.ReflTransGen.tail ?_ (.ofClient SameStock.refl (.connect (clientAddress 2)))
  exact Relation.ReflTransGen.single (.ofClient SameStock.refl (.connect (clientAddress 1)))

def conn : Handle := ⟨0, clientAddress 1⟩

def request : Request := ⟨.get, "/a.txt", some "txt", [], .oneOne, getRequest "/a.txt"⟩

theorem receives_queue : queue.accept.Receives 0 conn request := by
  refine ⟨⟨.fresh conn, rfl, rfl, rfl⟩, getRequest "/a.txt", ?_⟩
  decide +kernel

/-- The second client hangs up while the file is on its way to the first. -/
def delivered : Server shelf :=
  (queue.tick.tick.tick.onNetwork fun ws => ws.update 1 Wire.hangUp).tick.tick.tick.tick

theorem passes_delivered : Server.Passes (.steady _ _ _ SameStock) queue.tick 6 delivered := by
  unfold delivered
  refine .tick (.tick (.tick (.tick ?_)))
  exact .aside (.tick (.tick .refl)) (.ofClient SameStock.refl (.hangUp 1))

theorem file_delivered_pieces : delivered.host.network.isClosed 0 = true ∧
    ∀ w, delivered.host.network.list[0]? = some w →
      w.output = Reply.contentHead "text/plain" (some 10) ++ content := by
  have hroute : (Route.find config request.uri queue.host).1 = .file "/html/a.txt" := by
    decide +kernel
  have hheld : Holds flash "/html/a.txt" content :=
    ⟨by decide +kernel, rfl, rfl, rfl, rfl, by decide⟩
  have hable : delivered.isRunning = true ∧ delivered.host.network.failure? 0 = none := by
    decide +kernel
  have hpasses := passes_delivered
  -- From here on the server need not be computed.
  generalize delivered = s at hable hpasses ⊢
  have hnew : Server.new (P := shelf) config Wires.empty flash .empty (Registers.fresh 4) =
      .ok idle := new_onShelf (by decide) flash .empty
  obtain ⟨hclosed, houtput⟩ := Server.file_delivered hnew serves_queue receives_queue
    (by decide +kernel) hroute hheld hpasses hable.1 hable.2
  have hall := hclosed.mpr (by decide)
  exact ⟨hall, houtput hall⟩

end Delivery

end Microweb
