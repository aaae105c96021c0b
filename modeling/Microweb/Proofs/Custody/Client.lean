import Mathlib.Algebra.BigOperators.Group.List.Basic
import Mathlib.Tactic.Abel
import Microweb.Proofs.Custody
import Microweb.Proofs.Peers
import Microweb.Server.Client

/-!
What a connection in a slot holds, and what each of its steps does to it: the steps hand on, open,
load and give back, and lose nothing. The pool of peers takes part, as an upgrade moves the
connection there.
-/

namespace Microweb

variable {P : Platform} {K : Custody P} {x : Holdings P} {h h' : Host P}

/-! ### Holdings of jobs, peers and connections -/

def FileJob.holdings (job : FileJob P) : Holdings P := .file job.file

def ScriptJob.holdings (job : ScriptJob P) : Holdings P := .script job.script

def Job.holdings : Job P → Holdings P
  | .file job => job.holdings
  | .script job => job.holdings

/-- What the start of a response has taken, `of` being what its job holds. -/
def Begun.holdings {J : Type} (of : J → Holdings P) : Begun J → Holdings P
  | .streaming job => of job
  | .done (some job) => of job
  | .done none => 0
  | .notFound => 0
  | .abort => 0

def Stage.holdings : Stage P → Holdings P
  | .streaming job => job.holdings
  | .ending (some job) => job.holdings
  | _ => 0

def Client.connHoldings (c : Client P) : Holdings P :=
  match c.conn with
  | some conn => .conn conn
  | none => 0

/-- What a connection in a slot holds: its handle, if the slot still owns it, and what its job
holds. -/
def Client.holdings (c : Client P) : Holdings P := c.connHoldings + c.stage.holdings

/-- What peers hold: each its handle. -/
def Peer.holdings (ps : List (Peer P.Conn)) : Holdings P := (ps.map fun p => .conn p.handle).sum

def Peers.holdings (ps : Peers P.Conn) : Holdings P := Peer.holdings ps.list

/-- What a handshake leaves to its caller of the connection. -/
def Handshake.left (conn : P.Conn) : Handshake → Holdings P
  | .upgraded => 0
  | _ => .conn conn

/-- What connections hold of one kind, item by item. -/
theorem Client.sum_holdings {α : Type} (part : Holdings P →+ Multiset α)
    (of : Client P → Option α) (h : ∀ c, part c.holdings = ↑(of c).toList) (cs : List (Client P)) :
    part (cs.map Client.holdings).sum = ↑(cs.filterMap of) := by
  induction cs with
  | nil => exact map_zero part
  | cons c cs ih =>
    rw [List.map_cons, List.sum_cons, map_add, ih, h, List.filterMap_cons]
    cases of c <;> rfl

@[simp] theorem Peer.holdings_nil : Peer.holdings ([] : List (Peer P.Conn)) = 0 := rfl

@[simp] theorem Peer.holdings_cons (p : Peer P.Conn) (ps : List (Peer P.Conn)) :
    Peer.holdings (p :: ps) = .conn p.handle + Peer.holdings ps := by
  simp [Peer.holdings]

@[simp] theorem Peer.holdings_append (ps qs : List (Peer P.Conn)) :
    Peer.holdings (ps ++ qs) = Peer.holdings ps + Peer.holdings qs := by
  simp [Peer.holdings]

theorem Peer.holdings_perm {ps qs : List (Peer P.Conn)} (h : ps.Perm qs) :
    Peer.holdings ps = Peer.holdings qs := (h.map _).sum_eq

namespace Custody.Covers

/-! ### Looking for a file -/

theorem opensNonempty (hc : K.Covers x h) (path : String) :
    K.Covers x (h.opensNonempty path).2 := by
  unfold Host.opensNonempty
  split
  · next e h₁ heq => exact hc.openFile_error heq
  · next f h₁ heq => exact ((hc.openFile_ok heq).fileSize rfl).closeFile

theorem firstNonempty (hc : K.Covers x h) (dir : String) (names : List String) :
    K.Covers x (Host.firstNonempty dir names h).2 := by
  induction names generalizing h with
  | nil => exact hc
  | cons name names ih =>
    have hn := hc.opensNonempty (dir ++ "/" ++ name)
    simp only [Host.firstNonempty]
    split
    · next h₁ heq => rwa [heq] at hn
    · next h₁ heq =>
      rw [heq] at hn
      exact ih hn

theorem routeIsDirectory (hc : K.Covers x h) (path : String) :
    K.Covers x (Route.isDirectory path h).2 := by
  unfold Route.isDirectory
  split
  · exact hc
  · exact hc.isDirectory rfl

theorem route (hc : K.Covers x h) (config : Config) (uri : String) :
    K.Covers x (Route.find config uri h).2 := by
  unfold Route.find
  split
  · exact hc.note nofun
  · next path heq =>
    have hd := hc.routeIsDirectory path
    split
    · next h₁ heq₁ => rwa [heq₁] at hd
    · next h₁ heq₁ =>
      rw [heq₁] at hd
      have hi := hd.firstNonempty (Content.trimSlashes path) config.indexFiles
      rw [← Host.indexOf] at hi
      split
      · next index h₂ heq₂ => rwa [heq₂] at hi
      · next h₂ heq₂ => rwa [heq₂] at hi

/-! ### Jobs -/

theorem fileBegin (hc : K.Covers x h) (conn : P.Conn) (path : String) (chunk : Nat) :
    K.Covers ((FileJob.begin conn path chunk h).1.holdings FileJob.holdings + x)
      (FileJob.begin conn path chunk h).2 := by
  unfold FileJob.begin
  split
  · next h₁ heq => exact zeroAdd ((hc.openFile_error heq).note nofun)
  · next e h₁ _ heq => exact zeroAdd ((hc.openFile_error heq).note nofun)
  · next f h₁ heq =>
    have ho := hc.openFile_ok heq
    split
    · next e h₂ heq₂ =>
      have hs := (ho.fileSize heq₂).note (n := .cannotSize path e) nofun
      exact hs.closeFile.zeroAdd
    · next size h₂ heq₂ =>
      have hs := ho.fileSize heq₂
      simp only
      split
      · next h₃ heq₃ => exact hs.write heq₃
      · next e h₃ heq₃ => exact (hs.write heq₃).note nofun

theorem fileStep (job : FileJob P) (hc : K.Covers (job.holdings + x) h) (conn : P.Conn) :
    K.Covers ((job.step conn h).2.1.holdings + x) (job.step conn h).2.2 := by
  unfold FileJob.step
  split
  · exact hc
  · split
    · next e f h₁ heq => exact (hc.readFile heq).note nofun
    · next f h₁ heq => exact hc.readFile heq
    · next bs f h₁ _ heq =>
      have hr := hc.readFile heq
      split
      · next e h₂ heq₂ => exact (hr.write heq₂).note nofun
      · next h₂ heq₂ => exact hr.write heq₂

theorem scriptBegin (hc : K.Covers x h) (conn : P.Conn) (path : String) (query : Query) :
    K.Covers ((ScriptJob.begin conn path query h).1.holdings ScriptJob.holdings + x)
      (ScriptJob.begin conn path query h).2 := by
  have hq := hc.setQuery query
  unfold ScriptJob.begin
  split
  · next h₁ heq =>
    have hn := (hq.load_error heq).note (n := .scriptMemory path) nofun
    exact hn.collect.zeroAdd
  · next e h₁ _ heq => exact zeroAdd ((hq.load_error heq).note nofun)
  · next s h₁ heq =>
    have hl := hq.load_ok heq
    simp only
    split
    · next h₂ heq₂ => exact hl.write heq₂
    · next e h₂ heq₂ => exact (hl.write heq₂).note nofun

theorem cut (hc : K.Covers x h) (bs : Bytes) (limit : Nat) :
    K.Covers x (ScriptJob.cut bs limit h).2 := by
  unfold ScriptJob.cut
  split
  · exact hc.note nofun
  · exact hc

theorem scriptStep (job : ScriptJob P) (hc : K.Covers (job.holdings + x) h) (conn : P.Conn)
    (outputSize : Nat) (stepLimit : UInt32) :
    K.Covers ((job.step conn outputSize stepLimit h).2.1.holdings + x)
      (job.step conn outputSize stepLimit h).2.2 := by
  unfold ScriptJob.step
  split
  · exact hc.note nofun
  · have hcall := (hc.call (r := (h.call job.script).1.1) rfl).collect
    simp only
    split
    · exact hcall.note nofun
    · exact hcall
    · next piece _ =>
      split
      · exact hcall
      · have hcut := hcall.cut (Utf8.encode piece) outputSize
        split
        · next h₁ heq => exact hcut.write heq
        · next e h₁ heq => exact (hcut.write heq).note nofun

theorem finish {job : Job P} (hc : K.Covers (job.holdings + x) h) : K.Covers x (job.finish h) := by
  cases job with
  | file job => exact hc.closeFile
  | script job => exact hc.release.collect

theorem runForFrame (hc : K.Covers x h) (path payload : String) :
    K.Covers x (h.runForFrame path payload).2 := by
  have hq := (hc.setQuery []).setGlobal frameGlobal payload
  unfold Host.runForFrame
  split
  · next e h₁ heq => exact (hq.load_error heq).note nofun
  · next s h₁ heq =>
    have hl := hq.load_ok heq
    have hr := (hl.call (r := (h₁.call s).1.1) rfl).release.collect
    simp only
    split
    · exact hr
    · exact hr.note nofun

/-! ### The handshake -/

/-- Peers are closed one after the other, whatever is noted on the way. -/
theorem closeEach {close : Host P → Peer P.Conn → Host P}
    (hclose : ∀ {x h p}, K.Covers (.conn p.handle + x) h → K.Covers x (close h p))
    {ps : List (Peer P.Conn)} (hc : K.Covers (Peer.holdings ps + x) h) :
    K.Covers x (ps.foldl close h) := by
  induction ps generalizing h with
  | nil => simpa using hc
  | cons p ps ih =>
    rw [Peer.holdings_cons, add_assoc] at hc
    exact ih (hclose hc)

theorem join {conn : P.Conn} {peers : Peers P.Conn}
    (hc : K.Covers (.conn conn + (peers.holdings + x)) h) (uri : String) :
    K.Covers ((Handshake.join conn uri peers h).1.holdings + x)
      (Handshake.join conn uri peers h).2 := by
  have hn := (hc.setTimeouts conn ⟨0, h.control.timeouts.send⟩).note
    (n := .upgraded (P.network.address conn) uri) nofun
  have hp := Peer.holdings_perm (peers.enrol_perm (.fresh conn (P.network.address conn) uri))
  simp only [Peer.holdings_append, Peer.holdings_cons] at hp
  have e : .conn conn + (peers.holdings + x) =
      Peer.holdings (peers.enrol (.fresh conn (P.network.address conn) uri)).2 +
        (Peer.holdings (peers.enrol (.fresh conn (P.network.address conn) uri)).1.list + x) := by
    rw [← add_assoc, ← add_assoc, add_comm (Peer.holdings (Peers.enrol _ _).2), hp]
    rfl
  rw [e] at hn
  exact closeEach (fun {_ _ p} hc => (hc.note (n := .displacing p.address) nofun).close) hn

theorem handshake {conn : P.Conn} {peers : Peers P.Conn}
    (hc : K.Covers (.conn conn + (peers.holdings + x)) h) (r : Request) :
    K.Covers ((Handshake.run conn r peers h).1.left conn +
      ((Handshake.run conn r peers h).2.1.holdings + x)) (Handshake.run conn r peers h).2.2 := by
  unfold Handshake.run
  split
  · exact hc
  · split
    · exact hc
    · split
      · next e h₁ heq => exact hc.write heq
      · next h₁ heq =>
        exact ((hc.write heq).join r.uri).zeroAdd

/-! ### Steps of a connection -/

/-- A connection goes on to a stage without a job. -/
theorem goTo {c : Client P} {stage : Stage P} (hs : stage.holdings = 0)
    (hc : K.Covers (c.connHoldings + x) h) : K.Covers ((c.goTo stage).holdings + x) h := by
  rw [Client.holdings, Client.goTo, hs, add_zero]
  exact hc

theorem replyNotFound {c : Client P} (hc : K.Covers (c.connHoldings + x) h) (url : String) :
    K.Covers ((c.replyNotFound url h).1.holdings + x) (c.replyNotFound url h).2 := by
  unfold Client.replyNotFound
  split
  · exact goTo rfl hc
  · next conn _ =>
    split
    · next h₁ heq => exact goTo rfl (hc.write heq)
    · next e h₁ heq => exact goTo rfl ((hc.write heq).note nofun)

theorem serve {c : Client P} (hc : K.Covers (c.connHoldings + x) h) (config : Config)
    (r : Request) : K.Covers ((c.serve config r h).1.holdings + x) (c.serve config r h).2 := by
  have hr := hc.route config r.uri
  simp only [Client.serve]
  split
  · next path h₁ heq =>
    rw [heq] at hr
    exact goTo (c := { c with request := some r }) rfl hr
  · next path h₁ heq =>
    rw [heq] at hr
    exact goTo (c := { c with request := some r }) rfl hr
  · next h₁ heq =>
    rw [heq] at hr
    exact hr.replyNotFound (c := { c with request := some r }) r.uri

theorem dispatch {c : Client P} {conn : P.Conn} {peers : Peers P.Conn} (hconn : c.conn = some conn)
    (hc : K.Covers (c.connHoldings + (peers.holdings + x)) h) (config : Config) (r : Request) :
    K.Covers ((c.dispatch conn config r peers h).1.holdings +
        ((c.dispatch conn config r peers h).2.1.holdings + x))
      (c.dispatch conn config r peers h).2.2 := by
  have hn := hc.note (n := .request c.address r.uri) nofun
  have e : c.connHoldings = .conn conn := by rw [Client.connHoldings, hconn]
  simp only [Client.dispatch]
  split
  · rw [e] at hn
    have hh := hn.handshake r
    split
    · next ps h₁ heq =>
      rw [heq] at hh
      exact goTo (c := { c with kind := .socket, conn := none }) rfl hh
    · next ps h₁ heq =>
      rw [heq] at hh
      have hs := hh.note (n := .alreadyPeer c.address) nofun
      rw [Handshake.left, ← e] at hs
      · exact hs.serve config r
      · nofun
    · next e' ps h₁ heq =>
      rw [heq] at hh
      have hs := hh.note (n := .upgradeFailed c.address e') nofun
      rw [Handshake.left, ← e] at hs
      · exact hs.serve config r
      · nofun
  · exact hn.serve config r

theorem wait {c : Client P} (hc : K.Covers (c.connHoldings + x) h) (config : Config) :
    K.Covers ((c.wait config h).1.holdings + x) (c.wait config h).2 := by
  simp only [Client.wait]
  split
  · exact goTo (c := { c with idle := c.idle + 1 }) rfl (hc.note nofun)
  · exact goTo (c := { c with idle := c.idle + 1 }) rfl hc

theorem clientReceive {c : Client P} {peers : Peers P.Conn}
    (hc : K.Covers (c.connHoldings + (peers.holdings + x)) h) (config : Config) :
    K.Covers ((c.receive config peers h).1.holdings +
        ((c.receive config peers h).2.1.holdings + x)) (c.receive config peers h).2.2 := by
  unfold Client.receive
  split
  · exact goTo rfl hc
  · next conn hconn =>
    split
    · next e h₁ heq =>
      split
      · exact goTo rfl ((hc.receive heq).note nofun)
      · exact (hc.receive heq).wait config
    · next head h₁ heq =>
      split
      · next e _ =>
        have hn := (hc.receive heq).note (n := .badRequest c.address e) nofun
        exact hn.replyNotFound (Client.rejectedPath head)
      · next r _ => exact (hc.receive heq).dispatch hconn config r

theorem beginFile {c : Client P} (hc : K.Covers (c.connHoldings + x) h) (conn : P.Conn)
    (config : Config) (path : String) :
    K.Covers ((c.beginFile conn config path h).1.holdings + x)
      (c.beginFile conn config path h).2 := by
  have hb := hc.fileBegin conn path config.chunkSize
  unfold Client.beginFile
  split
  · next job h₁ heq =>
    rw [heq, add_left_comm, ← add_assoc] at hb
    exact hb
  · next job h₁ heq =>
    rw [heq, add_left_comm, ← add_assoc] at hb
    cases job <;> exact hb
  · next h₁ heq =>
    rw [heq, Begun.holdings, zero_add] at hb
    exact hb.replyNotFound _
  · next h₁ heq =>
    rw [heq, add_left_comm, ← add_assoc] at hb
    exact hb

theorem beginScript {c : Client P} (hc : K.Covers (c.connHoldings + x) h) (conn : P.Conn)
    (path : String) :
    K.Covers ((c.beginScript conn path h).1.holdings + x) (c.beginScript conn path h).2 := by
  have hb := hc.scriptBegin conn path ((c.request.map Request.query).getD [])
  rw [add_left_comm, ← add_assoc] at hb
  unfold Client.beginScript
  split
  · next job h₁ heq =>
    rw [heq] at hb
    exact hb
  · next job h₁ heq =>
    rw [heq] at hb
    cases job <;> exact hb
  · next h₁ heq =>
    rw [heq] at hb
    exact hb
  · next h₁ heq =>
    rw [heq] at hb
    exact hb.note nofun

theorem start {c : Client P} (hc : K.Covers (c.connHoldings + x) h) (config : Config)
    (target : Target) :
    K.Covers ((c.start config target h).1.holdings + x) (c.start config target h).2 := by
  unfold Client.start
  split
  · exact goTo rfl hc
  · next conn _ =>
    cases target with
    | file path => exact hc.beginFile conn config path
    | script path => exact hc.beginScript conn path

theorem stream {c : Client P} {job : Job P} (hc : K.Covers (c.connHoldings + (job.holdings + x)) h)
    (config : Config) :
    K.Covers ((c.stream config job h).1.holdings + x) (c.stream config job h).2 := by
  unfold Client.stream
  split
  · rw [← add_assoc] at hc
    exact hc
  · next conn _ =>
    rw [add_left_comm] at hc
    cases job with
    | file job =>
      have hs := fileStep job hc conn
      rw [add_left_comm, ← add_assoc] at hs
      simp only
      split <;> exact hs
    | script job =>
      have hs := scriptStep job hc conn config.outputSize config.scriptStepLimit
      rw [add_left_comm, ← add_assoc] at hs
      simp only
      split <;> exact hs

/-- **One step of a connection.** What it and the peers hold before the step is covered after it by
what they hold then. -/
theorem step {c : Client P} {peers : Peers P.Conn}
    (hc : K.Covers (c.holdings + (peers.holdings + x)) h) (config : Config) :
    K.Covers ((c.step config peers h).1.holdings + ((c.step config peers h).2.1.holdings + x))
      (c.step config peers h).2.2 := by
  unfold Client.holdings at hc
  unfold Client.step
  split
  · next heq =>
    rw [heq, show (Stage.request : Stage P).holdings = 0 from rfl, add_zero] at hc
    exact hc.clientReceive config
  · next target heq =>
    rw [heq, show (Stage.begin target : Stage P).holdings = 0 from rfl, add_zero] at hc
    exact hc.start config target
  · next job heq =>
    rw [heq] at hc
    split
    · rw [add_assoc] at hc
      exact hc.stream config
    · exact hc.note nofun
  · next heq =>
    rw [heq] at hc
    exact hc
  · next job heq =>
    rw [heq, add_right_comm, add_comm] at hc
    exact goTo (c := { c with request := none }) rfl (finish hc)
  · next heq => exact hc

/-- A connection that is released holds nothing but its job. -/
theorem clientRelease {c : Client P} (hc : K.Covers (c.connHoldings + x) h) :
    K.Covers x (c.release h) := by
  unfold Client.connHoldings at hc
  unfold Client.release
  split
  · next heq =>
    rw [heq, zero_add] at hc
    exact hc
  · next conn heq =>
    rw [heq] at hc
    exact hc.close

/-- A connection that is aborted holds nothing any more. -/
theorem abort {c : Client P} (hc : K.Covers (c.holdings + x) h) : K.Covers x (c.abort h) := by
  unfold Client.holdings at hc
  unfold Client.abort
  refine clientRelease ?_
  have hnone : c.stage.holdings = 0 → K.Covers (c.connHoldings + x) h := by
    intro h0
    rwa [h0, add_zero] at hc
  cases hs : c.stage with
  | streaming job =>
    rw [hs, add_right_comm, add_comm] at hc
    exact finish hc
  | ending job =>
    cases job with
    | none => exact hnone (by rw [hs]; rfl)
    | some job =>
      rw [hs, add_right_comm, add_comm] at hc
      exact finish hc
  | request => exact hnone (by rw [hs]; rfl)
  | begin target => exact hnone (by rw [hs]; rfl)
  | closed => exact hnone (by rw [hs]; rfl)

end Custody.Covers

end Microweb
