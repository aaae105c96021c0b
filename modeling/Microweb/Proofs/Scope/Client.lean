import Microweb.Proofs.Scope
import Microweb.Proofs.Steps

/-!
What each step of a connection asks of the platform: its own connection is used, peers that make
room for it are closed, and the paths are those that the configuration leads to.
-/

namespace Microweb

variable {P : Platform}

/-! ### Paths of a configuration -/

/-- The paths that a configuration leads to: those that requests name under the content root, and
those of the index files there. -/
structure Config.LeadsTo (config : Config) (paths : String → Prop) : Prop where
  under : ∀ {uri path}, Content.pathUnder? config.contentRoot uri = some path → paths path
  index : ∀ {uri path name}, Content.pathUnder? config.contentRoot uri = some path →
    name ∈ config.indexFiles → paths (Content.trimSlashes path ++ "/" ++ name)

theorem Config.leadsTo_true (config : Config) : config.LeadsTo fun _ => True :=
  ⟨fun _ => trivial, fun _ _ => trivial⟩

def Route.target? : Route → Option Target
  | file path => some (.file path)
  | script path => some (.script path)
  | notFound => none

/-- What a response may be made from: a file that may be opened, or a script that may be loaded. -/
def Scope.Admits (a : Scope P) : Target → Prop
  | .file path => a.paths path
  | .script path => a.scripts path

/-- What the response of a connection is about to be made from is such a target. -/
def Client.AimsAt (a : Scope P) (c : Client P) : Prop :=
  ∀ target, c.stage = .begin target → a.Admits target

/-- **A scope that requests can be served in**: the configuration leads to paths of it alone, and
scripts may be loaded from those with the suffix of one. -/
structure Scope.Serves (a : Scope P) (config : Config) : Prop where
  leads : config.LeadsTo a.paths
  scripts : ∀ path, a.paths path → Route.namesScript path = true → a.scripts path

namespace Scope.Reaches

variable {a : Scope P} {g h h' : Host P} {config : Config} {peers : Peers P.Conn} {running : Bool}

/-! ### Looking for a file -/

theorem opensNonempty (hr : a.Reaches g h) {path : String} (hp : a.paths path) :
    a.Reaches g (h.opensNonempty path).2 := by
  unfold Host.opensNonempty
  split
  · next e h₁ heq => exact hr.openFile hp heq
  · next f h₁ heq => exact ((hr.openFile hp heq).fileSize rfl).closeFile f

theorem firstNonempty (hr : a.Reaches g h) {dir : String} {names : List String}
    (hp : ∀ name ∈ names, a.paths (dir ++ "/" ++ name)) :
    a.Reaches g (Host.firstNonempty dir names h).2 := by
  induction names generalizing h with
  | nil => exact hr
  | cons name names ih =>
    have hn := hr.opensNonempty (hp name List.mem_cons_self)
    simp only [Host.firstNonempty]
    split
    · next h₁ heq => rwa [heq] at hn
    · next h₁ heq =>
      rw [heq] at hn
      exact ih hn fun name hname => hp name (List.mem_cons_of_mem _ hname)

theorem routeIsDirectory (hr : a.Reaches g h) {path : String} (hp : a.paths path) :
    a.Reaches g (Route.isDirectory path h).2 := by
  unfold Route.isDirectory
  split
  · exact hr
  · exact hr.isDirectory hp rfl

theorem route (hr : a.Reaches g h) (hconfig : config.LeadsTo a.paths) (uri : String) :
    a.Reaches g (Route.find config uri h).2 := by
  unfold Route.find
  split
  · exact hr.note _
  · next path hpath =>
    have hd := hr.routeIsDirectory (hconfig.under hpath)
    split
    · next h₁ heq₁ => rwa [heq₁] at hd
    · next h₁ heq₁ =>
      rw [heq₁] at hd
      have hi := hd.firstNonempty fun name hname => hconfig.index hpath hname
      rw [← Host.indexOf] at hi
      split
      · next index h₂ heq₂ => rwa [heq₂] at hi
      · next h₂ heq₂ => rwa [heq₂] at hi

/-! ### Jobs -/

theorem fileBegin (hr : a.Reaches g h) {conn : P.Conn} (hc : a.Uses running conn) {path : String}
    (hp : a.paths path) (chunk : Nat) : a.Reaches g (FileJob.begin conn path chunk h).2 := by
  unfold FileJob.begin
  split
  · next h₁ heq => exact (hr.openFile hp heq).note _
  · next e h₁ _ heq => exact (hr.openFile hp heq).note _
  · next f h₁ heq =>
    have ho := hr.openFile hp heq
    split
    · next e h₂ heq₂ => exact ((ho.fileSize heq₂).note _).closeFile f
    · next size h₂ heq₂ =>
      have hs := ho.fileSize heq₂
      simp only
      split
      · next h₃ heq₃ => exact hs.write (hc.opens _ (.content _ _)) heq₃
      · next e h₃ heq₃ => exact (hs.write (hc.opens _ (.content _ _)) heq₃).note _

theorem fileStep (hr : a.Reaches g h) {conn : P.Conn} (hs : a.streams)
    (hw : ∀ bs, a.writes conn bs) (job : FileJob P) : a.Reaches g (job.step conn h).2.2 := by
  unfold FileJob.step
  split
  · exact hr
  · split
    · next e f h₁ heq => exact (hr.readFile hs heq).note _
    · next f h₁ heq => exact hr.readFile hs heq
    · next bs f h₁ _ heq =>
      have hread := hr.readFile hs heq
      split
      · next e h₂ heq₂ => exact (hread.write (hw _) heq₂).note _
      · next h₂ heq₂ => exact hread.write (hw _) heq₂

theorem scriptBegin (hr : a.Reaches g h) {conn : P.Conn} (hc : a.Uses running conn)
    {path : String} (hp : a.scripts path) (query : Query) :
    a.Reaches g (ScriptJob.begin conn path query h).2 := by
  unfold ScriptJob.begin
  split
  · next h₁ heq => exact ((hr.load hp heq).note _).collect
  · next e h₁ _ heq => exact (hr.load hp heq).note _
  · next s h₁ heq =>
    have hl := hr.load hp heq
    simp only
    split
    · next h₂ heq₂ => exact hl.write (hc.opens _ (.content _ _)) heq₂
    · next e h₂ heq₂ => exact (hl.write (hc.opens _ (.content _ _)) heq₂).note _

theorem cut (hr : a.Reaches g h) (bs : Bytes) (limit : Nat) :
    a.Reaches g (ScriptJob.cut bs limit h).2 := by
  unfold ScriptJob.cut
  split
  · exact hr.note _
  · exact hr

theorem scriptStep (hr : a.Reaches g h) {conn : P.Conn} (hs : a.streams)
    (hw : ∀ bs, a.writes conn bs) (job : ScriptJob P) (outputSize : Nat) (stepLimit : UInt32) :
    a.Reaches g (job.step conn outputSize stepLimit h).2.2 := by
  unfold ScriptJob.step
  split
  · exact hr.note _
  · have hcall := (hr.call hs (r := (h.call job.script).1.1) rfl).collect
    simp only
    split
    · exact hcall.note _
    · exact hcall
    · next piece _ =>
      split
      · exact hcall
      · have hcut := hcall.cut (Utf8.encode piece) outputSize
        split
        · next h₁ heq => exact hcut.write (hw _) heq
        · next e h₁ heq => exact (hcut.write (hw _) heq).note _

theorem finish (hr : a.Reaches g h) (job : Job P) : a.Reaches g (job.finish h) := by
  cases job with
  | file job => exact hr.closeFile job.file
  | script job => exact (hr.release job.script).collect

/-! ### The handshake -/

/-- Peers are closed one after the other, whatever is noted on the way. -/
theorem closeEach {close : Host P → Peer P.Conn → Host P} {ps : List (Peer P.Conn)}
    (hclose : ∀ {h}, ∀ p ∈ ps, a.Reaches g h → a.Reaches g (close h p)) (hr : a.Reaches g h) :
    a.Reaches g (ps.foldl close h) := by
  induction ps generalizing h with
  | nil => exact hr
  | cons p ps ih =>
    exact ih (fun q hq => hclose q (List.mem_cons_of_mem _ hq)) (hclose p List.mem_cons_self hr)

theorem mem_of_mem_displaced {p : Peer P.Conn} {host : HostAddress}
    (hp : p ∈ peers.displaced host) : p ∈ peers.list := by
  unfold Peers.displaced at hp
  rcases List.mem_append.mp hp with hp | hp
  · exact (List.mem_filter.mp hp).1
  · exact (List.mem_filter.mp (List.mem_of_mem_drop (List.mem_reverse.mp hp))).1

theorem join (hr : a.Reaches g h) {conn : P.Conn} (hc : a.hears conn)
    (hpeers : ∀ p ∈ peers.list, a.closes p.handle) (uri : String) :
    a.Reaches g (Handshake.join conn uri peers h).2 := by
  have hset := hr.setTimeouts hc ⟨0, h.control.timeouts.send⟩
  refine closeEach (fun p hp hr => ?_) (hset.note _)
  exact (hr.note _).close (hpeers p (mem_of_mem_displaced hp))

theorem handshake (hr : a.Reaches g h) {conn : P.Conn} (hc : a.Uses running conn)
    (hpeers : ∀ p ∈ peers.list, a.closes p.handle) (r : Request) :
    a.Reaches g (Handshake.run conn r peers h).2.2 := by
  unfold Handshake.run
  split
  · exact hr
  · split
    · exact hr
    · split
      · next e h₁ heq => exact hr.write (hc.opens _ (.switching _)) heq
      · next h₁ heq => exact (hr.write (hc.opens _ (.switching _)) heq).join hc.hears hpeers r.uri

/-! ### Steps of a connection -/

variable {c : Client P}

theorem replyNotFound (hr : a.Reaches g h)
    (hconn : ∀ conn, c.conn = some conn → a.Uses running conn) (url : String) :
    a.Reaches g (c.replyNotFound url h).2 := by
  unfold Client.replyNotFound
  split
  · exact hr
  · next conn heq =>
    split
    · next h₁ heq₁ => exact hr.write ((hconn conn heq).opens _ (.notFound _ _ _)) heq₁
    · next e h₁ heq₁ => exact (hr.write ((hconn conn heq).opens _ (.notFound _ _ _)) heq₁).note _

theorem serve (hr : a.Reaches g h) (hconn : ∀ conn, c.conn = some conn → a.Uses running conn)
    (hserves : a.Serves config) (r : Request) : a.Reaches g (c.serve config r h).2 := by
  have hroute := hr.route hserves.leads r.uri
  simp only [Client.serve]
  split
  · next path h₁ heq => rwa [heq] at hroute
  · next path h₁ heq => rwa [heq] at hroute
  · next h₁ heq =>
    rw [heq] at hroute
    exact hroute.replyNotFound (c := { c with request := some r }) hconn r.uri

theorem dispatch (hr : a.Reaches g h) {conn : P.Conn} (heq : c.conn = some conn)
    (hc : a.Uses running conn) (hpeers : ∀ p ∈ peers.list, a.closes p.handle)
    (hserves : a.Serves config) (r : Request) :
    a.Reaches g (c.dispatch conn config r peers h).2.2 := by
  have hconn : ∀ conn', c.conn = some conn' → a.Uses running conn' := by
    intro conn' heq'
    cases heq.symm.trans heq'
    exact hc
  have hn := hr.note (.request c.address r.uri)
  simp only [Client.dispatch]
  split
  · have hh := hn.handshake hc hpeers r
    split
    · next ps h₁ heq₁ => rwa [heq₁] at hh
    · next ps h₁ heq₁ =>
      rw [heq₁] at hh
      exact (hh.note _).serve hconn hserves r
    · next e ps h₁ heq₁ =>
      rw [heq₁] at hh
      exact (hh.note _).serve hconn hserves r
  · exact hn.serve hconn hserves r

theorem wait (hr : a.Reaches g h) (c : Client P) (config : Config) :
    a.Reaches g (c.wait config h).2 := by
  simp only [Client.wait]
  split
  · exact hr.note _
  · exact hr

theorem clientReceive (hr : a.Reaches g h)
    (hconn : ∀ conn, c.conn = some conn → a.Uses running conn)
    (hpeers : ∀ p ∈ peers.list, a.closes p.handle) (hserves : a.Serves config) :
    a.Reaches g (c.receive config peers h).2.2 := by
  unfold Client.receive
  split
  · exact hr
  · next conn heq =>
    have hc := hconn conn heq
    split
    · next e h₁ heq₁ =>
      split
      · exact (hr.receive hc.hears heq₁).note _
      · exact (hr.receive hc.hears heq₁).wait c config
    · next head h₁ heq₁ =>
      split
      · exact ((hr.receive hc.hears heq₁).note _).replyNotFound hconn _
      · next r _ => exact (hr.receive hc.hears heq₁).dispatch heq hc hpeers hserves r

theorem beginFile (hr : a.Reaches g h) {conn : P.Conn} (heq : c.conn = some conn)
    (hc : a.Uses running conn) {path : String} (hp : a.paths path) (config : Config) :
    a.Reaches g (c.beginFile conn config path h).2 := by
  have hconn : ∀ conn', c.conn = some conn' → a.Uses running conn' := by
    intro conn' heq'
    cases heq.symm.trans heq'
    exact hc
  have hb := hr.fileBegin hc hp config.chunkSize
  unfold Client.beginFile
  split
  · next job h₁ heq₁ => rwa [heq₁] at hb
  · next job h₁ heq₁ => rwa [heq₁] at hb
  · next h₁ heq₁ =>
    rw [heq₁] at hb
    exact hb.replyNotFound hconn _
  · next h₁ heq₁ => rwa [heq₁] at hb

theorem beginScript (hr : a.Reaches g h) {conn : P.Conn} (hc : a.Uses running conn) {path : String}
    (hp : a.scripts path) (c : Client P) : a.Reaches g (c.beginScript conn path h).2 := by
  have hb := hr.scriptBegin hc hp ((c.request.map Request.query).getD [])
  unfold Client.beginScript
  split
  · next job h₁ heq₁ => rwa [heq₁] at hb
  · next job h₁ heq₁ => rwa [heq₁] at hb
  · next h₁ heq₁ => rwa [heq₁] at hb
  · next h₁ heq₁ =>
    rw [heq₁] at hb
    exact hb.note _

theorem start (hr : a.Reaches g h) (hconn : ∀ conn, c.conn = some conn → a.Uses running conn)
    {target : Target} (hp : a.Admits target) (config : Config) :
    a.Reaches g (c.start config target h).2 := by
  unfold Client.start
  split
  · exact hr
  · next conn heq =>
    cases target with
    | file path => exact hr.beginFile heq (hconn conn heq) hp config
    | script path => exact hr.beginScript (hconn conn heq) hp c

theorem stream (hr : a.Reaches g h)
    (hconn : ∀ conn, c.conn = some conn → a.streams ∧ ∀ bs, a.writes conn bs) (config : Config)
    (job : Job P) : a.Reaches g (c.stream config job h).2 := by
  unfold Client.stream
  split
  · exact hr
  · next conn heq =>
    obtain ⟨hs, hw⟩ := hconn conn heq
    cases job with
    | file job =>
      have hstep := hr.fileStep hs hw job
      simp only
      split <;> exact hstep
    | script job =>
      have hstep := hr.scriptStep hs hw job config.outputSize config.scriptStepLimit
      simp only
      split <;> exact hstep

/-- **One step of a connection** uses that connection, closes peers and asks for paths that the
configuration leads to. -/
theorem step (hr : a.Reaches g h)
    (hconn : ∀ conn, c.conn = some conn → a.Uses h.control.running conn)
    (hpeers : ∀ p ∈ peers.list, a.closes p.handle) (hserves : a.Serves config)
    (haim : c.AimsAt a) : a.Reaches g (c.step config peers h).2.2 := by
  unfold Client.step
  split
  · exact hr.clientReceive hconn hpeers hserves
  · next target heq => exact hr.start hconn (haim target heq) config
  · next job _ =>
    split
    · next hrunning =>
      exact hr.stream (fun conn heq => (hconn conn heq).streams hrunning) config job
    · exact hr.note _
  · exact hr
  · next job _ => exact hr.finish job
  · exact hr

theorem clientRelease (hr : a.Reaches g h) (hconn : ∀ conn, c.conn = some conn → a.closes conn) :
    a.Reaches g (c.release h) := by
  unfold Client.release
  split
  · exact hr
  · next conn heq => exact hr.close (hconn conn heq)

theorem abort (hr : a.Reaches g h) (hconn : ∀ conn, c.conn = some conn → a.closes conn) :
    a.Reaches g (c.abort h) := by
  unfold Client.abort
  refine clientRelease ?_ hconn
  split
  · next job _ => exact hr.finish job
  · next job _ => exact hr.finish job
  · exact hr

end Scope.Reaches

/-! ### What a response is made from -/

section Aims

variable {a : Scope P} {config : Config} {h : Host P}

theorem Host.exists_of_firstNonempty {dir path : String} {names : List String}
    (heq : (Host.firstNonempty dir names h).1 = some path) :
    ∃ name ∈ names, path = dir ++ "/" ++ name := by
  induction names generalizing h with
  | nil => cases heq
  | cons name names ih =>
    simp only [Host.firstNonempty] at heq
    split at heq
    · exact ⟨name, List.mem_cons_self, (Option.some.inj heq).symm⟩
    · obtain ⟨name', hname, hpath⟩ := ih heq
      exact ⟨name', List.mem_cons_of_mem _ hname, hpath⟩

theorem Scope.Serves.admits_ofPath (hserves : a.Serves config) {path : String} {target : Target}
    (hp : a.paths path) (heq : (Route.ofPath path).target? = some target) : a.Admits target := by
  unfold Route.ofPath at heq
  split at heq
  · next hname =>
    obtain rfl : Target.script path = target := Option.some.inj heq
    exact hserves.scripts path hp hname
  · obtain rfl : Target.file path = target := Option.some.inj heq
    exact hp

/-- **What a request is routed to** may be opened, or may be loaded if it is to be run. -/
theorem Scope.Serves.admits_find (hserves : a.Serves config) {uri : String} {target : Target}
    (heq : (Route.find config uri h).1.target? = some target) : a.Admits target := by
  unfold Route.find at heq
  split at heq
  · cases heq
  · next path hpath =>
    split at heq
    · exact hserves.admits_ofPath (hserves.leads.under hpath) heq
    · split at heq
      · next index h₂ hindex =>
        obtain ⟨name, hname, hi⟩ := Host.exists_of_firstNonempty (congrArg Prod.fst hindex)
        exact hserves.admits_ofPath (hi ▸ hserves.leads.index hpath hname) heq
      · cases heq

namespace Client

variable {c : Client P}

theorem find_of_serve {r : Request} {target : Target}
    (hstage : (c.serve config r h).1.stage = .begin target) :
    (Route.find config r.uri h).1.target? = some target := by
  simp only [serve] at hstage
  split at hstage
  · next path h₁ heq =>
    rw [heq]
    cases hstage
    rfl
  · next path h₁ heq =>
    rw [heq]
    cases hstage
    rfl
  · rw [replyNotFound_eq] at hstage
    cases hstage

/-- **What a response is about to be made from** after a receive is what the request in it was routed
to. -/
theorem find_of_receive {peers : Peers P.Conn} {target : Target}
    (hstage : (c.receive config peers h).1.stage = .begin target) :
    ∃ uri g, (Route.find config uri (g : Host P)).1.target? = some target := by
  unfold receive at hstage
  split at hstage
  · cases hstage
  · split at hstage
    · split at hstage
      · cases hstage
      · simp only [wait] at hstage
        split at hstage
        · cases hstage
        · cases hstage
    · split at hstage
      · rw [replyNotFound_eq] at hstage
        cases hstage
      · simp only [dispatch] at hstage
        split at hstage
        · split at hstage
          · cases hstage
          · exact ⟨_, _, find_of_serve hstage⟩
          · exact ⟨_, _, find_of_serve hstage⟩
        · exact ⟨_, _, find_of_serve hstage⟩

theorem aimsAt_receive (hserves : a.Serves config) (c : Client P) (peers : Peers P.Conn)
    (h : Host P) : (c.receive config peers h).1.AimsAt a := by
  intro target hstage
  obtain ⟨uri, g, hfind⟩ := find_of_receive hstage
  exact hserves.admits_find hfind

/-- **One step of a connection** leaves it aiming at what may be opened or loaded, or at nothing. -/
theorem AimsAt.step (haim : c.AimsAt a) (hserves : a.Serves config)
    (peers : Peers P.Conn) (h : Host P) : (c.step config peers h).1.AimsAt a := by
  unfold Client.step
  split
  · exact aimsAt_receive hserves c peers h
  · next target _ =>
    have hs := started_start c config target h
    generalize c.start config target h = p at hs ⊢
    cases hs <;> rintro target ⟨⟩
  · next job _ =>
    split
    · have hs := streamed_stream c config job h
      generalize c.stream config job h = p at hs ⊢
      cases hs <;> rintro target ⟨⟩
    · rintro target ⟨⟩
  · rintro target ⟨⟩
  · rintro target ⟨⟩
  · exact haim

end Client

end Aims

end Microweb
