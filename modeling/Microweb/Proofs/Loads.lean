import Microweb.Proofs.Bench
import Microweb.Proofs.Scope.Record
import Microweb.Proofs.Suffix
import Microweb.Proofs.Upgrades

/-!
What is run as a script. Requests are routed by suffix, so that a path loaded for one has the suffix
of a script. For a frame it is the path that the peer was upgraded on, which no suffix decides on.
-/

namespace Microweb

/-! ### Names of scripts -/

/-- What follows the first dot of the last segment is `lua` or `cgi`, in letters of either case. -/
def Content.NamesScript (path : String) : Prop :=
  ∃ ext, HasSuffix path.toList ext ∧
    (String.ofList (ext.map Char.toLower) = "lua" ∨ String.ofList (ext.map Char.toLower) = "cgi")

theorem Route.namesScript_iff {path : String} :
    namesScript path = true ↔ Content.NamesScript path := by
  have hscript : ∀ suffix : String, Content.isScript suffix = true ↔
      suffix = "lua" ∨ suffix = "cgi" := by
    intro suffix
    simp [Content.isScript, Content.scriptSuffixes]
  unfold namesScript
  rw [Option.any_eq_true]
  constructor
  · rintro ⟨suffix, heq, h⟩
    obtain ⟨ext, hext, -, rfl⟩ := Content.suffix?_eq_some_iff.mp heq
    exact ⟨ext, hext, (hscript _).mp h⟩
  · rintro ⟨ext, hext, h⟩
    have hne : ext ≠ [] := by
      rintro rfl
      exact absurd h (by decide)
    exact ⟨_, Content.suffix?_eq_some_iff.mpr ⟨ext, hext, hne, rfl⟩, (hscript _).mpr h⟩

instance (path : String) : Decidable (Content.NamesScript path) :=
  decidable_of_iff _ Route.namesScript_iff

/-- **A path names a script under a root** if it does by itself. -/
theorem Content.namesScript_pathUnder? {root uri path : String}
    (h : pathUnder? root uri = some path) : NamesScript path ↔ NamesScript uri := by
  rw [← Route.namesScript_iff, ← Route.namesScript_iff, Route.namesScript, Route.namesScript,
    suffix?_pathUnder? h]

variable {P : Platform} {config : Config} {frames : String → Prop}

/-! ### What may be loaded -/

/-- All may be asked of anyone, but for requests only scripts are loaded, and for frames only what
is on such paths. -/
def Scope.bySuffix (P : Platform) (frames : String → Prop) : Scope P :=
  ⟨fun _ => True, fun _ _ => True, fun _ => True, fun _ => True, Content.NamesScript, frames, True⟩

theorem Scope.uses_bySuffix (running : Bool) (c : P.Conn) : (bySuffix P frames).Uses running c :=
  .of_writes trivial trivial fun _ => trivial

theorem Scope.serves_bySuffix (config : Config) : (bySuffix P frames).Serves config :=
  ⟨config.leadsTo_true, fun _ _ h => Route.namesScript_iff.mp h⟩

/-- The path is that of an upgrade in the log, and not the one of the board. -/
def Config.Upgraded (config : Config) (log : List Notice) (path : String) : Prop :=
  ∃ address uri, .upgraded address uri ∈ log ∧ uri ≠ Polling.boardPath ∧
    Content.pathUnder? config.contentRoot uri = some path

theorem Config.Upgraded.mono {log log' : List Notice} {path : String}
    (h : config.Upgraded log path) (hlog : log <:+ log') : config.Upgraded log' path := by
  obtain ⟨address, uri, hmem, huri⟩ := h
  exact ⟨address, uri, hlog.subset hmem, huri⟩

/-- The script that the response of a connection is about to be made from, if any, is a script. -/
theorem Client.aimsAt_bySuffix_iff {c : Client P} : c.AimsAt (.bySuffix P frames) ↔
    ∀ path, c.stage = .begin (.script path) → Content.NamesScript path := by
  constructor
  · exact fun haim path hstage => haim (.script path) hstage
  · intro h target hstage
    cases target with
    | file path => trivial
    | script path => exact h path hstage

/-- **Each load on record** was for a request, of a script, or for a frame, of a path with an
upgrade in the log. -/
def Host.LoadsBySuffix (config : Config) (h : Host P.recorded) : Prop :=
  Grew (ScriptEvent.LoadedFor Content.NamesScript (config.Upgraded h.log)) []
    h.interpreter.trace

theorem Host.LoadsBySuffix.mono {g h : Host P.recorded} (hg : g.LoadsBySuffix config)
    (hinterpreter : h.interpreter.trace = g.interpreter.trace) (hlog : g.log <:+ h.log) :
    h.LoadsBySuffix config := by
  unfold LoadsBySuffix
  rw [hinterpreter]
  exact Grew.mono hg fun e earlier he path hpath =>
    (he path hpath).imp_right fun hf => ⟨hf.1, hf.2.mono hlog⟩

theorem Host.LoadsBySuffix.reaches {g h : Host P.recorded} (hg : g.LoadsBySuffix config)
    (hr : (Scope.bySuffix _ (config.Upgraded g.log)).Reaches g h) : h.LoadsBySuffix config := by
  have hloads : LoadsBySuffix config { h with log := g.log } := Grew.trans hg hr.loads
  exact hloads.mono rfl hr.log

namespace Server

variable {s s₀ : Server P.recorded}

/-- **What was loaded and what will be**: all that was loaded was, and what is about to be loaded
for requests are scripts. -/
structure LoadsBySuffix (s : Server P.recorded) : Prop where
  host : s.host.LoadsBySuffix s.config
  peers : s.PeersNoted
  slots : ∀ c ∈ s.slots.items, ∀ path, c.stage = .begin (.script path) → Content.NamesScript path

namespace LoadsBySuffix

theorem accept (hs : s.LoadsBySuffix) : s.accept.LoadsBySuffix := by
  refine ⟨?_, hs.peers.accept, s.forall_items_accept (fun conn => ?_) hs.slots⟩
  · rw [config_accept]
    exact hs.host.mono (congrArg Recorded.trace s.accept_frame.2.2) s.log_accept
  · rintro path ⟨⟩

theorem stepSlot (hs : s.LoadsBySuffix) (i : Nat) : (s.stepSlot i).LoadsBySuffix := by
  have hserves : (Scope.bySuffix P.recorded (s.config.Upgraded s.host.log)).Serves s.config :=
    Scope.serves_bySuffix s.config
  have haims : ∀ c ∈ s.slots.items, c.AimsAt (.bySuffix _ (s.config.Upgraded s.host.log)) :=
    fun c hc => Client.aimsAt_bySuffix_iff.mpr (hs.slots c hc)
  refine ⟨?_, hs.peers.stepSlot i, s.forall_items_stepSlot i (fun c hget _ => ?_) hs.slots⟩
  · rw [config_stepSlot]
    exact hs.host.reaches ((Scope.Reaches.refl _ _).stepSlot
      (fun c hget => ⟨haims c (Slots.mem_items_of_get? hget),
        fun conn _ => ⟨Scope.uses_bySuffix _ conn, trivial⟩⟩) (fun _ _ => trivial) hserves)
  · exact Client.aimsAt_bySuffix_iff.mp
      ((haims c (Slots.mem_items_of_get? hget)).step hserves s.peers s.host)

/-- The peers are polled on the paths that they were upgraded on. -/
theorem poll (hs : s.LoadsBySuffix) : s.poll.LoadsBySuffix := by
  refine ⟨hs.host.reaches ?_, hs.peers.poll, hs.slots⟩
  refine (Scope.Reaches.refl _ _).poll (fun p hp => ⟨trivial, fun _ _ => trivial, ?_⟩)
    fun _ _ => trivial
  exact fun hboard path hpath => ⟨_, p.uri, hs.peers p hp, hboard, hpath⟩

theorem tick (hs : s.LoadsBySuffix) : s.tick.LoadsBySuffix :=
  tick_induction (fun _ ht => ht.accept) (fun _ i ht => ht.stepSlot i) (fun _ ht => ht.poll) hs

theorem shutdown (hs : s.LoadsBySuffix) : s.shutdown.LoadsBySuffix := by
  obtain ⟨h, hr, heq⟩ := Scope.Reaches.shutdown (s := s)
    (Scope.Reaches.refl (.bySuffix _ (s.config.Upgraded s.host.log)) _)
    (fun _ _ _ _ => trivial) fun _ _ => trivial
  have hstop : Host.LoadsBySuffix s.config { s.host with control := s.host.control.stop } :=
    hs.host
  refine ⟨?_, fun p hp => (by cases hp), fun c hc => ?_⟩
  · rw [heq]
    exact (hstop.reaches hr).mono rfl (List.suffix_cons _ _)
  · rw [show s.shutdown.slots.items = [] from Slots.items_drain] at hc
    cases hc

theorem runs (hs : s₀.LoadsBySuffix) (hrun : Runs (.recorded P) s₀ s) : s.LoadsBySuffix := by
  induction hrun with
  | refl => exact hs
  | tail hrun hevent ih =>
    cases hevent with
    | step hstep =>
      cases hstep with
      | tick => exact ih.tick
      | stop => exact ⟨ih.host, ih.peers, ih.slots⟩
      | setTimeouts => exact ⟨ih.host, ih.peers, ih.slots⟩
      | around board uptime hn hv hi =>
        exact ⟨ih.host.mono hi (List.suffix_refl _), ih.peers, ih.slots⟩
    | shutdown => exact ih.shutdown

end LoadsBySuffix

/-- **Requests run scripts, and frames run what was upgraded on.** On every run, whatever clients
send and whatever the platform does, each path that the interpreter was asked to load was loaded
for a request, right after its parameters were published, and then the path has the suffix of a
script; or for a frame, right after its payload was assigned, and then it is the path of an upgrade
in the log, which is not that of the board, and has the suffix of a script exactly if the path asked
for in that upgrade has. So only scripts are loaded if clients upgrade on scripts and the board
alone. -/
theorem loads_by_suffix {config : Config} {network : P.network.State} {volume : P.volume.State}
    {interpreter : P.interpreter.State} {board : P.peripherals.State}
    (hnew : Server.new (P := P.recorded) config network (.start volume) (.start interpreter)
      board = .ok s₀) (hrun : Runs (.recorded P) s₀ s) :
    (∀ e earlier, e :: earlier <:+ s.host.interpreter.trace → ∀ path, e.path? = some path →
      ScriptEvent.ForRequest earlier ∧ Content.NamesScript path ∨
      ScriptEvent.ForFrame earlier ∧ ∃ address uri, .upgraded address uri ∈ s.host.log ∧
        uri ≠ Polling.boardPath ∧ Content.pathUnder? config.contentRoot uri = some path ∧
        (Content.NamesScript path ↔ Content.NamesScript uri)) ∧
    ((∀ address uri, .upgraded address uri ∈ s.host.log →
        uri = Polling.boardPath ∨ Content.NamesScript uri) →
      ∀ e ∈ s.host.interpreter.trace, ∀ path, e.path? = some path → Content.NamesScript path) := by
  have hstart : s₀.LoadsBySuffix ∧ s₀.config = config := by
    have hpeers := PeersNoted.of_new hnew
    obtain ⟨-, rfl⟩ := new_eq_ok_iff.mp hnew
    refine ⟨⟨.refl _ _, hpeers, fun c hc => ?_⟩, rfl⟩
    rw [Slots.items_free] at hc
    cases hc
  have hs := (hstart.1.runs hrun).host
  rw [Runs.config_eq hrun, hstart.2] at hs
  refine ⟨fun e earlier hsuffix path hpath => ?_, fun hup e he path hpath => ?_⟩
  · have hfor := hs.entries e earlier hsuffix List.nil_suffix path hpath
    refine hfor.imp_right fun ⟨hframe, hpaths⟩ => ⟨hframe, ?_⟩
    obtain ⟨address, uri, hmem, hboard, hunder⟩ := hpaths
    exact ⟨address, uri, hmem, hboard, hunder, Content.namesScript_pathUnder? hunder⟩
  · obtain ⟨earlier, hfor⟩ := hs.of_mem he
    obtain ⟨-, h⟩ | ⟨-, address, uri, hmem, hboard, hunder⟩ := hfor path hpath
    · exact h
    · exact (Content.namesScript_pathUnder? hunder).mpr
        ((hup address uri hmem).resolve_left hboard)

end Server

/-! ### A frame on a page -/

namespace Loads

open Bench

/-- A server with a page and a script, and an interpreter that takes both. -/
def idle : Server kit :=
  onRecord { Config.default with maxConnections := 2 }
    (Flash.empty.withFile "/html/index.htm" [0x68, 0x69])
    ((Scripts.empty.withScript "/html/a.lua" (.echoGlobal frameGlobal)).withScript
      "/html/index.htm" (.echoGlobal frameGlobal))

/-- The first client asks for the script, and the second for an upgrade on that path. -/
def queue (uri : String) : Server kit :=
  idle.onNetwork fun ws => ask 0 "/a.lua"
    (((ws.connect (clientAddress 1)).connect (clientAddress 2)).update 1 fun w =>
      w.send (upgradeRequest uri "dGhlIHNhbXBsZSBub25jZQ=="))

/-- The second client has become a peer and has sent a frame. -/
def served (uri : String) : Server kit :=
  ((queue uri).tick.tick.onNetwork fun ws => ws.update 1 fun w =>
    w.send (Frame.encodeMasked Opcode.text [0x68] ⟨1, 2, 3, 4⟩)).tick

theorem runs_served (uri : String) : Server.Runs (.recorded _) idle (served uri) :=
  ((((Relation.ReflTransGen.refl.tail (.step (.ofNetwork _ _))).tail (.step (.tick _))).tail
    (.step (.tick _))).tail (.step (.ofNetwork _ _))).tail (.step (.tick _))

/-- The upgrade was on the script, which was loaded for the request and for the frame. -/
theorem loads_by_suffix_script :
    (served "/a.lua").host.interpreter.trace.filterMap ScriptEvent.path? =
        ["/html/a.lua", "/html/a.lua"] ∧
      ∀ e ∈ (served "/a.lua").host.interpreter.trace, ∀ path, e.path? = some path →
        Content.NamesScript path := by
  have hloaded : (served "/a.lua").host.interpreter.trace.filterMap ScriptEvent.path? =
      ["/html/a.lua", "/html/a.lua"] := by decide +kernel
  have hnotes : (served "/a.lua").host.log.all fun
      | .upgraded _ uri => decide (uri = Polling.boardPath ∨ Content.NamesScript uri)
      | _ => true := by decide +kernel
  have hrun := runs_served "/a.lua"
  -- From here on the server need not be computed.
  generalize served "/a.lua" = s at hloaded hnotes hrun ⊢
  refine ⟨hloaded, (Server.loads_by_suffix (new_onRecord (by decide) _ _) hrun).2 ?_⟩
  intro address uri hmem
  exact of_decide_eq_true (List.all_eq_true.mp hnotes _ hmem)

/-- **A page is loaded for a frame**, where a client upgraded on it. -/
theorem not_only_scripts_loaded : ¬ ∀ s : Server kit, Server.Runs (.recorded _) idle s →
    ∀ e ∈ s.host.interpreter.trace, ∀ path, e.path? = some path → Content.NamesScript path := by
  intro h
  have hloaded : .loaded "/html/index.htm" ∈ (served "/index.htm").host.interpreter.trace := by
    decide +kernel
  have hpage : ¬ Content.NamesScript "/html/index.htm" := by decide +kernel
  exact hpage (h _ (runs_served _) _ hloaded _ rfl)

end Loads

end Microweb
