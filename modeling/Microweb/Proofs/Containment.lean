import Mathlib.Data.List.DropRight
import Microweb.Proofs.Bench
import Microweb.Proofs.Scope.Record
import Microweb.Proofs.Scope.Server

/-!
Where content is looked for. Whatever clients send, each path that a volume or an interpreter is
asked for lies under the content root and does not lead up from there.
-/

namespace Microweb

/-! ### Paths under a root -/

namespace Content

/-- The path is the root without the slashes at its end, then a slash and more, in which no segment
leads up. -/
def Contained (root path : String) : Prop :=
  ∃ rest, path = trimSlashes root ++ rest ∧ rest.toList.head? = some '/' ∧
    parentSegment ∉ segments rest

theorem segments_append (a b : String) : segments (a ++ "/" ++ b) = segments a ++ segments b := by
  have hlist : (a ++ "/" ++ b).toList = a.toList ++ '/' :: b.toList := by simp
  unfold segments List.splitOn
  rw [hlist, List.splitOnP_append_cons _ _ (by decide)]

theorem segments_slash (s : String) : segments ("/" ++ s) = [] :: segments s := by
  have h := segments_append "" s
  rwa [String.empty_append] at h

theorem toList_trimSlashes (s : String) :
    (trimSlashes s).toList = s.toList.rdropWhile (· == '/') := String.toList_ofList

/-- All segments of a text without the slashes at its end are among its own. -/
theorem mem_segments_of_trimSlashes {s : String} {segment : List Char}
    (h : segment ∈ segments (trimSlashes s)) : segment ∈ segments s := by
  unfold segments List.splitOn at h ⊢
  rw [toList_trimSlashes] at h
  generalize s.toList = cs at h ⊢
  induction cs using List.reverseRecOn with
  | nil => exact h
  | append_singleton cs c ih =>
    rw [List.rdropWhile_concat] at h
    split at h
    · next hslash =>
      obtain rfl : c = '/' := by simpa using hslash
      rw [List.splitOnP_append_cons _ _ (by decide)]
      exact List.mem_append_left _ (ih h)
    · exact h

theorem head?_trimSlashes {s : String} (hne : (trimSlashes s).toList ≠ []) :
    (trimSlashes s).toList.head? = s.toList.head? := by
  rw [toList_trimSlashes] at hne ⊢
  obtain ⟨t, ht⟩ := List.rdropWhile_prefix (· == '/') s.toList
  conv_rhs => rw [← ht]
  exact (List.head?_append_of_ne_nil _ hne).symm

/-- The slashes at the end of what follows a root go, and those of the root are gone already. -/
theorem trimSlashes_append (root rest : String) :
    trimSlashes (trimSlashes root ++ rest) = trimSlashes root ++ trimSlashes rest := by
  have hroot := toList_trimSlashes root
  have hdone : (trimSlashes root).toList.rdropWhile (· == '/') = (trimSlashes root).toList := by
    rw [hroot, List.rdropWhile_idempotent]
  refine String.toList_injective ?_
  rw [toList_trimSlashes, String.toList_append, String.toList_append, toList_trimSlashes rest]
  generalize (trimSlashes root).toList = r at hdone
  generalize rest.toList = cs
  induction cs using List.reverseRecOn with
  | nil => rw [List.append_nil, hdone, List.rdropWhile_nil, List.append_nil]
  | append_singleton cs c ih =>
    rw [← List.append_assoc, List.rdropWhile_concat, List.rdropWhile_concat]
    split
    · exact ih
    · exact List.append_assoc _ _ _

theorem contained_of_pathUnder? {root uri path : String} (h : pathUnder? root uri = some path) :
    Contained root path := by
  unfold pathUnder? at h
  split at h
  · cases h
  · next hup =>
    cases h
    have hup : parentSegment ∉ segments uri := by simpa using hup
    by_cases hhead : uri.toList.head? = some '/'
    · refine ⟨uri, ?_, hhead, hup⟩
      rw [if_pos hhead, String.append_empty]
    · refine ⟨"/" ++ uri, ?_, by simp, ?_⟩
      · rw [if_neg hhead, String.append_assoc]
      · rw [segments_slash]
        exact List.not_mem_cons_of_ne_of_not_mem nofun hup

/-- A file in a directory under the root lies there too. -/
theorem Contained.file {root path name : String} (h : Contained root path)
    (hname : parentSegment ∉ segments name) :
    Contained root (trimSlashes path ++ "/" ++ name) := by
  obtain ⟨rest, rfl, hhead, hup⟩ := h
  refine ⟨trimSlashes rest ++ "/" ++ name, ?_, ?_, ?_⟩
  · rw [trimSlashes_append]
    simp only [String.append_assoc]
  · rw [String.append_assoc, String.toList_append]
    by_cases hempty : (trimSlashes rest).toList = []
    · rw [hempty]
      simp
    · rw [List.head?_append_of_ne_nil _ hempty, head?_trimSlashes hempty, hhead]
  · rw [segments_append, List.mem_append]
    rintro (hmem | hmem)
    · exact hup (mem_segments_of_trimSlashes hmem)
    · exact hname hmem

end Content

/-- **A configuration leads to paths under its content root** alone, if the names of its index files
do not lead up. -/
theorem Config.leadsTo_contained {config : Config}
    (hindex : ∀ name ∈ config.indexFiles, Content.parentSegment ∉ Content.segments name) :
    config.LeadsTo (Content.Contained config.contentRoot) where
  under := Content.contained_of_pathUnder?
  index h hname := (Content.contained_of_pathUnder? h).file (hindex _ hname)

variable {P : Platform} {paths : String → Prop}

/-! ### Paths on record -/

/-- The platform of the host was asked for such paths alone. -/
structure Host.Asks (paths : String → Prop) (h : Host P.recorded) : Prop where
  volume : Grew (fun e _ => ∀ path, e.path? = some path → paths path) [] h.volume.trace
  interpreter : Grew (ScriptEvent.LoadedFor paths paths) [] h.interpreter.trace

/-- Any connection, and some paths. -/
def Scope.within (P : Platform) (paths : String → Prop) : Scope P :=
  ⟨fun _ => True, fun _ _ => True, fun _ => True, paths, paths, paths, True⟩

namespace Scope

theorem uses_within (running : Bool) (c : P.Conn) : (within P paths).Uses running c :=
  .of_writes trivial trivial fun _ => trivial

theorem serves_within {config : Config} (hconfig : config.LeadsTo paths) :
    (within P paths).Serves config :=
  ⟨hconfig, fun _ hp _ => hp⟩

theorem answers_within {config : Config} (hconfig : config.LeadsTo paths) (p : Peer P.Conn) :
    (within P paths).Answers config p :=
  ⟨trivial, fun _ _ => trivial, fun _ _ hpath => hconfig.under hpath⟩

end Scope

theorem Host.Asks.reaches {g h : Host P.recorded} (hg : g.Asks paths)
    (hr : (Scope.within _ paths).Reaches g h) : h.Asks paths :=
  ⟨hg.volume.trans (hr.files.mono fun _ _ he _ => he.path), hg.interpreter.trans hr.loads⟩

/-! ### Runs -/

namespace Server

variable {s s₀ : Server P.recorded}

/-- The platform was asked for such paths alone, and so it will be for the responses that are about
to be started. -/
structure Asks (paths : String → Prop) (s : Server P.recorded) : Prop where
  host : s.host.Asks paths
  slots : ∀ c ∈ s.slots.items, c.AimsAt (Scope.within _ paths)

theorem Asks.accept (hs : s.Asks paths) : s.accept.Asks paths := by
  refine ⟨?_, s.forall_items_accept (fun conn => ?_) hs.slots⟩
  · obtain ⟨-, hvolume, hinterpreter⟩ := s.accept_frame
    exact ⟨hvolume ▸ hs.host.volume, hinterpreter ▸ hs.host.interpreter⟩
  · rintro target ⟨⟩

theorem Asks.stepSlot (hs : s.Asks paths) (hconfig : s.config.LeadsTo paths) (i : Nat) :
    (s.stepSlot i).Asks paths := by
  refine ⟨hs.host.reaches ?_, s.forall_items_stepSlot i (fun c hget _ => ?_) hs.slots⟩
  · refine (Scope.Reaches.refl _ _).stepSlot
      (fun c hget => ⟨?_, fun conn _ => ⟨Scope.uses_within _ conn, trivial⟩⟩)
      (fun _ _ => trivial) (Scope.serves_within hconfig)
    exact hs.slots c (Slots.mem_items_of_get? hget)
  · exact (hs.slots c (Slots.mem_items_of_get? hget)).step (Scope.serves_within hconfig) _ _

theorem Asks.poll (hs : s.Asks paths) (hconfig : s.config.LeadsTo paths) : s.poll.Asks paths :=
  ⟨hs.host.reaches ((Scope.Reaches.refl _ _).poll
    (fun p _ => Scope.answers_within hconfig p) fun _ _ => trivial), hs.slots⟩

theorem Asks.tick (hs : s.Asks paths) (hconfig : s.config.LeadsTo paths) : s.tick.Asks paths := by
  have h : s.tick.Asks paths ∧ s.tick.config.LeadsTo paths := by
    refine tick_induction (I := fun t => t.Asks paths ∧ t.config.LeadsTo paths) (fun t ht => ?_)
      (fun t i ht => ?_) (fun t ht => ?_) ⟨hs, hconfig⟩
    · exact ⟨ht.1.accept, by rw [config_accept]; exact ht.2⟩
    · exact ⟨ht.1.stepSlot ht.2 i, by rw [config_stepSlot]; exact ht.2⟩
    · exact ⟨ht.1.poll ht.2, ht.2⟩
  exact h.1

theorem Asks.shutdown (hs : s.Asks paths) : s.shutdown.Asks paths := by
  obtain ⟨h, hr, heq⟩ := Scope.Reaches.shutdown (s := s)
    (Scope.Reaches.refl (Scope.within _ paths) _) (fun _ _ _ _ => trivial) fun _ _ => trivial
  have hstop : Host.Asks paths { s.host with control := s.host.control.stop } :=
    ⟨hs.host.volume, hs.host.interpreter⟩
  have hh := hstop.reaches hr
  refine ⟨?_, fun c hc => ?_⟩
  · rw [heq]
    exact ⟨hh.volume, hh.interpreter⟩
  · rw [show s.shutdown.slots.items = [] from Slots.items_drain] at hc
    cases hc

/-- **Every run** asks for paths that the configuration leads to alone. -/
theorem Asks.runs (hs : s₀.Asks paths) (hconfig : s₀.config.LeadsTo paths)
    (hrun : Runs (.recorded P) s₀ s) : s.Asks paths := by
  induction hrun with
  | refl => exact hs
  | tail hrun hevent ih =>
    have hconfig' := Runs.config_eq hrun ▸ hconfig
    cases hevent with
    | step hstep =>
      cases hstep with
      | tick => exact ih.tick hconfig'
      | stop => exact ⟨⟨ih.host.volume, ih.host.interpreter⟩, ih.slots⟩
      | setTimeouts => exact ⟨⟨ih.host.volume, ih.host.interpreter⟩, ih.slots⟩
      | around board uptime hn hv hi =>
        refine ⟨⟨?_, ?_⟩, ih.slots⟩
        · rw [hv]
          exact ih.host.volume
        · rw [hi]
          exact ih.host.interpreter
    | shutdown => exact ih.shutdown

/-- **Content is looked for under the content root alone.** On every run, whatever clients send and
whatever the platform does, each path that the volume was asked to open or asked about, and each
path that the interpreter was asked to load, is the content root without the slashes at its end,
then a slash and more, in which no segment leads up; the names of the index files must not lead up
themselves. -/
theorem paths_contained {config : Config} {network : P.network.State} {volume : P.volume.State}
    {interpreter : P.interpreter.State} {board : P.peripherals.State}
    (hindex : ∀ name ∈ config.indexFiles, Content.parentSegment ∉ Content.segments name)
    (hnew : Server.new (P := P.recorded) config network (.start volume) (.start interpreter)
      board = .ok s₀) (hrun : Runs (.recorded P) s₀ s) :
    (∀ e ∈ s.host.volume.trace, ∀ path, e.path? = some path →
      Content.Contained config.contentRoot path) ∧
    ∀ e ∈ s.host.interpreter.trace, ∀ path, e.path? = some path →
      Content.Contained config.contentRoot path := by
  obtain ⟨-, rfl⟩ := new_eq_ok_iff.mp hnew
  have hstart : Asks (Content.Contained config.contentRoot)
      (⟨config, .free config.maxConnections, .empty config.maxPeers,
        ⟨network, .start volume, .start interpreter, board, .start config.timeouts, 0, []⟩⟩ :
        Server P.recorded) := by
    refine ⟨⟨.refl _ _, .refl _ _⟩, fun c hc => ?_⟩
    rw [Slots.items_free] at hc
    cases hc
  have hs := hstart.runs (Config.leadsTo_contained hindex) hrun
  refine ⟨fun e he path hpath => ?_, fun e he path hpath => ?_⟩
  · obtain ⟨earlier, hasks⟩ := hs.host.volume.of_mem he
    exact hasks path hpath
  · obtain ⟨earlier, hfor⟩ := hs.host.interpreter.of_mem he
    exact (hfor path hpath).elim And.right And.right

end Server

/-! ### A try at leaving the root -/

namespace Containment

open Bench

def config : Config := { Config.default with maxConnections := 3, contentRoot := "/html//" }

/-- A server with an index file and a script. -/
def idle : Server kit :=
  onRecord config (Flash.empty.withFile "/html/index.htm" [0x68, 0x69])
    (Scripts.empty.withScript "/html/a.lua" (.echoGlobal frameGlobal))

/-- The first client asks for a file beside the root, the second for the root itself, and the third
for an upgrade. -/
def queue : Server kit :=
  idle.onNetwork fun ws => ask 0 "/%2e%2e/secret" (ask 1 "/"
    ((((ws.connect (clientAddress 1)).connect (clientAddress 2)).connect (clientAddress 3)).update 2
      fun w => w.send (upgradeRequest "/a.lua" "dGhlIHNhbXBsZSBub25jZQ==")))

/-- The third client has become a peer and has sent a frame. -/
def served : Server kit :=
  (queue.tick.tick.tick.onNetwork fun ws => ws.update 2 fun w =>
    w.send (Frame.encodeMasked Opcode.text [0x68] ⟨1, 2, 3, 4⟩)).tick

theorem runs_served : Server.Runs (.recorded _) idle served :=
  (((((Relation.ReflTransGen.refl.tail (.step (.ofNetwork _ _))).tail (.step (.tick _))).tail
    (.step (.tick _))).tail (.step (.tick _))).tail (.step (.ofNetwork _ _))).tail (.step (.tick _))

theorem paths_contained_served :
    served.host.volume.trace.filterMap FileEvent.path? = ["/html/index.htm", "/html/index.htm"] ∧
      served.host.interpreter.trace.filterMap ScriptEvent.path? = ["/html/a.lua"] ∧
      (∀ e ∈ served.host.volume.trace, ∀ path, e.path? = some path →
        Content.Contained config.contentRoot path) ∧
      ∀ e ∈ served.host.interpreter.trace, ∀ path, e.path? = some path →
        Content.Contained config.contentRoot path := by
  have hindex : ∀ name ∈ config.indexFiles,
      Content.parentSegment ∉ Content.segments name := by decide +kernel
  have hasked : served.host.volume.trace.filterMap FileEvent.path? =
        ["/html/index.htm", "/html/index.htm"] ∧
      served.host.interpreter.trace.filterMap ScriptEvent.path? = ["/html/a.lua"] := by
    decide +kernel
  have hrun := runs_served
  -- From here on the server need not be computed.
  generalize served = s at hasked hrun ⊢
  exact ⟨hasked.1, hasked.2,
    Server.paths_contained hindex (new_onRecord (by decide) _ _) hrun⟩

end Containment

end Microweb
