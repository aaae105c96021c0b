import Microweb.Proofs.Bench
import Microweb.Proofs.Steps

/-!
The life of a connection in a slot. Whatever it meets at each of its steps, it only goes forward
and comes to its end after a number of steps that the limits of the configuration and the size of
its response bound.
-/

namespace Microweb

variable {P : Platform}

/-! ### Forward -/

/-- The phases in order. -/
def Phase.rank : Phase → Nat
  | begin => 0
  | streaming => 1
  | ending => 2
  | closed => 3

/-! ### Steps that are left -/

/-- How many pieces a response has at most: what the file is said to hold, and one for an empty
file; or the calls of a script and the step that finds them used up. -/
def Target.pieces (config : Config) (h : Host P) : Target → Nat
  | .file path =>
    match h.openFile path with
    | (.error _, _) => 0
    | (.ok f, h) =>
      match h.fileSize f with
      | (.error _, _) => 0
      | (.ok size, _) => max 1 size
  | .script _ => config.scriptStepLimit.toNat + 1

/-- A stage past the start of a response, with that many steps to go at most. -/
def Stage.Within (config : Config) (n : Nat) : Stage P → Prop
  | .request => False
  | .begin _ => False
  | .streaming (.file job) => max 1 (job.size - job.sent) + 1 ≤ n
  | .streaming (.script job) => config.scriptStepLimit.toNat - job.steps.toNat + 2 ≤ n
  | .ending _ => 1 ≤ n
  | .closed => True

/-- A piece of a file that is not the last leaves less to be sent. -/
theorem FileJob.step_more (job : FileJob P) {conn : P.Conn} {h : Host P}
    (hmore : (job.step conn h).1 = .more) : (job.step conn h).2.1.size = job.size ∧
      job.sent < (job.step conn h).2.1.sent ∧ (job.step conn h).2.1.sent < job.size := by
  unfold FileJob.step at hmore ⊢
  split at hmore
  · cases hmore
  · next hlt =>
    rw [if_neg hlt]
    split at hmore
    · cases hmore
    · cases hmore
    · next bs f h₁ hne heq =>
      split at hmore
      · cases hmore
      · next h₂ heq₂ =>
        simp only at hmore ⊢
        have hpos := List.length_pos_of_ne_nil hne
        by_cases hsent : job.sent + bs.length < job.size
        · exact ⟨trivial, by omega, hsent⟩
        · rw [if_neg hsent] at hmore
          cases hmore

/-- A call that is not the last of a script was within the limit, and is counted. -/
theorem ScriptJob.step_more (job : ScriptJob P) {conn : P.Conn} {outputSize : Nat}
    {stepLimit : UInt32} {h : Host P}
    (hmore : (job.step conn outputSize stepLimit h).1 = .more) : job.steps < stepLimit ∧
      (job.step conn outputSize stepLimit h).2.1.steps = job.steps + 1 := by
  unfold ScriptJob.step at hmore ⊢
  split at hmore
  · cases hmore
  · next hlt =>
    refine ⟨by simpa using hlt, ?_⟩
    rw [if_neg hlt]
    simp only
    split
    · rfl
    · rfl
    · split
      · rfl
      · split <;> rfl

/-- A file that is begun has all its pieces to go. -/
theorem FileJob.pieces_begin {config : Config} {conn : P.Conn} {path : String} {h h' : Host P}
    {job : FileJob P} (heq : FileJob.begin conn path config.chunkSize h = (.streaming job, h')) :
    max 1 (job.size - job.sent) = (Target.file path).pieces config h := by
  unfold FileJob.begin at heq
  split at heq
  · cases heq
  · cases heq
  · next f h₁ hopen =>
    split at heq
    · cases heq
    · next size h₂ hsize =>
      have hp : (Target.file path).pieces config h = max 1 size := by
        simp only [Target.pieces, hopen, hsize]
      rw [hp]
      simp only at heq
      split at heq <;> cases heq
      rfl

/-- A script that is begun was not called yet. -/
theorem ScriptJob.steps_begin {conn : P.Conn} {path : String} {query : Query} {h h' : Host P}
    {job : ScriptJob P} (heq : ScriptJob.begin conn path query h = (.streaming job, h')) :
    job.steps = 0 := by
  unfold ScriptJob.begin at heq
  split at heq
  · cases heq
  · cases heq
  · simp only at heq
    split at heq <;> cases heq
    rfl

namespace Client

variable {c : Client P} {config : Config} {peers : Peers P.Conn} {h : Host P} {n : Nat}

/-- **The start of a response** leaves as many steps as the response has pieces, and one for its
end. -/
theorem within_start (c : Client P) (config : Config) (target : Target) (h : Host P) :
    (c.start config target h).1.stage.Within config (target.pieces config h + 1) := by
  have hone : 1 ≤ target.pieces config h + 1 := by omega
  have hs := started_start c config target h
  generalize c.start config target h = p at hs ⊢
  cases hs with
  | @file path conn job h' _ heq =>
    show max 1 (job.size - job.sent) + 1 ≤ _
    rw [FileJob.pieces_begin heq]
  | @script path conn job h' _ heq =>
    have hsteps := ScriptJob.steps_begin heq
    show config.scriptStepLimit.toNat - job.steps.toNat + 2 ≤ config.scriptStepLimit.toNat + 1 + 1
    omega
  | fileEnds => exact hone
  | scriptEnds => exact hone
  | nothing => exact hone
  | givenUp => trivial

theorem one_le_of_streaming {job : Job P} (hn : (Stage.streaming job).Within config (n + 1)) :
    1 ≤ n := by
  cases job with
  | file job =>
    have hn : max 1 (job.size - job.sent) + 1 ≤ n + 1 := hn
    omega
  | script job =>
    have hn : config.scriptStepLimit.toNat - job.steps.toNat + 2 ≤ n + 1 := hn
    omega

/-- **A piece of a response** leaves one step less. -/
theorem within_stream {job : Job P} (hn : (Stage.streaming job).Within config (n + 1)) :
    (c.stream config job h).1.stage.Within config n := by
  have hone : 1 ≤ n := one_le_of_streaming hn
  have hs := streamed_stream c config job h
  generalize c.stream config job h = p at hs ⊢
  cases hs with
  | left => exact hone
  | @file conn _ job hmore =>
    obtain ⟨hsize, hsent, hlt⟩ := job.step_more hmore
    have hn : max 1 (job.size - job.sent) + 1 ≤ n + 1 := hn
    show max 1 ((job.step conn h).2.1.size - (job.step conn h).2.1.sent) + 1 ≤ n
    omega
  | fileEnds => exact hone
  | script _ job hmore =>
    obtain ⟨hlt, hsteps⟩ := job.step_more hmore
    have hlt := UInt32.lt_iff_toNat_lt.mp hlt
    have hn : config.scriptStepLimit.toNat - job.steps.toNat + 2 ≤ n + 1 := hn
    have hnat : (job.steps + 1).toNat = job.steps.toNat + 1 := by
      have hbound := config.scriptStepLimit.toNat_lt
      rw [UInt32.toNat_add]
      exact Nat.mod_eq_of_lt (by simp; omega)
    show config.scriptStepLimit.toNat - UInt32.toNat (ScriptJob.steps _) + 2 ≤ n
    rw [hsteps, hnat]
    omega
  | scriptEnds => exact hone

/-- **One step** past the start of a response leaves one less. -/
theorem within_step (hn : c.stage.Within config (n + 1)) :
    (c.step config peers h).1.stage.Within config n := by
  unfold step
  split
  · next heq =>
    rw [heq] at hn
    exact hn.elim
  · next target heq =>
    rw [heq] at hn
    exact hn.elim
  · next job heq =>
    rw [heq] at hn
    split
    · exact within_stream hn
    · exact one_le_of_streaming hn
  · trivial
  · trivial
  · next heq =>
    rw [heq]
    trivial

/-- Every stage past the start of a response has some number of steps to go. -/
theorem exists_within (config : Config) {stage : Stage P} (hr : stage ≠ .request)
    (hb : ∀ target, stage ≠ .begin target) : ∃ n, stage.Within config (n + 1) := by
  rcases stage with _ | target | (job | job) | job | _
  · exact absurd rfl hr
  · exact absurd rfl (hb target)
  · exact ⟨_, Nat.le_refl _⟩
  · exact ⟨_, Nat.le_refl _⟩
  · exact ⟨0, Nat.le_refl _⟩
  · exact ⟨0, trivial⟩

theorem closed_of_within_zero {stage : Stage P} (h : stage.Within config 0) :
    stage.phase = .closed := by
  rcases stage with _ | target | (job | job) | job | _
  · exact h.elim
  · exact h.elim
  · have h : max 1 (job.size - job.sent) + 1 ≤ 0 := h
    omega
  · have h : config.scriptStepLimit.toNat - job.steps.toNat + 2 ≤ 0 := h
    omega
  · have h : 1 ≤ 0 := h
    omega
  · rfl

theorem rank_pos_of_within {stage : Stage P} (h : stage.Within config n) :
    1 ≤ stage.phase.rank := by
  rcases stage with _ | target | job | job | _
  · exact h.elim
  · exact h.elim
  · exact Nat.le_refl 1
  · exact Nat.le_succ 1
  · exact Nat.le_add_left 1 2

/-- **A step goes forward** or stays. -/
theorem rank_step (c : Client P) (config : Config) (peers : Peers P.Conn) (h : Host P) :
    c.phase.rank ≤ (c.step config peers h).1.phase.rank := by
  cases hs : c.stage with
  | request =>
    rw [show c.phase.rank = 0 by rw [phase, hs]; rfl]
    exact Nat.zero_le _
  | begin target =>
    rw [show c.phase.rank = 0 by rw [phase, hs]; rfl]
    exact Nat.zero_le _
  | streaming job =>
    obtain ⟨n, hn⟩ : ∃ n, c.stage.Within config (n + 1) :=
      exists_within config (by rw [hs]; nofun) (by rw [hs]; nofun)
    rw [show c.phase.rank = 1 by rw [phase, hs]; rfl]
    exact rank_pos_of_within (within_step hn)
  | ending job =>
    have hclosed : (c.step config peers h).1.phase = .closed := by
      unfold step
      rw [hs]
      cases job <;> rfl
    rw [hclosed, show c.phase.rank = 2 by rw [phase, hs]; rfl]
    decide
  | closed =>
    have hstep : (c.step config peers h).1 = c := by
      unfold step
      rw [hs]
    exact Nat.le_of_eq (by rw [hstep])

/-- A step behind the request leaves some number of steps to go. -/
theorem exists_within_step (config : Config) (peers : Peers P.Conn) (h : Host P)
    (hr : c.stage ≠ .request) : ∃ n, (c.step config peers h).1.stage.Within config n := by
  by_cases hb : ∃ target, c.stage = .begin target
  · obtain ⟨target, hb⟩ := hb
    have hn := within_start c config target h
    unfold step
    rw [hb]
    exact ⟨_, hn⟩
  · obtain ⟨n, hn⟩ := exists_within config hr (not_exists.mp hb)
    exact ⟨n, within_step hn⟩

theorem request_of_step (h' : (c.step config peers h).1.stage = .request) : c.stage = .request := by
  by_contra hr
  obtain ⟨n, hn⟩ := exists_within_step config peers h hr
  rw [h'] at hn
  exact hn

/-! ### The whole life -/

/-- A connection after so many steps, given what it meets at each: the peers and the host as others
and the world around have left them. -/
def life (config : Config) (meet : Nat → Peers P.Conn × Host P) (c : Client P) : Nat → Client P
  | 0 => c
  | n + 1 => ((life config meet c n).step config (meet n).1 (meet n).2).1

variable {meet : Nat → Peers P.Conn × Host P}

theorem closed_life_of_within {m : Nat} (hn : (life config meet c m).stage.Within config n) :
    (life config meet c (m + n)).phase = .closed := by
  induction n generalizing m with
  | zero => exact closed_of_within_zero hn
  | succ n ih =>
    rw [Nat.add_succ, ← Nat.succ_add]
    exact ih (within_step hn)

/-- As long as the request has not come, every step counts. -/
theorem idle_life (hlimit : config.requestIdleLimit.toNat < 2 ^ 32 - 1) (conn : P.Conn) (n : Nat)
    (hr : (life config meet (.fresh conn) n).stage = .request) :
    (life config meet (.fresh conn) n).idle.toNat = n ∧ n ≤ config.requestIdleLimit.toNat := by
  induction n with
  | zero => exact ⟨rfl, Nat.zero_le _⟩
  | succ n ih =>
    have hprev : (life config meet (.fresh conn) n).stage = .request := request_of_step hr
    obtain ⟨hidle, hle⟩ := ih hprev
    have hstep : life config meet (.fresh conn) (n + 1) =
        ((life config meet (.fresh conn) n).receive config (meet n).1 (meet n).2).1 := by
      rw [life, step, hprev]
    rw [hstep] at hr ⊢
    have hrec := received_receive (life config meet (.fresh conn) n) config (meet n).1 (meet n).2
    generalize ((life config meet (.fresh conn) n).receive config (meet n).1 (meet n).2).1 = d
      at hr hrec ⊢
    cases hrec with
    | waits hlt =>
      have hnat : ((life config meet (.fresh conn) n).idle + 1).toNat = n + 1 := by
        rw [UInt32.toNat_add, hidle]
        exact Nat.mod_eq_of_lt (by simp; omega)
      exact ⟨hnat, by rw [← hnat]; exact UInt32.le_iff_toNat_le.mp hlt⟩
    | routed => cases hr
    | refused => cases hr
    | upgraded => cases hr
    | givenUp => cases hr

/-- A connection that does not wait for its request once waited for the last time. -/
theorem exists_last_request (conn : P.Conn) (n : Nat)
    (h : (life config meet (.fresh conn) n).stage ≠ .request) :
    ∃ m, (life config meet (.fresh conn) m).stage = .request ∧
      (life config meet (.fresh conn) (m + 1)).stage ≠ .request := by
  induction n with
  | zero => exact absurd rfl h
  | succ n ih =>
    by_cases hr : (life config meet (.fresh conn) n).stage = .request
    · exact ⟨n, hr, h⟩
    · exact ih hr

/-- **Every connection comes to its end**, after as many steps at most as the receives that may
bring nothing, the pieces of its response, and three. -/
theorem exists_closed (hlimit : config.requestIdleLimit.toNat < 2 ^ 32 - 1) (conn : P.Conn) :
    ∃ n pieces, (life config meet (.fresh conn) n).phase = .closed ∧
      n ≤ config.requestIdleLimit.toNat + 3 + pieces ∧
      (pieces = 0 ∨ ∃ k < n, ∃ target, (life config meet (.fresh conn) k).stage = .begin target ∧
        pieces = target.pieces config (meet k).2) := by
  obtain ⟨m, hfirst, hm⟩ : ∃ m, (life config meet (.fresh conn) m).stage = .request ∧
      (life config meet (.fresh conn) (m + 1)).stage ≠ .request := by
    refine exists_last_request conn (config.requestIdleLimit.toNat + 1) fun hr => ?_
    have := (idle_life hlimit conn _ hr).2
    omega
  obtain ⟨-, hle⟩ := idle_life hlimit conn m hfirst
  have hstep : life config meet (.fresh conn) (m + 1) =
      ((life config meet (.fresh conn) m).receive config (meet m).1 (meet m).2).1 := by
    rw [life, step, hfirst]
  have hrec := received_receive (life config meet (.fresh conn) m) config (meet m).1 (meet m).2
  rw [← hstep] at hrec
  generalize hd : life config meet (.fresh conn) (m + 1) = d at hm hrec
  cases hrec with
  | waits => exact absurd rfl hm
  | routed r target =>
    have hs : (life config meet (.fresh conn) (m + 1)).stage = .begin target := by rw [hd]; rfl
    have hw := within_start (life config meet (.fresh conn) (m + 1)) config target (meet (m + 1)).2
    refine ⟨m + 2 + (target.pieces config (meet (m + 1)).2 + 1), _, closed_life_of_within ?_, ?_,
      .inr ⟨m + 1, ?_, target, hs, rfl⟩⟩
    · rw [life, step, hs]
      exact hw
    · omega
    · omega
  | refused =>
    refine ⟨m + 1 + 1, 0, closed_life_of_within ?_, by omega, .inl rfl⟩
    rw [hd]
    exact Nat.le_refl 1
  | upgraded => exact ⟨m + 1, 0, by rw [hd]; rfl, by omega, .inl rfl⟩
  | givenUp => exact ⟨m + 1, 0, by rw [hd]; rfl, by omega, .inl rfl⟩

/-! ### The kind of a connection -/

theorem Received.kind {c' : Client P} (h : c.Received config c') :
    c'.kind = c.kind ∨ c'.phase = .closed := by
  cases h with
  | waits => exact .inl rfl
  | routed => exact .inl rfl
  | refused => exact .inl rfl
  | upgraded => exact .inr rfl
  | givenUp => exact .inl rfl

theorem Started.kind {target : Target} {p : Client P × Host P}
    (hp : Started config h c target p) : p.1.kind = c.kind := by
  cases hp <;> rfl

theorem Streamed.kind {job : Job P} {p : Client P × Host P} (hp : Streamed config h c job p) :
    p.1.kind = c.kind := by
  cases hp <;> rfl

/-- **A step keeps the kind** of a connection, or closes it. -/
theorem kind_step (c : Client P) (config : Config) (peers : Peers P.Conn) (h : Host P) :
    (c.step config peers h).1.kind = c.kind ∨ (c.step config peers h).1.phase = .closed := by
  unfold step
  split
  · exact (received_receive _ _ _ _).kind
  · exact .inl (started_start _ _ _ _).kind
  · split
    · exact .inl (streamed_stream _ _ _ _).kind
    · exact .inl rfl
  · exact .inl rfl
  · exact .inl rfl
  · exact .inl rfl

/-! ### Connections in slots -/

/-- Some connection came to be this one by its steps. -/
def Lived (config : Config) (c : Client P) : Prop :=
  ∃ conn meet n, c = life config meet (.fresh conn) n

theorem life_congr {meet' : Nat → Peers P.Conn × Host P} (h : ∀ k < n, meet k = meet' k) :
    life config meet c n = life config meet' c n := by
  induction n with
  | zero => rfl
  | succ n ih =>
    rw [life, life, ih fun k hk => h k (by omega), h n (by omega)]

theorem Lived.step (hc : c.Lived config) (peers : Peers P.Conn) (h : Host P) :
    (c.step config peers h).1.Lived config := by
  obtain ⟨conn, meet, n, rfl⟩ := hc
  refine ⟨conn, fun k => if k = n then (peers, h) else meet k, n + 1, ?_⟩
  have hsame : life config (fun k => if k = n then (peers, h) else meet k) (.fresh conn) n =
      life config meet (.fresh conn) n := by
    refine life_congr fun k hk => ?_
    rw [if_neg (by omega)]
  rw [life, hsame, if_pos rfl]

/-- A connection that stands in a slot between ticks is not at its end, still to be served a
response, and has lived by its steps alone. -/
structure InSlot (config : Config) (c : Client P) : Prop where
  notClosed : c.phase ≠ .closed
  kind : c.kind = .get
  lived : c.Lived config

theorem inSlot_fresh (config : Config) (conn : P.Conn) (h : Host P) :
    (fresh conn : Client P).InSlot config :=
  ⟨nofun, rfl, conn, fun _ => (.empty 0, h), 0, rfl⟩

theorem InSlot.step (hc : c.InSlot config) (hopen : (c.step config peers h).1.phase ≠ .closed) :
    (c.step config peers h).1.InSlot config := by
  refine ⟨hopen, ?_, hc.lived.step peers h⟩
  obtain hkind | hclosed := c.kind_step config peers h
  · rw [hkind]
    exact hc.kind
  · exact absurd hclosed hopen

end Client

namespace Server

variable {s s₀ : Server P} {A : Surroundings P}

theorem inSlot_accept (hs : ∀ c ∈ s.slots.items, c.InSlot s.config) :
    ∀ c ∈ s.accept.slots.items, c.InSlot s.accept.config := by
  rw [config_accept]
  exact s.forall_items_accept (fun conn => Client.inSlot_fresh s.config conn s.host) hs

theorem inSlot_stepSlot (i : Nat) (hs : ∀ c ∈ s.slots.items, c.InSlot s.config) :
    ∀ c ∈ (s.stepSlot i).slots.items, c.InSlot (s.stepSlot i).config := by
  rw [config_stepSlot]
  refine s.forall_items_stepSlot i (fun c hget hopen => ?_) hs
  exact (hs c (Slots.mem_items_of_get? hget)).step hopen

theorem inSlot_runs (hs : ∀ c ∈ s₀.slots.items, c.InSlot s₀.config) (hrun : Runs A s₀ s) :
    ∀ c ∈ s.slots.items, c.InSlot s.config :=
  forall_items_runs (I := fun config c => c.InSlot config)
    (fun config conn => Client.inSlot_fresh config conn s.host)
    (fun _ _ _ _ hc hopen => hc.step hopen) hs hrun

/-- **The life of every connection.** Whatever it meets, a new connection goes forward at each step
and comes to its end after as many steps at most as the receives that may bring nothing, the pieces
of its response, and three. On every run, each connection in a slot between ticks lives such a
life, is not at its end and is no peer; a tick does one step for each that is in a slot after its
accept, and frees the slot at the end. -/
theorem connections_close {config : Config} {network : P.network.State} {volume : P.volume.State}
    {interpreter : P.interpreter.State} {board : P.peripherals.State}
    (hlimit : config.requestIdleLimit.toNat < 2 ^ 32 - 1)
    (hnew : Server.new config network volume interpreter board = .ok s₀) (hrun : Runs A s₀ s) :
    (∀ (meet : Nat → Peers P.Conn × Host P) (conn : P.Conn),
      (∀ n, (Client.life config meet (.fresh conn) n).phase.rank ≤
        (Client.life config meet (.fresh conn) (n + 1)).phase.rank) ∧
      ∃ n pieces, (Client.life config meet (.fresh conn) n).phase = .closed ∧
        n ≤ config.requestIdleLimit.toNat + 3 + pieces ∧
        (pieces = 0 ∨ ∃ k < n, ∃ target,
          (Client.life config meet (.fresh conn) k).stage = .begin target ∧
            pieces = target.pieces config (meet k).2)) ∧
    (∀ c ∈ s.slots.items, c.phase ≠ .closed ∧ c.kind = .get ∧
      ∃ conn meet n, c = Client.life config meet (.fresh conn) n) ∧
    (∀ i c, s.slots.get? i = some c → s.accept.slots.get? i = some c) ∧
    ∀ i c, s.accept.slots.get? i = some c → ∃ peers h,
      (c.step config peers h).1.phase = .closed ∧ s.tick.slots.get? i = none ∨
        (c.step config peers h).1.phase ≠ .closed ∧
          s.tick.slots.get? i = some (c.step config peers h).1 := by
  obtain ⟨-, rfl⟩ := new_eq_ok_iff.mp hnew
  have hconfig : s.config = config := hrun.config_eq
  refine ⟨fun meet conn => ⟨fun n => Client.rank_step _ _ _ _, Client.exists_closed hlimit conn⟩,
    fun c hc => ?_, fun i c => get?_accept, fun i c hget => ?_⟩
  · have hin := inSlot_runs (fun c hc => ?_) hrun c hc
    · rw [hconfig] at hin
      exact ⟨hin.notClosed, hin.kind, hin.lived⟩
    · rw [Slots.items_free] at hc
      cases hc
  · rw [← hconfig]
    exact get?_tick hget

end Server

/-! ### A connection that waits -/

namespace Lifetime

open Bench

def idle : Server kit := onRecord Config.default .empty .empty

/-- One client has connected and sent nothing. -/
def waiting : Server kit := (idle.onNetwork fun ws => ws.connect (clientAddress 1)).tick

theorem runs_waiting : Server.Runs (.recorded _) idle waiting :=
  (Relation.ReflTransGen.single (.step (.ofNetwork _ _))).tail (.step (.tick _))

theorem connections_close_waiting : waiting.slots.items.length = 1 ∧
    ∀ c ∈ waiting.slots.items, c.phase ≠ .closed ∧ c.kind = .get := by
  refine ⟨by decide +kernel, fun c hc => ?_⟩
  obtain ⟨-, hslots, -⟩ :=
    Server.connections_close (by decide) (new_onRecord (by decide) _ _) runs_waiting
  exact ⟨(hslots c hc).1, (hslots c hc).2.1⟩

end Lifetime

end Microweb
