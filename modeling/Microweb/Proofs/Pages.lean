import Microweb.Proofs.Audited
import Microweb.Proofs.Scope.Server
import Microweb.Proofs.Stock

/-!
The response from a script. Its head is followed by the pages that the calls of the script return,
each cut to the room there is, up to the first call that returns none or to the limit of calls; and
the interpreter is asked for just these calls, and to collect after each of them and at the end.
-/

namespace Microweb

variable {P : Platform}

/-! ### Results and pages -/

/-- What so many successive calls of a script return, each made on the next host, of which the first
has that number. Anything may happen from one host to the next. -/
def results (hosts : Nat → Host P) (k : Nat) (x : P.Script) :
    Nat → List (Except ScriptError (Option String))
  | 0 => []
  | n + 1 => ((hosts k).call x).1.1 :: results hosts (k + 1) ((hosts k).call x).1.2 n

/-- The page in a result, if there is one. -/
def page? : Except ScriptError (Option String) → Option String
  | .ok (some page) => if page.isEmpty then none else some page
  | _ => none

/-- The pages in front of the first result without one. -/
def pages (rs : List (Except ScriptError (Option String))) : List String :=
  (rs.takeWhile fun r => (page? r).isSome).filterMap page?

section Pages

variable {r : Except ScriptError (Option String)} {page : String}

theorem pages_cons_of_some (hr : page? r = some page)
    (rs : List (Except ScriptError (Option String))) : pages (r :: rs) = page :: pages rs := by
  unfold pages
  rw [List.takeWhile_cons_of_pos (by rw [hr]; rfl), List.filterMap_cons_some hr]

theorem pages_cons_of_none (hr : page? r = none)
    (rs : List (Except ScriptError (Option String))) : pages (r :: rs) = [] := by
  unfold pages
  rw [List.takeWhile_cons_of_neg (by rw [hr]; nofun), List.filterMap_nil]

theorem page?_eq_some (hr : page? r = some page) : r = .ok (some page) ∧ page.isEmpty = false := by
  unfold page? at hr
  split at hr
  · next p =>
    split at hr
    · cases hr
    · next hne =>
      cases hr
      exact ⟨rfl, eq_false_of_ne_true hne⟩
  · cases hr

end Pages

/-! ### The steps of a script -/

namespace ScriptJob

variable (conn : P.Conn) {path : String} {query : Query} {h : Host P.audited}

/-- The head of the response from a script. -/
def head (path : String) : Bytes :=
  Reply.contentHead (Content.typeOf (Content.suffix? path)) none

/-- **The start of a script that loads** writes the head. -/
theorem begin_ok {x : P.audited.Script} (hload : ((h.setQuery query).load path).1 = .ok x) :
    ∃ r h', ScriptJob.begin (P := P.audited) conn path query h =
        (match r with
          | .ok () => .streaming ⟨x, 0⟩
          | .error _ => .done (some ⟨x, 0⟩), h') ∧
      h.Adds h' [⟨conn, head path, r⟩] [.published query, .loaded path] := by
  obtain ⟨h₁, heq⟩ : ∃ h₁, (h.setQuery query).load path = (.ok x, h₁) := ⟨_, Prod.ext hload rfl⟩
  have ha : h.Adds h₁ [] [.published query, .loaded path] :=
    (Host.Adds.setQuery h query).trans (.load_ok heq)
  have hw := ha.trans (.write h₁ conn (head path))
  unfold head at hw ⊢
  unfold ScriptJob.begin
  rw [heq]
  simp only
  generalize h₁.write conn
    (Reply.contentHead (Content.typeOf (Content.suffix? path)) none) = w at hw ⊢
  obtain ⟨_ | _, h₂⟩ := w
  · exact ⟨_, _, rfl, hw.note _⟩
  · exact ⟨_, _, rfl, hw⟩

/-- **The start of a script that does not load** writes nothing and leaves nothing to be done. -/
theorem begin_error {e : ScriptError} (hload : ((h.setQuery query).load path).1 = .error e) :
    ∃ begun h' es, ScriptJob.begin (P := P.audited) conn path query h = (begun, h') ∧
      (begun = .abort ∨ begun = .done none) ∧ h.Adds h' [] es := by
  obtain ⟨h₁, heq⟩ : ∃ h₁, (h.setQuery query).load path = (.error e, h₁) :=
    ⟨_, Prod.ext hload rfl⟩
  have ha : h.Adds h₁ [] [.published query, .refused path] :=
    (Host.Adds.setQuery h query).trans (.load_error heq)
  unfold ScriptJob.begin
  rw [heq]
  cases e with
  | outOfMemory => exact ⟨_, _, _, rfl, .inl rfl, (ha.note _).trans (.collect _)⟩
  | _ => exact ⟨_, _, _, rfl, .inr rfl, ha.note _⟩

theorem adds_cut (bs : Bytes) (limit : Nat) (h : Host P.audited) :
    h.Adds (cut bs limit h).2 [] [] := by
  unfold cut
  split
  · exact (Host.Adds.refl h).note _
  · exact .refl h

variable (job : ScriptJob P.audited) {outputSize : Nat} {limit : UInt32}

/-- A step that finds the calls used up does nothing. -/
theorem step_used (hle : limit ≤ job.steps) :
    ∃ h', job.step conn outputSize limit h = (.done, job, h') ∧ h.Adds h' [] [] := by
  unfold step
  rw [if_pos hle]
  exact ⟨_, rfl, (Host.Adds.refl h).note _⟩

/-- **A step that gets a page** writes it, cut to the room there is. -/
theorem step_page (hlt : ¬ limit ≤ job.steps) {page : String}
    (hpage : page? (h.call job.script).1.1 = some page) :
    ∃ r h', job.step conn outputSize limit h =
        (match r with
          | .ok () => .more
          | .error _ => .done, ⟨(h.call job.script).1.2, job.steps + 1⟩, h') ∧
      h.Adds h' [⟨conn, (Utf8.encode page).take outputSize, r⟩]
        [.called job.script.number, .collected] := by
  obtain ⟨hresult, hne⟩ := page?_eq_some hpage
  have ha : h.Adds (h.call job.script).2.collect [] [.called job.script.number, .collected] :=
    (Host.Adds.call h job.script).trans (.collect _)
  unfold step
  rw [if_neg hlt]
  generalize h.call job.script = called at *
  obtain ⟨⟨r, x⟩, h₁⟩ := called
  obtain rfl : r = .ok (some page) := hresult
  simp only [hne, Bool.false_eq_true, if_false]
  have hcut := adds_cut (Utf8.encode page) outputSize h₁.collect
  obtain ⟨hbytes, -⟩ := cut_frame (Utf8.encode page) outputSize h₁.collect
  generalize cut (Utf8.encode page) outputSize h₁.collect = piece at hbytes hcut ⊢
  obtain ⟨bs, h₂⟩ := piece
  obtain rfl : bs = (Utf8.encode page).take outputSize := hbytes
  have hw := (ha.trans hcut).trans (.write h₂ conn ((Utf8.encode page).take outputSize))
  generalize h₂.write conn ((Utf8.encode page).take outputSize) = w at hw ⊢
  obtain ⟨_ | _, h₃⟩ := w
  · exact ⟨_, _, rfl, hw.note _⟩
  · exact ⟨_, _, rfl, hw⟩

/-- **A step that gets no page** writes nothing. -/
theorem step_last (hlt : ¬ limit ≤ job.steps) (hnone : page? (h.call job.script).1.1 = none) :
    ∃ h', job.step conn outputSize limit h =
        (.done, ⟨(h.call job.script).1.2, job.steps + 1⟩, h') ∧
      h.Adds h' [] [.called job.script.number, .collected] := by
  have ha : h.Adds (h.call job.script).2.collect [] [.called job.script.number, .collected] :=
    (Host.Adds.call h job.script).trans (.collect _)
  unfold step
  rw [if_neg hlt]
  generalize h.call job.script = called at *
  obtain ⟨⟨_ | _ | page, x⟩, h₁⟩ := called
  · exact ⟨_, rfl, ha.note _⟩
  · exact ⟨_, rfl, ha⟩
  · have hempty : page.isEmpty = true := by
      by_contra hne
      rw [page?, if_neg hne] at hnone
      cases hnone
    simp only [hempty, if_true]
    exact ⟨_, rfl, ha⟩

end ScriptJob

namespace Client

variable {c : Client P.audited} {config : Config} {h : Host P.audited}
  {meet : Nat → Peers P.Conn × Host P.audited} {n : Nat}

/-! ### The response -/

/-- The parameters of the request. -/
def query (c : Client P) : Query := (c.request.map Request.query).getD []

/-- What a response writes for a page. -/
def pageWrite (conn : P.Conn) (room : Nat) (page : String) : Write P.Conn :=
  ⟨conn, (Utf8.encode page).take room, .ok ()⟩

/-- Where a step of a job leaves a connection. -/
def next (job : Job P) : Progress → Stage P
  | .more => .streaming job
  | .done => .ending (some job)

/-- **A step of a script** is one of its job. -/
theorem step_script {conn : P.Conn} {job job' : ScriptJob P.audited} {progress : Progress}
    {h' : Host P.audited} (hconn : c.conn = some conn)
    (hstage : c.stage = .streaming (.script job)) (hrunning : h.control.running = true)
    (heq : job.step conn config.outputSize config.scriptStepLimit h = (progress, job', h'))
    (peers : Peers P.Conn) :
    c.step config peers h = (c.goTo (next (.script job') progress), peers, h') := by
  simp only [step, hstage, hrunning, if_true, stream, hconn, heq]
  cases progress <;> rfl

/-- **The pages of a script** that may still be called so many times: each is written, cut to the
room there is, for a call each; and one call more finds that there are no more pages, unless the
calls are used up. -/
theorem pages_life {conn : P.Conn} {k : Nat} {x : P.audited.Script} {steps : UInt32}
    {ps : List String} (hps : pages (results (fun i => (meet i).2) k x n) = ps)
    (hstage : (life config meet c k).stage = .streaming (.script ⟨x, steps⟩))
    (hconn : (life config meet c k).conn = some conn)
    (hn : config.scriptStepLimit.toNat = steps.toNat + n)
    (hrunning : ∀ i, (life config meet c i).phase = .streaming →
      (meet i).2.control.running = true)
    (hwrites : ∀ i, ∀ w ∈ writes config meet c i, w.result = .ok ()) :
    ∃ job : ScriptJob P.audited, job.script.number = x.number ∧
      (life config meet c (k + ps.length + 1)).stage = .ending (some (.script job)) ∧
      writes config meet c (k + ps.length + 1) =
        writes config meet c k ++ ps.map (pageWrite conn config.outputSize) ∧
      asks config meet c (k + ps.length + 1) = asks config meet c k ++
        (List.replicate (min (ps.length + 1) n) [.called x.number, .collected]).flatten := by
  induction n generalizing k x steps ps with
  | zero =>
    obtain rfl : [] = ps := hps
    have hle : config.scriptStepLimit ≤ steps := UInt32.le_iff_toNat_le.mpr (by omega)
    obtain ⟨h', heq, ha⟩ := ScriptJob.step_used conn ⟨x, steps⟩ hle
    have hstep := step_script hconn hstage (hrunning k (by rw [phase, hstage]; rfl)) heq (meet k).1
    obtain ⟨hw, he⟩ := adds_life (by rw [hstep]; exact ha)
    refine ⟨⟨x, steps⟩, rfl, ?_, hw, he⟩
    show ((life config meet c k).step config (meet k).1 (meet k).2).1.stage = _
    rw [hstep]
    rfl
  | succ n ih =>
    have hlt : ¬ config.scriptStepLimit ≤ steps := by
      rw [UInt32.le_iff_toNat_le]
      omega
    have hrun := hrunning k (by rw [phase, hstage]; rfl)
    cases hpage : page? ((meet k).2.call x).1.1 with
    | none =>
      rw [results, pages_cons_of_none hpage] at hps
      subst hps
      obtain ⟨h', heq, ha⟩ := ScriptJob.step_last conn ⟨x, steps⟩ hlt hpage
      have hstep := step_script hconn hstage hrun heq (meet k).1
      obtain ⟨hw, he⟩ := adds_life (by rw [hstep]; exact ha)
      refine ⟨⟨((meet k).2.call x).1.2, steps + 1⟩, rfl, ?_, hw, ?_⟩
      · show ((life config meet c k).step config (meet k).1 (meet k).2).1.stage = _
        rw [hstep]
        rfl
      · rw [List.length_nil, Nat.zero_add, Nat.min_eq_left (Nat.succ_le_succ (Nat.zero_le n))]
        exact he
    | some page =>
      rw [results, pages_cons_of_some hpage] at hps
      subst hps
      obtain ⟨r, h', heq, ha⟩ := ScriptJob.step_page conn ⟨x, steps⟩ hlt hpage
      have hstep := step_script hconn hstage hrun heq (meet k).1
      obtain ⟨hw, he⟩ := adds_life (by rw [hstep]; exact ha)
      obtain rfl : r = .ok () :=
        hwrites (k + 1) _ (by rw [hw]; exact List.mem_append_right _ List.mem_cons_self)
      have hsteps : (steps + 1).toNat = steps.toNat + 1 := by
        have hbound := config.scriptStepLimit.toNat_lt
        rw [UInt32.toNat_add]
        exact Nat.mod_eq_of_lt (by simp; omega)
      have hnext : life config meet c (k + 1) = (life config meet c k).goTo
          (.streaming (.script ⟨((meet k).2.call x).1.2, steps + 1⟩)) := by
        rw [life, hstep]
        rfl
      obtain ⟨job, hnumber, hend, hwritten, hasked⟩ :=
        ih rfl (by rw [hnext]; rfl) (by rw [hnext]; exact hconn) (by omega)
      generalize pages (results (fun i => (meet i).2) (k + 1) ((meet k).2.call x).1.2 n) = ps at *
      have hindex : k + (page :: ps).length + 1 = k + 1 + ps.length + 1 := by
        rw [List.length_cons]
        omega
      rw [hindex]
      refine ⟨job, hnumber, hend, ?_, ?_⟩
      · rw [hwritten, hw, List.append_assoc]
        rfl
      · rw [hasked, he, List.length_cons, Nat.add_min_add_right, List.replicate_succ,
          List.flatten_cons, List.append_assoc]
        rfl

/-- **A script that loads** is served its response: the head is written, then the pages, and nothing
else; and the script is called for each of the pages, and once more unless the calls are used up. -/
theorem served_life {conn : P.Conn} {k : Nat} {path : String} {x : P.audited.Script}
    {ps : List String}
    (hps : pages (results (fun i => (meet i).2) (k + 1) x config.scriptStepLimit.toNat) = ps)
    (hstage : (life config meet c k).stage = .begin (.script path))
    (hconn : (life config meet c k).conn = some conn)
    (hload : (((meet k).2.setQuery (life config meet c k).query).load path).1 = .ok x)
    (hrunning : ∀ i, (life config meet c i).phase = .streaming →
      (meet i).2.control.running = true)
    (hwrites : ∀ i, ∀ w ∈ writes config meet c i, w.result = .ok ()) :
    (life config meet c (k + ps.length + 3)).stage = .closed ∧
      writes config meet c (k + ps.length + 3) = writes config meet c k ++
        ⟨conn, ScriptJob.head path, .ok ()⟩ :: ps.map (pageWrite conn config.outputSize) ∧
      asks config meet c (k + ps.length + 3) = asks config meet c k ++
        ([.published (life config meet c k).query, .loaded path] ++
          (List.replicate (min (ps.length + 1) config.scriptStepLimit.toNat)
            [.called x.number, .collected]).flatten ++ [.released x.number, .collected]) := by
  obtain ⟨r, h', heq, ha⟩ := ScriptJob.begin_ok conn hload
  have hhost : ((life config meet c k).step config (meet k).1 (meet k).2).2.2 = h' := by
    simp only [step, hstage, start, hconn, beginScript]
    rw [query] at heq
    rw [heq]
    cases r <;> rfl
  obtain ⟨hw, he⟩ := adds_life (by rw [hhost]; exact ha)
  obtain rfl : r = .ok () :=
    hwrites (k + 1) _ (by rw [hw]; exact List.mem_append_right _ List.mem_cons_self)
  have hnext : life config meet c (k + 1) =
      (life config meet c k).goTo (.streaming (.script ⟨x, 0⟩)) := by
    rw [life]
    simp only [step, hstage, start, hconn, beginScript]
    rw [query] at heq
    rw [heq]
  obtain ⟨job, hnumber, hend, hwritten, hasked⟩ :=
    pages_life hps (by rw [hnext]; rfl) (by rw [hnext]; exact hconn) (by simp) hrunning hwrites
  have hlast : (life config meet c (k + 1 + ps.length + 1)).step config
      (meet (k + 1 + ps.length + 1)).1 (meet (k + 1 + ps.length + 1)).2 =
      ({ life config meet c (k + 1 + ps.length + 1) with request := none, stage := .closed },
        (meet (k + 1 + ps.length + 1)).1, job.finish (meet (k + 1 + ps.length + 1)).2) := by
    rw [step, hend]
    rfl
  obtain ⟨hw', he'⟩ := adds_life (by rw [hlast]; exact job.adds_finish _)
  have hindex : k + ps.length + 3 = k + 1 + ps.length + 1 + 1 := by omega
  rw [hindex]
  refine ⟨?_, ?_, ?_⟩
  · rw [life, hlast]
  · rw [hw', hwritten, hw]
    simp
  · rw [he', hasked, he, hnumber]
    simp

/-- **A script that does not load** has nothing written for it. -/
theorem refused_life {k : Nat} {path : String} {e : ScriptError}
    (hstage : (life config meet c k).stage = .begin (.script path))
    (hload : (((meet k).2.setQuery (life config meet c k).query).load path).1 = .error e)
    (hle : k ≤ n) : writes config meet c n = writes config meet c k := by
  refine writes_of_quiet ?_ hle
  simp only [step, hstage, start]
  split
  · exact ⟨trivial, [], .refl _⟩
  · next conn _ =>
    obtain ⟨begun, h', es, heq, hbegun, ha⟩ := ScriptJob.begin_error (P := P) conn hload
    rw [query] at heq
    simp only [beginScript, heq]
    obtain rfl | rfl := hbegun
    · exact ⟨trivial, es, ha.note _⟩
    · exact ⟨trivial, es, ha⟩

/-- **After a call that fails** nothing more is written. -/
theorem failed_life {k : Nat} {job : ScriptJob P.audited} {e : ScriptError}
    (hstage : (life config meet c k).stage = .streaming (.script job))
    (hcall : ((meet k).2.call job.script).1.1 = .error e) (hle : k ≤ n) :
    writes config meet c n = writes config meet c k := by
  refine writes_of_quiet ?_ hle
  cases hrunning : (meet k).2.control.running with
  | false =>
    simp only [step, hstage, hrunning]
    exact ⟨trivial, [], (Host.Adds.refl _).note _⟩
  | true =>
    cases hconn : (life config meet c k).conn with
    | none =>
      simp only [step, hstage, hrunning, stream, hconn]
      exact ⟨trivial, [], .refl _⟩
    | some conn =>
      by_cases hlimit : config.scriptStepLimit ≤ job.steps
      · obtain ⟨h', heq, ha⟩ := ScriptJob.step_used (P := P) conn job hlimit
        rw [step_script hconn hstage hrunning heq]
        exact ⟨trivial, [], ha⟩
      · obtain ⟨h', heq, ha⟩ := ScriptJob.step_last (P := P) conn job hlimit (by rw [hcall]; rfl)
        rw [step_script hconn hstage hrunning heq]
        exact ⟨trivial, _, ha⟩

/-- **The response from a script.** A connection is about to start its response from a script,
whatever it met before. If the script does not load, nothing more is written, and no write of the
connection ever succeeds. If it loads, the server runs on and the writes of the connection succeed,
then the connection is closed after as many steps as there are pages and three, and all that it ever
writes is the head without a length, and then the pages that the calls of the script return up to
the first that returns none, as many as there may be calls at most, each cut to the room there is.
All that it ever asks of the interpreter is to load the script, to call it once for each page, and
once more unless the calls are used up, and to release it; after each call, and in the end, to
collect. In any case nothing more is written after a call that fails. -/
theorem script_served {conn : P.Conn} {k : Nat} {path : String}
    (hstage : (life config meet (fresh (P := P.audited) conn) k).stage = .begin (.script path)) :
    let c : Client P.audited := fresh conn
    let loaded := (((meet k).2.setQuery (life config meet c k).query).load path).1
    (∀ e, loaded = .error e → ∀ n, (∀ w ∈ writes config meet c n, w.result ≠ .ok ()) ∧
      (k ≤ n → writes config meet c n = writes config meet c k)) ∧
    (∀ x, loaded = .ok x →
      (∀ i, (life config meet c i).phase = .streaming → (meet i).2.control.running = true) →
      (∀ i, ∀ w ∈ writes config meet c i, w.result = .ok ()) →
      let ps := pages (results (fun i => (meet i).2) (k + 1) x config.scriptStepLimit.toNat)
      let calls := min (ps.length + 1) config.scriptStepLimit.toNat
      (life config meet c (k + ps.length + 3)).phase = .closed ∧ ∀ n, k + ps.length + 3 ≤ n →
        writes config meet c n =
          ⟨conn, Reply.contentHead (Content.typeOf (Content.suffix? path)) none, .ok ()⟩ ::
            ps.map (fun page => ⟨conn, (Utf8.encode page).take config.outputSize, .ok ()⟩) ∧
        asks config meet c n = [.published (life config meet c k).query, .loaded path] ++
          (List.replicate calls [.called x.number, .collected]).flatten ++
            [.released x.number, .collected]) ∧
    ∀ i job e, (life config meet c i).stage = .streaming (.script job) →
      ((meet i).2.call job.script).1.1 = .error e →
        ∀ n, i ≤ n → writes config meet c n = writes config meet c i := by
  intro c loaded
  obtain ⟨hconn, hfailed, hasks⟩ := unstarted_life conn k (by rw [hstage]; trivial)
  refine ⟨fun e hload n => ⟨?_, refused_life hstage hload⟩, fun x hload hrunning hwrites => ?_,
    fun i job e hstreams hcall n hle => failed_life hstreams hcall hle⟩
  · exact forall_writes (fun m hle => refused_life hstage hload hle) hfailed n
  · intro ps calls
    have hnone : writes config meet c k = [] := by
      refine List.eq_nil_iff_forall_not_mem.mpr fun w hw => ?_
      exact hfailed w hw (hwrites k w hw)
    obtain ⟨hclosed, hwritten, hasked⟩ := served_life rfl hstage hconn hload hrunning hwrites
    refine ⟨by rw [phase, hclosed]; rfl, fun n hle => ⟨?_, ?_⟩⟩
    · rw [(writes_of_over (by rw [hclosed]; trivial) hle).2, hwritten, hnone]
      rfl
    · rw [(asks_of_closed hclosed hle).2, hasked, hasks]
      rfl

end Client

/-! ### Three scripts -/

namespace Pages

open Bench Client

/-- Four bytes of a page are written at most, and a script is called three times at most. -/
def config : Config := { Config.default with outputSize := 4, scriptStepLimit := 3 }

def conn : Handle := ⟨0, clientAddress 1⟩

/-- A client has asked for a script that behaves so. -/
def host (b : Behavior) : Host shelf.audited where
  network := .start (ask 0 "/q.lua" (Wires.empty.connect (clientAddress 1)))
  volume := ⟨Flash.empty, .none, 0⟩
  interpreter := .start (Scripts.empty.withScript "/html/q.lua" b)
  board := .fresh 4
  control := .start config.timeouts
  uptime := 0
  log := []

abbrev client : Client shelf.audited := .fresh (P := shelf.audited) conn

/-- The connection and the host after so many steps. -/
def after (b : Behavior) : Nat → Client shelf.audited × Host shelf.audited
  | 0 => (client, host b)
  | n + 1 =>
    let r := (after b n).1.step config (.empty 1) (after b n).2
    (r.1, r.2.2)

/-- The connection meets the host as its last step has left it. Only the kernel is to compute what
that is. -/
@[irreducible] def meet (b : Behavior) (n : Nat) : Peers Handle × Host shelf.audited :=
  (.empty 1, (after b n).2)

theorem running_meet (b : Behavior) (n : Nat) : (meet b n).2.control.running = true := by
  unfold meet
  induction n with
  | zero => rfl
  | succ n ih =>
    have hr : (Scope.all shelf.audited).Reaches (after b n).2 (after b (n + 1)).2 :=
      (Scope.Reaches.refl _ _).step (fun _ _ => .of_writes trivial trivial fun _ => trivial)
        (fun _ _ => trivial) (Scope.serves_online config) (after b n).1.aimsAt_online
    exact (congrArg Control.running hr.control).trans ih

/-- The target that a response is about to be started from. -/
def target? : Stage P → Option Target
  | .begin target => some target
  | _ => none

theorem begin_of_target? {stage : Stage P} {target : Target} (h : target? stage = some target) :
    stage = .begin target := by
  cases stage with
  | «begin» => exact congrArg Stage.begin (Option.some.inj h)
  | _ => cases h

/-- The script that is to be called next. -/
def script? : Stage P → Option (ScriptJob P)
  | .streaming (.script job) => some job
  | _ => none

theorem streaming_of_script? {stage : Stage P} {job : ScriptJob P} (h : script? stage = some job) :
    stage = .streaming (.script job) := by
  rcases stage with _ | _ | (_ | job') | _ | _
  · cases h
  · cases h
  · cases h
  · exact congrArg (fun job => Stage.streaming (.script job)) (Option.some.inj h)
  · cases h
  · cases h

def paged : Behavior := .pages ["one", "three"]

def unloadable : Behavior := .loadError .outOfMemory

def failing : Behavior := .callError (.runtime "attempt to call a nil value")

theorem begins : ∀ b ∈ [paged, unloadable, failing],
    (life config (meet b) client 1).stage = .begin (.script "/html/q.lua") := by
  have h : ∀ b ∈ [paged, unloadable, failing],
      target? (life config (meet b) client 1).stage = some (.script "/html/q.lua") := by
    decide +kernel
  exact fun b hb => begin_of_target? (h b hb)

theorem writes_paged (n : Nat) : ∀ w ∈ writes config (meet paged) client n, w.result = .ok () := by
  have hclosed : (life config (meet paged) client 6).phase = .closed := by decide +kernel
  have hsix : ∀ w ∈ writes config (meet paged) client 6, w.result = .ok () := by decide +kernel
  exact forall_writes (fun m hle => (writes_of_over (Stage.over_of_closed hclosed) hle).2) hsix n

/-- What the interpreter says when the script is to be loaded. -/
def loaded (b : Behavior) : Except ScriptError shelf.audited.Script :=
  (((meet b 1).2.setQuery (life config (meet b) client 1).query).load "/html/q.lua").1

theorem exists_loaded : ∃ x, loaded paged = .ok x ∧ x.number = 0 ∧
    pages (results (fun i => (meet paged i).2) 2 x 3) = ["one", "three"] := by
  have h : (loaded paged).map (fun x =>
      (x.number, pages (results (fun i => (meet paged i).2) 2 x 3))) =
        .ok (0, ["one", "three"]) := by decide +kernel
  generalize loaded paged = r at h ⊢
  cases r with
  | error e => cases h
  | ok x =>
    obtain ⟨hnumber, hpages⟩ := Prod.mk.inj (Except.ok.inj h)
    exact ⟨x, rfl, hnumber, hpages⟩

theorem loaded_unloadable : loaded unloadable = .error .outOfMemory := by
  have h : (loaded unloadable).map (fun x => x.number) = .error .outOfMemory := by decide +kernel
  generalize loaded unloadable = r at h ⊢
  cases r with
  | error e => exact congrArg Except.error (Except.error.inj h)
  | ok x => cases h

theorem exists_failing : ∃ job : ScriptJob shelf.audited,
    (life config (meet failing) client 2).stage = .streaming (.script job) ∧
      ((meet failing 2).2.call job.script).1.1 =
        .error (.runtime "attempt to call a nil value") := by
  have h : (script? (life config (meet failing) client 2).stage).map
      (fun job => ((meet failing 2).2.call job.script).1.1) =
        some (.error (.runtime "attempt to call a nil value")) := by decide +kernel
  obtain ⟨job, hjob, hcall⟩ := Option.map_eq_some_iff.mp h
  exact ⟨job, streaming_of_script? hjob, hcall⟩

theorem script_served_each :
    (∀ n, 6 ≤ n →
      writes config (meet paged) client n =
        [⟨conn, Reply.contentHead (Content.typeOf (some "lua")) none, .ok ()⟩,
          ⟨conn, Utf8.encode "one", .ok ()⟩, ⟨conn, Utf8.encode "thre", .ok ()⟩] ∧
      asks config (meet paged) client n =
        [.published [], .loaded "/html/q.lua", .called 0, .collected, .called 0, .collected,
          .called 0, .collected, .released 0, .collected]) ∧
    (∀ n, (∀ w ∈ writes config (meet unloadable) client n, w.result ≠ .ok ()) ∧
      (1 ≤ n → writes config (meet unloadable) client n =
        writes config (meet unloadable) client 1)) ∧
    ∀ n, 2 ≤ n → writes config (meet failing) client n = writes config (meet failing) client 2 := by
  refine ⟨fun n hle => ?_, ?_, ?_⟩
  · obtain ⟨x, hload, hnumber, hpages⟩ := exists_loaded
    have hserved := ((script_served (begins paged (by simp))).2.1 x hload
      (fun i _ => running_meet paged i) writes_paged).2 n
    have hlimit : config.scriptStepLimit.toNat = 3 := rfl
    have hsize : config.outputSize = 4 := rfl
    have hquery : (life config (meet paged) client 1).query = [] := by decide +kernel
    have hsuffix : Content.suffix? "/html/q.lua" = some "lua" := by decide +kernel
    have hone : (Utf8.encode "one").take 4 = Utf8.encode "one" := by decide +kernel
    have hthree : (Utf8.encode "three").take 4 = Utf8.encode "thre" := by decide +kernel
    rw [hlimit, hpages] at hserved
    obtain ⟨hwrites, hasks⟩ := hserved hle
    refine ⟨hwrites.trans ?_, hasks.trans ?_⟩
    · rw [hsuffix, List.map_cons, List.map_cons, List.map_nil, hsize, hone, hthree]
    · rw [hquery, hnumber]
      rfl
  · exact (script_served (begins unloadable (by simp))).1 _ loaded_unloadable
  · obtain ⟨job, hstreams, hcall⟩ := exists_failing
    exact (script_served (begins failing (by simp))).2.2 2 job _ hstreams hcall

end Pages

end Microweb
