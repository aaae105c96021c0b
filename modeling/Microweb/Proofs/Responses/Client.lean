import Microweb.Proofs.Responses
import Microweb.Proofs.Stock

/-!
What a connection in a slot has written so far. Its stage says how much of which response it is; no
step writes anything but what comes next in that response.
-/

namespace Microweb

open Bench
open Relation (ReflTransGen)

variable {I : Interpreter} {B : Peripherals} {content? : String → Option Bytes} {room : Nat}
  {around : I.State → I.State → Prop} {origin : I.State} {returns : String → List String → Prop}

/-! ### Jobs -/

/-- What the start of a response has written: that of a job if one is to stream, else nothing. -/
inductive BegunTold {J : Type} (told : J → List Bytes → I.State → Prop) (conn : Handle) :
    Begun J × Host (.onFlash I B) → Prop
  | streaming {job : J} {h : Host (.onFlash I B)}
    (ht : told job (h.network.sent conn.number) h.interpreter) :
    BegunTold told conn (.streaming job, h)
  | nothing {r : Begun J} {h : Host (.onFlash I B)} (hne : ∀ job, r ≠ .streaming job)
    (hsent : h.network.sent conn.number = []) : BegunTold told conn (r, h)

namespace FileJob

/-- The head of a file, and the file up to the position of the job. -/
def Told (content? : String → Option Bytes) (job : FileJob (.onFlash I B)) (sent : List Bytes) :
    Prop :=
  ∃ content size pieces, content? job.file.inner.path = some content ∧
    sent = Reply.contentHead (Content.typeOf (Content.suffix? job.file.inner.path)) (some size) ::
      pieces ∧
    pieces.flatten = content.take job.file.inner.position

variable {job : FileJob (.onFlash I B)} {sent : List Bytes} {conn : Handle}
  {h : Host (.onFlash I B)}

theorem Told.written (ht : job.Told content? sent) : Written content? returns room .file sent := by
  obtain ⟨content, size, pieces, hcontent, rfl, hpieces⟩ := ht
  refine .file size hcontent ?_
  rw [hpieces]
  exact List.take_prefix _ _

theorem told_begin (hcontent : h.volume.inner.content? = content?)
    (hsent : h.network.sent conn.number = []) (path : String) (chunk : Nat) :
    BegunTold (fun job sent _ => job.Told content? sent) conn (begin conn path chunk h) := by
  unfold begin
  split
  · next h₁ heq =>
    obtain ⟨-, rfl⟩ := Prod.ext_iff.mp heq
    exact .nothing (by nofun) hsent
  · next e h₁ _ heq =>
    obtain ⟨-, rfl⟩ := Prod.ext_iff.mp heq
    exact .nothing (by nofun) hsent
  · next f h₁ heq =>
    obtain ⟨hf, content, hc⟩ := Host.openFile_ok heq
    have hsent₁ : h₁.network.sent conn.number = [] := by
      obtain ⟨-, rfl⟩ := Prod.ext_iff.mp heq
      exact hsent
    split
    · next e h₂ heq₂ =>
      obtain ⟨-, rfl⟩ := Prod.ext_iff.mp heq₂
      exact .nothing (by nofun) hsent₁
    · next size h₂ heq₂ =>
      have hsent₂ : h₂.network.sent conn.number = [] := by
        obtain ⟨-, rfl⟩ := Prod.ext_iff.mp heq₂
        exact hsent₁
      simp only
      split
      · next h₃ heq₃ =>
        refine .streaming ⟨content, size, [], ?_, ?_, ?_⟩
        · rw [← hcontent, hf]
          exact hc
        · rw [Host.sent_write_ok heq₃, hsent₂, hf]
          rfl
        · rw [hf]
          rfl
      · next e h₃ heq₃ =>
        obtain rfl := Host.write_error heq₃
        exact .nothing (by nofun) hsent₂

/-- **One piece of a file** is what comes next in it, or nothing is written. -/
theorem told_step (hcontent : h.volume.inner.content? = content?)
    (ht : job.Told content? (h.network.sent conn.number)) :
    Written content? returns room .file ((job.step conn h).2.2.network.sent conn.number) ∧
      ((job.step conn h).1 = .more →
        (job.step conn h).2.1.Told content? ((job.step conn h).2.2.network.sent conn.number)) := by
  have hsame : ∀ h' : Host (.onFlash I B), h'.network = h.network →
      Written content? returns room .file (h'.network.sent conn.number) := by
    intro h' hn
    rw [hn]
    exact ht.written
  unfold step
  split
  · exact ⟨ht.written, fun hmore => by cases hmore⟩
  · split
    · next e f h₁ heq =>
      obtain ⟨-, rfl⟩ := Prod.ext_iff.mp heq
      exact ⟨hsame _ rfl, fun hmore => by cases hmore⟩
    · next f h₁ heq =>
      obtain ⟨-, rfl⟩ := Prod.ext_iff.mp heq
      exact ⟨hsame _ rfl, fun hmore => by cases hmore⟩
    · next bs f h₁ _ heq =>
      have hn₁ : h₁.network = h.network := by
        obtain ⟨-, rfl⟩ := Prod.ext_iff.mp heq
        rfl
      obtain ⟨content, n, hc, hbs, hf⟩ := Host.readFile_ok heq
      split
      · next e h₂ heq₂ =>
        obtain rfl := Host.write_error heq₂
        exact ⟨hsame _ hn₁, fun hmore => by cases hmore⟩
      · next h₂ heq₂ =>
        obtain ⟨content', size, pieces, hc', hsent, hpieces⟩ := ht
        rw [← hcontent, hc] at hc'
        cases hc'
        have htold : FileJob.Told content? { job with file := f, sent := job.sent + bs.length }
            (h₂.network.sent conn.number) := by
          refine ⟨content, size, pieces ++ [bs], ?_, ?_, ?_⟩
          · rw [← hcontent, hf]
            exact hc
          · rw [Host.sent_write_ok heq₂, hn₁, hsent, hf]
            rfl
          · rw [hf]
            exact flatten_next hpieces hbs
        exact ⟨htold.written, fun _ => htold⟩

end FileJob

namespace ScriptJob

/-- The head of a script's response, and the pages that the script has returned so far. -/
def Told (around : I.State → I.State → Prop) (origin : I.State) (room : Nat)
    (job : ScriptJob (.onFlash I B)) (sent : List Bytes) (now : I.State) : Prop :=
  ∃ path pages, I.Returned around origin path pages job.script now ∧
    sent = Reply.contentHead (Content.typeOf (Content.suffix? path)) none ::
      pages.map fun page => (Utf8.encode page).take room

variable {job : ScriptJob (.onFlash I B)} {sent : List Bytes} {now now' : I.State} {conn : Handle}
  {path : String} {query : Query} {stepLimit : UInt32} {h h' : Host (.onFlash I B)}

theorem Told.written (ht : job.Told around origin room sent now) :
    Written content? (I.Returns around origin now) room .script sent := by
  obtain ⟨path, pages, hpages, rfl⟩ := ht
  exact .script ⟨job.script, hpages⟩

theorem Told.since (ht : job.Told around origin room sent now)
    (hs : ReflTransGen (I.Changes around) now now') : job.Told around origin room sent now' := by
  obtain ⟨path, pages, hpages, hsent⟩ := ht
  exact ⟨path, pages, hpages.since hs, hsent⟩

theorem network_load {r : Except ScriptError (Platform.onFlash I B).Script}
    (heq : (h.setQuery query).load path = (r, h')) : h'.network = h.network := by
  obtain ⟨-, rfl⟩ := Prod.ext_iff.mp heq
  simp only [Host.load]
  split <;> rfl

theorem told_begin (horigin : ReflTransGen (I.Changes around) origin h.interpreter)
    (hsent : h.network.sent conn.number = []) (room : Nat) (path : String) (query : Query) :
    BegunTold (ScriptJob.Told around origin room) conn (begin conn path query h) := by
  unfold begin
  split
  · next h₁ heq =>
    refine .nothing (by nofun) ?_
    rw [← hsent, ← network_load heq]
    rfl
  · next e h₁ _ heq =>
    refine .nothing (by nofun) ?_
    rw [← hsent, ← network_load heq]
    rfl
  · next x h₁ heq =>
    have hsent₁ : h₁.network.sent conn.number = [] := by rw [network_load heq, hsent]
    have hloaded : I.Returned around origin path [] x h₁.interpreter :=
      .load horigin query (Host.load_interpreter heq)
    simp only
    split
    · next h₂ heq₂ =>
      have hsent₂ := Host.sent_write_ok heq₂
      obtain ⟨-, rfl⟩ := Prod.ext_iff.mp heq₂
      refine .streaming ⟨path, [], hloaded, ?_⟩
      rw [hsent₂, hsent₁]
      rfl
    · next e h₂ heq₂ =>
      obtain rfl := Host.write_error heq₂
      exact .nothing (by nofun) hsent₁

/-- **One call of a script** writes the page it returns, or nothing. -/
theorem told_step (ht : job.Told around origin room (h.network.sent conn.number) h.interpreter) :
    Written content? (I.Returns around origin (job.step conn room stepLimit h).2.2.interpreter) room
        .script ((job.step conn room stepLimit h).2.2.network.sent conn.number) ∧
      ((job.step conn room stepLimit h).1 = .more → (job.step conn room stepLimit h).2.1.Told
        around origin room ((job.step conn room stepLimit h).2.2.network.sent conn.number)
          (job.step conn room stepLimit h).2.2.interpreter) := by
  -- where nothing is written, what was written before stays
  have hquiet : ∀ h' : Host (.onFlash I B), h'.network = h.network →
      ReflTransGen (I.Changes around) h.interpreter h'.interpreter →
      Written content? (I.Returns around origin h'.interpreter) room .script
        (h'.network.sent conn.number) := by
    intro h' hn hs
    rw [hn]
    exact (ht.since hs).written
  have hcalled : ReflTransGen (I.Changes around) h.interpreter
      (h.call job.script).2.collect.interpreter :=
    (ReflTransGen.single (.asked (.call job.script trivial))).tail (.asked .collect)
  unfold step
  split
  · exact ⟨ht.written, fun hmore => by cases hmore⟩
  · simp only
    split
    · exact ⟨hquiet _ rfl hcalled, fun hmore => by cases hmore⟩
    · exact ⟨hquiet _ rfl hcalled, fun hmore => by cases hmore⟩
    · next page hpage =>
      split
      · exact ⟨hquiet _ rfl hcalled, fun hmore => by cases hmore⟩
      · obtain ⟨hbs, hn, -, hi⟩ :=
          cut_frame (Utf8.encode page) room (h.call job.script).2.collect
        split
        · next h₂ heq₂ =>
          obtain ⟨path, pages, hpages, hsent⟩ := ht
          have hpages' : I.Returned around origin path (pages ++ [page]) (h.call job.script).1.2
              h₂.interpreter := by
            obtain ⟨-, rfl⟩ := Prod.ext_iff.mp heq₂
            exact hi ▸ (hpages.call (Prod.ext (Prod.ext hpage rfl) rfl)).meanwhile (.asked .collect)
          have htold : ScriptJob.Told around origin room
              { job with script := (h.call job.script).1.2, steps := job.steps + 1 }
              (h₂.network.sent conn.number) h₂.interpreter := by
            refine ⟨path, pages ++ [page], hpages', ?_⟩
            rw [Host.sent_write_ok heq₂, hn, hbs, List.map_append, ← List.cons_append, ← hsent]
            rfl
          exact ⟨htold.written, fun _ => htold⟩
        · next e h₂ heq₂ =>
          obtain rfl := Host.write_error heq₂
          exact ⟨hquiet _ hn (hi ▸ hcalled), fun hmore => by cases hmore⟩

end ScriptJob

/-! ### Steps -/

/-- What a connection at a stage has written: nothing until its response starts, and then as much of
the response as its job stands for. -/
def Stage.Told (content? : String → Option Bytes) (around : I.State → I.State → Prop)
    (origin : I.State) (room : Nat) : Stage (.onFlash I B) → List Bytes → I.State → Prop
  | .request, sent, _ => sent = []
  | .begin _, sent, _ => sent = []
  | .streaming (.file job), sent, _ => job.Told content? sent
  | .streaming (.script job), sent, now => job.Told around origin room sent now
  | .ending _, _, _ => True
  | .closed, _, _ => True

theorem Stage.Told.since {stage : Stage (.onFlash I B)} {sent : List Bytes} {now now' : I.State}
    (ht : stage.Told content? around origin room sent now)
    (hs : ReflTransGen (I.Changes around) now now') :
    stage.Told content? around origin room sent now' := by
  cases stage with
  | streaming job =>
    cases job with
    | file job => exact ht
    | script job => exact ScriptJob.Told.since ht hs
  | _ => exact ht

namespace Client

/-- What a connection has written, as far as its stage tells, and what it leaves to the pool. -/
structure Told (content? : String → Option Bytes) (around : I.State → I.State → Prop)
    (origin : I.State) (room : Nat) (conn : Handle) (c : Client (.onFlash I B))
    (h : Host (.onFlash I B)) : Prop where
  written : ∃ form, Written content? (I.Returns around origin h.interpreter) room form
    (h.network.sent conn.number)
  stage : c.stage.Told content? around origin room (h.network.sent conn.number) h.interpreter
  left : c.conn = none → Written content? (I.Returns around origin h.interpreter) room .socket
    (h.network.sent conn.number)

variable {c : Client (.onFlash I B)} {conn : Handle} {config : Config} {peers : Peers Handle}
  {h h' : Host (.onFlash I B)}

/-- A connection that has written nothing yet, at an early stage or past its response. -/
theorem told_of_nil (hconn : c.conn = some conn)
    (hstage : c.stage.Told content? around origin room [] h.interpreter)
    (hsent : h.network.sent conn.number = []) : c.Told content? around origin room conn h := by
  refine ⟨⟨.nothing, ?_⟩, ?_, fun hnone => ?_⟩
  · rw [hsent]
    exact .nothing
  · rwa [hsent]
  · cases hconn.symm.trans hnone

theorem told_replyNotFound (hconn : c.conn = some conn) (hsent : h.network.sent conn.number = [])
    (url : String) :
    (c.replyNotFound url h).1.Told content? around origin room conn (c.replyNotFound url h).2 := by
  unfold replyNotFound
  rw [hconn]
  simp only
  split
  · next h₁ heq =>
    refine ⟨⟨.page, ?_⟩, trivial, fun hnone => ?_⟩
    · rw [Host.sent_write_ok heq, hsent]
      exact .page url h.uptime h.freeHeap
    · cases hconn.symm.trans hnone
  · next e h₁ heq =>
    obtain rfl := Host.write_error heq
    exact told_of_nil hconn trivial hsent

theorem told_serve (hconn : c.conn = some conn) (hsent : h.network.sent conn.number = [])
    (r : Request) :
    (c.serve config r h).1.Told content? around origin room conn (c.serve config r h).2 := by
  have hroute : (Route.find config r.uri h).2.network.sent conn.number = [] := by
    have hr := (Scope.Reaches.refl (.offline _) h).route config.leadsTo_true r.uri
    rw [hr.network_eq, hsent]
  simp only [serve]
  split
  · next path h₁ heq =>
    rw [heq] at hroute
    exact told_of_nil hconn rfl hroute
  · next path h₁ heq =>
    rw [heq] at hroute
    exact told_of_nil hconn rfl hroute
  · next h₁ heq =>
    rw [heq] at hroute
    exact told_replyNotFound (c := { c with request := some r }) hconn hroute r.uri

/-- What a handshake has written: its answer if the connection is a peer now, and else nothing. -/
inductive HandshakeTold (room : Nat) (conn : Handle) :
    Handshake × Peers Handle × Host (.onFlash I B) → Prop
  | upgraded {ps : Peers Handle} {h : Host (.onFlash I B)}
    (hwritten : ∀ content? returns,
      Written content? returns room .socket (h.network.sent conn.number)) :
    HandshakeTold room conn (.upgraded, ps, h)
  | refused {r : Handshake} {ps : Peers Handle} {h : Host (.onFlash I B)} (hne : r ≠ .upgraded)
    (hsent : h.network.sent conn.number = []) : HandshakeTold room conn (r, ps, h)

theorem told_handshake (hsent : h.network.sent conn.number = []) (r : Request) :
    HandshakeTold room conn (Handshake.run conn r peers h) := by
  unfold Handshake.run
  split
  · exact .refused (by nofun) hsent
  · split
    · exact .refused (by nofun) hsent
    · next key _ =>
      split
      · next e h₁ heq =>
        obtain rfl := Host.write_error heq
        exact .refused (by nofun) hsent
      · next h₁ heq =>
        -- The peers that make room are closed; nothing is written to them, nor to anyone.
        let silent : Scope (.onFlash I B) :=
          .online (fun _ => True) (fun _ _ => False) fun _ => True
        have hjoin : silent.Reaches h₁ (Handshake.join conn r.uri peers h₁).2 :=
          (Scope.Reaches.refl silent h₁).join trivial (fun _ _ => trivial) r.uri
        refine .upgraded fun content? returns => ?_
        show Written content? returns room .socket
          ((Handshake.join conn r.uri peers h₁).2.network.sent conn.number)
        rw [hjoin.sent_eq fun _ _ hw => hw.elim, Host.sent_write_ok heq, hsent]
        exact .socket _ (by nofun)

theorem told_dispatch (hconn : c.conn = some conn) (hsent : h.network.sent conn.number = [])
    (r : Request) : (c.dispatch conn config r peers h).1.Told content? around origin room conn
      (c.dispatch conn config r peers h).2.2 := by
  have hh : HandshakeTold room conn
      (Handshake.run conn r peers (h.note (.request c.address r.uri))) :=
    told_handshake (h := h.note (.request c.address r.uri)) hsent r
  simp only [dispatch]
  split
  · split
    · next ps h₁ heq =>
      rw [heq] at hh
      cases hh with
      | upgraded hsocket => exact ⟨⟨.socket, hsocket _ _⟩, trivial, fun _ => hsocket _ _⟩
      | refused hne => exact absurd rfl hne
    · next ps h₁ heq =>
      rw [heq] at hh
      cases hh with
      | refused _ hnil => exact told_serve hconn (h := h₁.note (.alreadyPeer c.address)) hnil r
    · next e ps h₁ heq =>
      rw [heq] at hh
      cases hh with
      | refused _ hnil => exact told_serve hconn (h := h₁.note (.upgradeFailed c.address e)) hnil r
  · exact told_serve hconn (h := h.note (.request c.address r.uri)) hsent r

theorem told_wait (hconn : c.conn = some conn) (hsent : h.network.sent conn.number = []) :
    (c.wait config h).1.Told content? around origin room conn (c.wait config h).2 := by
  simp only [wait]
  split
  · exact told_of_nil hconn trivial hsent
  · exact told_of_nil hconn rfl hsent

theorem told_receive (hconn : c.conn = some conn) (hsent : h.network.sent conn.number = []) :
    (c.receive config peers h).1.Told content? around origin room conn
      (c.receive config peers h).2.2 := by
  have hheard : ∀ r h₁, h.receive conn config.requestRoom = (r, h₁) →
      h₁.network.sent conn.number = [] := by
    intro r h₁ heq
    rw [Host.sent_receive heq, hsent]
  unfold receive
  split
  · next hnone =>
    rw [hconn] at hnone
    cases hnone
  · next conn' hsome =>
    cases hconn.symm.trans hsome
    split
    · next e h₁ heq =>
      split
      · have hsent₁ := hheard _ _ heq
        exact told_of_nil hconn trivial (h := h₁.note _) hsent₁
      · exact told_wait hconn (hheard _ _ heq)
    · next head h₁ heq =>
      have hsent₁ := hheard _ _ heq
      split
      · next e _ => exact told_replyNotFound hconn (h := h₁.note (.badRequest c.address e)) hsent₁ _
      · next r _ => exact told_dispatch hconn hsent₁ r

theorem told_beginFile (hconn : c.conn = some conn)
    (hcontent : h.volume.inner.content? = content?) (hsent : h.network.sent conn.number = [])
    (path : String) : (c.beginFile conn config path h).1.Told content? around origin room conn
      (c.beginFile conn config path h).2 := by
  have hb := FileJob.told_begin hcontent hsent path config.chunkSize
  unfold beginFile
  split
  · next job h₁ heq =>
    rw [heq] at hb
    cases hb with
    | streaming ht =>
      refine ⟨⟨.file, ht.written⟩, ht, fun hnone => ?_⟩
      cases hconn.symm.trans hnone
    | nothing hne => exact absurd rfl (hne job)
  · next job h₁ heq =>
    rw [heq] at hb
    cases hb with
    | nothing _ hnil => exact told_of_nil hconn trivial hnil
  · next h₁ heq =>
    rw [heq] at hb
    cases hb with
    | nothing _ hnil => exact told_replyNotFound hconn hnil _
  · next h₁ heq =>
    rw [heq] at hb
    cases hb with
    | nothing _ hnil => exact told_of_nil hconn trivial hnil

theorem told_beginScript (hconn : c.conn = some conn)
    (horigin : ReflTransGen (I.Changes around) origin h.interpreter)
    (hsent : h.network.sent conn.number = []) (path : String) :
    (c.beginScript conn path h).1.Told content? around origin room conn
      (c.beginScript conn path h).2 := by
  have hb := ScriptJob.told_begin horigin hsent room path ((c.request.map Request.query).getD [])
  unfold beginScript
  split
  · next job h₁ heq =>
    rw [heq] at hb
    cases hb with
    | streaming ht =>
      refine ⟨⟨.script, ht.written⟩, ht, fun hnone => ?_⟩
      cases hconn.symm.trans hnone
    | nothing hne => exact absurd rfl (hne job)
  · next job h₁ heq =>
    rw [heq] at hb
    cases hb with
    | nothing _ hnil => exact told_of_nil hconn trivial hnil
  · next h₁ heq =>
    rw [heq] at hb
    cases hb with
    | nothing _ hnil => exact told_of_nil hconn trivial hnil
  · next h₁ heq =>
    rw [heq] at hb
    cases hb with
    | nothing _ hnil => exact told_of_nil hconn trivial (h := h₁.note (.noResponse c.address)) hnil

theorem told_start (hconn : c.conn = some conn) (hcontent : h.volume.inner.content? = content?)
    (horigin : ReflTransGen (I.Changes around) origin h.interpreter)
    (hsent : h.network.sent conn.number = []) (target : Target) :
    (c.start config target h).1.Told content? around origin room conn
      (c.start config target h).2 := by
  unfold start
  rw [hconn]
  cases target with
  | file path => exact told_beginFile hconn hcontent hsent path
  | script path => exact told_beginScript hconn horigin hsent path

theorem told_stream (hconn : c.conn = some conn) (hcontent : h.volume.inner.content? = content?)
    {job : Job (.onFlash I B)}
    (ht : (Stage.streaming job).Told content? around origin config.outputSize
      (h.network.sent conn.number) h.interpreter) :
    (c.stream config job h).1.Told content? around origin config.outputSize conn
      (c.stream config job h).2 := by
  have hopen : ∀ stage, (c.goTo stage).conn = none → False := by
    intro stage hnone
    cases hconn.symm.trans hnone
  unfold stream
  rw [hconn]
  cases job with
  | file job =>
    obtain ⟨hwritten, hmore⟩ := FileJob.told_step (I := I) hcontent ht
    simp only
    split
    · next heq => exact ⟨⟨.file, hwritten⟩, hmore heq, fun hnone => (hopen _ hnone).elim⟩
    · exact ⟨⟨.file, hwritten⟩, trivial, fun hnone => (hopen _ hnone).elim⟩
  | script job =>
    obtain ⟨hwritten, hmore⟩ := ScriptJob.told_step ht
    simp only
    split
    · next heq => exact ⟨⟨.script, hwritten⟩, hmore heq, fun hnone => (hopen _ hnone).elim⟩
    · exact ⟨⟨.script, hwritten⟩, trivial, fun hnone => (hopen _ hnone).elim⟩

/-- **One step of a connection** writes what comes next in its response, or nothing. -/
theorem told_step (hconn : c.conn = some conn) (hcontent : h.volume.inner.content? = content?)
    (horigin : ReflTransGen (I.Changes around) origin h.interpreter)
    (hwritten : ∃ form, Written content? (I.Returns around origin h.interpreter) config.outputSize
      form (h.network.sent conn.number))
    (ht : c.stage.Told content? around origin config.outputSize (h.network.sent conn.number)
      h.interpreter) :
    (c.step config peers h).1.Told content? around origin config.outputSize conn
      (c.step config peers h).2.2 := by
  have hopen : ∀ d : Client (.onFlash I B), d.conn = c.conn → d.conn = none → False := by
    intro d hd hnone
    rw [hd, hconn] at hnone
    cases hnone
  unfold step
  split
  · next heq =>
    rw [heq] at ht
    exact told_receive hconn ht
  · next target heq =>
    rw [heq] at ht
    exact told_start hconn hcontent horigin ht target
  · next job heq =>
    rw [heq] at ht
    split
    · exact told_stream hconn hcontent ht
    · exact ⟨hwritten, trivial, fun hnone => (hopen _ rfl hnone).elim⟩
  · exact ⟨hwritten, trivial, fun hnone => (hopen _ rfl hnone).elim⟩
  · next job _ =>
    have hr := (Scope.Reaches.refl (.offline _) h).finish job
    refine ⟨?_, trivial, fun hnone => (hopen _ rfl hnone).elim⟩
    obtain ⟨form, hform⟩ := hwritten
    refine ⟨form, ?_⟩
    show Written content? (I.Returns around origin (job.finish h).interpreter) config.outputSize form
      ((job.finish h).network.sent _)
    rw [hr.network_eq]
    exact hform.since hr.changes
  · exact ⟨hwritten, ht, fun hnone => (hopen _ rfl hnone).elim⟩

end Client

end Microweb
