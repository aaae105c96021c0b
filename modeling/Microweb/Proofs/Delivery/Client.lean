import Mathlib.Algebra.Order.Floor.Div
import Microweb.Proofs.Delivery

/-!
The steps of a connection that is sent a file. Each step writes what comes next of the response, and
the number of steps that are still to come is known from the start.
-/

namespace Microweb

open Bench

variable {I : Interpreter} {B : Peripherals} {path : String} {content : Bytes}
  {chunk piece n : Nat}

/-! ### Rounds -/

/-- How often a connection streams until that much is sent: once for each piece, and once at
least. -/
def rounds (piece left : Nat) : Nat := max 1 (left ⌈/⌉ piece)

theorem rounds_of_le {left : Nat} (hpiece : 0 < piece) (hle : left ≤ piece) :
    rounds piece left = 1 := by
  have hdiv : left ⌈/⌉ piece ≤ 1 := by
    rw [ceilDiv_le_iff_le_mul hpiece]
    omega
  exact max_eq_left hdiv

theorem rounds_of_lt {left : Nat} (hpiece : 0 < piece) (hlt : piece < left) :
    rounds piece left = rounds piece (left - piece) + 1 := by
  have hdiv : left ⌈/⌉ piece = (left - piece) ⌈/⌉ piece + 1 := by
    rw [Nat.ceilDiv_eq_add_pred_div, Nat.ceilDiv_eq_add_pred_div, ← Nat.add_div_right _ hpiece]
    congr 1
    omega
  have hpos : 1 ≤ (left - piece) ⌈/⌉ piece := by
    by_contra hzero
    have hle : (left - piece) ⌈/⌉ piece ≤ 0 := by omega
    rw [ceilDiv_le_iff_le_mul hpiece] at hle
    omega
  unfold rounds
  omega

/-! ### Steps -/

/-- The head of the response from a file. -/
def fileHead (path : String) (content : Bytes) : Bytes :=
  Reply.contentHead (Content.typeOf (Content.suffix? path)) (some content.length)

/-- The job of a file that is sent up to that position. -/
def FileJob.upTo (path : String) (content : Bytes) (chunk position : Nat) :
    FileJob (.onFlash I B) :=
  ⟨⟨⟨path, position⟩, path⟩, content.length, position, chunk⟩

/-- The start of a file that is held sends its head. -/
theorem FileJob.begin_held {conn : Handle} {h : Host (.onFlash I B)}
    (hheld : Holds h.volume path content) (hdir : h.volume.inner.isDirectory path = false)
    (hw : h.network.Writable conn.number) (chunk : Nat) : ∃ h',
      FileJob.begin conn path chunk h = (.streaming (.upTo path content chunk 0), h') ∧
        h'.network.sent conn.number = h.network.sent conn.number ++ [fileHead path content] := by
  obtain ⟨h₁, hopen, hn₁, hs₁⟩ := Host.openFile_held hheld hdir
  obtain ⟨h₂, hsize, hn₂⟩ := Host.fileSize_held (hheld.same hs₁) 0
  obtain ⟨h₃, hwrite, hsent⟩ := Host.exists_write (show h₂.network.Writable conn.number by
    rwa [hn₂, hn₁]) (fileHead path content)
  refine ⟨h₃, ?_, by rw [hsent, hn₂, hn₁]⟩
  unfold fileHead at hwrite
  unfold FileJob.begin
  rw [hopen]
  simp only
  rw [hsize]
  simp only
  rw [hwrite]
  rfl

/-- A step that finds more to send sends the next piece. -/
theorem FileJob.step_held {conn : Handle} {h : Host (.onFlash I B)} {position : Nat} {bs : Bytes}
    (hheld : Holds h.volume path content) (hw : h.network.Writable conn.number)
    (hposition : position < content.length)
    (hbs : bs = (content.drop position).take (pieceSize h.volume.faults chunk)) (hne : bs ≠ []) :
    ∃ h', (FileJob.upTo path content chunk position).step conn h =
          (if position + bs.length < content.length then .more else .done,
            .upTo path content chunk (position + bs.length), h') ∧
        h'.network.sent conn.number = h.network.sent conn.number ++ [bs] := by
  obtain ⟨h₁, hread, hn₁⟩ := Host.readFile_held hheld hbs
  obtain ⟨h₂, hwrite, hsent⟩ := Host.exists_write (show h₁.network.Writable conn.number by
    rwa [hn₁]) bs
  refine ⟨h₂, ?_, by rw [hsent, hn₁]⟩
  obtain ⟨b, rest, rfl⟩ := List.exists_cons_of_ne_nil hne
  unfold FileJob.step FileJob.upTo
  rw [if_neg (Nat.not_le_of_lt hposition), hread]
  simp only
  rw [hwrite]

/-- **Where a connection stands that is sent a file**, what was written to it, and how many steps it
has still to take. -/
inductive Stands (path : String) (content : Bytes) (chunk piece : Nat) :
    Stage (.onFlash I B) → List Bytes → Nat → Prop
  | begins : Stands path content chunk piece (.begin (.file path)) []
      (rounds piece content.length + 2)
  | streams {position : Nat} {pieces : List Bytes}
    (hpieces : pieces.flatten = content.take position)
    (hposition : position < content.length ∨ content = [] ∧ position = 0) :
    Stands path content chunk piece
      (.streaming (.file (.upTo path content chunk position)))
      (fileHead path content :: pieces) (rounds piece (content.length - position) + 1)
  | ends {job : Option (Job (.onFlash I B))} {pieces : List Bytes}
    (hpieces : pieces.flatten = content) :
    Stands path content chunk piece (.ending job) (fileHead path content :: pieces) 1
  | done {pieces : List Bytes} (hpieces : pieces.flatten = content) :
    Stands path content chunk piece .closed (fileHead path content :: pieces) 0

namespace Stands

variable {stage : Stage (.onFlash I B)} {sent : List Bytes} {c : Client (.onFlash I B)}
  {conn : Handle} {config : Config} {peers : Peers Handle} {h : Host (.onFlash I B)}

/-- It is closed exactly if no more steps are to come. -/
theorem closed_iff (hs : Stands path content chunk piece stage sent n) :
    stage.phase = .closed ↔ n = 0 := by
  cases hs <;> simp [Stage.phase]

/-- Once no more steps are to come, all was sent. -/
theorem of_zero (hs : Stands path content chunk piece stage sent 0) :
    ∃ pieces, pieces.flatten = content ∧ sent = fileHead path content :: pieces := by
  cases hs with
  | done hpieces => exact ⟨_, hpieces, rfl⟩

/-- The head of the response is sent. -/
theorem begin (hconn : c.conn = some conn) (hstage : c.stage = .begin (.file path))
    (hheld : Holds h.volume path content) (hdir : h.volume.inner.isDirectory path = false)
    (hw : h.network.Writable conn.number) (hsent : h.network.sent conn.number = []) :
    (c.step config peers h).1.conn = some conn ∧
      Stands path content config.chunkSize piece (c.step config peers h).1.stage
        ((c.step config peers h).2.2.network.sent conn.number)
        (rounds piece content.length + 1) := by
  obtain ⟨h', hbegin, hsent'⟩ := FileJob.begin_held hheld hdir hw config.chunkSize
  have hstep : c.step config peers h =
      (c.goTo (.streaming (.file (.upTo path content config.chunkSize 0))), peers, h') := by
    simp only [Client.step, hstage, Client.start, hconn, Client.beginFile, hbegin]
  rw [hstep]
  refine ⟨hconn, ?_⟩
  show Stands path content config.chunkSize piece _ (h'.network.sent conn.number) _
  rw [hsent', hsent]
  refine .streams rfl ?_
  cases content with
  | nil => exact .inr ⟨rfl, rfl⟩
  | cons b bs => exact .inl (Nat.succ_pos _)

/-- One piece of the file is sent, and the rest is left for later steps, or nothing is left. -/
theorem stream {position : Nat} {pieces : List Bytes} (hconn : c.conn = some conn)
    (hstage : c.stage = .streaming (.file (.upTo path content chunk position)))
    (hpieces : pieces.flatten = content.take position)
    (hposition : position < content.length ∨ content = [] ∧ position = 0)
    (hheld : Holds h.volume path content) (hrunning : h.control.running = true)
    (hpiece : pieceSize h.volume.faults chunk = piece) (hpos : 0 < piece)
    (hw : h.network.Writable conn.number)
    (hsent : h.network.sent conn.number = fileHead path content :: pieces) :
    (c.step config peers h).1.conn = some conn ∧
      Stands path content chunk piece (c.step config peers h).1.stage
        ((c.step config peers h).2.2.network.sent conn.number)
        (rounds piece (content.length - position)) := by
  have hgoes : ∀ job h', (FileJob.upTo path content chunk position).step conn h =
      (.more, job, h') →
        c.step config peers h = (c.goTo (.streaming (.file job)), peers, h') := by
    intro job h' heq
    simp [Client.step, hstage, hrunning, Client.stream, hconn, heq]
  have hends : ∀ job h', (FileJob.upTo path content chunk position).step conn h =
      (.done, job, h') →
        c.step config peers h = (c.goTo (.ending (some (.file job))), peers, h') := by
    intro job h' heq
    simp [Client.step, hstage, hrunning, Client.stream, hconn, heq]
  obtain hlt | ⟨rfl, rfl⟩ := hposition
  · obtain ⟨bs, hbs⟩ : ∃ bs, bs = (content.drop position).take (pieceSize h.volume.faults chunk) :=
      ⟨_, rfl⟩
    have hlen : bs.length = min piece (content.length - position) := by
      rw [hbs, hpiece, List.length_take, List.length_drop]
    have hne : bs ≠ [] := by
      rintro rfl
      rw [List.length_nil] at hlen
      omega
    have hnext := flatten_next hpieces hbs
    obtain ⟨h', heq, hsent'⟩ := FileJob.step_held hheld hw hlt hbs hne
    rw [hsent] at hsent'
    by_cases hmore : position + bs.length < content.length
    · rw [if_pos hmore] at heq
      have hleft : content.length - position - piece =
          content.length - (position + bs.length) := by omega
      rw [hgoes _ _ heq]
      refine ⟨hconn, ?_⟩
      show Stands path content chunk piece _ (h'.network.sent conn.number) _
      rw [hsent', rounds_of_lt hpos (by omega), hleft]
      exact .streams hnext (.inl hmore)
    · rw [if_neg hmore] at heq
      rw [List.take_of_length_le (Nat.le_of_not_lt hmore)] at hnext
      rw [hends _ _ heq]
      refine ⟨hconn, ?_⟩
      show Stands path content chunk piece _ (h'.network.sent conn.number) _
      rw [hsent', rounds_of_le hpos (by omega)]
      exact .ends hnext
  · -- There is nothing to read; the first step finds that out.
    have heq : (FileJob.upTo path [] chunk 0 : FileJob (.onFlash I B)).step conn h =
        (.done, .upTo path [] chunk 0, h) := rfl
    rw [hends _ _ heq]
    refine ⟨hconn, ?_⟩
    show Stands path [] chunk piece _ (h.network.sent conn.number) (rounds piece 0)
    rw [hsent, rounds_of_le hpos (Nat.zero_le _)]
    exact .ends hpieces

/-- **One step of a connection that is sent a file.** -/
theorem step (hs : Stands path content config.chunkSize piece c.stage
      (h.network.sent conn.number) (n + 1))
    (hconn : c.conn = some conn) (hheld : Holds h.volume path content)
    (hdir : h.volume.inner.isDirectory path = false) (hrunning : h.control.running = true)
    (hpiece : pieceSize h.volume.faults config.chunkSize = piece) (hpos : 0 < piece)
    (hw : h.network.Writable conn.number) (peers : Peers Handle) :
    (c.step config peers h).1.conn = some conn ∧
      Stands path content config.chunkSize piece (c.step config peers h).1.stage
        ((c.step config peers h).2.2.network.sent conn.number) n := by
  generalize hstage : c.stage = stage at hs
  generalize hsent : h.network.sent conn.number = sent at hs
  cases hs with
  | begins => exact begin hconn hstage hheld hdir hw hsent
  | streams hpieces hposition =>
    exact stream hconn hstage hpieces hposition hheld hrunning hpiece hpos hw hsent
  | @ends job pieces hpieces =>
    have hstep : ∃ h', c.step config peers h =
        ({ c with request := none, stage := .closed }, peers, h') ∧ h'.network = h.network := by
      cases job with
      | none => exact ⟨h, by simp only [Client.step, hstage], rfl⟩
      | some job =>
        have hr := (Scope.Reaches.refl (.offline _) h).finish job
        exact ⟨job.finish h, by simp only [Client.step, hstage], hr.network_eq⟩
    obtain ⟨h', hstep, hn⟩ := hstep
    rw [hstep]
    refine ⟨hconn, ?_⟩
    show Stands path content config.chunkSize piece _ (h'.network.sent conn.number) _
    rw [hn, hsent]
    exact .done hpieces

/-- **The request is received.** A request that asks for no upgrade and is routed to a file leaves
the connection about to send it. -/
theorem receive {head : Bytes} {r : Request} (hconn : c.conn = some conn)
    (hstage : c.stage = .request)
    (hhead : (Wires.receive conn config.requestRoom h.network).1 = .ok head)
    (hparse : Request.parse head config.maxUriLength = .ok r) (hplain : r.wantsUpgrade = false)
    (hroute : (Route.find config r.uri h).1 = .file path) (hmax : h.volume.inner.maxOpen = none)
    (hsent : h.network.sent conn.number = []) (peers : Peers Handle) :
    (c.step config peers h).1.conn = some conn ∧
      Stands path content chunk piece (c.step config peers h).1.stage
        ((c.step config peers h).2.2.network.sent conn.number)
        (rounds piece content.length + 2) := by
  obtain ⟨h₁, hreceive⟩ : ∃ h₁, h.receive conn config.requestRoom = (.ok head, h₁) :=
    ⟨_, Prod.ext hhead rfl⟩
  have hsent₁ := Host.sent_receive hreceive conn.number
  have hvolume : h₁.volume = h.volume := by
    obtain ⟨-, rfl⟩ := Prod.ext_iff.mp hreceive
    rfl
  have hagree : (Route.find config r.uri (h₁.note (.request c.address r.uri))).1 = .file path := by
    rw [← hroute]
    exact Host.agree_route (by rw [Host.note, hvolume]; exact .refl _) hmax config r.uri
  obtain ⟨h₂, hfind⟩ : ∃ h₂, Route.find config r.uri (h₁.note (.request c.address r.uri)) =
      (.file path, h₂) := ⟨_, Prod.ext hagree rfl⟩
  have hstep : c.step config peers h =
      ({ c with request := some r }.goTo (.begin (.file path)), peers, h₂) := by
    simp only [Client.step, hstage, Client.receive, hconn, hreceive, hparse, Client.dispatch,
      hplain, Bool.false_eq_true, if_false, Client.serve, hfind]
  have hn₂ : h₂.network = h₁.network := by
    have hr := (Scope.Reaches.refl (.offline _) (h₁.note (.request c.address r.uri))).route
      config.leadsTo_true r.uri
    rw [hfind] at hr
    exact hr.network_eq
  rw [hstep]
  refine ⟨hconn, ?_⟩
  show Stands path content chunk piece _ (h₂.network.sent conn.number) _
  rw [hn₂, hsent₁, hsent]
  exact .begins

end Stands

end Microweb
