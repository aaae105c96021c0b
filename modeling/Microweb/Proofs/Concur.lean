import Microweb.Server.Polling

/-!
Two hosts compared. If they are related and the operations that answering a frame is made of keep
them so, with the same results, then the frame is answered the same on both, and they stay related.
-/

namespace Microweb

variable {P : Platform}

namespace Host

/-- The same result, and hosts that are related. -/
structure ConcurIn (R : Host P → Host P → Prop) {α : Type} (x y : α × Host P) : Prop where
  result : x.1 = y.1
  host : R x.2 y.2

variable {R : Host P → Host P → Prop}

/-- What follows such results may assume that they are one. -/
@[elab_as_elim]
theorem ConcurIn.elim {α : Type} {motive : α × Host P → α × Host P → Prop} {x y : α × Host P}
    (hxy : ConcurIn R x y) (same : ∀ r g h, R g h → motive (r, g) (r, h)) : motive x y := by
  obtain ⟨r, g⟩ := x
  obtain ⟨r', h⟩ := y
  obtain ⟨heq, hR⟩ := hxy
  obtain rfl : r = r' := heq
  exact same r g h hR

/-- **What an answer on a connection is made of** keeps hosts related. -/
structure AnswersKeep (R : Host P → Host P → Prop) (c : P.Conn) : Prop where
  note : ∀ {g h : Host P}, R g h → ∀ n, R (g.note n) (h.note n)
  setQuery : ∀ {g h : Host P}, R g h → ∀ q, R (g.setQuery q) (h.setQuery q)
  setGlobal : ∀ {g h : Host P}, R g h → ∀ name value,
    R (g.setGlobal name value) (h.setGlobal name value)
  load : ∀ {g h : Host P}, R g h → ∀ path, ConcurIn R (g.load path) (h.load path)
  call : ∀ {g h : Host P}, R g h → ∀ x, ConcurIn R (g.call x) (h.call x)
  release : ∀ {g h : Host P}, R g h → ∀ x, R (g.release x) (h.release x)
  collect : ∀ {g h : Host P}, R g h → R g.collect h.collect
  command : ∀ {g h : Host P}, R g h → ∀ payload, ConcurIn R (g.command payload) (h.command payload)
  write : ∀ {g h : Host P}, R g h → ∀ bs, ConcurIn R (g.write c bs) (h.write c bs)

namespace AnswersKeep

variable {c : P.Conn} {g h : Host P}

theorem runForFrame (hk : AnswersKeep R c) (hR : R g h) (path payload : String) :
    ConcurIn R (g.runForFrame path payload) (h.runForFrame path payload) := by
  have hload := hk.load (hk.setGlobal (hk.setQuery hR []) frameGlobal payload) path
  unfold Host.runForFrame
  refine hload.elim fun r g₁ h₁ h₁R => ?_
  cases r with
  | error e => exact ⟨rfl, hk.note h₁R _⟩
  | ok script =>
    simp only
    refine (hk.call h₁R script).elim fun r g₂ h₂ h₂R => ?_
    obtain ⟨result, script'⟩ := r
    have hdone := hk.collect (hk.release h₂R script')
    cases result with
    | error e => exact ⟨rfl, hk.note hdone _⟩
    | ok out => exact ⟨rfl, hdone⟩

theorem respond (hk : AnswersKeep R c) (hR : R g h) (config : Config) (uri : String)
    (payload : Bytes) :
    ConcurIn R (Polling.respond config uri payload g) (Polling.respond config uri payload h) := by
  unfold Polling.respond
  split
  · refine (hk.command hR payload).elim fun r g₁ h₁ h₁R => ?_
    cases r with
    | error e => exact ⟨rfl, hk.note h₁R _⟩
    | ok reply => exact ⟨rfl, h₁R⟩
  · split
    · exact ⟨rfl, hR⟩
    · exact hk.runForFrame hR _ _

theorem answerMessage (hk : AnswersKeep R c) (hR : R g h) (config : Config) (p : Peer P.Conn)
    (payload : Bytes) : ConcurIn R (Polling.answerMessage config p payload g)
      (Polling.answerMessage config p payload h) := by
  have hrespond := hk.respond (hk.note hR (.frame p.address payload.length p.uri)) config p.uri
    payload
  unfold Polling.answerMessage
  refine hrespond.elim fun r g₁ h₁ h₁R => ?_
  cases r with
  | none => exact ⟨rfl, h₁R⟩
  | some text =>
    simp only
    split
    · exact ⟨rfl, h₁R⟩
    · exact ⟨rfl, hk.note h₁R _⟩

theorem answer (hk : AnswersKeep R c) (hR : R g h) (config : Config) (p : Peer P.Conn)
    (f : Frame) : ConcurIn R (Polling.answer config p f g) (Polling.answer config p f h) := by
  cases f with
  | ping payload => exact ⟨rfl, hR⟩
  | text payload => exact hk.answerMessage hR config p payload
  | binary payload => exact hk.answerMessage hR config p payload
  | close => exact ⟨rfl, hR⟩

theorem send {p : Peer P.Conn} (hk : AnswersKeep R p.handle) (hR : R g h)
    (reply : Option Bytes) : ConcurIn R (Polling.send p reply g) (Polling.send p reply h) := by
  cases reply with
  | none => exact ⟨rfl, hR⟩
  | some bs =>
    unfold Polling.send
    simp only
    refine (hk.write hR bs).elim fun r g₁ h₁ h₁R => ?_
    cases r with
    | ok u => exact ⟨rfl, h₁R⟩
    | error e => exact ⟨rfl, hk.note h₁R _⟩

end AnswersKeep

end Host

end Microweb
