import Microweb.Proofs.Peers
import Microweb.Server.Polling

/-!
What a round of polls makes of the peers. One receive decides what becomes of a peer: it is served
if the receive brought a frame first of all, it rests if it did not, and either way it may have to
go. The peers that stay are those that were served, the last first, and those that rested.
-/

namespace Microweb

variable {P : Platform} {config : Config}

/-- A frame that is answered; a closing frame is not. -/
def Frame.isAnswered : Frame → Bool
  | close => false
  | _ => true

/-- A server's frame: final and unmasked, with a text or with what a ping carried, and with no more
of either than may be sent. -/
def Frame.FromServer (limit : Nat) (bs : Bytes) : Prop :=
  ∃ (op : UInt8) (payload : Bytes), (op = Opcode.text ∧ (∃ s, payload = Utf8.encode s) ∨
      op = Opcode.pong) ∧ payload.length ≤ min maxShortPayload limit ∧
    bs = (0x80 ||| op) :: UInt8.ofNat payload.length :: payload

namespace Polling

/-- **What answers a frame** is a server's frame. -/
theorem fromServer_of_answer {p : Peer P.Conn} {f : Frame} {h : Host P} {bs : Bytes}
    (heq : (answer config p f h).1 = some bs) : Frame.FromServer config.outputSize bs := by
  have hencode : ∀ op payload, Frame.encode? op payload config.outputSize = some bs →
      payload.length ≤ min Frame.maxShortPayload config.outputSize ∧
        bs = (0x80 ||| op) :: UInt8.ofNat payload.length :: payload := by
    intro op payload h
    unfold Frame.encode? at h
    split at h
    · cases h
    · next hle =>
      cases h
      exact ⟨by omega, rfl⟩
  have hmessage : ∀ payload, (answerMessage config p payload h).1 = some bs →
      Frame.FromServer config.outputSize bs := by
    intro payload h
    unfold answerMessage at h
    split at h
    · cases h
    · next text h₁ _ =>
      simp only at h
      split at h
      · next reply hreply =>
        cases h
        obtain ⟨hle, hbs⟩ := hencode _ _ hreply
        exact ⟨_, _, .inl ⟨rfl, text, rfl⟩, hle, hbs⟩
      · cases h
  cases f with
  | ping payload =>
    obtain ⟨hle, hbs⟩ := hencode _ _ heq
    exact ⟨_, _, .inr rfl, hle, hbs⟩
  | text payload => exact hmessage payload heq
  | binary payload => exact hmessage payload heq
  | close => cases heq

/-- What a receive brought starts with a frame that is answered. -/
def brings : Except NetError Bytes → Bool
  | .error _ => false
  | .ok bs =>
    match (Frame.parse bs).1 with
    | .ok (f, _) => f.isAnswered
    | .error _ => false

/-- **What a poll can make of a peer**, after a receive with that result. -/
inductive Polled (config : Config) (p : Peer P.Conn) (r : Except NetError Bytes) :
    Peer P.Conn × Activity → Prop
  | served (h : brings r = true) : Polled config p r p.touch
  | rested (h : brings r = false) : Polled config p r (p.rest config.peerIdleLimit)
  | left : Polled config p r (p, .evict)

/-- A poll changes the age of a peer and nothing else. -/
theorem Polled.peer_eq {p : Peer P.Conn} {r : Except NetError Bytes}
    {o : Peer P.Conn × Activity} (ho : Polled config p r o) : o.1 = { p with age := o.1.age } := by
  cases ho <;> rfl

/-! ### One poll -/

/-- Once a frame was served, a poll does not end with none served. -/
theorem serveFrames_true_ne (p : Peer P.Conn) (fuel : Nat) (rest : Bytes) (h : Host P) :
    (serveFrames config p fuel true rest h).1 ≠ .ended false := by
  induction fuel generalizing rest h with
  | zero => nofun
  | succ fuel ih =>
    unfold serveFrames
    split
    · nofun
    · split
      · nofun
      · nofun
      · simp only
        split
        · nofun
        · exact ih _ _

/-- **The frames of one segment.** Unless the peer has to go, a frame was served exactly if the
segment starts with one that is answered. -/
theorem brings_of_serveFrames {p : Peer P.Conn} {fuel : Nat} {bs : Bytes} {h : Host P} {any : Bool}
    (hne : bs ≠ []) (heq : (serveFrames config p (fuel + 1) false bs h).1 = .ended any) :
    brings (.ok bs) = any := by
  unfold serveFrames at heq
  unfold brings
  rw [if_neg (by simpa using hne)] at heq
  split at heq
  · next e rest hparse =>
    cases heq
    simp only [hparse]
  · cases heq
  · next f used rest hclose hparse =>
    have hanswered : f.isAnswered = true := by
      cases f with
      | close => exact (hclose rfl).elim
      | _ => rfl
    simp only [hparse, hanswered]
    simp only at heq
    split at heq
    · cases heq
    · next h₁ _ =>
      cases any with
      | true => rfl
      | false => exact absurd heq (serveFrames_true_ne p fuel (rest.drop used) h₁)

theorem brings_of_segment {p : Peer P.Conn} {bs : Bytes} {h : Host P} {any : Bool}
    (heq : (serveFrames config p bs.length false bs h).1 = .ended any) :
    brings (.ok bs) = any := by
  cases bs with
  | nil =>
    cases heq
    rfl
  | cons b bs => exact brings_of_serveFrames (List.cons_ne_nil b bs) heq

/-- **One poll.** -/
theorem polled_pollPeer (config : Config) (p : Peer P.Conn) (buf : Bytes) (h : Host P) :
    Polled config p (h.receive p.handle buf.length).1 (pollPeer config p buf h).1 := by
  unfold pollPeer
  split
  · next e h₁ heq =>
    rw [heq]
    split
    · exact .left
    · exact .rested rfl
  · next bs h₁ heq =>
    have hserved : ∀ any, (serveFrames config p bs.length false bs h₁).1 = .ended any →
        brings (.ok bs) = any := fun any => brings_of_segment
    simp only [heq, List.take_left]
    generalize serveFrames config p bs.length false bs h₁ = served at hserved ⊢
    split
    · exact .left
    · next heq₁ => exact .served (hserved true heq₁)
    · next heq₁ => exact .rested (hserved false heq₁)

/-! ### All polls of a round -/

/-- One poll: the peer, what the receive from it brought, and what became of it. -/
structure Poll (P : Platform) where
  peer : Peer P.Conn
  receipt : Except NetError Bytes
  outcome : Peer P.Conn × Activity

/-- The polls of peers in order. -/
def polls (config : Config) : List (Peer P.Conn) → Bytes → Host P → List (Poll P)
  | [], _, _ => []
  | p :: ps, buf, h =>
    let (outcome, buf', h') := pollPeer config p buf h
    ⟨p, (h.receive p.handle buf.length).1, outcome⟩ :: polls config ps buf' h'

theorem map_peer_polls (config : Config) (ps : List (Peer P.Conn)) (buf : Bytes) (h : Host P) :
    (polls config ps buf h).map Poll.peer = ps := by
  induction ps generalizing buf h with
  | nil => rfl
  | cons p ps ih => exact congrArg (p :: ·) (ih _ _)

theorem map_outcome_polls (config : Config) (ps : List (Peer P.Conn)) (buf : Bytes) (h : Host P) :
    (polls config ps buf h).map Poll.outcome = (pollEach config ps buf h).1 := by
  induction ps generalizing buf h with
  | nil => rfl
  | cons p ps ih => exact congrArg (_ :: ·) (ih _ _)

theorem polled_of_mem {ps : List (Peer P.Conn)} {buf : Bytes} {h : Host P} {x : Poll P}
    (hx : x ∈ polls config ps buf h) : Polled config x.peer x.receipt x.outcome := by
  induction ps generalizing buf h with
  | nil => cases hx
  | cons p ps ih =>
    obtain rfl | hx := List.mem_cons.mp hx
    · exact polled_pollPeer config p buf h
    · exact ih hx

/-- The turn of a peer in a round: the host before its poll and after it, and what became of the
peer. -/
structure Turn (P : Platform) where
  peer : Peer P.Conn
  before : Host P
  after : Host P
  outcome : Peer P.Conn × Activity

/-- The turns of peers in order. -/
def turns (config : Config) : List (Peer P.Conn) → Bytes → Host P → List (Turn P)
  | [], _, _ => []
  | p :: ps, buf, h =>
    let (outcome, buf', h') := pollPeer config p buf h
    ⟨p, h, h', outcome⟩ :: turns config ps buf' h'

theorem map_peer_turns (config : Config) (ps : List (Peer P.Conn)) (buf : Bytes) (h : Host P) :
    (turns config ps buf h).map Turn.peer = ps := by
  induction ps generalizing buf h with
  | nil => rfl
  | cons p ps ih => exact congrArg (p :: ·) (ih _ _)

/-- The polls of a round are the turns, each from where the one before it ended. -/
theorem pollEach_eq_turns (config : Config) (ps : List (Peer P.Conn)) (buf : Bytes) (h : Host P) :
    pollEach config ps buf h = ((turns config ps buf h).map Turn.outcome,
      ((turns config ps buf h).getLast?.map Turn.after).getD h) := by
  induction ps generalizing buf h with
  | nil => rfl
  | cons p ps ih =>
    unfold pollEach turns
    simp only [ih, List.map_cons, List.getLast?_cons]
    cases (turns config ps (pollPeer config p buf h).2.1 (pollPeer config p buf h).2.2).getLast?
    · rfl
    · rfl

end Polling

/-! ### The pool after a round -/

namespace Peers

variable {H : Type}

/-- The peers with an outcome, each peer standing with its own. -/
theorem withOutcome_map (os : List (Peer H × Activity)) (a : Activity) :
    withOutcome (os.map Prod.fst) (os.map Prod.snd) a =
      (os.filter fun o => o.2 == a).map Prod.fst := by
  have hown : ∀ x ∈ os.zipIdx, ((os.map Prod.snd).getD x.2 .idle == a) = (x.1.2 == a) := by
    intro x hx
    rw [List.mem_zipIdx_iff_getElem?] at hx
    rw [List.getD_eq_getElem?_getD, List.getElem?_map, hx, Option.map_some, Option.getD_some]
  have hfst : os.filter (fun o => o.2 == a) =
      (os.zipIdx.filter fun x => x.1.2 == a).map Prod.fst := by
    conv_lhs => rw [← List.zipIdx_map_fst (l := os) (i := 0)]
    exact List.filter_map
  unfold withOutcome
  rw [List.zipIdx_map, List.filter_map, List.map_map, hfst, List.map_map,
    ← List.filter_congr hown]
  rfl

end Peers

namespace Polling

/-- The polls of a round. -/
def roundPolls (config : Config) (peers : Peers P.Conn) (h : Host P) : List (Poll P) :=
  polls config peers.list (List.replicate (room config) 0) h

/-- The peers that a round has that in store for, in order. -/
def withFate (config : Config) (peers : Peers P.Conn) (h : Host P) (a : Activity) :
    List (Peer P.Conn) :=
  ((roundPolls config peers h).filter fun x => x.outcome.2 == a).map fun x => x.outcome.1

/-- **A round of polls.** The peers that were served stay, the last first, and after them those
that rested; the others are closed. -/
theorem round_eq (config : Config) (peers : Peers P.Conn) (h : Host P) :
    round config peers h =
      ({ peers with list :=
        (withFate config peers h .active).reverse ++ withFate config peers h .idle },
      closeEvicted (withFate config peers h .evict)
        (pollEach config peers.list (List.replicate (room config) 0) h).2) := by
  have hfate : ∀ a, withFate config peers h a = Peers.withOutcome
      ((pollEach config peers.list (List.replicate (room config) 0) h).1.map Prod.fst)
      ((pollEach config peers.list (List.replicate (room config) 0) h).1.map Prod.snd) a := by
    intro a
    rw [Peers.withOutcome_map, ← map_outcome_polls, List.filter_map, List.map_map]
    rfl
  unfold round
  split
  · next hempty =>
    obtain ⟨list, capacity⟩ := peers
    obtain rfl : list = [] := List.isEmpty_iff.mp hempty
    rfl
  · simp only [hfate]
    rfl

/-- The peers of a round were there before it, but for their ages. -/
theorem exists_mem_of_withFate {peers : Peers P.Conn} {h : Host P} {a : Activity} {q : Peer P.Conn}
    (hq : q ∈ withFate config peers h a) : ∃ p ∈ peers.list, q = { p with age := q.age } := by
  obtain ⟨x, hx, rfl⟩ := List.mem_map.mp hq
  have hx := (List.mem_filter.mp hx).1
  refine ⟨x.peer, ?_, (polled_of_mem hx).peer_eq⟩
  rw [← map_peer_polls config peers.list (List.replicate (room config) 0) h]
  exact List.mem_map_of_mem hx

theorem exists_mem_of_round {peers : Peers P.Conn} {h : Host P} {q : Peer P.Conn}
    (hq : q ∈ (round config peers h).1.list) : ∃ p ∈ peers.list, q = { p with age := q.age } := by
  rw [round_eq] at hq
  obtain hq | hq := List.mem_append.mp hq
  · exact exists_mem_of_withFate (List.mem_reverse.mp hq)
  · exact exists_mem_of_withFate hq

end Polling

end Microweb
