import Mathlib.Algebra.Order.Floor.Div
import Mathlib.GroupTheory.GroupAction.Ring
import Mathlib.Logic.Function.Iterate
import Microweb.Bench.Wires
import Microweb.Proofs.Frames
import Microweb.Proofs.Polls

/-!
The frames of one receive. What a receive brings is a stream of frames and perhaps something else
behind them; the frames are served one after the other, as if each had come by itself, and then the
rest is looked at.
-/

namespace Microweb

theorem Frame.Sent.bytes_ne_nil (f : Sent) : f.bytes ≠ [] := List.cons_ne_nil _ _

theorem Frame.stream_append (fs gs : List Sent) : stream (fs ++ gs) = stream fs ++ stream gs := by
  simp [stream]

theorem Frame.length_le_length_stream (fs : List Sent) : fs.length ≤ (stream fs).length := by
  induction fs with
  | nil => exact Nat.le_refl 0
  | cons f fs ih =>
    have hpos := List.length_pos_iff.mpr f.bytes_ne_nil
    rw [stream_cons, List.length_append, List.length_cons]
    omega

theorem Frame.length_bytes_le_length_stream {fs : List Sent} {f : Sent} (hf : f ∈ fs) :
    f.bytes.length ≤ (stream fs).length :=
  (List.sublist_flatten_of_mem (List.mem_map_of_mem hf)).length_le

theorem Frame.length_stream_pos {fs : List Sent} (hne : fs ≠ []) : 0 < (stream fs).length :=
  Nat.lt_of_lt_of_le (List.length_pos_iff.mpr hne) (length_le_length_stream fs)

namespace Polling

variable {P : Platform} {config : Config}

/-! ### The buffer -/

theorem room_pos (config : Config) : 0 < room config :=
  Nat.lt_of_lt_of_le (by decide : 0 < Frame.maxHeader) (Nat.le_add_left _ _)

theorem length_serveFrames (config : Config) (p : Peer P.Conn) (fuel : Nat) (any : Bool)
    (bs : Bytes) (h : Host P) :
    (serveFrames config p fuel any bs h).2.1.length = bs.length := by
  induction fuel generalizing any bs h with
  | zero => rfl
  | succ fuel ih =>
    have hlen := Frame.length_parse bs
    unfold serveFrames
    split
    · rfl
    · split
      · next hparse => rwa [hparse] at hlen
      · next hparse => rwa [hparse] at hlen
      · next f used rest _ hparse =>
        have hlen : rest.length = bs.length := by rwa [hparse] at hlen
        simp only
        split
        · exact hlen
        · next h₁ _ =>
          rw [List.length_append, ih, List.length_take, List.length_drop]
          omega

/-- A poll keeps the length of the buffer, if the receive keeps to it. -/
theorem length_pollPeer (config : Config) (p : Peer P.Conn) (buf : Bytes) {h : Host P}
    (hroom : ∀ bs, (h.receive p.handle buf.length).1 = .ok bs → bs.length ≤ buf.length) :
    (pollPeer config p buf h).2.1.length = buf.length := by
  unfold pollPeer
  split
  · split <;> rfl
  · next bs h₁ heq =>
    have hle := hroom bs (by rw [heq])
    simp only [List.take_left, List.drop_left]
    rw [List.length_append, length_serveFrames, List.length_drop]
    omega

/-! ### Frames in a row -/

/-- Answers a frame. Says whether the peer can stay. -/
def serveOne (config : Config) (p : Peer P.Conn) (f : Frame) (h : Host P) : Bool × Host P :=
  send p (answer config p f h).1 (answer config p f h).2

/-- Answers frames one after the other, as long as the peer can stay. -/
def serveAll (config : Config) (p : Peer P.Conn) : List Frame → Host P → Bool × Host P
  | [], h => (true, h)
  | f :: fs, h =>
    if (serveOne config p f h).1 then serveAll config p fs (serveOne config p f h).2
    else serveOne config p f h

theorem serveAll_append (config : Config) (p : Peer P.Conn) (fs gs : List Frame) (h : Host P) :
    serveAll config p (fs ++ gs) h =
      if (serveAll config p fs h).1 then serveAll config p gs (serveAll config p fs h).2
      else serveAll config p fs h := by
  induction fs generalizing h with
  | nil => rfl
  | cons f fs ih =>
    simp only [List.cons_append, serveAll]
    by_cases hone : (serveOne config p f h).1 = true
    · simp only [if_pos hone]
      exact ih _
    · simp only [if_neg hone]

/-- The age of a peer plays no part. -/
theorem serveAll_age (config : Config) (p : Peer P.Conn) (age : UInt32) (fs : List Frame)
    (h : Host P) : serveAll config { p with age } fs h = serveAll config p fs h := by
  induction fs generalizing h with
  | nil => rfl
  | cons f fs ih =>
    have hone : serveOne config { p with age } f h = serveOne config p f h := by cases f <;> rfl
    simp only [serveAll, hone, ih]

theorem serveAll_touch (config : Config) (p : Peer P.Conn) (fs : List Frame) (h : Host P) :
    serveAll config p.touch.1 fs h = serveAll config p fs h :=
  serveAll_age config p 0 fs h

/-- **One frame of a receive** is answered, and then comes what is behind it. -/
theorem serveFrames_append (config : Config) (p : Peer P.Conn) (f : Frame.Sent) (tail : Bytes)
    (fuel : Nat) (any : Bool) (h : Host P) :
    serveFrames config p (fuel + 1) any (f.bytes ++ tail) h =
      if (serveOne config p f.frame h).1 then
        ((serveFrames config p fuel true tail (serveOne config p f.frame h).2).1,
          f.header ++ f.payload ++
            (serveFrames config p fuel true tail (serveOne config p f.frame h).2).2.1,
          (serveFrames config p fuel true tail (serveOne config p f.frame h).2).2.2)
      else (.evict, f.header ++ f.payload ++ tail, (serveOne config p f.frame h).2) := by
  have hne : (f.bytes ++ tail).isEmpty = false := by simp [f.bytes_ne_nil]
  have hlen : (f.header ++ f.payload).length = f.bytes.length := by
    rw [List.length_append, f.length_bytes]
  have hdrop : (f.header ++ f.payload ++ tail).drop f.bytes.length = tail := List.drop_left' hlen
  have htake : (f.header ++ f.payload ++ tail).take f.bytes.length = f.header ++ f.payload :=
    List.take_left' hlen
  conv_lhs => unfold serveFrames
  rw [if_neg (by simp [hne]), f.parse_append tail]
  have hclose : f.frame ≠ .close := by
    unfold Frame.Sent.frame
    cases f.kind <;> simp [Frame.Kind.frame]
  generalize f.frame = frame at hclose ⊢
  cases frame with
  | close => exact absurd rfl hclose
  | text payload | binary payload | ping payload =>
    simp only [serveOne]
    split
    · next h₁ heq => simp only [heq, Bool.false_eq_true, if_false]
    · next h₁ heq => simp only [heq, if_true, hdrop, htake]

/-- **The frames of a receive**, and what is behind them. -/
theorem serveFrames_stream (config : Config) (p : Peer P.Conn) (fs : List Frame.Sent)
    (tail : Bytes) (fuel : Nat) (any : Bool) (h : Host P) :
    let r := serveAll config p (fs.map Frame.Sent.frame) h
    let rest := serveFrames config p fuel (any || !fs.isEmpty) tail r.2
    let out := serveFrames config p (fs.length + fuel) any (Frame.stream fs ++ tail) h
    out.1 = (if r.1 then rest.1 else .evict) ∧ out.2.2 = if r.1 then rest.2.2 else r.2 := by
  induction fs generalizing any h with
  | nil => simp [serveAll]
  | cons f fs ih =>
    simp only [Frame.stream_cons, List.append_assoc, List.length_cons, List.map_cons, serveAll]
    rw [Nat.add_right_comm, serveFrames_append]
    by_cases hone : (serveOne config p f.frame h).1 = true
    · simp only [if_pos hone]
      simpa using ih true (serveOne config p f.frame h).2
    · simp only [if_neg hone]
      simp

/-- What serving the frames of a segment makes of the peer. -/
def Served.outcome (config : Config) (p : Peer P.Conn) : Served → Peer P.Conn × Activity
  | .evict => (p, .evict)
  | .ended true => p.touch
  | .ended false => p.rest config.peerIdleLimit

/-- Behind whole frames, a poll does with the rest of a segment what serving it by itself does. -/
theorem exists_pollPeer_eq (config : Config) {p : Peer P.Conn} {fs : List Frame.Sent}
    {tail buf : Bytes} {h h' : Host P}
    (hreceive : h.receive p.handle buf.length = (.ok (Frame.stream fs ++ tail), h')) :
    ∃ fuel, tail.length ≤ fuel ∧
      let r := serveAll config p (fs.map Frame.Sent.frame) h'
      let behind := serveFrames config p fuel (!fs.isEmpty) tail r.2
      (pollPeer config p buf h).1 = (if r.1 then behind.1 else .evict).outcome config p ∧
      (pollPeer config p buf h).2.2 = if r.1 then behind.2.2 else r.2 := by
  have hle := Frame.length_le_length_stream fs
  refine ⟨(Frame.stream fs).length - fs.length + tail.length, Nat.le_add_left _ _, ?_⟩
  have hlen : (Frame.stream fs ++ tail).length =
      fs.length + ((Frame.stream fs).length - fs.length + tail.length) := by
    rw [List.length_append]
    omega
  obtain ⟨hend, hhost⟩ := serveFrames_stream config p fs tail
    ((Frame.stream fs).length - fs.length + tail.length) false h'
  rw [← hlen, Bool.false_or] at hend hhost
  simp only [pollPeer, hreceive, List.take_left]
  exact ⟨congrArg (Served.outcome config p) hend, hhost⟩

/-- **A poll that brings frames** and nothing else serves them all, unless the peer has to go. -/
theorem pollPeer_stream (config : Config) {p : Peer P.Conn} {fs : List Frame.Sent} {buf : Bytes}
    {h h' : Host P} (hreceive : h.receive p.handle buf.length = (.ok (Frame.stream fs), h')) :
    let r := serveAll config p (fs.map Frame.Sent.frame) h'
    (pollPeer config p buf h).2.2 = r.2 ∧
      (fs ≠ [] → (pollPeer config p buf h).1 = if r.1 then p.touch else (p, .evict)) := by
  rw [← List.append_nil (Frame.stream fs)] at hreceive
  obtain ⟨fuel, -, hout, hhost⟩ := exists_pollPeer_eq config hreceive
  have hrest : ∀ any g, serveFrames config p fuel any [] g = (.ended any, [], g) := by
    intro any g
    cases fuel <;> rfl
  rw [hrest] at hout hhost
  refine ⟨hhost.trans (ite_self _), fun hne => ?_⟩
  have hany : (!fs.isEmpty) = true := by simpa using hne
  rw [hout, hany]
  split <;> rfl

/-- **A poll that brings the front of a frame**, behind whole ones, does nothing with it but note it
in the log; the buffer is not kept for the next poll, which begins with what is behind. -/
theorem pollPeer_cut (config : Config) {p : Peer P.Conn} {fs : List Frame.Sent} {f : Frame.Sent}
    {front buf : Bytes} {h h' : Host P} (hfront : front <+: f.bytes) (hcut : front ≠ f.bytes)
    (hne : front ≠ [])
    (hreceive : h.receive p.handle buf.length = (.ok (Frame.stream fs ++ front), h')) :
    let r := serveAll config p (fs.map Frame.Sent.frame) h'
    (pollPeer config p buf h).2.2 =
      if r.1 then r.2.note (.badFrame p.address .incomplete front.length) else r.2 := by
  intro r
  obtain ⟨fuel, hfuel, -, hhost⟩ := exists_pollPeer_eq config hreceive
  obtain ⟨fuel, rfl⟩ : ∃ n, fuel = n + 1 :=
    Nat.exists_eq_add_one.mpr (Nat.lt_of_lt_of_le (List.length_pos_iff.mpr hne) hfuel)
  have hnoted : (serveFrames config p (fuel + 1) (!fs.isEmpty) front r.2).2.2 =
      r.2.note (.badFrame p.address .incomplete front.length) := by
    unfold serveFrames
    rw [if_neg (by simpa using hne), f.parse_prefix hfront hcut]
  rw [hhost, hnoted]

end Polling

/-! ### One stream in several receives -/

/-- The segments that are still to be received after one receive. -/
def Bench.Wire.rest (room : Nat) : List Bytes → List Bytes
  | [] => []
  | segment :: segments =>
    if (segment.drop room).isEmpty then segments else segment.drop room :: segments

/-- What one receive brings of segments: as much of the first as there is room for, and an error if
there is none. -/
def Bench.Wire.Brings (room : Nat) : List Bytes → Except NetError Bytes → Prop
  | [], r => ∃ e, r = .error e
  | segment :: _, r => r = .ok (segment.take room)

/-! ### How many receives -/

theorem ceilDiv_of_le {n room : Nat} (hpos : 0 < n) (hle : n ≤ room) : n ⌈/⌉ room = 1 := by
  have hroom : 0 < room := by omega
  have hmost : n ⌈/⌉ room ≤ 1 := by
    rw [ceilDiv_le_iff_le_mul hroom]
    omega
  have hleast : ¬ n ⌈/⌉ room ≤ 0 := by
    rw [ceilDiv_le_iff_le_mul hroom]
    omega
  omega

theorem ceilDiv_add {room : Nat} (hroom : 0 < room) (n : Nat) :
    (room + n) ⌈/⌉ room = n ⌈/⌉ room + 1 := by
  rw [Nat.ceilDiv_eq_add_pred_div, Nat.ceilDiv_eq_add_pred_div, ← Nat.add_div_right _ hroom]
  congr 1
  omega

/-- How many receives it takes to get these segments. -/
def Bench.Wire.receives (room : Nat) (segments : List Bytes) : Nat :=
  (segments.map fun segment => max 1 (segment.length ⌈/⌉ room)).sum

open Bench.Wire (rest receives)

theorem Bench.Wire.iterate_rest_cons {room : Nat} (hroom : 0 < room) (segment : Bytes)
    (segments : List Bytes) :
    (rest room)^[max 1 (segment.length ⌈/⌉ room)] (segment :: segments) = segments := by
  induction hn : segment.length using Nat.strong_induction_on generalizing segment with | h n ih =>
  subst hn
  by_cases hle : segment.length ≤ room
  · have hone : max 1 (segment.length ⌈/⌉ room) = 1 := by
      apply max_eq_left
      rw [ceilDiv_le_iff_le_mul hroom]
      omega
    rw [hone, Function.iterate_one, rest, List.drop_eq_nil_of_le hle, List.isEmpty_nil, if_pos rfl]
  · obtain ⟨n, hn⟩ := Nat.exists_eq_add_of_le (Nat.le_of_not_le hle)
    have hlen : (segment.drop room).length = n := by
      rw [List.length_drop]
      omega
    have hleft : (segment.drop room).isEmpty = false := by
      rw [List.isEmpty_eq_false_iff, ← List.length_pos_iff]
      omega
    have hone : 1 ≤ n ⌈/⌉ room := by
      rw [← Nat.not_lt, Nat.lt_one_iff, ← Nat.le_zero, ceilDiv_le_iff_le_mul hroom]
      omega
    have hmore : max 1 (segment.length ⌈/⌉ room) = max 1 (n ⌈/⌉ room) + 1 := by
      rw [hn, ceilDiv_add hroom]
      omega
    rw [hmore, Function.iterate_succ_apply, rest, hleft, if_neg Bool.false_ne_true, ← hlen]
    exact ih _ (by omega) _ rfl

/-- **So many receives** get these segments, and leave what is behind them. -/
theorem Bench.Wire.iterate_rest {room : Nat} (hroom : 0 < room) (earlier segments : List Bytes) :
    (rest room)^[receives room earlier] (earlier ++ segments) = segments := by
  induction earlier with
  | nil => rfl
  | cons segment earlier ih =>
    have hsum : receives room (segment :: earlier) =
        receives room earlier + max 1 (segment.length ⌈/⌉ room) := by
      rw [receives, List.map_cons, List.sum_cons, Nat.add_comm, receives]
    rw [hsum, Function.iterate_add_apply, List.cons_append, iterate_rest_cons hroom, ih]

/-! ### Frames that arrive -/

namespace Frame

/-- The frames that receives bring one after the other, each from the segment in front and as much
of it as there is room for. -/
inductive Arrives (room : Nat) : List Bytes → List (List Sent) → Prop
  | nil : Arrives room [] []
  | cons {segment : Bytes} {segments : List Bytes} {fs : List Sent} {fss : List (List Sent)}
    (hfront : segment.take room = stream fs)
    (hrest : Arrives room (rest room (segment :: segments)) fss) :
    Arrives room (segment :: segments) (fs :: fss)

/-- What is left after one receive arrives as before. -/
theorem Arrives.tail {room : Nat} {segments : List Bytes} {fss : List (List Sent)}
    (harr : Arrives room segments fss) : Arrives room (rest room segments) fss.tail := by
  cases harr with
  | nil => exact .nil
  | cons _ hrest => exact hrest

theorem Arrives.drop {room : Nat} {segments : List Bytes} {fss : List (List Sent)}
    (harr : Arrives room segments fss) (n : Nat) :
    Arrives room ((rest room)^[n] segments) (fss.drop n) := by
  induction n with
  | zero => exact harr
  | succ n ih =>
    rw [Function.iterate_succ_apply', ← List.tail_drop]
    exact ih.tail

/-- No frame of a stream stands partly in one receive and partly in the next. -/
def Unbroken (room : Nat) (fs : List Sent) : Prop :=
  ∀ before f after, fs = before ++ f :: after →
    (stream before).length % room + f.bytes.length ≤ room

variable {room : Nat} {fs : List Sent}

theorem unbroken_iff : Unbroken room fs ↔ ∀ i : Fin fs.length,
    (stream (fs.take i)).length % room + fs[i].bytes.length ≤ room := by
  constructor
  · intro hw i
    refine hw (fs.take i) fs[i] (fs.drop (i + 1)) ?_
    rw [Fin.getElem_fin, ← List.drop_eq_getElem_cons, List.take_append_drop]
  · rintro hw before f after rfl
    have hi := hw ⟨before.length, by simp⟩
    simpa using hi

instance (room : Nat) (fs : List Sent) : Decidable (Unbroken room fs) :=
  decidable_of_iff _ unbroken_iff.symm

theorem Unbroken.length_le (hw : Unbroken room fs) {f : Sent} (hf : f ∈ fs) :
    f.bytes.length ≤ room := by
  obtain ⟨before, after, rfl⟩ := List.append_of_mem hf
  have hle := hw before f after rfl
  omega

/-- What comes behind a full receive is unbroken too. -/
theorem Unbroken.behind {front back : List Sent} (hw : Unbroken room (front ++ back))
    (hfull : (stream front).length = room) : Unbroken room back := by
  rintro before f after rfl
  have hle := hw (front ++ before) f after (by rw [List.append_assoc])
  rwa [stream_append, List.length_append, hfull, Nat.add_mod_left] at hle

/-- **The first receive** of an unbroken stream brings all of it, or is full and ends with a
frame. -/
theorem Unbroken.exists_front (hw : Unbroken room fs) :
    (stream fs).length ≤ room ∨
      ∃ front back, fs = front ++ back ∧ back ≠ [] ∧ (stream front).length = room := by
  -- frames are added to the front as long as there is room behind them
  suffices h : ∀ back front, fs = front ++ back → (stream front).length ≤ room →
      (stream fs).length ≤ room ∨
        ∃ front back, fs = front ++ back ∧ back ≠ [] ∧ (stream front).length = room from
    h fs [] rfl (Nat.zero_le _)
  intro back
  induction back with
  | nil =>
    rintro front rfl hle
    left
    rwa [List.append_nil]
  | cons f back ih =>
    intro front hfs hle
    obtain hfull | hlt := hle.eq_or_lt
    · exact .inr ⟨front, f :: back, hfs, List.cons_ne_nil _ _, hfull⟩
    · refine ih (front ++ [f]) (by rw [hfs, List.append_assoc]; rfl) ?_
      have hroom := hw front f back hfs
      rw [Nat.mod_eq_of_lt hlt] at hroom
      rwa [stream_append, List.length_append, stream_cons, stream_nil, List.append_nil]

/-- **Frames in a segment of their own** arrive one by one. -/
theorem arrives_each (hle : ∀ f ∈ fs, f.bytes.length ≤ room) :
    Arrives room (fs.map Sent.bytes) (fs.map fun f => [f]) := by
  induction fs with
  | nil => exact .nil
  | cons f fs ih =>
    have hf := hle f List.mem_cons_self
    have hrest := ih fun g hg => hle g (List.mem_cons_of_mem _ hg)
    refine .cons ?_ ?_
    · rw [List.take_of_length_le hf, stream_cons, stream_nil, List.append_nil]
    · rwa [rest, List.drop_eq_nil_of_le hf, List.isEmpty_nil, if_pos rfl]

/-- **An unbroken stream in one segment** arrives in frames, and in as few receives as its length
needs. -/
theorem Unbroken.exists_arrives (hroom : 0 < room) (hw : Unbroken room fs) :
    ∃ fss, fss.flatten = fs ∧ Arrives room [stream fs] fss ∧
      (fs ≠ [] → [] ∉ fss ∧ fss.length = (stream fs).length ⌈/⌉ room) := by
  induction hn : fs.length using Nat.strong_induction_on generalizing fs with | h n ih =>
  obtain hle | ⟨front, back, rfl, hback, hfull⟩ := hw.exists_front
  · refine ⟨[fs], by simp, .cons (List.take_of_length_le hle) ?_, fun hne => ⟨?_, ?_⟩⟩
    · rw [rest, List.drop_eq_nil_of_le hle, List.isEmpty_nil, if_pos rfl]
      exact .nil
    · simpa using Ne.symm hne
    · rw [List.length_singleton, ceilDiv_of_le (length_stream_pos hne) hle]
  · have hfront : front ≠ [] := by
      rintro rfl
      exact hroom.ne hfull
    have hshort : back.length < (front ++ back).length := by
      have hpos := List.length_pos_iff.mpr hfront
      rw [List.length_append]
      omega
    obtain ⟨fss, hflat, harrives, hrest⟩ := ih _ (hn ▸ hshort) (hw.behind hfull) rfl
    obtain ⟨hfss, hlen⟩ := hrest hback
    refine ⟨front :: fss, by rw [List.flatten_cons, hflat], .cons ?_ ?_, fun _ => ⟨?_, ?_⟩⟩
    · rw [stream_append, List.take_left' hfull]
    · have hleft : (stream back).isEmpty = false := by
        rw [List.isEmpty_eq_false_iff, ← List.length_pos_iff]
        exact length_stream_pos hback
      rw [rest, stream_append, List.drop_left' hfull, hleft, if_neg Bool.false_ne_true]
      exact harrives
    · simp [hfront.symm, hfss]
    · rw [List.length_cons, hlen, stream_append, List.length_append, hfull, ceilDiv_add hroom]

end Frame

end Microweb
