import Microweb.Proofs.Bench
import Microweb.Proofs.RequestLine
import Microweb.Proofs.Steps

/-!
Requests that the receive buffer cuts. A connection receives once, with room for a path of the
greatest length, and what has no room is not looked at. The path of a request that is served is
never cut: the check of its length sees any path that comes near the end of the buffer. The length
of a query is not checked, and a line may end anywhere, so that a request whose line crosses the end
of the buffer may be served with the front of its query.
-/

namespace Microweb

namespace RequestLine

/-! ### A line that is cut -/

variable {line : Bytes} {j : Nat}

theorem targetIn_take (line : Bytes) (j : Nat) :
    targetIn (line.take j) = (targetIn line).take (j - 4) := by
  rw [targetIn, List.drop_take, ← List.take_takeWhile, targetIn]

theorem pathIn_take (line : Bytes) (j : Nat) :
    pathIn (line.take j) = (pathIn line).take (j - 4) := by
  rw [pathIn, targetIn_take, ← List.take_takeWhile, pathIn]

/-- A path that ends before the end of the buffer is whole. -/
theorem pathIn_take_of_lt (h : (pathIn (line.take j)).length + 4 < j) :
    pathIn (line.take j) = pathIn line := by
  rw [pathIn_take, List.length_take] at h
  rw [pathIn_take, List.take_of_length_le (by omega)]

theorem question_mem_iff :
    Byte.question ∈ targetIn line ↔ (pathIn line).length < (targetIn line).length := by
  unfold pathIn
  cases hfind : (targetIn line).findIdx? (· == Byte.question) with
  | some n =>
    obtain ⟨hlt, htake⟩ := takeWhile_of_findIdx?_some hfind
    obtain ⟨_, hbyte, -⟩ := List.findIdx?_eq_some_iff_getElem.mp hfind
    have hmem := List.getElem_mem hlt
    rw [show (targetIn line)[n] = Byte.question by simpa using hbyte] at hmem
    rw [htake, List.length_take]
    exact ⟨fun _ => by omega, fun _ => hmem⟩
  | none =>
    rw [takeWhile_of_findIdx?_none hfind]
    refine ⟨fun hmem => ?_, fun h => absurd h (Nat.lt_irrefl _)⟩
    simpa using List.findIdx?_eq_none_iff.mp hfind _ hmem

/-- Behind a whole path, the query is cut as the line is. -/
theorem queryIn?_take (h : (pathIn (line.take j)).length + 4 < j) :
    queryIn? (line.take j) =
      (queryIn? line).map (·.take (j - 4 - ((pathIn line).length + 1))) := by
  have hpath := pathIn_take_of_lt h
  rw [hpath] at h
  have hmem : Byte.question ∈ targetIn (line.take j) ↔ Byte.question ∈ targetIn line := by
    rw [question_mem_iff, question_mem_iff, hpath, targetIn_take, List.length_take]
    omega
  unfold queryIn?
  rw [hpath]
  by_cases hq : Byte.question ∈ targetIn line
  · rw [if_pos hq, if_pos (hmem.mpr hq), targetIn_take, List.drop_take, Option.map_some]
  · rw [if_neg hq, if_neg (mt hmem.mp hq), Option.map_none]

theorem length_of_queryIn? {q : Bytes} (h : queryIn? line = some q) :
    q.length ≤ (targetIn line).length - ((pathIn line).length + 1) := by
  unfold queryIn? at h
  split at h
  · cases h
    rw [List.length_drop]
  · cases h

end RequestLine

namespace Request

/-- A head that is cut has the front of its first line, or all of it. -/
theorem firstLine_take (head : Bytes) (room : Nat) :
    ((head.takeWhile fun b => ! (b == Byte.lf)).length ≤ room →
        firstLine (head.take room) = firstLine head) ∧
      ∃ j, room ≤ j + 1 ∧ firstLine (head.take room) = (firstLine head).take j := by
  unfold firstLine
  rw [← List.take_takeWhile]
  generalize head.takeWhile (fun b => ! (b == Byte.lf)) = w
  by_cases hle : w.length ≤ room
  · rw [List.take_of_length_le hle]
    refine ⟨fun _ => rfl, room, by omega, (List.take_of_length_le ?_).symm⟩
    dsimp only
    split
    · rw [List.length_dropLast]
      omega
    · exact hle
  · refine ⟨fun h => absurd h hle, ?_⟩
    have hfront : ∀ j ≤ room, (if w.getLast? = some Byte.cr then w.dropLast else w).take j =
        w.take j := by
      intro j hj
      split
      · rw [List.dropLast_eq_take, List.take_take, Nat.min_eq_left (by omega)]
      · rfl
    dsimp only
    split
    · refine ⟨room - 1, by omega, ?_⟩
      rw [hfront _ (by omega), List.dropLast_take (by omega)]
    · exact ⟨room, by omega, (hfront room (Nat.le_refl _)).symm⟩

/-- What a server makes of a head that it has the front of: a request that it acts on, or none. -/
structure ActsOnFront (config : Config) (head : Bytes) (a : Option Request) : Prop where
  /-- If all of the first line is there, the request is taken for what it is. -/
  whole : (head.takeWhile fun b => ! (b == Byte.lf)).length ≤ config.requestRoom →
    a = (parse head config.maxUriLength).toOption.map
      fun r => { r with head := head.take config.requestRoom }
  /-- The path is never shortened. -/
  uri : ∀ r ∈ a, Percent.decode (RequestLine.pathIn (firstLine head)) = .ok r.uri
  /-- The query is that of the line, but for what is behind the end of the buffer. -/
  query : ∀ r ∈ a, ∃ n, config.requestRoom ≤
      (RequestLine.pathIn (firstLine head)).length + n + 6 ∧
    r.query = ((RequestLine.queryIn? (firstLine head)).map fun q => Query.parse (q.take n)).getD []
  /-- So it agrees with the whole head, unless the target comes up to the end of the buffer. -/
  agrees : ∀ r, parse head config.maxUriLength = .ok r → ∀ r' ∈ a, r'.uri = r.uri ∧
    (r'.query = r.query ∨
      config.requestRoom ≤ (RequestLine.targetIn (firstLine head)).length + 4)

/-- **What becomes of a request that is cut.** -/
theorem actsOnFront (config : Config) (head : Bytes) :
    ActsOnFront config head
      (parse (head.take config.requestRoom) config.maxUriLength).toOption := by
  have hroom : config.maxUriLength + 16 ≤ config.requestRoom := Nat.le_max_right _ _
  obtain ⟨hsame, j, hj, hcut⟩ := firstLine_take head config.requestRoom
  have hok : ∀ r ∈ (parse (head.take config.requestRoom) config.maxUriLength).toOption,
      Percent.decode (RequestLine.pathIn (firstLine head)) = .ok r.uri ∧
        r.query = ((RequestLine.queryIn? (firstLine head)).map fun q => Query.parse (q.take
          (j - 4 - ((RequestLine.pathIn (firstLine head)).length + 1)))).getD [] := by
    intro r hr
    cases hparse : parse (head.take config.requestRoom) config.maxUriLength with
    | error e =>
      rw [hparse] at hr
      cases hr
    | ok r' =>
      rw [hparse] at hr
      cases hr
      obtain ⟨huri, hlong, hquery⟩ := parse_ok hparse
      rw [hcut] at huri hlong hquery
      have hlt : (RequestLine.pathIn ((firstLine head).take j)).length + 4 < j := by omega
      rw [RequestLine.pathIn_take_of_lt hlt] at huri
      rw [RequestLine.queryIn?_take hlt, Option.map_map] at hquery
      exact ⟨huri, hquery⟩
  refine ⟨fun hline => ?_, fun r hr => (hok r hr).1,
    fun r hr => ⟨_, by omega, (hok r hr).2⟩, fun r hr r' hr' => ?_⟩
  · by_cases hne : head = []
    · rw [hne, List.take_nil]
      rfl
    · have hne' : head.take config.requestRoom ≠ [] := by
        simp only [Ne, List.take_eq_nil_iff, hne, or_false]
        omega
      rw [parse_congr hne hne' (hsame hline)]
      cases parse head config.maxUriLength <;> rfl
  · obtain ⟨huri, -, hquery⟩ := parse_ok hr
    obtain ⟨huri', hquery'⟩ := hok r' hr'
    refine ⟨Except.ok.inj (huri'.symm.trans huri), ?_⟩
    by_cases hend : config.requestRoom ≤ (RequestLine.targetIn (firstLine head)).length + 4
    · exact .inr hend
    · left
      rw [hquery, hquery']
      cases hq : RequestLine.queryIn? (firstLine head) with
      | none => rfl
      | some q =>
        have hlen := RequestLine.length_of_queryIn? hq
        rw [Option.map_some, Option.map_some, List.take_of_length_le (by omega)]

end Request

namespace Client

variable {P : Platform}

/-- What is made of the bytes of a receive: a request is gone on with, or, where there is none, the
page for what is not there is sent. -/
inductive Takes (c : Client P) (conn : P.Conn) (config : Config) (peers : Peers P.Conn)
    (h : Host P) : Option Request → Client P × Peers P.Conn × Host P → Prop
  | goesOn (r : Request) : Takes c conn config peers h (some r) (c.dispatch conn config r peers h)
  | turnsAway (url : String) (e : ParseError) :
    Takes c conn config peers h none
      ((c.replyNotFound url (h.note (.badRequest c.address e))).1, peers,
        (c.replyNotFound url (h.note (.badRequest c.address e))).2)

variable {c : Client P} {conn : P.Conn} {config : Config} {peers : Peers P.Conn} {h : Host P}

theorem request_dispatch (r : Request) : (c.dispatch conn config r peers h).1.request = some r ∨
    (c.dispatch conn config r peers h).1.kind = .socket := by
  have hserve : ∀ h, (c.serve config r h).1.request = some r := by
    intro h
    unfold serve
    dsimp only
    split
    · rfl
    · rfl
    · rw [replyNotFound_eq]
      rfl
  unfold dispatch
  dsimp only
  split
  · split
    · exact .inr rfl
    · exact .inl (hserve _)
    · exact .inl (hserve _)
  · exact .inl (hserve _)

/-- What was made of the bytes can be told from the connection, unless it is upgraded. -/
theorem Takes.request_eq {a : Option Request} {result : Client P × Peers P.Conn × Host P}
    (ht : c.Takes conn config peers h a result) (hfresh : c.request = none)
    (hkind : result.1.kind = .get) : result.1.request = a := by
  cases ht with
  | goesOn r =>
    obtain hr | hr := c.request_dispatch r
    · exact hr
    · rw [hr] at hkind
      cases hkind
  | turnsAway url e =>
    rw [replyNotFound_eq]
    exact hfresh

theorem takes_receive {head : Bytes} (hconn : c.conn = some conn)
    (hreceive : (h.receive conn config.requestRoom).1 = .ok head) :
    c.Takes conn config peers (h.receive conn config.requestRoom).2
      (Request.parse head config.maxUriLength).toOption (c.receive config peers h) := by
  unfold receive
  rw [hconn]
  dsimp only
  generalize h.receive conn config.requestRoom = received at hreceive ⊢
  obtain ⟨result, h'⟩ := received
  obtain rfl : result = .ok head := hreceive
  dsimp only
  cases Request.parse head config.maxUriLength with
  | error e => exact .turnsAway _ e
  | ok r => exact .goesOn r

/-- **A request in a buffer that is too small.** -/
theorem acts_on_front {bs : Bytes} (hstage : c.stage = .request) (hconn : c.conn = some conn)
    (hsent : (h.receive conn config.requestRoom).1 = .ok (bs.take config.requestRoom)) :
    ∃ a, c.Takes conn config peers (h.receive conn config.requestRoom).2 a
        (c.step config peers h) ∧ Request.ActsOnFront config bs a := by
  have hstep : c.step config peers h = c.receive config peers h := by
    unfold step
    rw [hstage]
  rw [hstep]
  exact ⟨_, takes_receive hconn hsent, Request.actsOnFront config bs⟩

/-- The size of the buffer does not matter: a head is turned away if it cannot be read as a whole,
and if it can, it is turned away or gone on with by the same path and the same query. -/
def TakesWhole (c : Client P) (conn : P.Conn) (config : Config) (peers : Peers P.Conn) (h : Host P)
    (head : Bytes) (result : Client P × Peers P.Conn × Host P) : Prop :=
  c.Takes conn config peers h none result ∨
    ∃ r, Request.parse head config.maxUriLength = .ok r ∧ ∃ r', r'.uri = r.uri ∧
      r'.query = r.query ∧ c.Takes conn config peers h (some r') result

/-- It does matter where a request is gone on with that has another query. -/
theorem TakesWhole.query_eq {head : Bytes} {result : Client P × Peers P.Conn × Host P} {q : Query}
    (ht : c.TakesWhole conn config peers h head result) (hfresh : c.request = none)
    (hkind : result.1.kind = .get) (hquery : result.1.request.map Request.query = some q) :
    (Request.parse head config.maxUriLength).toOption.map Request.query = some q := by
  obtain ht | ⟨r, hr, r', -, hsame, ht⟩ := ht
  · rw [ht.request_eq hfresh hkind] at hquery
    cases hquery
  · rw [ht.request_eq hfresh hkind, Option.map_some, hsame] at hquery
    rw [hr]
    exact hquery

end Client

/-! ### A query that is cut -/

namespace Truncation

open Bench

/-- The buffer has 32 bytes. -/
def narrow : Config :=
  { Config.default with maxConnections := 2, maxUriLength := 8, outputSize := 32 }

/-- A request whose query ends behind the buffer. -/
def long : Bytes := getRequest "/a.lua?x=0123456789ABCDEFGHIJ"

/-- The same request with a word too many on its line, which is behind the buffer. -/
def wrong : Bytes := Utf8.encode (lineOf "GET /a.lua?x=0123456789ABCDEFGHIJ HTTP/1.1 now")

/-- A server with a script for the path, to which a client has sent these bytes. -/
def host (bs : Bytes) : Host kit :=
  ((onRecord narrow .empty (Scripts.empty.withScript "/html/a.lua" (.echoQuery "x"))).onNetwork
    fun ws => (ws.connect (clientAddress 1)).update 0 fun w => w.send bs).host

def conn : Handle := ⟨0, clientAddress 1⟩

/-- What is made of these bytes. -/
def result (bs : Bytes) : Client kit × Peers Handle × Host kit :=
  (Client.fresh conn).step narrow (.empty 4) (host bs)

theorem received (bs : Bytes) :
    ((host bs).receive conn narrow.requestRoom).1 = .ok (bs.take narrow.requestRoom) := rfl

/-- Both are gone on with, by a query that lacks its last byte. -/
theorem query_result (bs : Bytes) (h : bs = long ∨ bs = wrong) :
    (result bs).1.request.map Request.query = some [⟨"x", "0123456789ABCDEFGHI"⟩] := by
  obtain rfl | rfl := h <;> decide +kernel

theorem not_takesWhole : narrow.Valid ∧ ∀ bs, bs = long ∨ bs = wrong →
    ((host bs).receive conn narrow.requestRoom).1 = .ok (bs.take narrow.requestRoom) ∧
      ¬ (Client.fresh conn).TakesWhole conn narrow (.empty 4)
        ((host bs).receive conn narrow.requestRoom).2 bs (result bs) := by
  refine ⟨by decide, fun bs hbs => ⟨received bs, fun ht => ?_⟩⟩
  have hkind : (result bs).1.kind = .get := by
    obtain rfl | rfl := hbs <;> decide +kernel
  have hquery := ht.query_eq rfl hkind (query_result bs hbs)
  obtain rfl | rfl := hbs
  · revert hquery
    decide +kernel
  · revert hquery
    decide +kernel

theorem acts_on_front_long : ∃ a, (Client.fresh conn).Takes conn narrow (.empty 4)
    ((host long).receive conn narrow.requestRoom).2 a (result long) ∧
      Request.ActsOnFront narrow long a :=
  Client.acts_on_front rfl rfl (received long)

end Truncation

end Microweb
