import Microweb.Proofs.Base64
import Microweb.Proofs.Bench
import Microweb.Proofs.Peers
import Microweb.Proofs.RequestLine
import Microweb.Proofs.Steps
import Microweb.Proofs.Doubles.Server

/-!
A request that asks for an upgrade. Either its connection moves from its slot into the pool, or it
is served like any other request, and then nothing shows that an upgrade was asked for
(`Server.upgrade_or_get`).
-/

namespace Microweb

variable {P : Platform}

/-- The client's keys are the texts of sixteen bytes. -/
theorem Socket.isClientKey_iff {key : Bytes} :
    isClientKey key = true ↔ ∃ nonce : Bytes, nonce.length = 16 ∧ key = Base64.encode nonce := by
  simp only [isClientKey, Option.any_eq_true, beq_iff_eq, Base64.decode?_eq_some_iff]
  exact exists_congr fun _ => And.comm

namespace Handshake

/-! ### What an upgrade takes -/

/-- **An upgrade is due** for a key: the remote end is no peer yet, and the head has the key, which
is the Base64 text of sixteen bytes. -/
structure Due (conn : P.Conn) (r : Request) (peers : Peers P.Conn) (key : Bytes) : Prop where
  stranger : ∀ p ∈ peers.list, p.address ≠ P.network.address conn
  found : r.field? "Sec-WebSocket-Key" = some key
  canonical : ∃ nonce : Bytes, nonce.length = 16 ∧ key = Base64.encode nonce

section Due

variable {conn : P.Conn} {r : Request} {peers : Peers P.Conn} {h : Host P} {key key' : Bytes}

theorem Due.length (hdue : Due conn r peers key) : key.length = 24 := by
  obtain ⟨nonce, hlength, rfl⟩ := hdue.canonical
  rw [Base64.length_encode, hlength]

/-- There is one key at most. -/
theorem Due.unique (hdue : Due conn r peers key) (hdue' : Due conn r peers key') : key = key' :=
  Option.some.inj (hdue.found.symm.trans hdue'.found)

theorem contains_eq_false_iff : peers.contains (P.network.address conn) = false ↔
    ∀ p ∈ peers.list, p.address ≠ P.network.address conn := by
  simp only [Peers.contains, List.any_eq_false, beq_iff_eq, ne_eq]

theorem clientKey_eq_ok_iff : clientKey r = .ok key ↔ r.field? "Sec-WebSocket-Key" = some key ∧
    ∃ nonce : Bytes, nonce.length = 16 ∧ key = Base64.encode nonce := by
  rw [← Socket.isClientKey_iff]
  unfold clientKey
  cases r.field? "Sec-WebSocket-Key" with
  | none => simp
  | some found => by_cases hkey : Socket.isClientKey found = true <;> grind

theorem due_iff : Due conn r peers key ↔
    peers.contains (P.network.address conn) = false ∧ clientKey r = .ok key := by
  rw [contains_eq_false_iff, clientKey_eq_ok_iff]
  exact ⟨fun h => ⟨h.stranger, h.found, h.canonical⟩, fun ⟨h, h', h''⟩ => ⟨h, h', h''⟩⟩

/-- **How a handshake goes.** -/
inductive Goes (conn : P.Conn) (r : Request) (peers : Peers P.Conn) (h : Host P) :
    Handshake × Peers P.Conn × Host P → Prop
  /-- The key is answered. -/
  | admits {key : Bytes} {g : Host P} (hdue : Due conn r peers key)
    (hwrite : h.write conn (Reply.switchingProtocols (Socket.acceptKey key)) = (.ok (), g)) :
    Goes conn r peers h (.upgraded, join conn r.uri peers g)
  /-- The answer cannot be written. -/
  | breaks {key : Bytes} {e : NetError} {g : Host P} (hdue : Due conn r peers key)
    (hwrite : h.write conn (Reply.switchingProtocols (Socket.acceptKey key)) = (.error e, g)) :
    Goes conn r peers h (.failed (.network e), peers, g)
  /-- There is nothing to be answered, and nothing is done. -/
  | declines {o : Handshake} (hdue : ∀ key, ¬ Due conn r peers key) (ho : o ≠ .upgraded) :
    Goes conn r peers h (o, peers, h)

theorem goes_run (conn : P.Conn) (r : Request) (peers : Peers P.Conn) (h : Host P) :
    Goes conn r peers h (run conn r peers h) := by
  unfold run
  by_cases hpeer : peers.contains (P.network.address conn) = true
  · rw [if_pos hpeer]
    refine .declines (fun key hdue => ?_) nofun
    rw [(due_iff.mp hdue).1] at hpeer
    cases hpeer
  · rw [if_neg hpeer]
    cases hkey : clientKey r with
    | error e =>
      refine .declines (fun key hdue => ?_) nofun
      rw [(due_iff.mp hdue).2] at hkey
      cases hkey
    | ok key =>
      have hdue : Due conn r peers key := due_iff.mpr ⟨Bool.eq_false_iff.mpr hpeer, hkey⟩
      simp only
      cases hwrite : h.write conn (Reply.switchingProtocols (Socket.acceptKey key)) with
      | mk w g =>
        cases w with
        | error e => exact .breaks hdue hwrite
        | ok u => exact .admits hdue hwrite

theorem run_of_ok {g : Host P} (hdue : Due conn r peers key)
    (hwrite : h.write conn (Reply.switchingProtocols (Socket.acceptKey key)) = (.ok (), g)) :
    run conn r peers h = (.upgraded, join conn r.uri peers g) := by
  have hgoes := goes_run conn r peers h
  generalize run conn r peers h = x at hgoes ⊢
  cases hgoes with
  | admits hdue' hwrite' =>
    obtain rfl := hdue.unique hdue'
    obtain ⟨-, rfl⟩ := Prod.mk.inj (hwrite.symm.trans hwrite')
    rfl
  | breaks hdue' hwrite' =>
    obtain rfl := hdue.unique hdue'
    cases hwrite.symm.trans hwrite'
  | declines hnone => exact (hnone key hdue).elim

theorem run_of_not_due (hdue : ∀ key, ¬ Due conn r peers key) :
    ∃ o, o ≠ .upgraded ∧ run conn r peers h = (o, peers, h) := by
  have hgoes := goes_run conn r peers h
  generalize run conn r peers h = x at hgoes ⊢
  cases hgoes with
  | admits hdue' => exact (hdue _ hdue').elim
  | breaks hdue' => exact (hdue _ hdue').elim
  | declines _ ho => exact ⟨_, ho, rfl⟩

/-- **The decision**: the key that is due is answered, and that succeeds. -/
theorem run_eq_upgraded_iff : (run conn r peers h).1 = .upgraded ↔
    ∃ key, Due conn r peers key ∧
      (h.write conn (Reply.switchingProtocols (Socket.acceptKey key))).1 = .ok () := by
  refine ⟨fun hup => ?_, fun ⟨key, hdue, hwrite⟩ => ?_⟩
  · have hgoes := goes_run conn r peers h
    generalize run conn r peers h = x at hgoes hup
    cases hgoes with
    | admits hdue hwrite => exact ⟨_, hdue, congrArg Prod.fst hwrite⟩
    | breaks => cases hup
    | declines _ ho => exact (ho hup).elim
  · rw [run_of_ok hdue (Prod.ext hwrite rfl)]

/-- Unless there is an upgrade, nothing was done but for a write that failed. -/
theorem run_of_ne_upgraded (hne : (run conn r peers h).1 ≠ .upgraded) :
    (run conn r peers h).2.1 = peers ∧
      ((run conn r peers h).2.2 = h ∨ ∃ key e, Due conn r peers key ∧
        h.write conn (Reply.switchingProtocols (Socket.acceptKey key)) =
          (.error e, (run conn r peers h).2.2)) := by
  have hgoes := goes_run conn r peers h
  generalize run conn r peers h = x at hgoes hne ⊢
  cases hgoes with
  | admits => exact (hne rfl).elim
  | breaks hdue hwrite => exact ⟨rfl, .inr ⟨_, _, hdue, hwrite⟩⟩
  | declines => exact ⟨rfl, .inl rfl⟩

end Due

theorem network_closeDisplaced (ps : List (Peer P.Conn)) (h : Host P) :
    (closeDisplaced ps h).network =
      ps.foldl (fun n p => P.network.close p.handle n) h.network := by
  unfold closeDisplaced
  induction ps generalizing h with
  | nil => rfl
  | cons p ps ih => exact ih _

end Handshake

/-- A head with the first line of a request, and without the field that asks for an upgrade. -/
theorem Request.parse_plain {head head' : Bytes} {r : Request} {maxPath : Nat}
    (hread : parse head maxPath = .ok r) (hline : firstLine head' = firstLine head)
    (hplain : Field.find? head' "Upgrade" = none) :
    ∃ r', parse head' maxPath = .ok r' ∧ r.bare = r'.bare ∧ r'.wantsUpgrade = false := by
  have hfirst := firstLine_ne_nil hread
  have hne : head ≠ [] := by
    rintro rfl
    exact hfirst rfl
  have hne' : head' ≠ [] := by
    rintro rfl
    exact hfirst hline.symm
  refine ⟨{ r with head := head' }, ?_, rfl, ?_⟩
  · rw [parse_congr hne hne' hline, hread]
    rfl
  · simp only [wantsUpgrade, field?, hplain, Option.any_none]

/-! ### The connection -/

namespace Client

variable {c : Client P} {conn : P.Conn} {config : Config} {r : Request} {peers ps : Peers P.Conn}
  {h g : Host P}

/-- A connection that is served has its handle, and is not done with. -/
theorem serve_open (c : Client P) (config : Config) (r : Request) (h : Host P) :
    (c.serve config r h).1.conn = c.conn ∧ (c.serve config r h).1.phase ≠ .closed := by
  simp only [serve]
  split
  · exact ⟨rfl, fun hphase => by cases hphase⟩
  · exact ⟨rfl, fun hphase => by cases hphase⟩
  · rw [replyNotFound_eq]
    exact ⟨rfl, fun hphase => by cases hphase⟩

theorem dispatch_of_upgraded (hwants : r.wantsUpgrade = true)
    (hrun : Handshake.run conn r peers (h.note (.request c.address r.uri)) = (.upgraded, ps, g)) :
    c.dispatch conn config r peers h =
      ({ c with kind := .socket, conn := none, stage := .closed }, ps, g) := by
  simp only [dispatch, hwants, if_true, hrun]

theorem dispatch_of_ne_upgraded {o : Handshake} (hwants : r.wantsUpgrade = true)
    (hrun : Handshake.run conn r peers (h.note (.request c.address r.uri)) = (o, ps, g))
    (ho : o ≠ .upgraded) : ∃ n, c.dispatch conn config r peers h =
      ((c.serve config r (g.note n)).1, ps, (c.serve config r (g.note n)).2) := by
  simp only [dispatch, hwants, if_true, hrun]
  cases o with
  | upgraded => exact (ho rfl).elim
  | alreadyPeer => exact ⟨_, rfl⟩
  | failed e => exact ⟨_, rfl⟩

end Client

/-! ### The server -/

namespace Server

variable {s : Server P} {i : Nat} {conn : P.Conn} {head head' : Bytes} {r : Request}
  {n m : P.network.State}

/-- **The connection in a slot receives** the head of a request, and that leaves the network in a
state. -/
structure Reads (s : Server P) (i : Nat) (conn : P.Conn) (head : Bytes) (r : Request)
    (n : P.network.State) : Prop where
  slot : ∃ c, s.slots.get? i = some c ∧ c.stage = .request ∧ c.conn = some conn
  received : P.network.receive conn s.config.requestRoom s.host.network = (.ok head, n)
  read : Request.parse head s.config.maxUriLength = .ok r

/-- **The connection in a slot becomes** the first peer, with the network in a state. Of the peers
that there were each one stays or is closed. -/
structure Admits (s t : Server P) (i : Nat) (p : Peer P.Conn) (n : P.network.State) : Prop where
  left : t.slots.get? i = none
  front : t.peers.list.head? = some p
  closed : ∃ displaced : List (Peer P.Conn),
    (t.peers.list ++ displaced).Perm (p :: s.peers.list) ∧
      t.host.network = displaced.foldl (fun n p => P.network.close p.handle n)
        (P.network.setTimeouts p.handle ⟨0, s.host.control.timeouts.send⟩ n)

/-- **The connection in a slot stays** there, and the pool is as it was. -/
structure Keeps (s t : Server P) (i : Nat) (conn : P.Conn) : Prop where
  slot : ∃ c, t.slots.get? i = some c ∧ c.conn = some conn
  peers : t.peers = s.peers

/-- The work of a slot that receives a request. -/
theorem Reads.step {c : Client P} (hs : s.Reads i conn head r n) (hget : s.slots.get? i = some c) :
    c.conn = some conn ∧ c.step s.config s.peers s.host =
      c.dispatch conn s.config r s.peers { s.host with network := n } := by
  obtain ⟨d, hget', hstage, hconn⟩ := hs.slot
  obtain rfl : c = d := Option.some.inj (hget.symm.trans hget')
  have hreceive : s.host.receive conn s.config.requestRoom =
      (.ok head, { s.host with network := n }) := by
    simp only [Host.receive, hs.received]
  refine ⟨hconn, ?_⟩
  simp only [Client.step, hstage, Client.receive, hconn, hreceive, hs.read]

theorem Reads.admits {key : Bytes} {n₁ : P.network.State} (hs : s.Reads i conn head r n)
    (hwants : r.wantsUpgrade = true) (hdue : Handshake.Due conn r s.peers key)
    (hwrite : P.network.write conn (Reply.switchingProtocols (Socket.acceptKey key)) n =
      (.ok (), n₁)) :
    s.Admits (s.stepSlot i) i (.fresh conn (P.network.address conn) r.uri) n₁ := by
  obtain ⟨c, hget, -, -⟩ := hs.slot
  obtain ⟨-, hstep⟩ := hs.step hget
  let h : Host P := { s.host with network := n }.note (.request c.address r.uri)
  have hwrite' : h.write conn (Reply.switchingProtocols (Socket.acceptKey key)) =
      (.ok (), { h with network := n₁ }) := by
    simp only [Host.write, show h.network = n from rfl, hwrite]
  rw [Client.dispatch_of_upgraded hwants (Handshake.run_of_ok hdue hwrite')] at hstep
  -- the connection has left the client, so that freeing the slot closes nothing
  have hslot : s.stepSlot i = { s with
      slots := (s.slots.remove i).2
      peers := (Handshake.join conn r.uri s.peers { h with network := n₁ }).1
      host := (Handshake.join conn r.uri s.peers { h with network := n₁ }).2.note
        (.slotFree i .socket) } := by
    unfold stepSlot
    simp only [hget, hstep]
    rfl
  rw [hslot]
  refine ⟨Slots.get?_remove_self, rfl, _, Peers.enrol_perm _ _, ?_⟩
  exact Handshake.network_closeDisplaced _ _

/-- The connection of a request that is served stays in its slot. -/
theorem Reads.keeps (hs : s.Reads i conn head r n) (hwants : r.wantsUpgrade = true)
    (hno : ∀ key, Handshake.Due conn r s.peers key →
      (P.network.write conn (Reply.switchingProtocols (Socket.acceptKey key)) n).1 ≠ .ok ()) :
    s.Keeps (s.stepSlot i) i conn := by
  obtain ⟨c, hget, -, -⟩ := hs.slot
  obtain ⟨hconn, hstep⟩ := hs.step hget
  have hne : (Handshake.run conn r s.peers ({ s.host with network := n }.note
      (.request c.address r.uri))).1 ≠ .upgraded := by
    rw [Ne, Handshake.run_eq_upgraded_iff]
    exact fun ⟨key, hdue, hwrite⟩ => hno key hdue hwrite
  obtain ⟨hpeers, -⟩ := Handshake.run_of_ne_upgraded hne
  obtain ⟨note, hdispatch⟩ := Client.dispatch_of_ne_upgraded hwants rfl hne
  rw [hdispatch] at hstep
  obtain ⟨hserved, hopen⟩ := Client.serve_open c s.config r _
  rw [stepSlot_of_open hget (by rw [hstep]; exact hopen), hstep]
  exact ⟨⟨_, Slots.get?_set_self (Slots.lt_of_get? hget), hserved.trans hconn⟩, hpeers⟩

/-- **Where no upgrade is due,** nothing tells the server from one that receives the same request
line, without the field that asks for an upgrade. -/
theorem Reads.inseparable (hs : s.Reads i conn head r n) (hwants : r.wantsUpgrade = true)
    (hno : ∀ key, ¬ Handshake.Due conn r s.peers key)
    (hreceived : P.network.receive conn s.config.requestRoom m = (.ok head', n))
    (hline : Request.firstLine head' = Request.firstLine head)
    (hplain : Field.find? head' "Upgrade" = none) :
    Inseparable (s.stepSlot i) ((s.onNetwork fun _ => m).stepSlot i) := by
  obtain ⟨r', hread, hbare, hserved⟩ := Request.parse_plain hs.read hline hplain
  let t := s.onNetwork fun _ => m
  have ht : t.Reads i conn head' r' n := ⟨hs.slot, hreceived, hread⟩
  obtain ⟨c, hget, -, -⟩ := hs.slot
  obtain ⟨-, hstep⟩ := hs.step hget
  obtain ⟨-, hstep'⟩ := ht.step hget
  let h : Host P := { s.host with network := n }.note (.request c.address r.uri)
  let h' : Host P := { s.host with network := n }.note (.request c.address r'.uri)
  obtain ⟨o, ho, hrun⟩ := Handshake.run_of_not_due (h := h) hno
  obtain ⟨note, hdispatch⟩ := Client.dispatch_of_ne_upgraded hwants hrun ho
  have hdispatch' : c.dispatch conn t.config r' t.peers { t.host with network := n } =
      ((c.serve s.config r' h').1, s.peers, (c.serve s.config r' h').2) := by
    simp only [Client.dispatch, hserved, Bool.false_eq_true, if_false]
    rfl
  -- both go on from one state of the network; what was noted before is all that differs
  have hhosts : (h.note note).Doubles h' := rfl
  have hconcur := ((Client.Doubles.refl c).serve hhosts hbare s.config).withPool s.peers
  rw [← hdispatch, ← hdispatch', ← hstep, ← hstep'] at hconcur
  exact (Doubles.stepSlot_of_concur (s := s) (t := t) rfl rfl hget hget hconcur).inseparable

/-- **An upgrade, or a response.** The handshake ends with an upgrade if and only if the remote end
is no peer yet, the key in the head is the text of sixteen bytes, and its answer could be written;
otherwise the pool is left as it is, and so is all the rest but for a write that failed. Upgraded,
the connection has moved from its slot to the front of the pool, and the peers that are not in it
any more are closed. If not, it stays in its slot; and unless a write has failed, nothing ever tells
it from one that asks for the same without an upgrade. -/
theorem upgrade_or_get :
    (∀ (conn : P.Conn) (r : Request) (peers : Peers P.Conn) (h : Host P),
      ((Handshake.run conn r peers h).1 = .upgraded ↔
        ∃ key, Handshake.Due conn r peers key ∧ key.length = 24 ∧
          (h.write conn (Reply.switchingProtocols (Socket.acceptKey key))).1 = .ok ()) ∧
      ((Handshake.run conn r peers h).1 ≠ .upgraded → (Handshake.run conn r peers h).2.1 = peers ∧
        ((Handshake.run conn r peers h).2.2 = h ∨ ∃ key e, Handshake.Due conn r peers key ∧
          h.write conn (Reply.switchingProtocols (Socket.acceptKey key)) =
            (.error e, (Handshake.run conn r peers h).2.2)))) ∧
    ∀ (s : Server P) (i : Nat) (conn : P.Conn) (head : Bytes) (r : Request) (n : P.network.State),
      s.Reads i conn head r n → r.wantsUpgrade = true →
      (∀ key n₁, Handshake.Due conn r s.peers key →
        P.network.write conn (Reply.switchingProtocols (Socket.acceptKey key)) n = (.ok (), n₁) →
        s.Admits (s.stepSlot i) i (.fresh conn (P.network.address conn) r.uri) n₁) ∧
      ((∀ key, Handshake.Due conn r s.peers key →
        (P.network.write conn (Reply.switchingProtocols (Socket.acceptKey key)) n).1 ≠ .ok ()) →
        s.Keeps (s.stepSlot i) i conn) ∧
      ((∀ key, ¬ Handshake.Due conn r s.peers key) → ∀ m head',
        P.network.receive conn s.config.requestRoom m = (.ok head', n) →
        Request.firstLine head' = Request.firstLine head → Field.find? head' "Upgrade" = none →
        Inseparable (s.stepSlot i) ((s.onNetwork fun _ => m).stepSlot i)) := by
  refine ⟨fun conn r peers h => ⟨?_, Handshake.run_of_ne_upgraded⟩,
    fun s i conn head r n hs hwants => ⟨fun key n₁ => hs.admits hwants, hs.keeps hwants,
      fun hno m head' => hs.inseparable hwants hno⟩⟩
  rw [Handshake.run_eq_upgraded_iff]
  exact exists_congr fun key => and_congr_right fun hdue => (and_iff_right hdue.length).symm

end Server

/-! ### Three heads -/

namespace Handshake

open Bench

/-- The remote end of a peer, on the host of the first client. -/
def neighbour : SocketAddress := .ofV4 10 0 0 1 5000

def caller : Handle := ⟨0, clientAddress 1⟩

/-- The wires once a head was received. -/
def silent : Wires := ⟨[.fresh (clientAddress 1), .fresh neighbour], [], false, [], []⟩

/-- A server with one client, that sent a head, and one peer of the same host. -/
def asked (head : Bytes) : Server kit :=
  let s := onRecord Config.default Flash.empty Scripts.empty
  { s with
    slots := ⟨[some (.fresh caller)]⟩
    peers := { s.peers with list := [.fresh ⟨1, neighbour⟩ neighbour "/"] }
    host := { s.host with network := silent.update 0 fun w => w.send head } }

theorem receive_asked {head : Bytes} (hroom : head.length ≤ Config.default.requestRoom) :
    (kit.network).receive caller Config.default.requestRoom (asked head).host.network =
      (.ok head, silent) := by
  show ((Except.ok (head.take _), Wires.update _ 0 fun _ => _) : Except NetError Bytes × Wires) = _
  rw [List.take_of_length_le hroom, List.drop_eq_nil_of_le hroom]
  rfl

/-- A key that is given is due, if it is one. -/
theorem due_asked {head : Bytes} {r : Request} {key : Bytes}
    (hfound : r.field? "Sec-WebSocket-Key" = some key) (hkey : Socket.isClientKey key = true) :
    Due (P := kit) caller r (asked head).peers key where
  stranger p hp := by
    obtain rfl : p = .fresh ⟨1, neighbour⟩ neighbour "/" := List.mem_singleton.mp hp
    decide
  found := hfound
  canonical := Socket.isClientKey_iff.mp hkey

theorem not_due_asked (head : Bytes) {r : Request} {key : Bytes}
    (hfound : r.field? "Sec-WebSocket-Key" = some key) (hkey : Socket.isClientKey key = false) :
    ∀ key, ¬ Due (P := kit) caller r (asked head).peers key := by
  intro other hdue
  obtain rfl := Option.some.inj (hfound.symm.trans hdue.found)
  rw [Socket.isClientKey_iff.mpr hdue.canonical] at hkey
  cases hkey

/-- With a key of sixteen bytes the client takes the place of the peer of its host; with a shorter
one it is served just as if it had not asked for an upgrade. -/
theorem upgrade_or_get_asked :
    let good := upgradeRequest "/a" "dGhlIHNhbXBsZSBub25jZQ=="
    let bad := upgradeRequest "/a" "c2hvcnQ="
    (∃ n, (asked good).Admits ((asked good).stepSlot 0) 0
        (.fresh caller (clientAddress 1) "/a") n) ∧
      (asked bad).Keeps ((asked bad).stepSlot 0) 0 caller ∧
      Server.Inseparable ((asked bad).stepSlot 0) ((asked (getRequest "/a")).stepSlot 0) := by
  intro good bad
  let room := Config.default.requestRoom
  let request (head : Bytes) : Request := ⟨.get, "/a", none, [], .oneOne, head⟩
  have hgood : good.length ≤ room ∧ (request good).wantsUpgrade = true ∧
      Request.parse good Config.default.maxUriLength = .ok (request good) ∧
      (request good).field? "Sec-WebSocket-Key" = some (Utf8.encode "dGhlIHNhbXBsZSBub25jZQ==") ∧
      Socket.isClientKey (Utf8.encode "dGhlIHNhbXBsZSBub25jZQ==") = true := by decide +kernel
  have hbad : bad.length ≤ room ∧ (request bad).wantsUpgrade = true ∧
      Request.parse bad Config.default.maxUriLength = .ok (request bad) ∧
      (request bad).field? "Sec-WebSocket-Key" = some (Utf8.encode "c2hvcnQ=") ∧
      Socket.isClientKey (Utf8.encode "c2hvcnQ=") = false := by decide +kernel
  have hplain : (getRequest "/a").length ≤ room ∧
      Request.firstLine (getRequest "/a") = Request.firstLine bad ∧
      Field.find? (getRequest "/a") "Upgrade" = none := by decide +kernel
  -- From here on the heads need not be computed.
  generalize good = good, bad = bad, getRequest "/a" = plain at hgood hbad hplain ⊢
  obtain ⟨hroom, hwants, hread, hfound, hkey⟩ := hgood
  obtain ⟨hroom', hwants', hread', hfound', hkey'⟩ := hbad
  obtain ⟨hplainRoom, hline, hnone⟩ := hplain
  have hadmits := (Server.upgrade_or_get (P := kit)).2 (asked good) 0 caller good _ silent
    ⟨⟨_, rfl, rfl, rfl⟩, receive_asked hroom, hread⟩ hwants
  have hserves := (Server.upgrade_or_get (P := kit)).2 (asked bad) 0 caller bad _ silent
    ⟨⟨_, rfl, rfl, rfl⟩, receive_asked hroom', hread'⟩ hwants'
  have hno := not_due_asked bad hfound' hkey'
  refine ⟨⟨_, hadmits.1 _ _ (due_asked hfound hkey) rfl⟩,
    hserves.2.1 fun key hdue => (hno key hdue).elim, ?_⟩
  exact hserves.2.2 hno _ _ (receive_asked hplainRoom) hline hnone

end Handshake

end Microweb
