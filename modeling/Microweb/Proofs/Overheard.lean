import Microweb.Proofs.Scope.Record

/-!
Platforms that are overheard: what is written to connections is on record as well, each time with
the connection, whether the write succeeds or not.
-/

namespace Microweb

/-- A network with what is written to its connections on record. -/
abbrev Network.recorded (N : Network) : Network where
  State := Recorded N.State (N.Conn × Bytes)
  Conn := N.Conn
  address := N.address
  accept wait s :=
    let (r, inner) := N.accept wait s.inner
    (r, { s with inner })
  setTimeouts c t s := { s with inner := N.setTimeouts c t s.inner }
  receive c room s :=
    let (r, inner) := N.receive c room s.inner
    (r, { s with inner })
  write c bs s :=
    let (r, inner) := N.write c bs s.inner
    (r, ⟨inner, (c, bs) :: s.trace⟩)
  close c s := { s with inner := N.close c s.inner }
  shutdown s := { s with inner := N.shutdown s.inner }

/-- A platform whose network is overheard. -/
abbrev Platform.overheard (P : Platform) : Platform := { P with network := P.network.recorded }

/-- Around a platform that is overheard and on record anything may happen, except to the records. -/
def Surroundings.overheard (P : Platform) : Surroundings P.overheard.recorded :=
  { recorded P.overheard with network := fun s s' => s'.trace = s.trace }

variable {P : Platform}

/-- Clients may do anything on the network. -/
theorem Server.Aside.ofNetwork (s : Server P.overheard.recorded)
    (f : P.network.State → P.network.State) :
    Aside (.overheard P) s (s.onNetwork fun r => { r with inner := f r.inner }) :=
  .onNetwork (fun _ => rfl) (fun _ => rfl) s _ rfl

/-- An accept writes to nobody. -/
theorem Server.written_accept (s : Server P.overheard.recorded) :
    s.accept.host.network.trace = s.host.network.trace := by
  obtain ⟨heq | ⟨r, n, hasked, hnetwork⟩, -⟩ := s.host_accept
  · rw [heq]
  · obtain ⟨-, rfl⟩ := Prod.ext_iff.mp hasked
    obtain heq | ⟨c, t, heq⟩ := hnetwork <;> rw [heq]

/-- **What is written within a scope.** -/
theorem Scope.Reaches.written {a : Scope P.overheard.recorded} {g h : Host P.overheard.recorded}
    (hr : a.Reaches g h) :
    Grew (fun e _ => a.writes e.1 e.2) g.network.trace h.network.trace := by
  refine hr.network_induction (I := fun n : P.network.recorded.State =>
    Grew (fun e _ => a.writes e.1 e.2) g.network.trace n.trace) (fun n n' hmove hn => ?_)
    (.refl _ _)
  cases hmove with
  | setTimeouts t hc => exact hn
  | receive room hc => exact hn
  | write hc => exact hn.cons hc
  | close hc => exact hn

end Microweb
