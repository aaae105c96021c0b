import Microweb.Proofs.Record
import Microweb.Proofs.Scope

/-!
What moves within a scope put on record: one entry for the volume, and for the interpreter those of
one move, the latest first.
-/

namespace Microweb

/-- **What a move on a volume puts on record.** -/
inductive FileEvent.Within (paths : String → Prop) (streams : Prop) : FileEvent → Prop
  | opened {path : String} (hp : paths path) : Within paths streams (opened path)
  | refused {path : String} (hp : paths path) : Within paths streams (refused path)
  | read (n : Nat) (hs : streams) : Within paths streams (read n)
  | sized (n : Nat) : Within paths streams (sized n)
  | closed (n : Nat) : Within paths streams (closed n)
  | asked {path : String} (hp : paths path) : Within paths streams (asked path)

/-- **What a move of an interpreter puts on record**, the number of a script loaded in it being
that. -/
inductive ScriptEvent.Within (scripts frames : String → Prop) (streams : Prop) (number : Nat) :
    List ScriptEvent → Prop
  | loaded (q : Query) {path : String} (hp : scripts path) :
    Within scripts frames streams number [loaded path, published q]
  | refused (q : Query) {path : String} (hp : scripts path) :
    Within scripts frames streams number [refused path, published q]
  | called (n : Nat) (hs : streams) : Within scripts frames streams number [called n]
  | released (n : Nat) : Within scripts frames streams number [released n]
  | collected : Within scripts frames streams number [collected]
  | frame (payload : String) {path : String} (hp : frames path) :
    Within scripts frames streams number [collected, released number, called number, loaded path,
      assigned frameGlobal payload, published []]
  | frameRefused (payload : String) {path : String} (hp : frames path) :
    Within scripts frames streams number
      [refused path, assigned frameGlobal payload, published []]

/-! ### Paths on record -/

/-- The path in an entry, if the volume was asked for one. -/
def FileEvent.path? : FileEvent → Option String
  | opened path => some path
  | refused path => some path
  | asked path => some path
  | _ => none

theorem FileEvent.Within.path {paths : String → Prop} {streams : Prop} {e : FileEvent}
    (he : Within paths streams e) {path : String} (hpath : e.path? = some path) : paths path := by
  cases he with
  | opened hp => exact Option.some.inj hpath ▸ hp
  | refused hp => exact Option.some.inj hpath ▸ hp
  | asked hp => exact Option.some.inj hpath ▸ hp
  | read n hs => cases hpath
  | sized n => cases hpath
  | closed n => cases hpath

namespace ScriptEvent

/-- The path in an entry, if the interpreter was asked for one. -/
def path? : ScriptEvent → Option String
  | loaded path => some path
  | refused path => some path
  | _ => none

/-- What is on record ends with the parameters of a request being published. -/
def ForRequest (t : List ScriptEvent) : Prop := ∃ q earlier, t = published q :: earlier

/-- What is on record ends with no parameters being published and the payload of a frame being
assigned. -/
def ForFrame (t : List ScriptEvent) : Prop :=
  ∃ payload earlier, t = assigned frameGlobal payload :: published [] :: earlier

/-- **What a path was loaded for**, or was to be: for a request, and it is one of those for
requests, or for a frame, and it is one of those for frames. -/
def LoadedFor (scripts frames : String → Prop) (e : ScriptEvent) (earlier : List ScriptEvent) :
    Prop :=
  ∀ path, e.path? = some path →
    ForRequest earlier ∧ scripts path ∨ ForFrame earlier ∧ frames path

/-- A script was called right after it was loaded for a frame. -/
def CalledForFrame (e : ScriptEvent) (earlier : List ScriptEvent) : Prop :=
  ∀ n, e = called n → ∃ path before, earlier = loaded path :: before ∧ ForFrame before ∧
    (ledger before).issued = n

section Within

variable {scripts frames : String → Prop} {t : List ScriptEvent} {e : ScriptEvent} {path : String}

theorem loadedFor_other (he : e.path? = none) (t : List ScriptEvent) :
    LoadedFor scripts frames e t :=
  fun path hpath => by rw [he] at hpath; cases hpath

theorem loadedFor_request (q : Query) (t : List ScriptEvent) (he : e.path? = some path)
    (hp : scripts path) : LoadedFor scripts frames e (published q :: t) :=
  fun _ hpath => .inl ⟨⟨q, t, rfl⟩, Option.some.inj (he.symm.trans hpath) ▸ hp⟩

theorem loadedFor_frame (payload : String) (t : List ScriptEvent) (he : e.path? = some path)
    (hp : frames path) :
    LoadedFor scripts frames e (assigned frameGlobal payload :: published [] :: t) :=
  fun _ hpath => .inr ⟨⟨payload, t, rfl⟩, Option.some.inj (he.symm.trans hpath) ▸ hp⟩

/-- **A move** within a scope loads for what the scope allows. -/
theorem Within.loads {streams : Prop} {number : Nat} {es : List ScriptEvent}
    (hes : Within scripts frames streams number es) :
    Grew (LoadedFor scripts frames) t (es ++ t) := by
  have hother : ∀ {e t'}, e.path? = none → Grew (LoadedFor scripts frames) t t' →
      Grew (LoadedFor scripts frames) t (e :: t') :=
    fun he h => h.cons (loadedFor_other he _)
  have hstart := Grew.refl (LoadedFor scripts frames) t
  cases hes with
  | loaded q hp => exact (hother rfl hstart).cons (loadedFor_request q t rfl hp)
  | refused q hp => exact (hother rfl hstart).cons (loadedFor_request q t rfl hp)
  | called n hs => exact hother rfl hstart
  | released n => exact hother rfl hstart
  | collected => exact hother rfl hstart
  | frame payload hp =>
    exact hother rfl (hother rfl (hother rfl
      ((hother rfl (hother rfl hstart)).cons (loadedFor_frame payload t rfl hp))))
  | frameRefused payload hp =>
    exact (hother rfl (hother rfl hstart)).cons (loadedFor_frame payload t rfl hp)

/-- **A move that calls nothing for a request** calls for frames alone. -/
theorem Within.calls {es : List ScriptEvent}
    (hes : Within scripts frames False (ledger t).issued es) :
    Grew CalledForFrame t (es ++ t) := by
  have hother : ∀ {e t'}, (∀ n, e ≠ .called n) → Grew CalledForFrame t t' →
      Grew CalledForFrame t (e :: t') :=
    fun hne h => h.cons fun n he => absurd he (hne n)
  have hstart := Grew.refl CalledForFrame t
  cases hes with
  | loaded q hp => exact hother nofun (hother nofun hstart)
  | refused q hp => exact hother nofun (hother nofun hstart)
  | called n hs => exact hs.elim
  | released n => exact hother nofun hstart
  | collected => exact hother nofun hstart
  | @frame payload path hp =>
    have hcalled : CalledForFrame (.called (ledger t).issued)
        (.loaded path :: .assigned frameGlobal payload :: .published [] :: t) := by
      rintro n ⟨⟩
      exact ⟨path, _, rfl, ⟨payload, t, rfl⟩, rfl⟩
    have hloaded : Grew CalledForFrame t
        (.loaded path :: .assigned frameGlobal payload :: .published [] :: t) :=
      hother nofun (hother nofun (hother nofun hstart))
    exact hother nofun (hother nofun (hloaded.cons hcalled))
  | frameRefused payload hp => exact hother nofun (hother nofun (hother nofun hstart))

end Within

end ScriptEvent

/-! ### Moves on record -/

theorem Volume.within_of_moves {V : Volume} {paths : String → Prop} {streams : Prop}
    {s s' : V.recorded.State} (hmove : V.recorded.Moves paths streams s s') :
    ∃ e, FileEvent.Within paths streams e ∧ s'.trace = e :: s.trace := by
  cases hmove with
  | @openFile path hp =>
    cases heq : V.recorded.openFile path s with
    | mk r s' =>
      cases r with
      | ok f => exact ⟨_, .opened hp, (recorded_openFile_ok heq).2⟩
      | error e => exact ⟨_, .refused hp, recorded_openFile_error heq⟩
  | read f room hs => exact ⟨_, .read f.number hs, rfl⟩
  | size f => exact ⟨_, .sized f.number, rfl⟩
  | close f => exact ⟨_, .closed f.number, rfl⟩
  | isDirectory hp => exact ⟨_, .asked hp, rfl⟩

namespace Interpreter

variable {I : Interpreter}

/-- **A script run for a frame, on record.** -/
theorem trace_serveFrame (path payload : String) (s : I.recorded.State) :
    (I.recorded.serveFrame path payload s).trace =
        .refused path :: .assigned frameGlobal payload :: .published [] :: s.trace ∨
      (I.recorded.serveFrame path payload s).trace =
        .collected :: .released (ScriptEvent.ledger s.trace).issued ::
          .called (ScriptEvent.ledger s.trace).issued :: .loaded path ::
          .assigned frameGlobal payload :: .published [] :: s.trace := by
  unfold serveFrame
  split
  · next e s₁ heq => exact .inl (recorded_load_error heq)
  · next x s₁ heq =>
    obtain ⟨hnumber, htrace⟩ := recorded_load_ok heq
    have hrun : (I.recorded.runOnce x s₁).trace =
        .collected :: .released x.number :: .called x.number :: s₁.trace := rfl
    rw [hrun, htrace, hnumber]
    exact .inr rfl

theorem within_of_moves {scripts frames : String → Prop} {streams : Prop} {s s' : I.recorded.State}
    (hmove : I.recorded.Moves scripts frames streams s s') :
    ∃ es, ScriptEvent.Within scripts frames streams (ScriptEvent.ledger s.trace).issued es ∧
      s'.trace = es ++ s.trace := by
  cases hmove with
  | @load q path hp =>
    cases heq : I.recorded.load path (I.recorded.setQuery q s) with
    | mk r s' =>
      cases r with
      | ok x => exact ⟨_, .loaded q hp, (recorded_load_ok heq).2⟩
      | error e => exact ⟨_, .refused q hp, recorded_load_error heq⟩
  | call x hs => exact ⟨_, .called x.number hs, rfl⟩
  | release x => exact ⟨_, .released x.number, rfl⟩
  | collect => exact ⟨_, .collected, rfl⟩
  | serveFrame payload hp =>
    obtain htrace | htrace := trace_serveFrame (I := I) _ payload s
    · exact ⟨_, .frameRefused payload hp, htrace⟩
    · exact ⟨_, .frame payload hp, htrace⟩

end Interpreter

/-! ### Records within a scope -/

namespace Scope.Reaches

variable {P : Platform} {a : Scope P.recorded} {g h : Host P.recorded}

/-- **What is asked of a volume within a scope.** -/
theorem files (hr : a.Reaches g h) :
    Grew (fun e _ => FileEvent.Within a.paths a.streams e) g.volume.trace h.volume.trace := by
  refine hr.volume_induction (I := fun v : P.volume.recorded.State =>
    Grew (fun e _ => FileEvent.Within a.paths a.streams e) g.volume.trace v.trace)
    (fun v v' hmove hv => ?_) (.refl _ _)
  obtain ⟨e, he, htrace⟩ := Volume.within_of_moves hmove
  rw [htrace]
  exact hv.cons he

/-- **What is loaded within a scope.** -/
theorem loads (hr : a.Reaches g h) :
    Grew (ScriptEvent.LoadedFor a.scripts a.frames) g.interpreter.trace h.interpreter.trace := by
  refine hr.interpreter_induction (I := fun i : P.interpreter.recorded.State =>
    Grew (ScriptEvent.LoadedFor a.scripts a.frames) g.interpreter.trace i.trace)
    (fun i i' hmove hi => ?_) (.refl _ _)
  obtain ⟨es, hes, htrace⟩ := Interpreter.within_of_moves hmove
  rw [htrace]
  exact hi.trans hes.loads

/-- **What is called within a scope** in which no response is gone on with. -/
theorem calls (hr : a.Reaches g h) (hstreams : ¬ a.streams) :
    Grew ScriptEvent.CalledForFrame g.interpreter.trace h.interpreter.trace := by
  refine hr.interpreter_induction (I := fun i : P.interpreter.recorded.State =>
    Grew ScriptEvent.CalledForFrame g.interpreter.trace i.trace)
    (fun i i' hmove hi => ?_) (.refl _ _)
  obtain ⟨es, hes, htrace⟩ := Interpreter.within_of_moves hmove
  rw [eq_false hstreams] at hes
  rw [htrace]
  exact hi.trans hes.calls

end Scope.Reaches

end Microweb
