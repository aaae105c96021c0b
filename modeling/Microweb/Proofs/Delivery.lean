import Microweb.Proofs.Stock

/-!
A file on a flash volume that does not fail on it: it opens, its size is known, and each read brings
what comes next. What a request is routed to depends on what is on the volume alone, and not on the
files that others have open.
-/

namespace Microweb

open Bench

/-! ### A file that is held -/

namespace Bench

/-- The flash volume has that file and does not fail on it. Any number of files can be open, and a
read may be cut short, but not to nothing. -/
structure Holds (v : Faulty Flash) (path : String) (content : Bytes) : Prop where
  content : v.inner.content? path = some content
  maxOpen : v.inner.maxOpen = none
  opens : v.faults.opens.lookup path = none
  sizes : v.faults.sizes.lookup path = none
  reads : v.faults.failingRead = none
  limit : v.faults.readLimit ≠ some 0

theorem Holds.same {v v' : Faulty Flash} {path : String} {content : Bytes}
    (h : Holds v path content) (hs : SameStock v v') : Holds v' path content := by
  obtain ⟨hcontent, hmax, hopens, hsizes, hreads, hlimit⟩ := h
  exact ⟨by rwa [hs.content?_eq], by rwa [hs.maxOpen], by rwa [hs.faults], by rwa [hs.faults],
    by rwa [hs.faults], by rwa [hs.faults]⟩

/-- How much one read brings at most. -/
def pieceSize (faults : VolumeFaults) (room : Nat) : Nat :=
  match faults.readLimit with
  | some limit => min limit room
  | none => room

theorem pieceSize_pos {faults : VolumeFaults} {room : Nat} (hlimit : faults.readLimit ≠ some 0)
    (hroom : 0 < room) : 0 < pieceSize faults room := by
  unfold pieceSize
  split
  · next limit heq =>
    have hpos : limit ≠ 0 := fun h => hlimit (by rw [heq, h])
    omega
  · exact hroom

end Bench

variable {I : Interpreter} {B : Peripherals} {h h' : Host (.onFlash I B)} {path : String}
  {content : Bytes}

namespace Host

/-- A file that is held and is no directory opens. -/
theorem openFile_held (hheld : Holds h.volume path content)
    (hdir : h.volume.inner.isDirectory path = false) :
    ∃ h', h.openFile path = (.ok ⟨⟨path, 0⟩, path⟩, h') ∧ h'.network = h.network ∧
      SameStock h.volume h'.volume := by
  have hr : (h.openFile path).1 = .ok ⟨⟨path, 0⟩, path⟩ := by
    simp [openFile, Faulty.openFile, Flash.openFile, hheld.opens, hdir, hheld.content,
      hheld.maxOpen, Except.map]
  exact ⟨_, Prod.ext hr rfl, rfl, .openFile path h.volume⟩

theorem fileSize_held (hheld : Holds h.volume path content) (position : Nat) :
    ∃ h', h.fileSize ⟨⟨path, position⟩, path⟩ = (.ok content.length, h') ∧
      h'.network = h.network := by
  have hr : (h.fileSize ⟨⟨path, position⟩, path⟩).1 = .ok content.length := by
    simp [fileSize, Faulty.size, Flash.size, hheld.sizes, hheld.content]
  exact ⟨_, Prod.ext hr rfl, rfl⟩

/-- A read of a file that is held brings the next piece. -/
theorem readFile_held (hheld : Holds h.volume path content) {position room : Nat} {bs : Bytes}
    (hbs : bs = (content.drop position).take (pieceSize h.volume.faults room)) :
    ∃ h', h.readFile ⟨⟨path, position⟩, path⟩ room =
        ((.ok bs, ⟨⟨path, position + bs.length⟩, path⟩), h') ∧ h'.network = h.network := by
  have hr : (h.readFile ⟨⟨path, position⟩, path⟩ room).1 =
      (.ok bs, ⟨⟨path, position + bs.length⟩, path⟩) := by
    rw [hbs]
    cases hlimit : h.volume.faults.readLimit <;>
      simp [readFile, Faulty.read, Flash.read, hheld.reads, hheld.content, pieceSize, hlimit]
  exact ⟨_, Prod.ext hr rfl, rfl⟩

end Host

/-! ### Routes -/

namespace Host

/-- Two hosts were asked the same: the answers are equal, and what is on the volumes still is. -/
inductive Agree {α : Type} : α × Host (.onFlash I B) → α × Host (.onFlash I B) → Prop
  | intro (r : α) {g g' : Host (.onFlash I B)} (hs : SameStock g.volume g'.volume)
    (hmax : g.volume.inner.maxOpen = none) : Agree (r, g) (r, g')

theorem Agree.of_reaches {α : Type} {p p' : α × Host (.onFlash I B)} (heq : p'.1 = p.1)
    (hs : SameStock h.volume h'.volume) (hmax : h.volume.inner.maxOpen = none)
    (hr : (Scope.all _).Reaches h p.2) (hr' : (Scope.all _).Reaches h' p'.2) : Agree p p' := by
  obtain ⟨r, g⟩ := p
  obtain ⟨r', g'⟩ := p'
  obtain rfl : r' = r := heq
  have hg := hr.sameStock
  exact .intro r' ((hg.symm.trans hs).trans hr'.sameStock) (hg.maxOpen.trans hmax)

variable (hs : SameStock h.volume h'.volume) (hmax : h.volume.inner.maxOpen = none)
include hs hmax

/-- Whether a file opens does not depend on the files that are open. -/
theorem agree_openFile (path : String) : Agree (h.openFile path) (h'.openFile path) := by
  have hmax' : h'.volume.inner.maxOpen = none := hs.maxOpen.trans hmax
  have hdir : h'.volume.inner.isDirectory path = h.volume.inner.isDirectory path := by
    rw [Flash.isDirectory, Flash.isDirectory, hs.directories]
  refine .of_reaches ?_ hs hmax ((Scope.Reaches.refl _ h).openFile trivial rfl)
    ((Scope.Reaches.refl _ h').openFile trivial rfl)
  simp only [openFile, Faulty.openFile, Flash.openFile, hs.faults, hdir, hs.content?_eq, hmax,
    hmax']
  split
  · rfl
  · split
    · rfl
    · split <;> rfl

theorem agree_fileSize (f : FaultyFile OpenFile) : Agree (h.fileSize f) (h'.fileSize f) := by
  refine .of_reaches ?_ hs hmax ((Scope.Reaches.refl _ h).fileSize rfl)
    ((Scope.Reaches.refl _ h').fileSize rfl)
  simp only [fileSize, Faulty.size, Flash.size, hs.faults, hs.content?_eq]
  split
  · rfl
  · split <;> rfl

theorem agree_opensNonempty (path : String) :
    Agree (h.opensNonempty path) (h'.opensNonempty path) := by
  refine .of_reaches ?_ hs hmax ((Scope.Reaches.refl (.all _) h).opensNonempty trivial)
    ((Scope.Reaches.refl (.all _) h').opensNonempty trivial)
  have hopen := agree_openFile hs hmax path
  unfold opensNonempty
  generalize h.openFile path = p at hopen ⊢
  generalize h'.openFile path = p' at hopen ⊢
  cases hopen with
  | @intro r g g' hs hmax =>
    cases r with
    | error e => rfl
    | ok f =>
      have hsize := agree_fileSize hs hmax f
      simp only
      generalize g.fileSize f = p at hsize ⊢
      generalize g'.fileSize f = p' at hsize ⊢
      cases hsize
      rfl

theorem agree_firstNonempty (dir : String) (names : List String) :
    Agree (firstNonempty dir names h) (firstNonempty dir names h') := by
  induction names generalizing h h' with
  | nil => exact .intro none hs hmax
  | cons name names ih =>
    have hopens := agree_opensNonempty hs hmax (dir ++ "/" ++ name)
    simp only [firstNonempty]
    generalize h.opensNonempty (dir ++ "/" ++ name) = p at hopens ⊢
    generalize h'.opensNonempty (dir ++ "/" ++ name) = p' at hopens ⊢
    cases hopens with
    | intro r hs hmax =>
      cases r with
      | true => exact .intro _ hs hmax
      | false => exact ih hs hmax

theorem agree_routeIsDirectory (path : String) :
    Agree (Route.isDirectory path h) (Route.isDirectory path h') := by
  refine .of_reaches ?_ hs hmax ((Scope.Reaches.refl (.all _) h).routeIsDirectory trivial)
    ((Scope.Reaches.refl (.all _) h').routeIsDirectory trivial)
  unfold Route.isDirectory
  split
  · rfl
  · simp only [isDirectory, Flash.isDirectory, hs.directories]

/-- **What a request is routed to** depends on what is on the volume alone. -/
theorem agree_route (config : Config) (uri : String) :
    (Route.find config uri h').1 = (Route.find config uri h).1 := by
  unfold Route.find
  split
  · rfl
  · next path _ =>
    have hdir := agree_routeIsDirectory hs hmax path
    generalize Route.isDirectory path h = p at hdir ⊢
    generalize Route.isDirectory path h' = p' at hdir ⊢
    cases hdir with
    | @intro r g g' hs hmax =>
      cases r with
      | false => rfl
      | true =>
        have hindex := agree_firstNonempty hs hmax (Content.trimSlashes path) config.indexFiles
        simp only [indexOf]
        generalize firstNonempty (Content.trimSlashes path) config.indexFiles g = p at hindex ⊢
        generalize firstNonempty (Content.trimSlashes path) config.indexFiles g' = p' at hindex ⊢
        cases hindex with
        | intro r => cases r <;> rfl

end Host

/-! ### Files are no directories -/

theorem Host.isDirectory_of_opensNonempty (heq : (h.opensNonempty path).1 = true) :
    h.volume.inner.isDirectory path = false := by
  unfold opensNonempty at heq
  split at heq
  · cases heq
  · next f h₁ hopen =>
    obtain ⟨hr, -⟩ := Prod.ext_iff.mp hopen
    simp only [openFile, Faulty.openFile, Flash.openFile] at hr
    split at hr
    · cases hr
    · split at hr
      · cases hr
      · next hdir => simpa using hdir

theorem Host.isDirectory_of_firstNonempty {dir : String} {names : List String}
    (heq : (firstNonempty dir names h).1 = some path) :
    h.volume.inner.isDirectory path = false := by
  induction names generalizing h with
  | nil => cases heq
  | cons name names ih =>
    simp only [firstNonempty] at heq
    split at heq
    · next h₁ hopens =>
      cases heq
      exact isDirectory_of_opensNonempty (congrArg Prod.fst hopens)
    · next h₁ hopens =>
      have hr := (Scope.Reaches.refl (.all _) h).opensNonempty
        (show (Scope.all _).paths (dir ++ "/" ++ name) from trivial)
      rw [hopens] at hr
      rw [Flash.isDirectory, ← hr.sameStock.directories]
      exact ih heq

/-- A request is not routed to a directory. -/
theorem Route.isDirectory_of_find {config : Config} {uri : String}
    (heq : (find config uri h).1 = .file path) : h.volume.inner.isDirectory path = false := by
  have hpath : ∀ p, ofPath p = .file path → p = path := by
    intro p hp
    unfold ofPath at hp
    split at hp
    · cases hp
    · exact Route.file.inj hp
  unfold find at heq
  split at heq
  · cases heq
  · next p _ =>
    split at heq
    · next h₁ hdir =>
      obtain rfl := hpath p heq
      unfold isDirectory at hdir
      split at hdir
      · cases hdir
      · exact congrArg Prod.fst hdir
    · next h₁ hdir =>
      have hr := (Scope.Reaches.refl (.all _) h).routeIsDirectory
        (show (Scope.all _).paths p from trivial)
      rw [hdir] at hr
      rw [Flash.isDirectory, ← hr.sameStock.directories]
      split at heq
      · next index h₂ hindex =>
        obtain rfl := hpath index heq
        exact Host.isDirectory_of_firstNonempty (congrArg Prod.fst hindex)
      · cases heq

end Microweb
