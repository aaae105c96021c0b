import Microweb.Proofs.Loads

/-!
Where requests lead. A volume is asked for one index file after the other, and each question can
change what it answers next; `Route.find` is told here by what the volume is like at each of them.
-/

namespace Microweb

/-! ### Paths and suffixes -/

namespace Content

theorem pathUnder?_of_up {root uri : String} (h : parentSegment ∈ segments uri) :
    pathUnder? root uri = none := by
  rw [pathUnder?, if_pos (List.contains_iff_mem.mpr h)]

theorem pathUnder?_of_not_up {root uri : String} (h : parentSegment ∉ segments uri) :
    pathUnder? root uri =
      some (trimSlashes root ++ (if uri.toList.head? = some '/' then "" else "/") ++ uri) := by
  rw [pathUnder?, if_neg (mt List.contains_iff_mem.mp h)]

end Content

/-- **The suffix that a request is read with** is that of its path. -/
theorem Request.suffix_of_parse {head : Bytes} {maxPath : Nat} {r : Request}
    (h : parse head maxPath = .ok r) : r.suffix = Content.suffix? r.uri := by
  unfold parse at h
  split at h
  · cases h
  split at h
  · cases h
  split at h
  · cases h
  · cases h
    rfl

/-- A path names a script by its suffix. -/
theorem Content.namesScript_iff_suffix? {path : String} :
    NamesScript path ↔ suffix? path = some "lua" ∨ suffix? path = some "cgi" := by
  rw [← Route.namesScript_iff, Route.namesScript]
  cases suffix? path with
  | none => simp
  | some suffix => simp [isScript, scriptSuffixes]

/-! ### Index files on a volume -/

namespace Volume

variable {V : Volume}

/-- The path opens, and the size of what it opens is known and is not zero. -/
def Fills (V : Volume) (path : String) (v : V.State) : Prop :=
  ∃ f v' size, V.openFile path v = (.ok f, v') ∧ (V.size f v').1 = .ok size ∧ 0 < size

/-- The volume after a path was tried: what it opened is closed again. -/
def tried (V : Volume) (path : String) (v : V.State) : V.State :=
  match V.openFile path v with
  | (.error _, v) => v
  | (.ok f, v) => V.close f (V.size f v).2

/-- The volume after some paths were tried, one after the other. -/
def triedAll (V : Volume) (paths : List String) (v : V.State) : V.State :=
  paths.foldl (fun v path => V.tried path v) v

/-- The path at a place among others fills when it is tried after those before it. -/
def FillsAt (V : Volume) (paths : List String) (v : V.State) (k : Nat) (path : String) : Prop :=
  paths[k]? = some path ∧ V.Fills path (V.triedAll (paths.take k) v)

/-- **The first path that fills**, all before it having been tried in vain. -/
def FirstFills (V : Volume) (paths : List String) (v : V.State) (path : String) : Prop :=
  ∃ k, V.FillsAt paths v k path ∧ ∀ j < k, ∀ other, ¬ V.FillsAt paths v j other

/-- No path fills when it is its turn. -/
def NoneFills (V : Volume) (paths : List String) (v : V.State) : Prop :=
  ∀ k path, ¬ V.FillsAt paths v k path

/-- The path is one of a directory: it ends with a slash, or else the volume says so. -/
def IsDirectory (V : Volume) (path : String) (v : V.State) : Prop :=
  path.toList.getLast? = some '/' ∨ (V.isDirectory path v).1 = true

/-- The volume after it was asked for a directory, which a slash at the end spares it. -/
def asked (V : Volume) (path : String) (v : V.State) : V.State :=
  if path.toList.getLast? = some '/' then v else (V.isDirectory path v).2

variable {path first : String} {paths : List String} {v : V.State} {k : Nat}

theorem fillsAt_zero : V.FillsAt (first :: paths) v 0 path ↔ path = first ∧ V.Fills first v := by
  constructor
  · rintro ⟨hget, hfills⟩
    obtain rfl : first = path := by simpa using hget
    exact ⟨rfl, hfills⟩
  · rintro ⟨rfl, hfills⟩
    exact ⟨rfl, hfills⟩

theorem fillsAt_succ : V.FillsAt (first :: paths) v (k + 1) path ↔
    V.FillsAt paths (V.tried first v) k path := Iff.rfl

theorem firstFills_cons_of_fills (h : V.Fills first v) :
    V.FirstFills (first :: paths) v path ↔ path = first := by
  constructor
  · rintro ⟨k, hk, hbefore⟩
    cases k with
    | zero => exact (fillsAt_zero.mp hk).1
    | succ k => exact absurd (fillsAt_zero.mpr ⟨rfl, h⟩) (hbefore 0 (by omega) first)
  · rintro rfl
    exact ⟨0, fillsAt_zero.mpr ⟨rfl, h⟩, by omega⟩

theorem firstFills_cons_of_not_fills (h : ¬ V.Fills first v) :
    V.FirstFills (first :: paths) v path ↔ V.FirstFills paths (V.tried first v) path := by
  constructor
  · rintro ⟨k, hk, hbefore⟩
    cases k with
    | zero => exact absurd (fillsAt_zero.mp hk).2 h
    | succ k =>
      refine ⟨k, fillsAt_succ.mp hk, fun j hj other hother => ?_⟩
      exact hbefore (j + 1) (by omega) other (fillsAt_succ.mpr hother)
  · rintro ⟨k, hk, hbefore⟩
    refine ⟨k + 1, fillsAt_succ.mpr hk, fun j hj other hother => ?_⟩
    cases j with
    | zero => exact h (fillsAt_zero.mp hother).2
    | succ j => exact hbefore j (by omega) other (fillsAt_succ.mp hother)

theorem noneFills_cons : V.NoneFills (first :: paths) v ↔
    ¬ V.Fills first v ∧ V.NoneFills paths (V.tried first v) := by
  constructor
  · intro h
    exact ⟨fun hfills => h 0 first (fillsAt_zero.mpr ⟨rfl, hfills⟩),
      fun k path hk => h (k + 1) path (fillsAt_succ.mpr hk)⟩
  · rintro ⟨hfirst, hothers⟩ k path hk
    cases k with
    | zero => exact hfirst (fillsAt_zero.mp hk).2
    | succ k => exact hothers k path (fillsAt_succ.mp hk)

/-- What fills first is one path. -/
theorem FirstFills.unique {other : String} (h : V.FirstFills paths v path)
    (h' : V.FirstFills paths v other) : path = other := by
  obtain ⟨k, hk, hbefore⟩ := h
  obtain ⟨j, hj, hbefore'⟩ := h'
  rcases lt_trichotomy k j with hlt | rfl | hlt
  · exact absurd hk (hbefore' k hlt path)
  · exact Option.some.inj (hk.1.symm.trans hj.1)
  · exact absurd hj (hbefore j hlt other)

theorem FirstFills.not_noneFills (h : V.FirstFills paths v path) : ¬ V.NoneFills paths v := by
  obtain ⟨k, hk, -⟩ := h
  exact fun hnone => hnone k path hk

end Volume

variable {P : Platform}

/-- **A path is tried** by a host as its volume has it tried, and nothing else of the host changes. -/
theorem Host.opensNonempty_eq (h : Host P) (path : String) :
    ((h.opensNonempty path).1 = true ↔ P.volume.Fills path h.volume) ∧
      (h.opensNonempty path).2 = { h with volume := P.volume.tried path h.volume } := by
  unfold opensNonempty openFile Volume.Fills Volume.tried
  generalize P.volume.openFile path h.volume = opened
  obtain ⟨r, v⟩ := opened
  cases r with
  | error e => simp
  | ok f =>
    refine ⟨?_, rfl⟩
    have hsize : (0 < (P.volume.size f v).1.toOption.getD 0) ↔
        ∃ size, (P.volume.size f v).1 = .ok size ∧ 0 < size := by
      cases (P.volume.size f v).1 <;> simp [Except.toOption]
    refine decide_eq_true_iff.trans (hsize.trans ?_)
    constructor
    · rintro ⟨size, hsize, hpos⟩
      exact ⟨f, v, size, rfl, hsize, hpos⟩
    · rintro ⟨f', v', size, hopen, hsize, hpos⟩
      obtain ⟨hf, rfl⟩ := Prod.mk.inj hopen
      obtain rfl := Except.ok.inj hf
      exact ⟨size, hsize, hpos⟩

/-- The paths of the index files of a directory, in the order in which they are tried. -/
def Config.indexPaths (config : Config) (dir : String) : List String :=
  config.indexFiles.map fun name => Content.trimSlashes dir ++ "/" ++ name

/-- **The index file that is found** is the first that fills. -/
theorem Host.firstNonempty_eq (dir : String) (names : List String) (h : Host P) :
    (∀ path, (Host.firstNonempty dir names h).1 = some path ↔
        P.volume.FirstFills (names.map fun name => dir ++ "/" ++ name) h.volume path) ∧
      ((Host.firstNonempty dir names h).1 = none ↔
        P.volume.NoneFills (names.map fun name => dir ++ "/" ++ name) h.volume) := by
  induction names generalizing h with
  | nil =>
    refine ⟨fun path => ⟨?_, ?_⟩, fun _ k path hk => ?_, fun _ => rfl⟩
    · rintro ⟨⟩
    · rintro ⟨k, ⟨hget, -⟩, -⟩
      simp at hget
    · simpa using hk.1
  | cons name names ih =>
    obtain ⟨hfills, hhost⟩ := h.opensNonempty_eq (dir ++ "/" ++ name)
    rw [List.map_cons, firstNonempty]
    generalize h.opensNonempty (dir ++ "/" ++ name) = opened at hfills hhost
    obtain ⟨r, h'⟩ := opened
    obtain rfl : h' = _ := hhost
    cases r with
    | true =>
      have hfirst := hfills.mp rfl
      refine ⟨fun path => ?_, ?_, fun hnone => ?_⟩
      · rw [Volume.firstFills_cons_of_fills hfirst]
        simp [eq_comm]
      · rintro ⟨⟩
      · exact absurd hfirst (Volume.noneFills_cons.mp hnone).1
    | false =>
      have hfirst : ¬ P.volume.Fills (dir ++ "/" ++ name) h.volume := by
        intro hcontra
        cases hfills.mpr hcontra
      obtain ⟨hsome, hnone⟩ := ih { h with volume := P.volume.tried (dir ++ "/" ++ name) h.volume }
      refine ⟨fun path => ?_, ?_⟩
      · rw [Volume.firstFills_cons_of_not_fills hfirst]
        exact hsome path
      · rw [Volume.noneFills_cons, and_iff_right hfirst]
        exact hnone

namespace Route

theorem isDirectory_eq (path : String) (h : Host P) :
    ((isDirectory path h).1 = true ↔ P.volume.IsDirectory path h.volume) ∧
      (isDirectory path h).2 = { h with volume := P.volume.asked path h.volume } := by
  unfold isDirectory Volume.IsDirectory Volume.asked
  split_ifs with hslash
  · simp [hslash]
  · simp [hslash, Host.isDirectory]

/-- **What a request comes down to**: the path itself, or the index file that is found if it is that
of a directory. -/
def Final (config : Config) (path : String) (v : P.volume.State) (final : String) : Prop :=
  ¬ P.volume.IsDirectory path v ∧ final = path ∨
    P.volume.IsDirectory path v ∧
      P.volume.FirstFills (config.indexPaths path) (P.volume.asked path v) final

/-- **The route of a request**, if no segment leads up: that of the path it comes down to. -/
theorem find_cases {config : Config} {uri path : String} {h : Host P}
    (hpath : Content.pathUnder? config.contentRoot uri = some path) :
    (∃ final, Final config path h.volume final ∧ (find config uri h).1 = ofPath final) ∨
      P.volume.IsDirectory path h.volume ∧
        P.volume.NoneFills (config.indexPaths path) (P.volume.asked path h.volume) ∧
        (find config uri h).1 = .notFound := by
  obtain ⟨hdirectory, hasked⟩ := isDirectory_eq path h
  unfold find
  rw [hpath]
  dsimp only
  generalize isDirectory path h = answer at hdirectory hasked
  obtain ⟨r, h'⟩ := answer
  obtain rfl : h' = _ := hasked
  cases r with
  | false =>
    left
    exact ⟨path, .inl ⟨fun hcontra => (by cases hdirectory.mpr hcontra), rfl⟩, rfl⟩
  | true =>
    have hdir := hdirectory.mp rfl
    obtain ⟨hsome, hnone⟩ := Host.firstNonempty_eq (Content.trimSlashes path) config.indexFiles
      { h with volume := P.volume.asked path h.volume }
    dsimp only [Host.indexOf]
    generalize Host.firstNonempty (Content.trimSlashes path) config.indexFiles
      { h with volume := P.volume.asked path h.volume } = found at hsome hnone
    obtain ⟨index, h''⟩ := found
    cases index with
    | none => exact .inr ⟨hdir, hnone.mp rfl, rfl⟩
    | some index => exact .inl ⟨index, .inr ⟨hdir, (hsome index).mp rfl⟩, rfl⟩

theorem Final.unique {config : Config} {path p q : String} {v : P.volume.State}
    (h : Final config path v p) (h' : Final config path v q) : p = q := by
  rcases h with ⟨hno, rfl⟩ | ⟨hdir, hfirst⟩
  · rcases h' with ⟨-, rfl⟩ | ⟨hdir, -⟩
    · rfl
    · exact absurd hdir hno
  · rcases h' with ⟨hno, -⟩ | ⟨-, hfirst'⟩
    · exact absurd hdir hno
    · exact hfirst.unique hfirst'

theorem ofPath_eq_script_iff {p q : String} :
    ofPath p = .script q ↔ p = q ∧ Content.NamesScript p := by
  rw [← namesScript_iff]
  unfold ofPath
  split <;> simp_all

theorem ofPath_eq_file_iff {p q : String} :
    ofPath p = .file q ↔ p = q ∧ ¬ Content.NamesScript p := by
  rw [← namesScript_iff]
  unfold ofPath
  split <;> simp_all

/-- **The verdict on a path**: nothing is found if it is that of a directory without an index file;
otherwise the suffix of the path that it comes down to decides. -/
theorem find_verdict {config : Config} {uri path : String} (h : Host P)
    (hpath : Content.pathUnder? config.contentRoot uri = some path) :
    ((find config uri h).1 = .notFound ↔ P.volume.IsDirectory path h.volume ∧
        P.volume.NoneFills (config.indexPaths path) (P.volume.asked path h.volume)) ∧
      (∀ p, (find config uri h).1 = .script p ↔
        Final config path h.volume p ∧ Content.NamesScript p) ∧
      ∀ p, (find config uri h).1 = .file p ↔
        Final config path h.volume p ∧ ¬ Content.NamesScript p := by
  rcases find_cases (h := h) hpath with ⟨final, hfinal, hfind⟩ | ⟨hdir, hnone, hfind⟩
  · have hone : ∀ p, Final config path h.volume p ↔ final = p := by
      intro p
      constructor
      · exact fun hp => hfinal.unique hp
      · rintro rfl
        exact hfinal
    rw [hfind]
    refine ⟨⟨?_, ?_⟩, fun p => ?_, fun p => ?_⟩
    · unfold ofPath
      split <;> nofun
    · rintro ⟨hdir, hnone⟩
      rcases hfinal with ⟨hno, -⟩ | ⟨-, hfirst⟩
      · exact absurd hdir hno
      · exact absurd hnone hfirst.not_noneFills
    · rw [ofPath_eq_script_iff, hone]
      exact and_congr_right fun heq => by rw [heq]
    · rw [ofPath_eq_file_iff, hone]
      exact and_congr_right fun heq => by rw [heq]
  · have hno : ∀ p, ¬ Final config path h.volume p := by
      rintro p (⟨hno, -⟩ | ⟨-, hfirst⟩)
      · exact hno hdir
      · exact hfirst.not_noneFills hnone
    rw [hfind]
    refine ⟨⟨fun _ => ⟨hdir, hnone⟩, fun _ => rfl⟩, fun p => ⟨nofun, ?_⟩, fun p => ⟨nofun, ?_⟩⟩
    · rintro ⟨hfinal, -⟩
      exact absurd hfinal (hno p)
    · rintro ⟨hfinal, -⟩
      exact absurd hfinal (hno p)

theorem find_of_up {config : Config} {uri : String} (h : Host P)
    (hup : Content.pathUnder? config.contentRoot uri = none) :
    (find config uri h).1 = .notFound := by
  rw [find, hup]

/-- No file that names a script is routed to as a file. -/
theorem not_namesScript_of_find {config : Config} {uri path : String} {h : Host P}
    (hfind : (find config uri h).1 = .file path) : ¬ Content.NamesScript path := by
  cases hunder : Content.pathUnder? config.contentRoot uri with
  | none =>
    rw [find_of_up h hunder] at hfind
    cases hfind
  | some under => exact (((find_verdict h hunder).2.2 path).mp hfind).2

end Route

/-! ### Handles -/

namespace Ledger

/-- **What was handed out since is back**: the handles of some numbers in a row were handed out, and
each was given back, in that order. -/
def Lends (l l' : Ledger) : Prop :=
  ∃ k, l' = ⟨l.issued + k, (List.range' l.issued k).reverse ++ l.returned⟩

variable {l l' l'' : Ledger}

theorem Lends.refl (l : Ledger) : l.Lends l := ⟨0, rfl⟩

theorem Lends.trans (h : l.Lends l') (h' : l'.Lends l'') : l.Lends l'' := by
  obtain ⟨k, rfl⟩ := h
  obtain ⟨j, rfl⟩ := h'
  refine ⟨k + j, ?_⟩
  rw [← List.range'_append_1, List.reverse_append, List.append_assoc, Nat.add_assoc]

/-- The same handles are out as before. -/
theorem Lends.outstanding_eq (h : l.Lends l') : l'.outstanding = l.outstanding := by
  obtain ⟨k, rfl⟩ := h
  have hnew : (List.range' l.issued k).filter
      (· ∉ (List.range' l.issued k).reverse ++ l.returned) = [] := by
    rw [List.filter_eq_nil_iff]
    intro n hn
    simp [hn]
  have hold : (List.range l.issued).filter
      (· ∉ (List.range' l.issued k).reverse ++ l.returned) =
        (List.range l.issued).filter (· ∉ l.returned) := by
    apply List.filter_congr
    intro n hn
    have hlt := List.mem_range.mp hn
    have hbefore : n ∉ (List.range' l.issued k).reverse := by
      rw [List.mem_reverse, List.mem_range'_1]
      omega
    simp [hbefore]
  have hrange : List.range (l.issued + k) = List.range l.issued ++ List.range' l.issued k := by
    rw [List.range_eq_range', List.range_eq_range', ← List.range'_append_1, Nat.zero_add]
  rw [outstanding, outstanding, hrange, List.filter_append, hnew, hold, List.append_nil]

end Ledger

/-- **A path that is tried** is lent a handle at most, which is given back at once. -/
theorem Volume.lends_tried {V : Volume} (path : String) (v : V.recorded.State) :
    (FileEvent.ledger v.trace).Lends (FileEvent.ledger (V.recorded.tried path v).trace) := by
  unfold tried
  split
  · next e v' heq =>
    rw [recorded_openFile_error heq]
    exact .refl _
  · next f v' heq =>
    obtain ⟨hnumber, htrace⟩ := recorded_openFile_ok heq
    refine ⟨1, ?_⟩
    have hclosed : (V.recorded.close f (V.recorded.size f v').2).trace =
        .closed f.number :: .sized f.number :: .opened path :: v.trace := by
      rw [← htrace]
    have hsized : FileEvent.ledger (.sized f.number :: .opened path :: v.trace) =
        FileEvent.ledger (.opened path :: v.trace) := rfl
    rw [hclosed, FileEvent.ledger_closed, hsized, FileEvent.ledger_opened, hnumber]
    rfl

theorem Host.lends_firstNonempty (dir : String) (names : List String) (h : Host P.recorded) :
    (FileEvent.ledger h.volume.trace).Lends
      (FileEvent.ledger (Host.firstNonempty dir names h).2.volume.trace) := by
  induction names generalizing h with
  | nil => exact .refl _
  | cons name names ih =>
    have hhost := (h.opensNonempty_eq (dir ++ "/" ++ name)).2
    have htried := P.volume.lends_tried (dir ++ "/" ++ name) h.volume
    rw [firstNonempty]
    generalize h.opensNonempty (dir ++ "/" ++ name) = opened at hhost
    obtain ⟨r, h'⟩ := opened
    obtain rfl : h' = _ := hhost
    cases r with
    | true => exact htried
    | false => exact htried.trans (ih _)

/-- **A request that is routed** leaves no file open that was not. -/
theorem Route.lends_find (config : Config) (uri : String) (h : Host P.recorded) :
    (FileEvent.ledger h.volume.trace).Lends
      (FileEvent.ledger (find config uri h).2.volume.trace) := by
  unfold find
  split
  · exact .refl _
  · next path _ =>
    have hasked : (FileEvent.ledger h.volume.trace).Lends
        (FileEvent.ledger (isDirectory path h).2.volume.trace) := by
      rw [(isDirectory_eq path h).2]
      unfold Volume.asked
      split
      · exact .refl _
      · exact .refl _
    split
    · next h' heq => rwa [heq] at hasked
    · next h' heq =>
      rw [heq] at hasked
      have hfound := Host.lends_firstNonempty (Content.trimSlashes path) config.indexFiles h'
      unfold Host.indexOf
      split
      · next index h'' heq' =>
        rw [heq'] at hfound
        exact hasked.trans hfound
      · next h'' heq' =>
        rw [heq'] at hfound
        exact hasked.trans hfound

end Microweb
