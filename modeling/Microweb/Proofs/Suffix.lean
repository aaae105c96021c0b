import Mathlib.Data.List.TakeWhile
import Microweb.Content.Path

/-!
The suffix of a path, by what the path is made of: directories, a stem without a dot, a dot and the
suffix.
-/

namespace Microweb.Content

/-- **What follows the first dot of the last segment** of a path. -/
def HasSuffix (path ext : List Char) : Prop :=
  ∃ front stem, path = front ++ (stem ++ '.' :: ext) ∧ (front = [] ∨ front.getLast? = some '/') ∧
    '/' ∉ stem ++ ext ∧ '.' ∉ stem

/-- The first element of a kind and what follows it are what is left without those before it. -/
theorem dropWhile_ne_eq_cons_iff {α : Type} [DecidableEq α] {xs rest : List α} {x y : α} :
    xs.dropWhile (· != x) = y :: rest ↔ y = x ∧ ∃ front, xs = front ++ x :: rest ∧ x ∉ front := by
  constructor
  · intro h
    have hy : y = x := by
      have hhead := List.head?_dropWhile_not (· != x) xs
      rw [h] at hhead
      simpa using hhead
    subst hy
    refine ⟨rfl, xs.takeWhile (· != y), ?_, fun hmem => ?_⟩
    · rw [← h, List.takeWhile_append_dropWhile]
    · simpa using List.mem_takeWhile_imp hmem
  · rintro ⟨rfl, front, rfl, hfront⟩
    have hfree : ∀ z ∈ front, (z != y) = true := fun z hz =>
      bne_iff_ne.mpr fun heq => hfront (heq ▸ hz)
    rw [List.dropWhile_append_of_pos hfree]
    simp

/-- **The last segment** of a path stands behind its last slash. -/
theorem lastSegment_eq_iff {path : String} {segment : List Char} : lastSegment path = segment ↔
    ∃ front, path.toList = front ++ segment ∧ (front = [] ∨ front.getLast? = some '/') ∧
      '/' ∉ segment := by
  unfold lastSegment
  generalize path.toList = cs
  constructor
  · rintro rfl
    refine ⟨(cs.reverse.dropWhile (· != '/')).reverse, ?_, ?_, ?_⟩
    · rw [← List.reverse_append, List.takeWhile_append_dropWhile, List.reverse_reverse]
    · rw [List.reverse_eq_nil_iff, List.getLast?_reverse]
      cases hdrop : cs.reverse.dropWhile (· != '/') with
      | nil => exact .inl rfl
      | cons c rest => exact .inr (congrArg some (dropWhile_ne_eq_cons_iff.mp hdrop).1)
    · intro hmem
      simpa using List.mem_takeWhile_imp (List.mem_reverse.mp hmem)
  · rintro ⟨front, rfl, hfront, hsegment⟩
    have hfree : ∀ c ∈ segment.reverse, (c != '/') = true := fun c hc =>
      bne_iff_ne.mpr fun heq => hsegment (heq ▸ List.mem_reverse.mp hc)
    have hstop : front.reverse.takeWhile (· != '/') = [] := by
      rcases hfront with rfl | hlast
      · rfl
      · rw [← List.head?_reverse] at hlast
        obtain ⟨rest, hrest⟩ := List.head?_eq_some_iff.mp hlast
        simp [hrest]
    rw [List.reverse_append, List.takeWhile_append_of_pos hfree, hstop, List.append_nil,
      List.reverse_reverse]

/-- **The suffix of a path**, in lower case; none if nothing follows the dot, or there is no dot. -/
theorem suffix?_eq_some_iff {path suffix : String} : suffix? path = some suffix ↔
    ∃ ext, HasSuffix path.toList ext ∧ ext ≠ [] ∧
      suffix = String.ofList (ext.map Char.toLower) := by
  constructor
  · intro h
    unfold suffix? at h
    split at h
    · next x c r hdrop =>
      cases h
      obtain ⟨-, stem, hsegment, hstem⟩ := dropWhile_ne_eq_cons_iff.mp hdrop
      obtain ⟨front, hpath, hfront, hslash⟩ := lastSegment_eq_iff.mp hsegment
      refine ⟨c :: r, ⟨front, stem, hpath, hfront, fun hmem => hslash ?_, hstem⟩, by simp, rfl⟩
      rcases List.mem_append.mp hmem with hmem | hmem
      · exact List.mem_append_left _ hmem
      · exact List.mem_append_right _ (List.mem_cons_of_mem _ hmem)
    · cases h
  · rintro ⟨ext, ⟨front, stem, hpath, hfront, hslash, hstem⟩, hne, rfl⟩
    obtain ⟨c, r, rfl⟩ := List.exists_cons_of_ne_nil hne
    have hslash' : '/' ∉ stem ++ '.' :: c :: r := by
      simpa using hslash
    have hsegment := lastSegment_eq_iff.mpr ⟨front, hpath, hfront, hslash'⟩
    have hdrop := dropWhile_ne_eq_cons_iff.mpr ⟨rfl, stem, hsegment, hstem⟩
    rw [suffix?, hdrop]

/-- Under a root a path keeps its last segment. -/
theorem lastSegment_pathUnder? {root uri path : String} (h : pathUnder? root uri = some path) :
    lastSegment path = lastSegment uri := by
  unfold pathUnder? at h
  split at h
  · cases h
  cases h
  obtain ⟨front, huri, hfront, hslash⟩ := lastSegment_eq_iff.mp (Eq.refl (lastSegment uri))
  generalize lastSegment uri = segment at huri hslash ⊢
  refine lastSegment_eq_iff.mpr
    ⟨(trimSlashes root ++ if uri.toList.head? = some '/' then "" else "/").toList ++ front, ?_, ?_,
      hslash⟩
  · rw [String.toList_append, huri, List.append_assoc]
  · right
    rcases hfront with rfl | hlast
    · have hhead : uri.toList.head? ≠ some '/' := fun hhead =>
        hslash (List.mem_of_mem_head? (by rwa [huri] at hhead))
      simp [if_neg hhead]
    · rw [List.getLast?_append, hlast]
      rfl

theorem suffix?_pathUnder? {root uri path : String} (h : pathUnder? root uri = some path) :
    suffix? path = suffix? uri := by
  rw [suffix?, suffix?, lastSegment_pathUnder? h]

end Microweb.Content
