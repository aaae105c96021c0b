import Mathlib.Data.List.Basic
import Microweb.Slots

/-!
What the operations on slots do to the items: an item is changed, taken out or put in at one place
of the list of items, and all others keep theirs.
-/

namespace Microweb.Slots

variable {α : Type} {s s' : Slots α} {i j : Nat} {x y : α}

/-! ### One slot -/

theorem get?_eq_some_iff : s.get? i = some x ↔ s.list[i]? = some (some x) := by
  unfold get?
  cases s.list[i]? <;> simp

theorem lt_of_get? (h : s.get? i = some x) : i < s.list.length := by
  obtain ⟨hi, -⟩ := List.getElem?_eq_some_iff.mp (get?_eq_some_iff.mp h)
  exact hi

theorem get?_set_self (h : i < s.list.length) : (s.set i x).get? i = some x := by
  rw [get?_eq_some_iff, set, List.getElem?_set_self h]

theorem get?_set_of_ne (h : i ≠ j) : (s.set i x).get? j = s.get? j := by
  rw [get?, get?, set, List.getElem?_set_ne h]

theorem get?_remove_self : (s.remove i).2.get? i = none := by
  rw [get?, remove]
  by_cases h : i < s.list.length
  · rw [List.getElem?_set_self h, Option.join_some]
  · rw [List.getElem?_eq_none (by simpa using h)]
    rfl

theorem get?_remove_of_ne (h : i ≠ j) : (s.remove i).2.get? j = s.get? j := by
  rw [get?, get?, remove, List.getElem?_set_ne h]

theorem mem_items_of_get? (h : s.get? i = some x) : x ∈ s.items := by
  have hx := List.mem_of_getElem? (get?_eq_some_iff.mp h)
  exact List.mem_filterMap.mpr ⟨some x, hx, rfl⟩

/-! ### All items -/

theorem items_free (n : Nat) : (free n : Slots α).items = [] := by
  simp [items, free]

theorem items_drain : (s.drain).2.items = [] := items_free s.capacity

/-- **One slot among the items.** What is done to a slot that is taken is done to the items at one
place. -/
theorem exists_items_eq (h : s.get? i = some x) :
    ∃ before after, s.items = before ++ x :: after ∧
      (s.remove i).2.items = before ++ after ∧
      ∀ y, (s.set i y).items = before ++ y :: after := by
  have hi := lt_of_get? h
  have hx : s.list[i] = some x := by
    rw [get?_eq_some_iff, List.getElem?_eq_getElem hi] at h
    exact Option.some.inj h
  have hl : s.list = s.list.take i ++ some x :: s.list.drop (i + 1) := by
    rw [← hx, ← List.drop_eq_getElem_cons hi, List.take_append_drop]
  refine ⟨(s.list.take i).filterMap id, (s.list.drop (i + 1)).filterMap id, ?_, ?_, fun y => ?_⟩
  · conv_lhs => rw [items, hl]
    simp
  · simp [items, remove, List.set_eq_take_append_cons_drop, hi]
  · simp [items, set, List.set_eq_take_append_cons_drop, hi]

/-- A new item stands somewhere among the old ones. -/
theorem exists_items_eq_of_insert? (h : s.insert? x = some (i, s')) :
    ∃ before after, s.items = before ++ after ∧ s'.items = before ++ x :: after := by
  obtain ⟨k, hk, hs⟩ := Option.map_eq_some_iff.mp h
  obtain ⟨rfl, rfl⟩ := Prod.mk.inj hs
  obtain ⟨hlt, hnone, -⟩ := List.findIdx?_eq_some_iff_getElem.mp hk
  have hn : s.list[k] = none := Option.isNone_iff_eq_none.mp hnone
  have hl : s.list = s.list.take k ++ none :: s.list.drop (k + 1) := by
    rw [← hn, ← List.drop_eq_getElem_cons hlt, List.take_append_drop]
  refine ⟨(s.list.take k).filterMap id, (s.list.drop (k + 1)).filterMap id, ?_, ?_⟩
  · conv_lhs => rw [items, hl]
    simp
  · simp [items, set, List.set_eq_take_append_cons_drop, hlt]

/-- A new item takes no place that was taken. -/
theorem get?_of_insert? (h : s.insert? x = some (i, s')) (hget : s.get? j = some y) :
    s'.get? j = some y := by
  obtain ⟨k, hk, hs⟩ := Option.map_eq_some_iff.mp h
  obtain ⟨rfl, rfl⟩ := Prod.mk.inj hs
  obtain ⟨hlt, hnone, -⟩ := List.findIdx?_eq_some_iff_getElem.mp hk
  have hne : k ≠ j := by
    rintro rfl
    rw [get?_eq_some_iff, List.getElem?_eq_getElem hlt, Option.some_inj] at hget
    rw [hget] at hnone
    cases hnone
  rw [get?_set_of_ne hne]
  exact hget

/-- A slot that is taken afterwards holds the new item, or what it held. -/
theorem get?_insert?_cases (h : s.insert? x = some (i, s')) (hget : s'.get? j = some y) :
    y = x ∨ s.get? j = some y := by
  obtain ⟨k, hk, hs⟩ := Option.map_eq_some_iff.mp h
  obtain ⟨rfl, rfl⟩ := Prod.mk.inj hs
  obtain ⟨hlt, -, -⟩ := List.findIdx?_eq_some_iff_getElem.mp hk
  by_cases hne : k = j
  · subst hne
    rw [get?_set_self hlt] at hget
    exact .inl (Option.some.inj hget).symm
  · rw [get?_set_of_ne hne] at hget
    exact .inr hget

/-! ### The numbers of the slots that are taken -/

theorem mem_occupied_iff : i ∈ s.occupied ↔ ∃ x, s.get? i = some x := by
  unfold occupied
  simp only [List.mem_map, List.mem_filter, Prod.exists, List.mem_zipIdx_iff_getElem?]
  constructor
  · rintro ⟨slot, k, ⟨hk, hsome⟩, rfl⟩
    obtain ⟨x, rfl⟩ := Option.isSome_iff_exists.mp hsome
    exact ⟨x, get?_eq_some_iff.mpr hk⟩
  · rintro ⟨x, hx⟩
    exact ⟨some x, i, ⟨get?_eq_some_iff.mp hx, rfl⟩, rfl⟩

theorem nodup_occupied (s : Slots α) : s.occupied.Nodup := by
  have hsub := (List.filter_sublist (l := s.list.zipIdx)
    (p := fun p : Option α × Nat => p.1.isSome)).map Prod.snd
  refine hsub.nodup ?_
  rw [List.zipIdx_map_snd]
  exact List.nodup_range'

/-- A slot that is taken has its place among those that are. -/
theorem exists_occupied_eq {s : Slots α} {i : Nat} {a : α} (h : s.get? i = some a) :
    ∃ before after, s.occupied = before ++ i :: after ∧ i ∉ before ∧ i ∉ after := by
  obtain ⟨before, after, hl⟩ := List.append_of_mem (mem_occupied_iff.mpr ⟨a, h⟩)
  have hnodup := s.nodup_occupied
  rw [hl, List.nodup_append, List.nodup_cons] at hnodup
  obtain ⟨-, ⟨hafter, -⟩, hdisjoint⟩ := hnodup
  exact ⟨before, after, hl, fun hmem => hdisjoint i hmem i List.mem_cons_self rfl, hafter⟩

/-! ### Slots of other items -/

section Map

variable {β : Type} (f : α → β) (s : Slots α)

/-- The slots with other items in place of these. -/
def map (f : α → β) (s : Slots α) : Slots β := ⟨s.list.map (Option.map f)⟩

theorem map_free (n : Nat) : (free n : Slots α).map f = free n := by
  simp [map, free]

theorem isEmpty_map : (s.map f).isEmpty = s.isEmpty := by
  simp [map, isEmpty, Function.comp_def]

theorem isFull_map : (s.map f).isFull = s.isFull := by
  simp [map, isFull, Function.comp_def]

theorem items_map : (s.map f).items = s.items.map f := by
  unfold items map
  rw [List.filterMap_map, List.map_filterMap]
  rfl

theorem get?_map (i : Nat) : (s.map f).get? i = (s.get? i).map f := by
  unfold get? map
  rw [List.getElem?_map]
  rcases s.list[i]? with _ | _ | x <;> rfl

theorem map_set (i : Nat) (x : α) : (s.set i x).map f = (s.map f).set i (f x) := by
  simp [map, set, List.map_set]

theorem map_remove (i : Nat) : (s.remove i).2.map f = ((s.map f).remove i).2 := by
  simp [map, remove, List.map_set]

theorem insert?_map (x : α) :
    (s.map f).insert? (f x) = (s.insert? x).map fun p => (p.1, p.2.map f) := by
  have hfind : (s.map f).list.findIdx? Option.isNone = s.list.findIdx? Option.isNone := by
    simp [map, List.findIdx?_map, Function.comp_def]
  unfold insert?
  rw [hfind, Option.map_map]
  simp only [Function.comp_def, map_set]

theorem occupied_map : (s.map f).occupied = s.occupied := by
  unfold occupied map
  simp [List.zipIdx_map, List.filter_map, Function.comp_def]

theorem map_drain : (s.drain).2.map f = ((s.map f).drain).2 := by
  simp [drain, free, capacity, map]

end Map

end Microweb.Slots
