import Mathlib
import Octal.Registry

/-!
# Ordered registries

Registering keeps the functions in the order of their names, so that each name has one (`Registry.Ordered.set`).
A registry is then determined by the functions in it: whichever of them is registered first, the result is the
same (`Registry.Ordered.foldl_set`).
-/

namespace Octal.Registry

variable {r : Registry} {f : Function}

/-- The functions are in the order of their names, and no two have the same. -/
def Ordered (r : Registry) : Prop := r.Pairwise fun f g => f.name < g.name

theorem mem_set {g : Function} (h : g ∈ r.set f) : g = f ∨ g ∈ r := by
  induction r with
  | nil => exact .inl (List.mem_singleton.1 h)
  | cons k r ih =>
    rw [set] at h
    split at h
    · rcases List.mem_cons.1 h with h | h
      · exact .inl h
      · exact .inr (List.mem_cons_of_mem _ h)
    split at h
    · exact List.mem_cons.1 h
    · rcases List.mem_cons.1 h with rfl | h
      · exact .inr List.mem_cons_self
      · exact (ih h).imp_right (List.mem_cons_of_mem _)

/-- Registering a new name adds one function to those there are. -/
theorem perm_set (h : f.name ∉ r.names) : (r.set f).Perm (f :: r) := by
  induction r with
  | nil => exact .refl _
  | cons g r ih =>
    rw [names, List.map_cons, List.mem_cons, not_or] at h
    rw [set, if_neg h.1]
    split
    · exact .refl _
    · exact ((ih h.2).cons g).trans (.swap f g r)

theorem names_perm {r' : Registry} (h : r.Perm r') : r.names.Perm r'.names := h.map _

namespace Ordered

protected theorem set (h : r.Ordered) (f : Function) : (r.set f).Ordered := by
  induction r with
  | nil => exact List.pairwise_singleton _ f
  | cons g r ih =>
    obtain ⟨hg, hr⟩ := List.pairwise_cons.1 h
    rw [Registry.set]
    split
    · next hname => exact List.pairwise_cons.2 ⟨fun k hk => hname ▸ hg k hk, hr⟩
    split
    · next hlt =>
      refine List.pairwise_cons.2 ⟨fun k hk => ?_, h⟩
      rcases List.mem_cons.1 hk with rfl | hk
      · exact hlt
      · exact hlt.trans (hg k hk)
    · next hne hlt =>
      refine List.pairwise_cons.2 ⟨fun k hk => ?_, ih hr⟩
      rcases mem_set hk with rfl | hk
      · exact lt_of_le_of_ne (not_lt.1 hlt) (Ne.symm hne)
      · exact hg k hk

theorem names_nodup (h : r.Ordered) : r.names.Nodup :=
  List.pairwise_map.2 (h.imp fun hlt => hlt.ne)

theorem get?_eq (h : r.Ordered) (hf : f ∈ r) : r.get? f.name = some f := by
  induction r with
  | nil => cases hf
  | cons g r ih =>
    obtain ⟨hg, hr⟩ := List.pairwise_cons.1 h
    rcases List.mem_cons.1 hf with rfl | hf
    · simp [get?]
    · have hne : g.name ≠ f.name := (hg f hf).ne
      rw [get?, List.find?_cons_of_neg (by simpa using hne)]
      exact ih hr hf

/-- Names in any order are those of functions in that order. -/
theorem exists_perm {order : List String} (h : r.Ordered) (hp : order.Perm r.names) :
    ∃ fs : List Function, fs.Perm r ∧ order.map r.get? = fs.map some := by
  have hget : r.names.filterMap r.get? = r := by
    rw [names, List.filterMap_map]
    exact (List.filterMap_congr fun f hf => h.get?_eq hf).trans List.filterMap_some
  refine ⟨order.filterMap r.get?, (hp.filterMap r.get?).trans (.of_eq hget), ?_⟩
  rw [List.map_filterMap_some_eq_filter_map_isSome, eq_comm, List.filter_eq_self]
  intro found hfound
  obtain ⟨name, hname, rfl⟩ := List.mem_map.1 hfound
  obtain ⟨f, hf, rfl⟩ := List.mem_map.1 (hp.mem_iff.1 hname)
  rw [h.get?_eq hf]
  rfl

/-- Functions of different names are all there in the end, in order. -/
theorem foldl_set_perm {fs : List Function} (h : r.Ordered) (hfs : (names (fs ++ r)).Nodup) :
    (fs.foldl (fun r f => r.set f) r).Ordered ∧ (fs.foldl (fun r f => r.set f) r).Perm (fs ++ r) := by
  induction fs generalizing r with
  | nil => exact ⟨h, .refl _⟩
  | cons f fs ih =>
    have hnew : f.name ∉ r.names := by
      simp only [names, List.cons_append, List.map_cons, List.nodup_cons, List.map_append] at hfs
      exact fun hf => hfs.1 (List.mem_append_right _ hf)
    have hperm : (fs ++ r.set f).Perm (f :: (fs ++ r)) :=
      ((perm_set hnew).append_left fs).trans List.perm_middle
    obtain ⟨hordered, hall⟩ := ih (h.set f) ((names_perm hperm).nodup_iff.2 hfs)
    exact ⟨hordered, hall.trans hperm⟩

/-- The functions of a registry give it back, in whatever order they are registered. -/
theorem foldl_set {fs : List Function} (h : r.Ordered) (hp : fs.Perm r) :
    fs.foldl (fun (r : Registry) f => r.set f) [] = r := by
  have hnodup : (names (fs ++ [])).Nodup := by
    rw [List.append_nil]
    exact (names_perm hp).nodup_iff.2 h.names_nodup
  obtain ⟨hordered, hall⟩ := foldl_set_perm (r := []) List.Pairwise.nil hnodup
  rw [List.append_nil] at hall
  exact (hall.trans hp).eq_of_pairwise (fun f g _ _ hlt hgt => absurd hgt hlt.asymm) hordered h

end Ordered

end Octal.Registry
