import Mathlib.Data.List.TakeWhile

-- Cutting a list at a separator, one part at a time.
namespace Split

variable {α : Type} [DecidableEq α] {sep x : α} {s rest : List α}

theorem notMem_takeWhile (sep : α) (s : List α) : sep ∉ s.takeWhile (· != sep) :=
  fun h => by simpa using List.mem_takeWhile_imp h

-- What stands in front of a separator that is not part of it.
theorem takeWhile_append {a : List α} (ha : sep ∉ a) (b : List α) :
    (a ++ sep :: b).takeWhile (· != sep) = a ∧ (a ++ sep :: b).dropWhile (· != sep) = sep :: b := by
  have hne : ∀ y ∈ a, (y != sep) = true := fun y hy => bne_iff_ne.mpr fun h => ha (h ▸ hy)
  constructor
  case left  => simp [List.takeWhile_append_of_pos hne]
  case right => simp [List.dropWhile_append_of_pos hne]

theorem takeWhile_of_notMem {a : List α} (ha : sep ∉ a) :
    a.takeWhile (· != sep) = a ∧ a.dropWhile (· != sep) = [] := by
  have hne : ∀ y ∈ a, (y != sep) = true := fun y hy => bne_iff_ne.mpr fun h => ha (h ▸ hy)
  exact ⟨List.takeWhile_eq_self_iff.mpr hne, List.dropWhile_eq_nil_iff.mpr hne⟩

-- The rest of a list starts with its first separator.
theorem head_of_dropWhile (h : s.dropWhile (· != sep) = x :: rest) : x = sep := by
  have hne : s.dropWhile (· != sep) ≠ [] := by simp [h]
  have hd := List.head_dropWhile_not (· != sep) hne
  simpa [h] using hd

theorem append_of_dropWhile (h : s.dropWhile (· != sep) = x :: rest) :
    s = s.takeWhile (· != sep) ++ sep :: rest := by
  have hs := List.takeWhile_append_dropWhile (p := (· != sep)) (l := s)
  rw [h, head_of_dropWhile h] at hs
  exact hs.symm

-- The first part, and the parts of the rest after the first separator.
theorem splitOn_of_dropWhile (h : s.dropWhile (· != sep) = x :: rest) :
    s.splitOn sep = s.takeWhile (· != sep) :: rest.splitOn sep := by
  calc s.splitOn sep
    _ = (s.takeWhile (· != sep) ++ sep :: rest).splitOn sep := by rw [← append_of_dropWhile h]
    _ = s.takeWhile (· != sep) :: rest.splitOn sep :=
      List.splitOn_append_cons_self_of_not_mem (notMem_takeWhile sep s) rest

theorem splitOn_of_dropWhile_nil (h : s.dropWhile (· != sep) = []) :
    s.splitOn sep = [s] ∧ s.takeWhile (· != sep) = s := by
  have hs := List.takeWhile_append_dropWhile (p := (· != sep)) (l := s)
  rw [h, List.append_nil] at hs
  refine ⟨List.splitOn_eq_singleton ?_, hs⟩
  rw [← hs]
  exact notMem_takeWhile sep s

end Split
