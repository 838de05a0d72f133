import Mathlib

section

variable {κ ν : Type} {get get' : κ → Option ν} {next : ν → Option κ}

-- The nodes of a linked list in memory, where `get` looks up the node at an address and `next` is the
-- address that is stored in a node.
inductive Chain (get : κ → Option ν) (next : ν → Option κ) : Option κ → List κ → Prop
  | nil : Chain get next none []
  | cons {p x l} : get p = some x → Chain get next (next x) l → Chain get next (some p) (p :: l)

namespace Chain

theorem none_iff {l : List κ} : Chain get next none l ↔ l = [] :=
  ⟨fun h => by cases h; rfl, fun h => h ▸ .nil⟩

theorem nil_iff {h : Option κ} : Chain get next h [] ↔ h = none :=
  ⟨fun h => by cases h; rfl, fun h => h ▸ .nil⟩

theorem some_iff {p : κ} {l : List κ} :
    Chain get next (some p) l ↔ ∃ x l', l = p :: l' ∧ get p = some x ∧ Chain get next (next x) l' where
  mp  := fun h => by cases h with | cons hx hl => exact ⟨_, _, rfl, hx, hl⟩
  mpr := fun ⟨_, _, hl, hx, hc⟩ => hl ▸ .cons hx hc

theorem cons_iff {h : Option κ} {p : κ} {l : List κ} :
    Chain get next h (p :: l) ↔ h = some p ∧ ∃ x, get p = some x ∧ Chain get next (next x) l where
  mp  := fun h => by cases h with | cons hx hl => exact ⟨rfl, _, hx, hl⟩
  mpr := fun ⟨hp, _, hx, hl⟩ => hp ▸ .cons hx hl

theorem unique {h : Option κ} {l l' : List κ} (hl : Chain get next h l) (hl' : Chain get next h l') :
    l = l' := by
  induction hl generalizing l'
  case nil => exact (none_iff.mp hl').symm
  case cons p x l hx _ hi =>
    have ⟨x', l'', he, hx', hc⟩ := some_iff.mp hl'
    cases hx.symm.trans hx'
    rw [he, hi hc]

theorem get_of_mem {h : Option κ} {l : List κ} (hl : Chain get next h l) {p : κ} (hp : p ∈ l) :
    ∃ x, get p = some x := by
  induction hl
  case nil => cases hp
  case cons q x l hx _ hi =>
    cases hp
    case head       => exact ⟨x, hx⟩
    case tail hp    => exact hi hp

-- Only the addresses in its nodes matter for a list.
theorem congr {h : Option κ} {l : List κ} (hl : Chain get next h l)
    (hg : ∀ p ∈ l, (get' p).map next = (get p).map next) : Chain get' next h l := by
  induction hl
  case nil => exact .nil
  case cons p x l hx _ hi =>
    rw [List.forall_mem_cons, hx, Option.map_some, Option.map_eq_some_iff] at hg
    have ⟨⟨x', hx', hn⟩, hrest⟩ := hg
    exact .cons hx' (hn ▸ hi hrest)

-- A node is taken out of a list by copying its address to the node before it.
theorem splice {h : Option κ} {front back : List κ} {p q : κ} {x y : ν}
    (hl : Chain get next h (front ++ q :: p :: back)) (hn : (front ++ q :: p :: back).Nodup)
    (hx : get p = some x) (hy : get' q = some y) (hxy : next y = next x)
    (hg : ∀ r, r ≠ q → get' r = get r) : Chain get' next h (front ++ q :: back) := by
  induction front generalizing h
  case nil =>
    have ⟨hh, _, _, hp⟩ := cons_iff.mp hl
    have ⟨_, x', hx', hback⟩ := cons_iff.mp hp
    have ⟨hq, _⟩ := List.nodup_cons.mp hn
    cases hx.symm.trans hx'
    subst hh
    refine .cons hy (hxy ▸ hback.congr fun r hr => ?_)
    rw [hg r fun he => hq (.tail _ (he ▸ hr))]
  case cons r front hi =>
    have ⟨hh, _, hz, hl'⟩ := cons_iff.mp hl
    subst hh
    have ⟨hr, hn'⟩ := List.nodup_cons.mp hn
    exact .cons ((hg r fun he => hr (by simp [he])).trans hz) (hi hl' hn')

end Chain

end
