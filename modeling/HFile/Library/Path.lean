import Mathlib

-- The steps of a path, for names of any type.
inductive Move (σ : Type)
  | stay
  | up
  | down (name : σ)

-- Where a path leads, without looking at the file system: from the root or from the current
-- directory, a number of levels up, and then down through some names.
@[ext]
structure Place (σ : Type) where
  rooted : Bool
  ups    : Nat
  names  : List σ
  deriving DecidableEq

namespace Place

variable {σ : Type}

def move (p : Place σ) : Move σ → Place σ
  | .stay   => p
  | .down n => { p with names := p.names ++ [n] }
  | .up     =>
    if p.names ≠ [] then { p with names := p.names.dropLast }
    else if p.rooted then p
    else { p with ups := p.ups + 1 }

def follow (p : Place σ) (ms : List (Move σ)) : Place σ :=
  ms.foldl move p

-- `q` is `p` itself or lies below it.
structure Within (p q : Place σ) : Prop where
  rooted : q.rooted = p.rooted
  ups    : q.ups = p.ups
  names  : p.names <+: q.names

@[simp]
theorem follow_nil (p : Place σ) : p.follow [] = p :=
  rfl

@[simp]
theorem follow_cons (p : Place σ) (m : Move σ) (ms : List (Move σ)) :
    p.follow (m :: ms) = (p.move m).follow ms :=
  rfl

@[simp]
theorem follow_append (p : Place σ) (ms ns : List (Move σ)) :
    p.follow (ms ++ ns) = (p.follow ms).follow ns :=
  List.foldl_append

theorem Within.refl (p : Place σ) : p.Within p :=
  ⟨rfl, rfl, List.prefix_rfl⟩

theorem Within.trans {p q r : Place σ} (hp : p.Within q) (hq : q.Within r) : p.Within r :=
  ⟨hq.rooted.trans hp.rooted, hq.ups.trans hp.ups, hp.names.trans hq.names⟩

theorem within_move {p : Place σ} {m : Move σ} (hm : m ≠ .up) : p.Within (p.move m) := by
  cases m
  case stay   => exact .refl p
  case up     => exact absurd rfl hm
  case down n => exact ⟨rfl, rfl, List.prefix_append _ _⟩

-- A path that never goes up stays within the place where it starts.
theorem within_follow {p : Place σ} {ms : List (Move σ)} (hm : ∀ m ∈ ms, m ≠ .up) :
    p.Within (p.follow ms) := by
  induction ms generalizing p
  case nil => exact .refl p
  case cons m ms hi =>
    rw [List.forall_mem_cons] at hm
    exact (within_move hm.left).trans (hi hm.right)

end Place
