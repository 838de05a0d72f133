import HFile.Library.Pool

-- Which calls programs make, and what follows for those who share a world.

namespace Program.Calls

variable {S : Signature} {A : (o : S.Op) → S.Res o → Prop} {P : S.Op → Prop}

theorem of_forall {p : Program S α} (h : ∀ o, P o) : p.Calls A P (fun _ => True) := by
  induction p
  case ret       => trivial
  case call k hi => exact ⟨h _, fun r _ => hi r⟩

end Program.Calls

namespace Pool

open Program (Handler)

variable {S : Signature} {W ι α : Type} [DecidableEq ι] {h : Handler S W} {P : Pool S W ι α} {sched : List ι}

-- The programs of a pool only make calls that are theirs, and so does the log.
structure Within (A : ι → S.Op → Prop) (P : Pool S W ι α) : Prop where
  procs : ∀ i, (P.procs i).Calls (fun _ _ => True) (A i) (fun _ => True)
  log   : ∀ x ∈ P.log, A x.1 x.2.1

namespace Within

variable {A : ι → S.Op → Prop}

theorem step (hP : Within A P) (i : ι) : Within A (P.step h i) := by
  cases hp : P.procs i
  case ret =>
    rw [Pool.step, hp]
    exact hP
  case call o k =>
    have hcalls := hP.procs i
    rw [hp] at hcalls
    rw [step_of_call hp]
    constructor
    case procs =>
      intro j
      by_cases hj : j = i
      case pos =>
        subst hj
        simpa using hcalls.right _ trivial
      case neg => simpa [hj] using hP.procs j
    case log =>
      intro x hx
      cases List.mem_append.mp hx
      case inl hx => exact hP.log x hx
      case inr hx =>
        rw [List.mem_singleton.mp hx]
        exact hcalls.left

theorem run (hP : Within A P) (sched : List ι) : Within A (P.run h sched) := by
  induction sched generalizing P
  case nil => exact hP
  case cons i sched hi => exact hi (hP.step i)

end Within

-- Calls without an effect leave the world as it is.
theorem world_of_log {idle : S.Op → Prop} (hidle : ∀ o w, idle o → (h o w).2 = w)
    (hl : ∀ x ∈ (P.run h sched).log, idle x.2.1) : (P.run h sched).world = P.world := by
  induction sched generalizing P
  case nil => rfl
  case cons i sched hi =>
    have hworld : (P.step h i).world = P.world := by
      cases hp : P.procs i
      case ret => rw [Pool.step, hp]
      case call o k =>
        have hmade : (i, ⟨o, (h o P.world).1⟩) ∈ (P.step h i).log := by
          rw [step_of_call hp]
          exact List.mem_append_right _ List.mem_cons_self
        rw [step_of_call hp]
        exact hidle o _ (hl _ (((P.step h i).log_run_isPrefix sched).subset hmade))
    rw [← hworld]
    exact hi hl

end Pool
