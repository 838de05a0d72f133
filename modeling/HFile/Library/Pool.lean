import HFile.Library.Program

-- What is agreed between a program and those around it, as a transition system: in a state of type
-- `σ` the program only makes the calls that are allowed, and every answer to such a call comes with
-- one of the next states.
structure Contract (S : Signature) (σ : Type) where
  allows : σ → S.Op → Prop
  next   : σ → (o : S.Op) → S.Res o → σ → Prop

namespace Program

variable {S : Signature} {σ : Type}

-- `p` keeps its side of the contract from the state `s` on, and ends with a result and a state that
-- satisfy `Q`, provided that all answers it gets are as agreed.
def Follows (C : Contract S σ) (Q : α → σ → Prop) : Program S α → σ → Prop
  | ret a, s    => Q a s
  | call o k, s => C.allows s o ∧ ∀ r s', C.next s o r s' → (k r).Follows C Q s'

end Program

namespace Contract

variable {S : Signature} {σ : Type} {C : Contract S σ}

open Program (Handler Follows)

-- Answers that are as agreed, for any number of calls.
structure Oracle (C : Contract S σ) where
  pick  : Nat → (s : σ) → (o : S.Op) → S.Res o × σ
  valid : ∀ {n s o}, C.allows s o → C.next s o (pick n s o).1 (pick n s o).2

def Oracle.tail (f : Oracle C) : Oracle C where
  pick n  := f.pick (n + 1)
  valid h := f.valid h

open Classical in
-- A contract has an oracle if there is an answer to every call that is allowed.
theorem Oracle.nonempty [∀ o, Inhabited (S.Res o)]
    (h : ∀ {s o}, C.allows s o → ∃ r s', C.next s o r s') : Nonempty (Oracle C) := by
  have hx : ∀ s o, ∃ x : S.Res o × σ, C.allows s o → C.next s o x.1 x.2 := by
    intro s o
    by_cases ha : C.allows s o
    case pos =>
      have ⟨r, s', hn⟩ := h ha
      exact ⟨(r, s'), fun _ => hn⟩
    case neg => exact ⟨(default, s), fun ha' => absurd ha' ha⟩
  exact ⟨⟨fun _ s o => (hx s o).choose, fun ha => (hx _ _).choose_spec ha⟩⟩

open Classical in
-- The oracle that first gives the answer `r` to the call `o`, and then continues as `f` does.
noncomputable def Oracle.cons {s s' : σ} {o : S.Op} {r : S.Res o} (h : C.next s o r s')
    (f : Oracle C) : Oracle C where
  pick n t q :=
    match n with
    | 0     => if hq : t = s ∧ q = o then hq.right ▸ (r, s') else f.pick 0 t q
    | n + 1 => f.pick n t q
  valid {n t q} ha := by
    cases n
    case succ => exact f.valid ha
    case zero =>
      dsimp only
      split
      case isFalse => exact f.valid ha
      case isTrue hq =>
        cases hq.left
        cases hq.right
        exact h

-- The world of a program that is on its own with an oracle. The contract is kept as long as `sound`
-- holds.
structure Rehearsal (C : Contract S σ) where
  state : σ
  sound : Prop
  rest  : Oracle C

def rehearse (C : Contract S σ) : Handler S (Rehearsal C) :=
  fun o x => ((x.rest.pick 0 x.state o).1,
    { state := (x.rest.pick 0 x.state o).2, sound := x.sound ∧ C.allows x.state o, rest := x.rest.tail })

theorem Rehearsal.sound_of_run {p : Program S α} {x : Rehearsal C}
    (h : (p.run C.rehearse x).2.sound) : x.sound := by
  induction p generalizing x
  case ret       => exact h
  case call k hi => exact (hi _ h).left

@[simp]
theorem rehearse_cons {s s' : σ} {o : S.Op} {r : S.Res o} (h : C.next s o r s') (f : Oracle C) {b : Prop} :
    C.rehearse o ⟨s, b, f.cons h⟩ = (r, ⟨s', b ∧ C.allows s o, f⟩) := by
  simp [rehearse, Oracle.cons, Oracle.tail]

theorem rehearse_eq {x : Rehearsal C} {o : S.Op} (ha : C.allows x.state o) :
    ∃ r s, C.next x.state o r s ∧
      C.rehearse o x = (r, ⟨s, x.sound ∧ C.allows x.state o, x.rest.tail⟩) :=
  ⟨_, _, x.rest.valid (n := 0) ha, rfl⟩

-- What is to be shown of a call in a rehearsal.
theorem wp_rehearse {s : σ} {o : S.Op} {f : Oracle C} {Q : S.Res o → Rehearsal C → Prop}
    (ha : C.allows s o) (hq : ∀ r s' f, C.next s o r s' → Q r ⟨s', True, f⟩) :
    (Program.perform o).wp C.rehearse Q ⟨s, True, f⟩ := by
  have ⟨r, s', hn, he⟩ := rehearse_eq (x := ⟨s, True, f⟩) ha
  rw [Program.wp_perform, he]
  simpa [ha] using hq r s' f.tail hn

-- A program keeps a contract if it does so in every rehearsal.
theorem follows_of_wp {Q : α → σ → Prop} {p : Program S α} {s : σ} (hf : Nonempty (Oracle C))
    (h : ∀ f, p.wp C.rehearse (fun a x => x.sound ∧ Q a x.state) ⟨s, True, f⟩) :
    p.Follows C Q s := by
  have ⟨f⟩ := hf
  induction p generalizing s
  case ret a => exact (h f).right
  case call o k hi =>
    have ⟨_, ha⟩ : True ∧ C.allows s o := Rehearsal.sound_of_run (p := k _) (h f).left
    apply And.intro ha
    intro r s' hn
    apply hi
    intro f'
    have hw := h (f'.cons hn)
    rw [Program.wp_call, rehearse_cons] at hw
    simpa [ha] using hw

end Contract

-- Programs that share a world and take turns. The log holds all calls that have been made, with the
-- caller and the answer.
structure Pool (S : Signature) (W ι α : Type) where
  world : W
  procs : ι → Program S α
  log   : List (ι × ((o : S.Op) × S.Res o))

namespace Pool

open Program (Handler Follows)

variable {S : Signature} {W ι α σ : Type} [DecidableEq ι] {h : Handler S W}

def start (w : W) (procs : ι → Program S α) : Pool S W ι α where
  world := w
  procs := procs
  log   := []

-- The turn of `i`: it makes its next call, if it has not finished.
def step (h : Handler S W) (P : Pool S W ι α) (i : ι) : Pool S W ι α :=
  match P.procs i with
  | .ret _    => P
  | .call o k =>
    { world := (h o P.world).2
      procs := Function.update P.procs i (k (h o P.world).1)
      log   := P.log ++ [(i, ⟨o, (h o P.world).1⟩)] }

def run (h : Handler S W) (P : Pool S W ι α) (sched : List ι) : Pool S W ι α :=
  sched.foldl (step h) P

def result (P : Pool S W ι α) (i : ι) : Option α :=
  match P.procs i with
  | .ret a    => some a
  | .call _ _ => none

-- All turns of a schedule are taken in a pool that satisfies `G`.
def Guarded (h : Handler S W) (G : Pool S W ι α → ι → Prop) : Pool S W ι α → List ι → Prop
  | _, []         => True
  | P, i :: sched => G P i ∧ Guarded h G (P.step h i) sched

instance Guarded.decidable (G : Pool S W ι α → ι → Prop) [∀ P i, Decidable (G P i)] :
    (P : Pool S W ι α) → (sched : List ι) → Decidable (Guarded h G P sched)
  | _, []         => .isTrue trivial
  | P, i :: sched => @instDecidableAnd _ _ _ (decidable G (P.step h i) sched)

theorem step_of_call {P : Pool S W ι α} {i : ι} {o : S.Op} {k : S.Res o → Program S α}
    (hp : P.procs i = .call o k) :
    P.step h i =
      { world := (h o P.world).2
        procs := Function.update P.procs i (k (h o P.world).1)
        log   := P.log ++ [(i, ⟨o, (h o P.world).1⟩)] } := by
  rw [step, hp]

theorem Guarded.of_forall {G : Pool S W ι α → ι → Prop} (hg : ∀ P i, G P i) {P : Pool S W ι α}
    (sched : List ι) : Guarded h G P sched := by
  induction sched generalizing P
  case nil              => trivial
  case cons i sched hi  => exact ⟨hg P i, hi⟩

-- A guarded schedule is guarded up to every turn, and at this turn.
theorem Guarded.turn {G : Pool S W ι α → ι → Prop} {P : Pool S W ι α} {s₁ s₂ : List ι} {i : ι}
    (hg : Guarded h G P (s₁ ++ i :: s₂)) : Guarded h G P s₁ ∧ G (P.run h s₁) i := by
  induction s₁ generalizing P
  case nil => exact ⟨trivial, hg.left⟩
  case cons j s₁ hi =>
    have ⟨hs, hi⟩ := hi hg.right
    exact ⟨⟨hg.left, hs⟩, hi⟩

theorem run_append (P : Pool S W ι α) (s₁ s₂ : List ι) :
    P.run h (s₁ ++ s₂) = (P.run h s₁).run h s₂ :=
  List.foldl_append

theorem log_step_isPrefix (P : Pool S W ι α) (i : ι) : P.log <+: (P.step h i).log := by
  rw [step]
  split
  · exact List.prefix_rfl
  · exact List.prefix_append _ _

theorem log_run_isPrefix (P : Pool S W ι α) (sched : List ι) : P.log <+: (P.run h sched).log := by
  induction sched generalizing P
  case nil => exact List.prefix_rfl
  case cons i sched hi => exact (P.log_step_isPrefix i).trans (hi _)

-- Only those who have had a turn are in the log.
theorem mem_of_log_step {P : Pool S W ι α} {i : ι} {x} (hx : x ∈ (P.step h i).log) :
    x ∈ P.log ∨ x.1 = i := by
  rw [step] at hx
  split at hx
  case h_1 => exact .inl hx
  case h_2 => exact (List.mem_append.mp hx).imp_right fun hx => by rw [List.mem_singleton.mp hx]

theorem mem_of_log_run {P : Pool S W ι α} {sched : List ι} {x} (hx : x ∈ (P.run h sched).log) :
    x ∈ P.log ∨ x.1 ∈ sched := by
  induction sched generalizing P
  case nil => exact .inl hx
  case cons i sched hi =>
    cases hi hx
    case inl hs =>
      apply (mem_of_log_step hs).imp_right
      intro he
      simp [he]
    case inr hs => exact .inr (List.mem_cons_of_mem _ hs)

-- One who has finished makes no further calls.
theorem mem_log_of_result {P : Pool S W ι α} {sched : List ι} {i : ι} {x}
    (hr : P.result i ≠ none) (hx : (i, x) ∈ (P.run h sched).log) : (i, x) ∈ P.log := by
  induction sched generalizing P
  case nil => exact hx
  case cons j sched hi =>
    have hs : (P.step h j).result i ≠ none ∧ ((i, x) ∈ (P.step h j).log → (i, x) ∈ P.log) := by
      rw [step]
      split
      case h_1 => exact ⟨hr, id⟩
      case h_2 hj =>
        have hij : i ≠ j := fun he => by simp [result, he, hj] at hr
        simpa [result, hij] using hr
    exact hs.right (hi hs.left hx)

-- Every entry of the log is a call that was made at some turn.
theorem turn_of_log {P : Pool S W ι α} {sched : List ι} {i : ι} {o : S.Op} {r : S.Res o} {l l'}
    (hl : (P.run h sched).log = P.log ++ (l ++ (i, ⟨o, r⟩) :: l')) :
    ∃ s₁ s₂ k, sched = s₁ ++ i :: s₂ ∧ (P.run h s₁).log = P.log ++ l ∧
      (P.run h s₁).procs i = .call o k := by
  induction sched using List.reverseRecOn generalizing l'
  case nil => simp [run] at hl
  case append_singleton sched j hi =>
    rw [run_append] at hl
    change ((P.run h sched).step h j).log = _ at hl
    cases hp : (P.run h sched).procs j
    case ret =>
      rw [step, hp] at hl
      have ⟨s₁, s₂, k, hs, hlog, hk⟩ := hi hl
      exact ⟨s₁, s₂ ++ [j], k, by simp [hs], hlog, hk⟩
    case call q k =>
      rw [step_of_call hp] at hl
      cases List.eq_nil_or_concat l'
      case inl he =>
        -- The entry is that of the last turn.
        rw [he, ← List.append_assoc] at hl
        have ⟨hlog, hx⟩ := List.append_inj' hl rfl
        cases hx
        exact ⟨sched, [], k, rfl, hlog, hp⟩
      case inr he =>
        have ⟨l'', x, he⟩ := he
        rw [he, List.concat_eq_append, ← List.cons_append, ← List.append_assoc,
          ← List.append_assoc] at hl
        have ⟨hlog, _⟩ := List.append_inj' hl rfl
        have ⟨s₁, s₂, k, hs, hlog, hk⟩ := hi (by rw [hlog, List.append_assoc])
        exact ⟨s₁, s₂ ++ [j], k, by simp [hs], hlog, hk⟩

-- A program that has finished has ended as its contract says.
omit [DecidableEq ι] in
theorem ends_of_result {C : Contract S σ} {Q : α → σ → Prop} {P : Pool S W ι α} {i : ι} {a : α} {x : σ}
    (hf : (P.procs i).Follows C Q x) (hr : P.result i = some a) : Q a x := by
  rw [result] at hr
  split at hr
  case h_1 hp =>
    cases hr
    rwa [hp] at hf
  case h_2 => cases hr

section

variable {C : ι → Contract S σ} {Q : ι → α → σ → Prop} {G : Pool S W ι α → ι → Prop}
variable {Inv : Pool S W ι α → (ι → σ) → Prop}

-- All programs keep their contracts, and the states they are in fit the world.
def Kept (C : ι → Contract S σ) (Q : ι → α → σ → Prop) (Inv : Pool S W ι α → (ι → σ) → Prop)
    (P : Pool S W ι α) : Prop :=
  ∃ ls, Inv P ls ∧ ∀ i, (P.procs i).Follows (C i) (Q i) (ls i)

theorem Kept.step {P : Pool S W ι α} {i : ι}
    (hs : ∀ {ls o k}, Inv P ls → P.procs i = .call o k → (C i).allows (ls i) o →
      ∃ s, (C i).next (ls i) o (h o P.world).1 s ∧ Inv (P.step h i) (Function.update ls i s))
    (hk : Kept C Q Inv P) : Kept C Q Inv (P.step h i) := by
  have ⟨ls, hinv, hf⟩ := hk
  cases hp : P.procs i
  case ret =>
    rw [Pool.step, hp]
    exact hk
  case call o k =>
    have hi := hf i
    rw [hp] at hi
    have ⟨s, hn, hinv'⟩ := hs hinv hp hi.left
    exists Function.update ls i s
    apply And.intro hinv'
    intro j
    rw [step_of_call hp]
    by_cases hj : j = i
    case pos =>
      subst hj
      simpa using hi.right _ s hn
    case neg => simpa [hj] using hf j

-- If each call that is allowed is answered as agreed, and the states still fit the world then, all
-- programs keep their contracts in any run.
theorem Kept.run
    (hs : ∀ {P i ls o k}, Inv P ls → G P i → P.procs i = .call o k → (C i).allows (ls i) o →
      ∃ s, (C i).next (ls i) o (h o P.world).1 s ∧ Inv (P.step h i) (Function.update ls i s))
    {P : Pool S W ι α} {sched : List ι} (hk : Kept C Q Inv P) (hg : Guarded h G P sched) :
    Kept C Q Inv (P.run h sched) := by
  induction sched generalizing P
  case nil => exact hk
  case cons i sched hi => exact hi (hk.step fun hinv hp ha => hs hinv hg.left hp ha) hg.right

end
end Pool
