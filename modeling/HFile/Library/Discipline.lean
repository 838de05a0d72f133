import HFile.Library.Pool

-- A discipline for the calls of a program: in each state some calls are allowed, and a call leads to
-- one next state, which may depend on its answer.
structure Discipline (S : Signature) (σ : Type) where
  allows : σ → S.Op → Prop
  after  : σ → (o : S.Op) × S.Res o → σ

namespace Discipline

variable {S : Signature} {σ : Type}

def contract (D : Discipline S σ) : Contract S σ where
  allows     := D.allows
  next s o r := fun s' => s' = D.after s ⟨o, r⟩

-- `p` keeps to the discipline from the state `s` on, whatever the answers to its calls are, and ends
-- with a result and a state that satisfy `Q`.
abbrev Keeps (D : Discipline S σ) (Q : α → σ → Prop) (p : Program S α) (s : σ) : Prop :=
  p.Follows D.contract Q s

section

variable {D : Discipline S σ} {Q R : α → σ → Prop} {s : σ}

@[simp]
theorem keeps_ret {a : α} : D.Keeps Q (.ret a) s ↔ Q a s :=
  Iff.rfl

@[simp]
theorem keeps_call {o : S.Op} {k : S.Res o → Program S α} :
    D.Keeps Q (.call o k) s ↔ D.allows s o ∧ ∀ r, D.Keeps Q (k r) (D.after s ⟨o, r⟩) := by
  constructor
  case mp  => exact fun ⟨ha, hk⟩ => ⟨ha, fun r => hk r _ rfl⟩
  case mpr => exact fun ⟨ha, hk⟩ => ⟨ha, fun r s' hs => hs ▸ hk r⟩

theorem keeps_perform_bind {o : S.Op} {f : S.Res o → Program S α} :
    D.Keeps Q (Program.perform o >>= f) s ↔ D.allows s o ∧ ∀ r, D.Keeps Q (f r) (D.after s ⟨o, r⟩) :=
  keeps_call

theorem keeps_bind {β : Type} {p : Program S β} {f : β → Program S α} :
    D.Keeps Q (p >>= f) s ↔ D.Keeps (fun a s' => D.Keeps Q (f a) s') p s := by
  induction p generalizing s
  case ret       => rfl
  case call k hi => simp only [Program.call_bind, keeps_call, hi]

theorem Keeps.mono {p : Program S α} (h : D.Keeps Q p s) (hqr : ∀ a s', Q a s' → R a s') : D.Keeps R p s := by
  induction p generalizing s
  case ret => exact hqr _ _ h
  case call k hi =>
    rw [keeps_call] at h ⊢
    exact ⟨h.left, fun r => hi r (h.right r)⟩

end

section

variable {ι : Type} [DecidableEq ι]

-- The state of `i` after the calls of a log.
def state (D : Discipline S σ) (s : σ) (log : List (ι × ((o : S.Op) × S.Res o))) (i : ι) : σ :=
  log.foldl (fun s x => if x.1 = i then D.after s x.2 else s) s

variable {D : Discipline S σ} {s : σ}

@[simp]
theorem state_nil (i : ι) : D.state s [] i = s :=
  rfl

theorem state_append (log : List (ι × ((o : S.Op) × S.Res o))) (i : ι) (x : (o : S.Op) × S.Res o) :
    D.state s (log ++ [(i, x)]) = Function.update (D.state s log) i (D.after (D.state s log i) x) := by
  funext j
  by_cases hj : i = j
  case pos =>
    subst hj
    simp [state]
  case neg => simp [state, hj, Ne.symm hj]

-- All calls of a log are allowed at the time at which they are made.
def Obeyed (D : Discipline S σ) (s : σ) (log : List (ι × ((o : S.Op) × S.Res o))) : Prop :=
  ∀ l i x l', log = l ++ (i, x) :: l' → D.allows (D.state s l i) x.1

theorem Obeyed.append {log : List (ι × ((o : S.Op) × S.Res o))} {i : ι} {x : (o : S.Op) × S.Res o}
    (h : D.Obeyed s log) (hx : D.allows (D.state s log i) x.1) : D.Obeyed s (log ++ [(i, x)]) := by
  intro l j y l' hl
  cases List.eq_nil_or_concat l'
  case inl he =>
    subst he
    have ⟨hlog, hy⟩ := List.append_inj' hl rfl
    cases hy
    exact hlog ▸ hx
  case inr he =>
    have ⟨l'', z, he⟩ := he
    subst he
    rw [List.concat_eq_append, ← List.cons_append, ← List.append_assoc] at hl
    have ⟨hlog, _⟩ := List.append_inj' hl rfl
    exact h l j y l'' hlog

end
end Discipline

namespace Pool

variable {S : Signature} {W ι α σ : Type} [DecidableEq ι] {h : Program.Handler S W}

-- Programs that keep to a discipline on their own do so in every run in which they take turns, however
-- their calls are answered.
theorem disciplined {D : Discipline S σ} {Q : ι → α → σ → Prop} {s : σ} {w : W} {procs : ι → Program S α}
    (hp : ∀ i, D.Keeps (Q i) (procs i) s) (sched : List ι) :
    D.Obeyed s ((start w procs).run h sched).log ∧
    ∀ i a, ((start w procs).run h sched).result i = some a →
      Q i a (D.state s ((start w procs).run h sched).log i) := by
  have hk : Kept (fun _ => D.contract) Q (fun P ls => ls = D.state s P.log ∧ D.Obeyed s P.log)
      ((start w procs).run h sched) := by
    apply Kept.run (G := fun _ _ => True)
    case hk => exact ⟨fun _ => s, ⟨rfl, fun l i x l' hl => by simp [start] at hl⟩, hp⟩
    case hg => exact .of_forall (fun _ _ => trivial) sched
    case hs =>
      intro P i ls o k hinv _ hc ha
      have ⟨hls, hobeyed⟩ := hinv
      subst hls
      refine ⟨_, rfl, ?_⟩
      rw [step_of_call hc]
      exact ⟨(Discipline.state_append ..).symm, hobeyed.append ha⟩
  have ⟨ls, ⟨hls, hobeyed⟩, hf⟩ := hk
  subst hls
  exact ⟨hobeyed, fun i a hr => ends_of_result (hf i) hr⟩

end Pool
