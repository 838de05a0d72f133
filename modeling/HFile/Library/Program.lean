import Mathlib

-- A signature lists the calls a program can make and the type of answer each of them gets.
structure Signature where
  Op  : Type
  Res : Op → Type

-- A program is either finished or waits for the answer to its next call. Everything a program does
-- to the world around it is visible as a call, so that the same program can be run on its own
-- (`run`), be inspected for the calls it can make (`Calls`) or be interleaved with other programs.
inductive Program (S : Signature) (α : Type) where
  | ret  (a : α)
  | call (o : S.Op) (k : S.Res o → Program S α)

namespace Program

variable {S : Signature} {W : Type}

def bind : Program S α → (α → Program S β) → Program S β
  | ret a, f    => f a
  | call o k, f => call o (fun r => bind (k r) f)

instance : Monad (Program S) where
  pure := ret
  bind := bind

-- The program that makes the single call `o`.
def perform (o : S.Op) : Program S (S.Res o) :=
  call o ret

@[simp]
theorem pure_eq (a : α) : (pure a : Program S α) = ret a :=
  rfl

@[simp]
theorem ret_bind (a : α) (f : α → Program S β) : (ret a >>= f) = f a :=
  rfl

@[simp]
theorem call_bind (o : S.Op) (k : S.Res o → Program S α) (f : α → Program S β) :
    (call o k >>= f) = call o (fun r => k r >>= f) :=
  rfl

theorem bind_ret (p : Program S α) : (p >>= ret) = p := by
  induction p
  case ret       => rfl
  case call k hi => simp [hi]

theorem bind_assoc (p : Program S α) (f : α → Program S β) (g : β → Program S γ) :
    (p >>= f >>= g) = (p >>= fun a => f a >>= g) := by
  induction p
  case ret       => rfl
  case call k hi => simp [hi]

instance : LawfulMonad (Program S) :=
  LawfulMonad.mk' _ bind_ret (fun _ _ => rfl) bind_assoc

-- The call that a program makes next, unless it has finished.
def next : Program S α → Option S.Op
  | ret _    => none
  | call o _ => some o

-- A handler answers each call and says how the world changes.
abbrev Handler (S : Signature) (W : Type) :=
  (o : S.Op) → W → S.Res o × W

def run (h : Handler S W) : Program S α → W → α × W
  | ret a, w    => (a, w)
  | call o k, w => run h (k (h o w).1) (h o w).2

@[simp]
theorem run_ret (h : Handler S W) (a : α) (w : W) : (ret a : Program S α).run h w = (a, w) :=
  rfl

@[simp]
theorem run_call (h : Handler S W) (o : S.Op) (k : S.Res o → Program S α) (w : W) :
    (call o k).run h w = (k (h o w).1).run h (h o w).2 :=
  rfl

@[simp]
theorem run_bind (h : Handler S W) (p : Program S α) (f : α → Program S β) (w : W) :
    (p >>= f).run h w = (f (p.run h w).1).run h (p.run h w).2 := by
  induction p generalizing w
  case ret       => rfl
  case call k hi => simp [hi]

-- The handler that also records all calls and their answers.
def Handler.traced (h : Handler S W) : Handler S (W × List ((o : S.Op) × S.Res o)) :=
  fun o w => ((h o w.1).1, (h o w.1).2, w.2 ++ [⟨o, (h o w.1).1⟩])

-- `p.wp h Q w` holds if running `p` from the world `w` ends with a result and a world that
-- satisfy `Q`.
def wp (h : Handler S W) (p : Program S α) (Q : α → W → Prop) (w : W) : Prop :=
  Q (p.run h w).1 (p.run h w).2

section Wp

variable {h : Handler S W} {w : W}

@[simp]
theorem wp_ret {a : α} {Q : α → W → Prop} : (ret a : Program S α).wp h Q w ↔ Q a w :=
  Iff.rfl

@[simp]
theorem wp_call {o : S.Op} {k : S.Res o → Program S α} {Q : α → W → Prop} :
    (call o k).wp h Q w ↔ (k (h o w).1).wp h Q (h o w).2 :=
  Iff.rfl

@[simp]
theorem wp_perform {o : S.Op} {Q : S.Res o → W → Prop} :
    (perform o).wp h Q w ↔ Q (h o w).1 (h o w).2 :=
  Iff.rfl

@[simp]
theorem wp_bind {p : Program S α} {f : α → Program S β} {Q : β → W → Prop} :
    (p >>= f).wp h Q w ↔ p.wp h (fun a w' => (f a).wp h Q w') w := by
  simp [wp]

-- What holds after a run holds after a recorded run, whatever the record is.
theorem wp_traced {p : Program S α} {Q : α → W × List ((o : S.Op) × S.Res o) → Prop}
    (hp : p.wp h (fun a w' => ∀ l, Q a (w', l)) w) (l : List ((o : S.Op) × S.Res o)) :
    p.wp h.traced Q (w, l) := by
  induction p generalizing w l
  case ret       => exact hp l
  case call k hi => exact hi _ hp _

theorem wp_mono {p : Program S α} {Q R : α → W → Prop} (hp : p.wp h Q w)
    (hqr : ∀ a w', Q a w' → R a w') : p.wp h R w :=
  hqr _ _ hp

end Wp

-- `p.Calls A P Q` holds if every call that `p` can make satisfies `P`, and every result satisfies
-- `Q`, for any answers to its calls that satisfy `A`.
def Calls (A : (o : S.Op) → S.Res o → Prop) (P : S.Op → Prop) (Q : α → Prop) : Program S α → Prop
  | ret a    => Q a
  | call o k => P o ∧ ∀ r, A o r → (k r).Calls A P Q

namespace Calls

variable {A : (o : S.Op) → S.Res o → Prop} {P : S.Op → Prop} {Q R : α → Prop}

@[simp]
theorem ret_iff {a : α} : (Program.ret a : Program S α).Calls A P Q ↔ Q a :=
  Iff.rfl

@[simp]
theorem call_iff {o : S.Op} {k : S.Res o → Program S α} :
    (call o k).Calls A P Q ↔ P o ∧ ∀ r, A o r → (k r).Calls A P Q :=
  Iff.rfl

@[simp]
theorem bind_iff {p : Program S α} {f : α → Program S β} {Q : β → Prop} :
    (p >>= f).Calls A P Q ↔ p.Calls A P (fun a => (f a).Calls A P Q) := by
  induction p
  case ret a     => rfl
  case call k hi => simp [hi]

@[simp]
theorem perform_bind_iff {o : S.Op} {f : S.Res o → Program S β} {Q : β → Prop} :
    (perform o >>= f).Calls A P Q ↔ P o ∧ ∀ r, A o r → (f r).Calls A P Q :=
  Iff.rfl

theorem mono {p : Program S α} (hp : p.Calls A P Q) (h : ∀ a, Q a → R a) : p.Calls A P R := by
  induction p
  case ret       => exact h _ hp
  case call k hi => exact ⟨hp.left, fun r hr => hi r (hp.right r hr)⟩

end Calls

-- `p` makes the calls of a log, gets the answers there, and then ends with `a`.
inductive Trace : Program S α → List ((o : S.Op) × S.Res o) → α → Prop
  | ret (a : α) : Trace (ret a) [] a
  | call {o k r log a} : Trace (k r) log a → Trace (call o k) (⟨o, r⟩ :: log) a

-- The answers of a log are those of `h`, from one world to the other.
inductive Replays (h : Handler S W) : W → List ((o : S.Op) × S.Res o) → W → Prop
  | nil (w : W) : Replays h w [] w
  | cons {w w' o log} : Replays h (h o w).2 log w' → Replays h w (⟨o, (h o w).1⟩ :: log) w'

theorem Replays.append {h : Handler S W} {w w' w'' : W} {l l' : List ((o : S.Op) × S.Res o)}
    (hl : Replays h w l w') (hl' : Replays h w' l' w'') : Replays h w (l ++ l') w'' := by
  induction hl
  case nil        => exact hl'
  case cons _ hi  => exact .cons (hi hl')

end Program
