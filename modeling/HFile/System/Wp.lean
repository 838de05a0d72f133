import HFile.System.Files

namespace Io

section

variable {W : Type} {h : Program.Handler Sys W} {e : Env} {w : W}

-- Runs a process on its own, from its private state and the shared one.
def exec (h : Program.Handler Sys W) (m : Io α) (e : Env) (w : W) : (α × Env) × W :=
  (m.run e).run h w

def wp (h : Program.Handler Sys W) (m : Io α) (Q : α → Env → W → Prop) (e : Env) (w : W) : Prop :=
  (m.run e).wp h (fun r => Q r.1 r.2) w

theorem wp_iff_exec {m : Io α} {Q : α → Env → W → Prop} :
    wp h m Q e w ↔ Q (exec h m e w).1.1 (exec h m e w).1.2 (exec h m e w).2 :=
  Iff.rfl

@[simp]
theorem wp_pure {a : α} {Q : α → Env → W → Prop} : wp h (pure a) Q e w ↔ Q a e w :=
  Iff.rfl

@[simp]
theorem wp_bind {m : Io α} {f : α → Io β} {Q : β → Env → W → Prop} :
    wp h (m >>= f) Q e w ↔ wp h m (fun a e' w' => wp h (f a) Q e' w') e w := by
  simp [wp]

@[simp]
theorem wp_discard {m : Io α} {Q : Unit → Env → W → Prop} :
    wp h (discard m) Q e w ↔ wp h m (fun _ e' w' => Q () e' w') e w := by
  have hd : (discard m : Io Unit) = (m >>= fun _ => pure ()) := by
    simp only [Functor.discard, map_const, Function.comp, ← bind_pure_comp, Function.const]
  rw [hd, wp_bind]
  rfl

@[simp]
theorem wp_sys {o : SysOp} {Q : o.Res → Env → W → Prop} :
    wp h (sys o) Q e w ↔ Q (h o w).1 e (h o w).2 :=
  Iff.rfl

@[simp]
theorem wp_getpid {Q : Nat → Env → W → Prop} : wp h getpid Q e w ↔ Q e.pid e w :=
  Iff.rfl

theorem wp_mono {m : Io α} {Q R : α → Env → W → Prop} (hm : wp h m Q e w)
    (hqr : ∀ a e' w', Q a e' w' → R a e' w') : wp h m R e w :=
  hqr _ _ _ hm

theorem wp_imp {m : Io α} {Q R : α → Env → W → Prop} (hm : wp h m Q e w)
    (hqr : wp h m (fun a e' w' => Q a e' w' → R a e' w') e w) : wp h m R e w :=
  hqr hm

theorem wp_traced {m : Io α} {Q : α → Env → W × List ((o : SysOp) × o.Res) → Prop}
    (hm : wp h m (fun a e' w' => ∀ l, Q a e' (w', l)) e w) (l : List ((o : SysOp) × o.Res)) :
    wp (Program.Handler.traced h) m Q e (w, l) :=
  Program.wp_traced hm l

theorem wp_fault {Q : Option Errno → Env → W → Prop}
    (hq : ∀ f fs, Q f { e with faults := fs } w) : wp h fault Q e w :=
  hq _ _

theorem wp_fault_iff {Q : Option Errno → Env → W → Prop} :
    wp h fault Q e w ↔ Q (e.faults.headD none) { e with faults := e.faults.tail } w :=
  Iff.rfl

theorem wp_malloc {Q : Bool → Env → W → Prop}
    (hq : ∀ b as, Q b { e with allocs := as } w) : wp h malloc Q e w :=
  hq _ _

theorem wp_malloc_iff {Q : Bool → Env → W → Prop} :
    wp h malloc Q e w ↔ Q (e.allocs.headD true) { e with allocs := e.allocs.tail } w :=
  Iff.rfl

end
end Io
