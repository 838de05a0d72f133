import HFile.Theorems.Net

open Program (Handler)
open Arrival (bytes)

section SendFile

variable {W : Type} {h : Handler Sys W} {e : Env} {w : W} {fd : Entry} {R : W → Bytes → Prop}

-- `R w bs` says that `bs` is what has been read from the start of a file so far. Reading on at the
-- end of these bytes keeps this up.
structure Reads (h : Handler Sys W) (fd : Entry) (R : W → Bytes → Prop) : Prop where
  length_le : ∀ {w bs} len, R w bs → (h (.pread fd bs.length len) w).1.length ≤ len
  step : ∀ {w bs} len, R w bs →
    R (h (.pread fd bs.length len) w).2 (bs ++ (h (.pread fd bs.length len) w).1)

-- What holds when a loop that was to send `remaining` bytes after the bytes `read` is left with the
-- result `r` after it has sent the bytes `sent`.
structure Sent (R : W → Bytes → Prop) (read : Bytes) (remaining : Nat) (r : NetSendFileResult)
    (sent : Bytes) (w : W) : Prop where
  reads : ∃ got, R w (read ++ got) ∧ sent <+: got ∧ (r = .ok → sent = got)
  full  : r = .ok → sent.length = remaining
  short : r ≠ .ok → sent.length < remaining

namespace Sent

variable {read got sent : Bytes} {remaining : Nat} {r : NetSendFileResult}

theorem done (hw : R w read) : Sent R read 0 .ok [] w where
  reads := ⟨[], by simpa using hw, List.nil_prefix, fun _ => rfl⟩
  full  := by simp
  short := by simp

theorem abort (hw : R w read) (hl : 0 < remaining) (hr : r ≠ .ok) :
    Sent R read remaining r [] w where
  reads := ⟨[], by simpa using hw, List.prefix_rfl, fun h => absurd h hr⟩
  full  := fun h => absurd h hr
  short := fun _ => hl

theorem stop (hw : R w (read ++ got)) (hs : sent <+: got) (hl : sent.length < remaining)
    (hr : r ≠ .ok) : Sent R read remaining r sent w where
  reads := ⟨got, hw, hs, fun h => absurd h hr⟩
  full  := fun h => absurd h hr
  short := fun _ => hl

theorem prepend (hl : got.length ≤ remaining)
    (hs : Sent R (read ++ got) (remaining - got.length) r sent w) :
    Sent R read remaining r (got ++ sent) w where
  reads :=
    have ⟨got', hw, hp, ho⟩ := hs.reads
    ⟨got ++ got', by simpa using hw, (List.prefix_append_right_inj _).mpr hp, fun h => by rw [ho h]⟩
  full h := by
    have := hs.full h
    simp only [List.length_append]
    omega
  short h := by
    have := hs.short h
    simp only [List.length_append]
    omega

end Sent

theorem netSendFileAll.loop_spec (hr : Reads h fd R) {read : Bytes} (hw : R w read)
    (ts : List Transfer) (remaining : Nat) :
    (netSendFileAll.loop fd ts read.length remaining).wp h (fun x w' =>
      Sent R read remaining x.1 x.2.1 w' ∧
      (x.1 = .unsupported → read = [] ∧ x.2.1 = [] ∧ R w' [])) w := by
  generalize ho : read.length = offset
  fun_induction netSendFileAll.loop fd ts offset remaining generalizing w read
  case case1 =>
    exact ⟨.done hw, by simp⟩
  case case2 hn _ _ _ hc =>
    have hnil : read = [] := List.length_eq_zero_iff.mp (ho.trans hc.right)
    exact ⟨.abort hw (Nat.pos_of_ne_zero hn) (by simp),
      fun _ => ⟨hnil, rfl, hnil ▸ hw⟩⟩
  case case3 hi =>
    exact hi hw ho
  case case4 hn _ _ _ _ _ =>
    exact ⟨.abort hw (Nat.pos_of_ne_zero hn) (by simp), by simp⟩
  case case5 remaining hn n ts' _ hi =>
    subst ho
    have hle := hr.length_le (min n remaining) hw
    have hstep := hr.step (min n remaining) hw
    rw [Program.wp_bind, Program.wp_perform]
    split
    case isTrue =>
      exact ⟨.stop hstep List.nil_prefix (Nat.pos_of_ne_zero hn) (by simp), by simp⟩
    case isFalse hg =>
      rw [Program.wp_bind]
      refine Program.wp_mono (hi _ hg hstep (by simp)) ?_
      intro _ _ ⟨hs, hu⟩
      simp only [List.append_eq_nil_iff, hg, and_false, false_and, imp_false] at hu
      exact ⟨hs.prepend (by omega), fun hr' => absurd hr' hu⟩

theorem netSendFileBuffered.loop_spec (hr : Reads h fd R) {read : Bytes} (hw : R w read)
    (ts snd : List Transfer) (remaining : Nat) :
    (netSendFileBuffered.loop fd ts snd read.length remaining).wp h (fun x w' =>
      Sent R read remaining x.1 x.2.1 w' ∧ x.2.2.2 ⊆ snd) w := by
  generalize ho : read.length = offset
  fun_induction netSendFileBuffered.loop fd ts snd offset remaining generalizing w read
  case case1 =>
    exact ⟨.done hw, List.Subset.refl _⟩
  case case2 hn _ _ _ _ =>
    exact ⟨.abort hw (Nat.pos_of_ne_zero hn) (by simp), List.Subset.refl _⟩
  case case3 snd offset remaining hn want n ts' _ hi =>
    subst ho
    have hle := hr.length_le (min n want) hw
    have hstep := hr.step (min n want) hw
    have hwant : want ≤ remaining := Nat.min_le_right ..
    rw [Program.wp_bind, Program.wp_perform]
    split
    case isTrue =>
      exact ⟨.stop hstep List.nil_prefix (Nat.pos_of_ne_zero hn) (by simp), List.Subset.refl _⟩
    case isFalse hg =>
      generalize (h (.pread fd read.length (min n want)) w).1 = got at *
      rcases sendAll.loop_spec snd got with ⟨snd', he, hs⟩ | ⟨n, sent, snd', he, hs, hp, hl, hn, -⟩
      case inl =>
        simp only [he, ne_eq, not_true_eq_false, if_false]
        rw [Program.wp_bind]
        refine Program.wp_mono (hi _ hg _ hstep (by simp)) ?_
        intro _ _ ⟨hs', hsub⟩
        exact ⟨hs'.prepend (by omega), List.Subset.trans hsub hs⟩
      case inr =>
        have hne : n ≠ some got.length := fun h => Nat.lt_irrefl _ (hn _ h)
        simp only [he, hne, ne_eq, not_false_eq_true, if_true]
        have hlt : sent.length < remaining := by omega
        rw [Program.pure_eq, Program.wp_ret]
        exact ⟨.stop hstep hp hlt (by simp), hs⟩

-- The same for loops that can fail although they have sent everything.
structure SentUpTo (R : W → Bytes → Prop) (read : Bytes) (remaining : Nat) (r : NetSendFileResult)
    (sent : Bytes) (w : W) : Prop where
  reads : ∃ got, R w (read ++ got) ∧ sent <+: got ∧ (r = .ok → sent = got)
  full  : r = .ok → sent.length = remaining
  le    : sent.length ≤ remaining

theorem Sent.upTo {read sent : Bytes} {remaining : Nat} {r : NetSendFileResult}
    (hs : Sent R read remaining r sent w) : SentUpTo R read remaining r sent w where
  reads := hs.reads
  full  := hs.full
  le    := by
    by_cases hr : r = .ok
    case pos => exact (hs.full hr).le
    case neg => exact (hs.short hr).le

theorem SentUpTo.prepend {read got sent : Bytes} {remaining : Nat} {r : NetSendFileResult}
    (hl : got.length ≤ remaining)
    (hs : SentUpTo R (read ++ got) (remaining - got.length) r sent w) :
    SentUpTo R read remaining r (got ++ sent) w where
  reads := by
    obtain ⟨got', hw, hp, ho⟩ := hs.reads
    exact ⟨got ++ got', by simpa using hw, (List.prefix_append_right_inj _).mpr hp,
      fun h => by rw [ho h]⟩
  full h := by
    have := hs.full h
    simp only [List.length_append]
    omega
  le := by
    have := hs.le
    simp only [List.length_append]
    omega

theorem netSendFileAllApple.loop_spec (hr : Reads h fd R) {read : Bytes} (hw : R w read)
    (ts : List AppleTransfer) (remaining : Nat) :
    (netSendFileAllApple.loop fd ts read.length remaining).wp h (fun x w' =>
      SentUpTo R read remaining x.1 x.2 w' ∧
      (x.1 = .unsupported → read = [] ∧ x.2 = [] ∧ R w' [])) w := by
  generalize ho : read.length = offset
  fun_induction netSendFileAllApple.loop fd ts offset remaining generalizing w read
  case case1 => exact ⟨(Sent.done hw).upTo, by simp⟩
  case case2 remaining hn n err ts' ht hfull hpart =>
    subst ho
    have hle := hr.length_le (min n remaining) hw
    have hstep := hr.step (min n remaining) hw
    rw [Program.wp_bind, Program.wp_perform]
    generalize (h (.pread fd read.length (min n remaining)) w).1 = got at hle hstep ⊢
    have hgot : got.length ≤ remaining := by omega
    have hstop : ∀ r, r ≠ .ok → SentUpTo R read remaining r got
        (h (.pread fd read.length (min n remaining)) w).2 :=
      fun r hr => ⟨⟨got, hstep, List.prefix_rfl, fun h => absurd h hr⟩, fun h => absurd h hr, hgot⟩
    have hnext : ∀ (x : NetSendFileResult × Bytes) w', SentUpTo R (read ++ got) (remaining - got.length) x.1 x.2 w' ∧
        (x.1 = .unsupported → read ++ got = [] ∧ x.2 = [] ∧ R w' []) →
        SentUpTo R read remaining x.1 (got ++ x.2) w' ∧
        (x.1 = .unsupported → read = [] ∧ got ++ x.2 = [] ∧ R w' []) := by
      rintro ⟨r, sent⟩ w' ⟨hs, hu⟩
      refine ⟨hs.prepend hgot, fun h => ?_⟩
      obtain ⟨hnil, hsent, hw'⟩ := hu h
      rw [List.append_eq_nil_iff] at hnil
      exact ⟨hnil.left, by rw [hnil.right, hsent]; rfl, hw'⟩
    cases err
    case none =>
      dsimp only
      split
      case isTrue hg => exact ⟨hg ▸ hstop .sourceChanged (by simp), by simp⟩
      case isFalse hg =>
        rw [Program.wp_bind]
        exact Program.wp_mono (hfull got hg hstep (by simp)) hnext
    case some err =>
      dsimp only
      split
      case isTrue =>
        rw [Program.wp_bind]
        exact Program.wp_mono (hpart got err rfl hstep (by simp)) hnext
      case isFalse =>
        split
        case isTrue hc =>
          obtain ⟨-, hz, rfl⟩ := hc
          have hnil : read = [] := List.length_eq_zero_iff.mp hz
          exact ⟨hstop .unsupported (by simp), fun _ => ⟨hnil, rfl, by simpa [hnil] using hstep⟩⟩
        case isFalse => exact ⟨hstop .io (by simp), by simp⟩

theorem wp_netSendFileBuffered (hr : Reads h fd R) (hw : R w []) {size : UInt64}
    {Q : NetSendFileResult → Env → W → Prop}
    (hq : ∀ r sent src snd allocs w', Sent R [] size.toNat r sent w' → snd ⊆ e.snd →
      Q r { e with src := src, snd := snd, allocs := allocs, out := e.out ++ sent } w') :
    Io.wp h (netSendFileBuffered fd size) Q e w := by
  rw [netSendFileBuffered]
  split
  case isTrue hz =>
    subst hz
    simpa using hq .ok [] e.src e.snd e.allocs w (.done hw) (List.Subset.refl _)
  case isFalse hz =>
    have hpos : 0 < size.toNat := UInt64.pos_iff_ne_zero.mpr hz
    rw [Io.wp_bind]
    refine Io.wp_malloc fun b as => ?_
    split
    case isTrue =>
      simpa using hq .io [] e.src e.snd as w (.abort hw hpos (by simp)) (List.Subset.refl _)
    case isFalse =>
      refine Program.wp_bind.mpr (Program.wp_mono (netSendFileBuffered.loop_spec hr hw _ _ _) ?_)
      rintro ⟨r, sent, ts, snd⟩ w' ⟨hs, hsub⟩
      exact hq r sent ts snd as w' hs hsub

-- Both ways of sending a file send a prefix of what they read, and all of it unless they fail.
theorem wp_netSendFileBestEffort (hr : Reads h fd R) (hw : R w []) {size : UInt64}
    {Q : NetSendFileResult → Env → W → Prop}
    (hq : ∀ r sent src snd allocs w', Sent R [] size.toNat r sent w' → snd ⊆ e.snd →
      Q r { e with src := src, snd := snd, allocs := allocs, out := e.out ++ sent } w') :
    Io.wp h (netSendFileBestEffort fd size) Q e w := by
  rw [netSendFileBestEffort, Io.wp_bind]
  refine Program.wp_bind.mpr (Program.wp_mono (netSendFileAll.loop_spec hr hw _ _) ?_)
  rintro ⟨r, sent, ts⟩ w' ⟨hs, hu⟩
  show Io.wp h (if r ≠ .unsupported then _ else _) Q _ w'
  split
  case isTrue => exact hq _ _ _ _ _ _ hs (List.Subset.refl _)
  case isFalse hc =>
    obtain ⟨-, rfl, hw'⟩ := hu (not_not.mp hc)
    apply wp_netSendFileBuffered hr hw'
    intro r sent src snd allocs w'' hs hsub
    simpa using hq r sent src snd allocs w'' hs hsub

theorem wp_netSendFileBestEffortApple (hr : Reads h fd R) (hw : R w []) {size : UInt64}
    {ts : List AppleTransfer} {Q : NetSendFileResult → Env → W → Prop}
    (hq : ∀ r sent src snd allocs w', SentUpTo R [] size.toNat r sent w' →
      Q r { e with src := src, snd := snd, allocs := allocs, out := e.out ++ sent } w') :
    Io.wp h (netSendFileBestEffortApple fd ts size) Q e w := by
  rw [netSendFileBestEffortApple, Io.wp_bind]
  refine Program.wp_bind.mpr (Program.wp_mono (netSendFileAllApple.loop_spec hr hw _ _) ?_)
  rintro ⟨r, sent⟩ w' ⟨hs, hu⟩
  show Io.wp h (if r ≠ .unsupported then _ else _) Q _ w'
  split
  case isTrue => exact hq _ _ _ _ _ _ hs
  case isFalse hc =>
    obtain ⟨-, rfl, hw'⟩ := hu (not_not.mp hc)
    apply wp_netSendFileBuffered hr hw'
    intro r sent src snd allocs w'' hs _
    simpa using hq r sent src snd allocs w'' hs.upTo

end SendFile

section RecvFile

variable {W : Type} {h : Handler Sys W} {e : Env} {w : W} {ino : Nat} {R : W → Bytes → Prop}

-- `R w bs` says that `bs` is what has been written to a new file so far.
structure Writes (h : Handler Sys W) (ino : Nat) (R : W → Bytes → Prop) : Prop where
  le   : ∀ {w bs} chunk, R w bs → ((h (.write ino chunk) w).1 : Nat) ≤ chunk.length
  step : ∀ {w bs} chunk, R w bs →
    R (h (.write ino chunk) w).2 (bs ++ chunk.take (h (.write ino chunk) w).1)
  seek : ∀ {w bs} off chunk, R w bs → ∃ bs', R (h (.pwrite ino off chunk) w).2 bs'

theorem fsWriteAll.loop_spec (hr : Writes h ino R) {written : Bytes} (hw : R w written)
    (ts : List Transfer) (bs : Bytes) :
    (fsWriteAll.loop ino ts bs).wp h (fun x w' => ∃ n ≤ bs.length, R w' (written ++ bs.take n) ∧
      ∀ m, x.1 = some m → m = n) w := by
  fun_induction fsWriteAll.loop ino ts bs generalizing w written
  case case1 =>
    exact ⟨0, Nat.zero_le _, by simpa using hw, by simp +contextual⟩
  case case2 hi =>
    exact hi hw
  case case3 =>
    exact ⟨0, Nat.zero_le _, by simpa using hw, by simp⟩
  case case4 =>
    exact ⟨0, Nat.zero_le _, by simpa using hw, by simp +contextual⟩
  case case5 bs _ n ts' _ hn hi =>
    obtain ⟨m, hm⟩ : ∃ m : Nat, (h (.write ino (bs.take n)) w).1 = m := ⟨_, rfl⟩
    have hle : m ≤ (bs.take n).length := hm ▸ hr.le (bs.take n) hw
    have hstep := hr.step (bs.take n) hw
    rw [Program.wp_bind, Program.wp_perform, hm]
    rw [List.length_take] at hle
    rw [hm] at hstep
    rw [List.take_take, Nat.min_eq_left (by omega)] at hstep
    split
    case isTrue =>
      exact ⟨m, by omega, hstep, by simp⟩
    case isFalse hm =>
      rw [Program.wp_bind]
      refine Program.wp_mono (hi m hm hstep) ?_
      rintro ⟨r, ts''⟩ w' ⟨n', hn', hw', hr'⟩
      rw [List.length_drop] at hn'
      refine ⟨m + n', by omega, ?_, ?_⟩
      · rwa [List.take_add, ← List.append_assoc]
      · intro k hk
        obtain ⟨k', hk', rfl⟩ := Option.map_eq_some_iff.mp hk
        rw [hr' k' hk']

-- What holds when a loop that was to receive `remaining` bytes from `as` into a file is left.
structure Received (R : W → Bytes → Prop) (written : Bytes) (remaining : Nat) (as : List Arrival)
    (r : NetRecvFileResult) (as' : List Arrival) (w : W) : Prop where
  writes : ∃ got, R w (written ++ got) ∧
    (r = .ok → got.length = remaining ∧ bytes as = got ++ bytes as')

namespace Received

variable {written got : Bytes} {remaining : Nat} {r : NetRecvFileResult} {as as' as'' : List Arrival}

theorem done (hw : R w written) : Received R written 0 as .ok as w :=
  ⟨[], by simpa using hw, fun _ => ⟨rfl, rfl⟩⟩

theorem stop (hw : R w (written ++ got)) (hr : r ≠ .ok) :
    Received R written remaining as r as' w :=
  ⟨got, hw, fun h => absurd h hr⟩

theorem abort (hw : R w written) (hr : r ≠ .ok) : Received R written remaining as r as' w :=
  ⟨[], by simpa using hw, fun h => absurd h hr⟩

theorem skip (hb : bytes as = bytes as') (hs : Received R written remaining as' r as'' w) :
    Received R written remaining as r as'' w := by
  obtain ⟨got, hw, ho⟩ := hs.writes
  exact ⟨got, hw, hb ▸ ho⟩

theorem prepend (hl : got.length ≤ remaining) (hb : bytes as = got ++ bytes as')
    (hs : Received R (written ++ got) (remaining - got.length) as' r as'' w) :
    Received R written remaining as r as'' w := by
  obtain ⟨got', hw, ho⟩ := hs.writes
  refine ⟨got ++ got', by simpa using hw, fun h => ?_⟩
  have ⟨hl', hb'⟩ := ho h
  refine ⟨?_, by rw [hb, hb', List.append_assoc]⟩
  simp only [List.length_append]
  omega

end Received

theorem netRecvFileBuffered.loop_spec (hr : Writes h ino R) {written : Bytes} (hw : R w written)
    (cap : Nat) (as : List Arrival) (ts : List Transfer) (remaining : Nat) :
    (netRecvFileBuffered.loop ino cap as ts remaining).wp h (fun x w' =>
      Received R written remaining as x.1 x.2.1 w') w := by
  fun_induction netRecvFileBuffered.loop ino cap as ts remaining generalizing w written
  case case1 =>
    exact .done hw
  case case2 as ts remaining _ as' hrecv hi =>
    cases Arrival.recv_error hrecv
    exact Program.wp_mono (hi hw) fun _ _ => .skip (Arrival.bytes_fail ..)
  case case3 =>
    exact .abort hw (by simp)
  case case4 =>
    exact .abort hw (by simp)
  case case5 as ts remaining hn got as' hrecv hg hi =>
    have hl := Arrival.recv_ok_length_le hrecv
    have hb := Arrival.recv_ok_bytes hrecv
    rw [Program.wp_bind]
    refine Program.wp_mono (fsWriteAll.loop_spec hr hw ts got) ?_
    rintro ⟨r, ts'⟩ w' ⟨n, hn, hw', hr'⟩
    dsimp only
    split
    case isTrue =>
      exact .stop hw' (by simp)
    case isFalse hc =>
      cases hr' _ (not_not.mp hc)
      rw [List.take_length] at hw'
      refine Program.wp_mono (hi _ hw') ?_
      intro _ _ hs
      exact hs.prepend (by omega) hb

theorem netRecvFileAll.pipe_spec (hr : Writes h ino R) {written : Bytes} (hw : R w written)
    (as : List Arrival) (ts : List Transfer) (remaining : Nat) :
    (netRecvFileAll.pipe ino as ts remaining written.length).wp h (fun x w' =>
      Received R written remaining as x.1 x.2.1 w' ∧
      (x.1 = .unsupported → written = [] ∧ R w' [] ∧ bytes as = bytes x.2.1)) w := by
  generalize hm : written.length = moved
  fun_induction netRecvFileAll.pipe ino as ts remaining moved generalizing w written
  case case1 =>
    exact ⟨.done hw, by simp⟩
  case case2 hn e as' hrecv hc =>
    cases Arrival.recv_error hrecv
    cases List.length_eq_zero_iff.mp (hm.trans hc.right)
    exact ⟨.abort hw (by simp), fun _ => ⟨rfl, hw, rfl⟩⟩
  case case3 as ts remaining moved _ as' hrecv _ hi =>
    cases Arrival.recv_error hrecv
    refine Program.wp_mono (hi hw hm) ?_
    intro _ _ ⟨hs, hu⟩
    exact ⟨hs.skip (Arrival.bytes_fail ..), hu⟩
  case case4 =>
    exact ⟨.abort hw (by simp), by simp⟩
  case case5 =>
    exact ⟨.abort hw (by simp), by simp⟩
  case case6 as ts remaining moved hn got as' hrecv hg hi =>
    have hl := Arrival.recv_ok_length_le hrecv
    have hb := Arrival.recv_ok_bytes hrecv
    rw [Program.wp_bind]
    refine Program.wp_mono (fsWriteAll.loop_spec hr hw ts got) ?_
    rintro ⟨r, ts'⟩ w' ⟨n, hn, hw', hr'⟩
    dsimp only
    split
    case isTrue =>
      exact ⟨.stop hw' (by simp), by simp⟩
    case isFalse hc =>
      cases hr' _ (not_not.mp hc)
      rw [List.take_length] at hw'
      refine Program.wp_mono (hi _ hw' (by simp [hm])) ?_
      intro _ _ ⟨hs, hu⟩
      simp only [List.append_eq_nil_iff, hg, and_false, false_and, imp_false] at hu
      exact ⟨hs.prepend (by omega) hb, fun hr' => absurd hr' hu⟩

theorem wp_netRecvFileBuffered (hr : Writes h ino R) (hw : R w []) {size : UInt64}
    {Q : NetRecvFileResult → Env → W → Prop}
    (hq : ∀ r as ts allocs w', Received R [] size.toNat e.inp r as w' →
      Q r { e with inp := as, wr := ts, allocs := allocs } w') :
    Io.wp h (netRecvFileBuffered ino size) Q e w := by
  rw [netRecvFileBuffered]
  split
  case isTrue hz =>
    subst hz
    exact hq _ _ _ _ _ (.done hw)
  case isFalse hz =>
    have hloop : ∀ cap allocs, (netRecvFileBuffered.loop ino cap e.inp e.wr size.toNat).wp h
        (fun x w' => Q x.1 { e with inp := x.2.1, wr := x.2.2, allocs := allocs } w') w :=
      fun cap allocs => Program.wp_mono (netRecvFileBuffered.loop_spec hr hw cap _ _ _)
        fun _ _ hs => hq _ _ _ _ _ hs
    dsimp only
    split
    case isTrue =>
      rw [Io.wp_bind]
      refine Io.wp_malloc fun b allocs => ?_
      cases b
      case false => exact hq _ _ _ _ _ (.abort hw (by simp))
      case true  => exact Program.wp_bind.mpr (hloop _ _)
    case isFalse => exact Program.wp_bind.mpr (hloop _ _)

-- The direct splices only ever write to the file, and the pipe takes over from an empty one.
theorem netRecvFileAll.direct_spec (hr : Writes h ino R) {written : Bytes} (hw : R w written)
    (ds : List (Option Errno)) (as : List Arrival) (remaining moved offset : Nat)
    (hm : moved = 0 → written = []) :
    (netRecvFileAll.direct ino ds as remaining moved offset).wp h (fun x w' =>
      (∃ bs, R w' bs) ∧ (x.1 = none → R w' []) ∧ x.1 ≠ some .unsupported ∧
      (ds = [] → moved = 0 → remaining ≠ 0 → x = (none, [], as))) w := by
  have hstop : moved = 0 → R w [] := fun h => hm h ▸ hw
  fun_induction netRecvFileAll.direct ino ds as remaining moved offset generalizing w written
  case case2 moved _ _ =>
    rw [Program.pure_eq, Program.wp_ret]
    by_cases hz : moved = 0
    · exact ⟨⟨_, hw⟩, fun _ => hstop hz, by simp [hz], by simp [hz]⟩
    · exact ⟨⟨_, hw⟩, by simp [hz], by simp [hz], by simp [hz]⟩
  case case3 hc => exact ⟨⟨_, hw⟩, fun _ => hstop hc.right, by simp, by simp⟩
  case case4 hi =>
    refine Program.wp_mono (hi hw hm hstop) ?_
    intro _ _ ⟨hbs, hn, hu, _⟩
    exact ⟨hbs, hn, hu, by simp⟩
  case case6 hc => exact ⟨⟨_, hw⟩, fun _ => hstop hc.right, by simp, by simp⟩
  case case7 hi =>
    refine Program.wp_mono (hi hw hm hstop) ?_
    intro _ _ ⟨hbs, hn, hu, _⟩
    exact ⟨hbs, hn, hu, by simp⟩
  case case10 remaining moved offset _ ds got as' hrecv hg hi =>
    have ⟨bs', hw'⟩ := hr.seek offset got hw
    have hne : moved + got.length ≠ 0 := by
      have := List.length_pos_iff.mpr hg
      omega
    rw [Program.wp_bind, Program.wp_perform]
    refine Program.wp_mono (hi hw' (fun h => absurd h hne) (fun h => absurd h hne)) ?_
    intro _ _ ⟨hbs, hn, hu, _⟩
    exact ⟨hbs, hn, hu, by simp⟩
  all_goals exact ⟨⟨_, hw⟩, by simp⟩

-- Once the direct splices have given up, a file is received through the pipe or through a buffer.
theorem wp_netRecvFileBestEffort_of_direct (hr : Writes h ino R) {size : UInt64}
    {Q : NetRecvFileResult → Env → W → Prop} (hempty : size = 0 → Q .ok e w)
    (hdirect : size ≠ 0 → (netRecvFileAll.direct ino e.direct e.inp size.toNat 0 0).wp h (fun x w' =>
      (∀ r, x.1 = some r → r ≠ .unsupported ∧ Q r { e with direct := x.2.1, inp := x.2.2 } w') ∧
      (x.1 = none → R w' [] ∧ ∀ r as ts fs al w'', Received R [] size.toNat x.2.2 r as w'' →
        Q r { e with inp := as, wr := ts, direct := x.2.1, faults := fs, allocs := al } w'')) w) :
    Io.wp h (netRecvFileBestEffort ino size) Q e w := by
  rw [netRecvFileBestEffort, Io.wp_bind, netRecvFileAll]
  split
  case isTrue hz => exact hempty hz
  case isFalse hz =>
    rw [Io.wp_bind]
    refine Program.wp_bind.mpr (Program.wp_mono (hdirect hz) ?_)
    rintro ⟨direct, ds, as⟩ w' ⟨hsome, hnone⟩
    simp only [Program.pure_eq, Program.wp_ret]
    cases direct
    case some r =>
      obtain ⟨hu, hq⟩ := hsome r rfl
      show Io.wp h (if r ≠ .unsupported then _ else _) Q _ w'
      rw [if_pos hu]
      exact hq
    case none =>
      obtain ⟨hw', hq⟩ := hnone rfl
      refine Io.wp_bind.mpr (Io.wp_fault fun f fs => ?_)
      cases f
      case none =>
        refine Program.wp_bind.mpr (Program.wp_mono (netRecvFileAll.pipe_spec hr hw' _ _ _) ?_)
        rintro ⟨r, as', ts⟩ w'' ⟨hs, hu⟩
        show Io.wp h (if r ≠ .unsupported then _ else _) Q _ w''
        split
        case isTrue => exact hq _ _ _ _ _ _ hs
        case isFalse hc =>
          obtain ⟨_, hw'', hb⟩ := hu (not_not.mp hc)
          apply wp_netRecvFileBuffered hr hw''
          intro r as'' ts' al w₃ hs'
          exact hq _ _ _ _ _ _ (hs'.skip hb)
      case some f =>
        rw [Io.wp_pure]
        by_cases hf : f = .EMFILE ∨ f = .ENFILE
        case pos =>
          rw [if_pos hf, if_pos (by simp)]
          exact hq .io _ _ _ _ _ (.abort hw' (by simp))
        case neg =>
          rw [if_neg hf, if_neg (by simp)]
          apply wp_netRecvFileBuffered hr hw'
          intro r as' ts al w'' hs
          exact hq _ _ _ _ _ _ hs

-- As long as direct splices are refused, a file is received completely or not at all.
theorem wp_netRecvFileBestEffort (hr : Writes h ino R) (hw : R w []) {size : UInt64}
    {Q : NetRecvFileResult → Env → W → Prop}
    (hq : ∀ r got as ts ds faults allocs w', R w' got →
      (e.direct = [] → r = .ok → got.length = size.toNat ∧ bytes e.inp = got ++ bytes as) →
      Q r { e with inp := as, wr := ts, direct := ds, faults := faults, allocs := allocs } w') :
    Io.wp h (netRecvFileBestEffort ino size) Q e w := by
  apply wp_netRecvFileBestEffort_of_direct hr
  · intro hz
    exact hq .ok [] e.inp e.wr e.direct e.faults e.allocs w hw fun _ _ => by simp [hz]
  · intro hz
    have hpos : size.toNat ≠ 0 := fun h => hz (UInt64.toNat_inj.mp h)
    apply Program.wp_mono (netRecvFileAll.direct_spec hr hw _ _ _ _ _ fun _ => rfl)
    rintro ⟨direct, ds, as⟩ w' ⟨⟨bs, hbs⟩, hnil, hu, heq⟩
    have hd : e.direct = [] → direct = none ∧ as = e.inp := by
      intro h
      have := heq h rfl hpos
      simp_all
    refine ⟨fun r hr => ⟨fun h => hu (hr.trans (congrArg some h)), ?_⟩, fun hn => ⟨hnil hn, ?_⟩⟩
    · exact hq r _ _ _ _ _ _ _ hbs fun h => absurd ((hd h).left.symm.trans hr) (by simp)
    · intro r as' ts fs al w'' hs
      obtain ⟨got, hw'', hg⟩ := hs.writes
      exact hq _ _ _ _ _ _ _ _ hw'' fun h hok => (hd h).right ▸ hg hok

end RecvFile
