import HFile.Theorems.Download

open Arrival (bytes)

section Receive

-- The direct splices move all of the `n` bytes that are still to be received.
def SplicesAll : List (Option Errno) → List Arrival → Nat → Prop
  | [], _, n            => n = 0
  | some e :: ds, as, n => n = 0 ∨ e = .EINTR ∧ SplicesAll ds as n
  | none :: ds, as, n   => n = 0 ∨
    match Arrival.recv (min chunkSize n) as with
    | (.error e, as) => e = .EINTR ∧ SplicesAll ds as n
    | (.ok got, as)  => got ≠ [] ∧ SplicesAll ds as (n - got.length)

-- The direct splices move all of the `n` bytes, and the first one that moves any leaves some for the
-- next ones.
def SplicesInPieces : List (Option Errno) → List Arrival → Nat → Prop
  | [], _, _            => False
  | some e :: ds, as, n => e = .EINTR ∧ SplicesInPieces ds as n
  | none :: ds, as, n   =>
    match Arrival.recv (min chunkSize n) as with
    | (.error e, as) => e = .EINTR ∧ SplicesInPieces ds as n
    | (.ok got, as)  => got ≠ [] ∧ got.length < n ∧ SplicesAll ds as (n - got.length)

variable {i : Nat} {e : Env} {w : World}

theorem splicesAll_zero (ds : List (Option Errno)) (as : List Arrival) : SplicesAll ds as 0 := by
  cases ds
  case nil => rfl
  case cons d ds => cases d <;> exact .inl rfl

theorem netRecvFileAll.direct_zero (ds : List (Option Errno)) (as : List Arrival) (moved offset : Nat) :
    netRecvFileAll.direct i ds as 0 moved offset = pure (some .ok, ds, as) := by
  rw [netRecvFileAll.direct.eq_def, if_pos rfl]

theorem World.length_pwrite (w : World) (i off : Nat) (bs : Bytes) :
    ((World.handle (.pwrite i off bs) w).2.files.data i).length =
      max (w.files.data i).length (off + bs.length) := by
  simp only [World.handle, Files.data_setData, Function.update_self, List.length_append,
    List.length_take, List.length_replicate, List.length_drop]
  omega

-- The offset is counted twice, so that a piece after the first one leaves a gap in the file.
theorem netRecvFileAll.direct_moved (ds : List (Option Errno)) (as : List Arrival)
    (n moved offset : Nat) (hm : 0 < moved) (ho : offset = 2 * moved) :
    (netRecvFileAll.direct i ds as n moved offset).wp World.handle (fun x w' =>
      (x.1 = some .ok ↔ SplicesAll ds as n) ∧ x.1 ≠ none ∧ x.1 ≠ some .unsupported ∧
      (x.1 = some .ok → n ≠ 0 → moved + n < (w'.files.data i).length)) w := by
  fun_induction netRecvFileAll.direct i ds as n moved offset generalizing w
  case case1 ds as moved offset =>
    exact ⟨iff_of_true rfl (splicesAll_zero ds as), by simp, by simp, by simp⟩
  case case2 as n moved offset hn =>
    simp [hm.ne', SplicesAll, hn]
  case case3 hc => omega
  case case4 as n moved offset hn ds _ hi =>
    refine Program.wp_mono (hi hm ho) ?_
    rintro x w' ⟨hok, hnone, hu, hl⟩
    exact ⟨by simp [hok, SplicesAll, hn], hnone, hu, hl⟩
  case case5 as n moved offset hn e ds _ he =>
    simp [SplicesAll, hn, he]
  case case6 hc => omega
  case case7 as n moved offset hn ds as' hrecv _ hi =>
    refine Program.wp_mono (hi hm ho) ?_
    rintro x w' ⟨hok, hnone, hu, hl⟩
    exact ⟨by simp [hok, SplicesAll, hn, hrecv], hnone, hu, hl⟩
  case case8 as n moved offset hn ds e as' hrecv _ he =>
    simp [SplicesAll, hn, hrecv, he]
  case case9 as n moved offset hn ds as' hrecv =>
    simp [SplicesAll, hn, hrecv]
  case case10 as n moved offset hn ds got as' hrecv hg hi =>
    have hpos := List.length_pos_iff.mpr hg
    have hle := Arrival.recv_ok_length_le hrecv
    have hlen := World.length_pwrite w i offset got
    rw [Program.wp_bind, Program.wp_perform]
    by_cases hz : n - got.length = 0
    case pos =>
      rw [hz, netRecvFileAll.direct_zero, Program.pure_eq, Program.wp_ret]
      have hall : SplicesAll (none :: ds) as n := by
        simp [SplicesAll, hrecv, hg, hz, splicesAll_zero]
      refine ⟨iff_of_true rfl hall, by simp, by simp, fun _ _ => ?_⟩
      omega
    case neg =>
      refine Program.wp_mono (hi (by omega) (by omega)) ?_
      rintro x w' ⟨hok, hnone, hu, hl⟩
      refine ⟨by simp [hok, SplicesAll, hn, hrecv, hg], hnone, hu, fun h _ => ?_⟩
      have := hl h hz
      omega

theorem World.pwrite_empty (hw : w.files.data i = []) (bs : Bytes) :
    (World.handle (.pwrite i 0 bs) w).2.files.data i = bs := by
  simp [World.handle, hw]

theorem netRecvFileAll.direct_fresh (hw : w.files.data i = []) (ds : List (Option Errno))
    (as : List Arrival) (n : Nat) (hn : n ≠ 0) :
    (netRecvFileAll.direct i ds as n 0 0).wp World.handle (fun x w' =>
      (x.1 = none → w' = w ∧ bytes x.2.2 = bytes as) ∧ x.1 ≠ some .unsupported ∧
      (SplicesInPieces ds as n → x.1 = some .ok ∧ n < (w'.files.data i).length) ∧
      (¬SplicesInPieces ds as n → x.1 = some .ok →
        n ≤ (bytes as).length ∧ w'.files.data i = (bytes as).take n)) w := by
  induction ds generalizing as
  case nil =>
    rw [netRecvFileAll.direct, if_neg hn]
    simp [SplicesInPieces]
  case cons d ds hi =>
    cases d
    case some err =>
      rw [netRecvFileAll.direct, if_neg hn]
      split
      case isTrue hc =>
        have he : err ≠ .EINTR := fun h => by simp [h, Errno.Unsupported] at hc
        simp [SplicesInPieces, he]
      case isFalse hc =>
        split
        case isTrue he => simpa [SplicesInPieces, he] using hi as
        case isFalse he => simp [SplicesInPieces, he]
    case none =>
      rw [netRecvFileAll.direct, if_neg hn]
      split
      case h_1 err as' hrecv =>
        have hb : bytes as = bytes as' := by
          rw [Arrival.recv_error hrecv, Arrival.bytes_fail]
        split
        case isTrue hc =>
          have he : err ≠ .EINTR := fun h => by simp [h, Errno.Unsupported] at hc
          simp [SplicesInPieces, hrecv, he, hb]
        case isFalse hc =>
          split
          case isTrue he => simpa [SplicesInPieces, hrecv, he, hb] using hi as'
          case isFalse he => simp [SplicesInPieces, hrecv, he]
      case h_2 got as' hrecv =>
        split
        case isTrue hg => simp [SplicesInPieces, hrecv, hg]
        case isFalse hg =>
          have hpos := List.length_pos_iff.mpr hg
          have hle := Arrival.recv_ok_length_le hrecv
          have hb := Arrival.recv_ok_bytes hrecv
          have hdata := World.pwrite_empty hw got
          rw [Program.wp_bind, Program.wp_perform]
          by_cases hz : n - got.length = 0
          case pos =>
            have hlen : got.length = n := by omega
            rw [hz, netRecvFileAll.direct_zero, Program.pure_eq, Program.wp_ret]
            simp [SplicesInPieces, hrecv, hlen, hb, hdata]
          case neg =>
            refine Program.wp_mono (netRecvFileAll.direct_moved _ _ _ _ _ (by omega) (by omega)) ?_
            rintro x w' ⟨hok, hnone, hu, hl⟩
            have hlt : got.length < n := by omega
            have hiff : SplicesInPieces (none :: ds) as n ↔ x.1 = some .ok := by
              simp [SplicesInPieces, hrecv, hg, hlt, hok]
            refine ⟨fun h => absurd h hnone, hu, fun h => ⟨hiff.mp h, ?_⟩, fun h hx => absurd (hiff.mpr hx) h⟩
            have := hl (hiff.mp h) hz
            omega

theorem not_splicesInPieces_zero (ds : List (Option Errno)) (as : List Arrival) :
    ¬SplicesInPieces ds as 0 := by
  induction ds generalizing as
  case nil => exact id
  case cons d ds hi =>
    cases d
    case some err => exact fun h => hi as h.right
    case none =>
      rw [SplicesInPieces]
      split
      case h_1 => exact fun h => hi _ h.right
      case h_2 => exact fun h => absurd h.right.left (Nat.not_lt_zero _)

theorem World.filled_nil {w' : World} (hw : w.files.data i = []) (hf : w.Filled i w' []) : w' = w := by
  rw [hf, ← hw, Files.setData, Function.update_eq_self]

theorem World.filled_empty (hw : w.files.data i = []) : w.Filled i w [] := by
  simp [World.Filled, Files.setData, ← hw]

theorem wp_netRecvFileBuffered_take (hw : w.files.data i = []) (size : UInt64) :
    Io.wp World.handle (netRecvFileBuffered i size) (fun r _ w' =>
      r = .ok → w'.files.data i = (bytes e.inp).take size.toNat) e w := by
  apply wp_netRecvFileBuffered (World.writes_filled w i) (World.filled_empty hw)
  intro r as ts al w' hs hok
  obtain ⟨got, hw', hg⟩ := hs.writes
  obtain ⟨hlen, hbytes⟩ := hg hok
  rw [hw', hbytes, ← hlen]
  simp

-- The buffered loop takes over from an untouched stream and an untouched file.
theorem wp_netRecvFileAll_fallback (hw : w.files.data i = []) (size : UInt64) :
    Io.wp World.handle (netRecvFileAll i size) (fun r e' w' =>
      r = .unsupported → bytes e'.inp = bytes e.inp ∧ w' = w) e w := by
  rw [netRecvFileAll]
  split
  case isTrue => simp
  case isFalse hz =>
    have hpos : size.toNat ≠ 0 := fun h => hz (UInt64.toNat_inj.mp h)
    rw [Io.wp_bind]
    refine Program.wp_bind.mpr (Program.wp_mono (netRecvFileAll.direct_fresh hw _ _ _ hpos) ?_)
    rintro ⟨direct, ds, as⟩ w' ⟨hnone, hu, -, -⟩
    simp only [Program.pure_eq, Program.wp_ret]
    cases direct
    case some r => exact fun h => absurd (congrArg some h) hu
    case none =>
      obtain ⟨rfl, hb⟩ := hnone rfl
      refine Io.wp_bind.mpr (Io.wp_fault fun f fs => ?_)
      cases f
      case some f => exact fun _ => ⟨hb, rfl⟩
      case none =>
        refine Program.wp_bind.mpr (Program.wp_mono
          (netRecvFileAll.pipe_spec (World.writes_filled w' i) (World.filled_empty hw) _ _ _) ?_)
        rintro x w'' ⟨-, hx⟩ hr
        obtain ⟨-, hw'', hb'⟩ := hx hr
        exact ⟨hb'.symm.trans hb, World.filled_nil hw hw''⟩

theorem wp_netRecvFileBestEffort_direct (hw : w.files.data i = []) (size : UInt64) :
    Io.wp World.handle (netRecvFileBestEffort i size) (fun r _ w' =>
      (SplicesInPieces e.direct e.inp size.toNat →
        r = .ok ∧ size.toNat < (w'.files.data i).length) ∧
      (¬SplicesInPieces e.direct e.inp size.toNat → r = .ok →
        size.toNat ≤ (bytes e.inp).length ∧
        w'.files.data i = (bytes e.inp).take size.toNat)) e w := by
  apply wp_netRecvFileBestEffort_of_direct (World.writes_filled w i)
  · intro hz
    subst hz
    exact ⟨fun h => absurd h (not_splicesInPieces_zero _ _), fun _ _ => by simp [hw]⟩
  · intro hz
    have hpos : size.toNat ≠ 0 := fun h => hz (UInt64.toNat_inj.mp h)
    refine Program.wp_mono (netRecvFileAll.direct_fresh hw _ _ _ hpos) ?_
    rintro x w' ⟨hnone, hu, hpieces, hwhole⟩
    refine ⟨fun r hr => ⟨fun h => hu (hr.trans (congrArg some h)), ?_⟩, fun hn => ?_⟩
    · exact ⟨fun h => ⟨Option.some.inj (hr.symm.trans (hpieces h).left), (hpieces h).right⟩,
        fun h hok => hwhole h (hr.trans (congrArg some hok))⟩
    · obtain ⟨rfl, hb⟩ := hnone hn
      refine ⟨World.filled_empty hw, fun r as ts fs al w'' hs => ?_⟩
      obtain ⟨got, hw'', hg⟩ := hs.writes
      refine ⟨fun h => absurd ((hpieces h).left.symm.trans hn) (by simp), fun _ hok => ?_⟩
      obtain ⟨hlen, hbytes⟩ := hg hok
      rw [hw'', ← hb, hbytes, ← hlen]
      simp

-- What a receive into the empty file `i` is to do. A success means that the file has what the
-- buffered loop writes as well, which is the start of the stream, and the buffered loop only takes
-- over as long as nothing has been read.
structure ReceiveAgrees (size : UInt64) (i : Nat) (e : Env) (w : World) : Prop where
  complete : (Io.exec World.handle (netRecvFileBestEffort i size) e w).1.1 = .ok →
    size.toNat ≤ (bytes e.inp).length ∧
    (Io.exec World.handle (netRecvFileBestEffort i size) e w).2.files.data i =
      (bytes e.inp).take size.toNat
  buffered : ∀ e' : Env, bytes e'.inp = bytes e.inp →
    (Io.exec World.handle (netRecvFileBestEffort i size) e w).1.1 = .ok →
    (Io.exec World.handle (netRecvFileBuffered i size) e' w).1.1 = .ok →
    (Io.exec World.handle (netRecvFileBestEffort i size) e w).2.files.data i =
      (Io.exec World.handle (netRecvFileBuffered i size) e' w).2.files.data i
  fallback : (Io.exec World.handle (netRecvFileAll i size) e w).1.1 = .unsupported →
    bytes (Io.exec World.handle (netRecvFileAll i size) e w).1.2.inp = bytes e.inp ∧
    (Io.exec World.handle (netRecvFileAll i size) e w).2 = w

theorem receiveAgrees_iff {size : UInt64} (hw : w.files.data i = []) :
    ReceiveAgrees size i e w ↔ ¬SplicesInPieces e.direct e.inp size.toNat := by
  have hbest := wp_netRecvFileBestEffort_direct (e := e) hw size
  rw [Io.wp_iff_exec] at hbest
  constructor
  · intro ha hp
    obtain ⟨hok, hlt⟩ := hbest.left hp
    obtain ⟨-, hdata⟩ := ha.complete hok
    rw [hdata] at hlt
    exact absurd (List.length_take_le _ _) (Nat.not_le.mpr hlt)
  · intro hp
    have hcomplete := hbest.right hp
    refine ⟨hcomplete, ?_, Io.wp_iff_exec.mp (wp_netRecvFileAll_fallback hw size)⟩
    intro e' hb hok hok'
    rw [(hcomplete hok).right, ← hb]
    exact (Io.wp_iff_exec.mp (wp_netRecvFileBuffered_take hw size) hok').symm

end Receive

theorem receiveAgrees_iff_for_two_bytes :
    ReceiveAgrees 2 0 (.calm 1 [.data 1 [2]]) .empty ↔ ¬SplicesInPieces [] [.data 1 [2]] 2 :=
  receiveAgrees_iff rfl

-- Two splices of one byte each.
def twoSplices : Env :=
  { Env.calm 1 [.data 1 [], .data 2 []] with direct := [none, none] }

theorem splices_leave_a_gap :
    ¬ReceiveAgrees 2 0 twoSplices .empty ∧
    (Io.exec World.handle (netRecvFileBestEffort 0 2) twoSplices .empty).1.1 = .ok ∧
    (Io.exec World.handle (netRecvFileBestEffort 0 2) twoSplices .empty).2.files.data 0 = [1, 0, 2] := by
  have hrun : (Io.exec World.handle (netRecvFileBestEffort 0 2) twoSplices .empty).1.1 = .ok ∧
      (Io.exec World.handle (netRecvFileBestEffort 0 2) twoSplices .empty).2.files.data 0 =
        [1, 0, 2] := by
    decide
  refine ⟨fun h => ?_, hrun⟩
  have hdata := (h.complete hrun.left).right
  rw [hrun.right] at hdata
  exact absurd hdata (by decide)

section Send

-- What a send of the file's first `size` bytes is to do, for a function that first tries `all`.
structure SendAgrees (send all : Io NetSendFileResult) (content : Bytes) (size : UInt64) (e : Env)
    (w : World) : Prop where
  sent     : ∃ sent, (Io.exec World.handle send e w).1.2.out = e.out ++ sent ∧
    sent <+: content.take size.toNat ∧
    ((Io.exec World.handle send e w).1.1 = .ok →
      sent = content.take size.toNat ∧ size.toNat ≤ content.length)
  fallback : (Io.exec World.handle all e w).1.1 = .unsupported →
    (Io.exec World.handle all e w).1.2.out = e.out

variable {i : Nat} {e : Env} {w : World}

theorem SentUpTo.isPrefix {content sent : Bytes} {n : Nat} {r : NetSendFileResult} {w' : World}
    (hs : SentUpTo (fun w' bs => w' = w ∧ bs <+: content) [] n r sent w') :
    sent <+: content.take n ∧ (r = .ok → sent = content.take n ∧ n ≤ content.length) := by
  obtain ⟨got, ⟨-, hgot⟩, hsent, -⟩ := hs.reads
  have hp : sent <+: content := hsent.trans hgot
  refine ⟨List.prefix_take_iff.mpr ⟨hp, hs.le⟩, fun hok => ?_⟩
  have hlen := hs.full hok
  exact ⟨by rw [← hlen]; exact List.prefix_iff_eq_take.mp hp, hlen ▸ hp.length_le⟩

theorem World.reads (w : World) (i : Nat) :
    Reads World.handle (.file i) (fun w' bs => w' = w ∧ bs <+: w.files.data i) :=
  w.shrinks.reads (.file i)

-- Whatever the outcomes of the calls, with `sendfile` as on Linux and as on macOS.
theorem sendAgrees (size : UInt64) (ts : List AppleTransfer) (i : Nat) (e : Env) (w : World) :
    SendAgrees (netSendFileBestEffort (.file i) size) (netSendFileAll (.file i) size)
      (w.files.data i) size e w ∧
    SendAgrees (netSendFileBestEffortApple (.file i) ts size) (netSendFileAllApple (.file i) ts size)
      (w.files.data i) size e w := by
  have hempty : w = w ∧ [] <+: w.files.data i := ⟨rfl, List.nil_prefix⟩
  constructor
  · have hsend : Io.wp World.handle (netSendFileBestEffort (.file i) size) (fun r e' _ =>
        ∃ sent, e'.out = e.out ++ sent ∧ sent <+: (w.files.data i).take size.toNat ∧
          (r = .ok → sent = (w.files.data i).take size.toNat ∧
            size.toNat ≤ (w.files.data i).length)) e w := by
      apply wp_netSendFileBestEffort (w.reads i) hempty
      intro r sent src snd allocs w' hs _
      exact ⟨sent, rfl, hs.upTo.isPrefix⟩
    have hall : Io.wp World.handle (netSendFileAll (.file i) size) (fun r e' _ =>
        r = .unsupported → e'.out = e.out) e w := by
      refine Program.wp_bind.mpr (Program.wp_mono (netSendFileAll.loop_spec (w.reads i) hempty _ _) ?_)
      intro x w' hx hu
      simp [(hx.right hu).right.left]
    exact ⟨hsend, hall⟩
  · have hsend : Io.wp World.handle (netSendFileBestEffortApple (.file i) ts size) (fun r e' _ =>
        ∃ sent, e'.out = e.out ++ sent ∧ sent <+: (w.files.data i).take size.toNat ∧
          (r = .ok → sent = (w.files.data i).take size.toNat ∧
            size.toNat ≤ (w.files.data i).length)) e w := by
      apply wp_netSendFileBestEffortApple (w.reads i) hempty
      intro r sent src snd allocs w' hs
      exact ⟨sent, rfl, hs.isPrefix⟩
    have hall : Io.wp World.handle (netSendFileAllApple (.file i) ts size) (fun r e' _ =>
        r = .unsupported → e'.out = e.out) e w := by
      refine Program.wp_bind.mpr
        (Program.wp_mono (netSendFileAllApple.loop_spec (w.reads i) hempty _ _) ?_)
      intro x w' hx hu
      simp [(hx.right hu).right.left]
    exact ⟨hsend, hall⟩

end Send
