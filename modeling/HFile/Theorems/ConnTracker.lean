import HFile.Library.Chain
import HFile.Source.ConnTracker

namespace ServerConnTracker

variable {t t' : ServerConnTracker} {l : List Ptr} {p : Ptr}

def get (t : ServerConnTracker) (p : Ptr) : Option ServerConnEntry :=
  t.blocks.lookup p

-- `l` holds the entries of the tracker's list.
def Listed (t : ServerConnTracker) (l : List Ptr) : Prop :=
  Chain t.get ServerConnEntry.next t.head l

-- What connects the tracker to the entries in its list. All entries that are allocated are listed.
structure Tracks (t : ServerConnTracker) (l : List Ptr) : Prop where
  listed    : t.Listed l
  nodup     : l.Nodup
  blocks    : ∀ p, p ∈ t.blocks ↔ p ∈ l
  closing   : ∀ p x, t.get p = some x → (x.closing ↔ t.shuttingDown)
  shutdowns : ∀ p x, t.get p = some x → t.shutdowns p = if x.closing then 1 else 0

theorem tracks_init : init.Tracks [] where
  listed    := .nil
  nodup     := List.nodup_nil
  blocks    := by simp [init]
  closing   := by simp [get, init]
  shutdowns := by simp [get, init]

namespace Tracks

theorem length_keys (ht : t.Tracks l) : t.blocks.keys.length = l.length := by
  apply List.Perm.length_eq
  rw [List.perm_ext_iff_of_nodup t.blocks.keys_nodup ht.nodup]
  exact ht.blocks

theorem get_of_mem (ht : t.Tracks l) (hp : p ∈ l) : ∃ x, t.get p = some x :=
  Chain.get_of_mem ht.listed hp

theorem mem_of_get (ht : t.Tracks l) {x : ServerConnEntry} (hx : t.get p = some x) : p ∈ l := by
  rw [← ht.blocks, ← AList.lookup_isSome]
  exact Option.isSome_iff_exists.mpr ⟨x, hx⟩

-- A new entry is the first of the list.
theorem begin (ht : t.Tracks l) (hp : p ∉ l) (hs : t.shuttingDown = false) (conn : Nat) :
    (serverConnTrackerBegin t conn (some p)).2.Tracks (p :: l) := by
  rw [serverConnTrackerBegin, if_neg (by simp [hs])]
  refine ⟨.cons (AList.lookup_insert _) (ht.listed.congr ?_), List.nodup_cons.mpr ⟨hp, ht.nodup⟩, ?_,
    ?_, ?_⟩
  · intro q hq
    have hne : q ≠ p := fun h => hp (h ▸ hq)
    simp [get, AList.lookup_insert_ne hne]
  · simp [ht.blocks]
  · intro q x hx
    by_cases hq : q = p
    case pos =>
      subst hq
      have hx : some _ = some x := (AList.lookup_insert _).symm.trans hx
      cases hx
      simp [hs]
    case neg => exact ht.closing q x ((AList.lookup_insert_ne hq).symm.trans hx)
  · intro q x hx
    by_cases hq : q = p
    case pos =>
      subst hq
      have hx : some _ = some x := (AList.lookup_insert _).symm.trans hx
      cases hx
      simp
    case neg =>
      dsimp only
      rw [Function.update_of_ne hq]
      exact ht.shutdowns q x ((AList.lookup_insert_ne hq).symm.trans hx)

end Tracks

-- The link to an entry that is in the list `l`, which `link` leads to.
def linkTo (p : Ptr) (link : Link) : List Ptr → Link
  | []     => link
  | q :: l => if q = p then link else linkTo p (.next q) l

theorem loop_end {x : ServerConnEntry} (hx : t.get p = some x) {fuel : Nat} {link : Link}
    {current : Option Ptr} (hl : Chain t.get ServerConnEntry.next current l) (hp : p ∈ l)
    (hf : l.length ≤ fuel) :
    serverConnTrackerEnd.loop t p fuel link current = t.setLink x.next (linkTo p link l) := by
  induction l generalizing fuel link current
  case nil => cases hp
  case cons q l hi =>
    have ⟨hc, y, hy, hl'⟩ := Chain.cons_iff.mp hl
    subst hc
    cases fuel
    case zero => simp at hf
    case succ fuel =>
      have hy' : t.blocks.lookup q = some y := hy
      rw [serverConnTrackerEnd.loop, hy', linkTo]
      dsimp only
      split
      case isTrue hq =>
        subst hq
        cases hx.symm.trans hy
        rfl
      case isFalse hq => exact hi hl' (by simpa [Ne.symm hq] using hp) (by simpa using hf)

theorem linkTo_append {front back : List Ptr} (hp : p ∉ front) (link : Link) :
    linkTo p link (front ++ p :: back) = (front.getLast?.map Link.next).getD link := by
  induction front generalizing link
  case nil => simp [linkTo]
  case cons q front hi =>
    rw [List.mem_cons, not_or] at hp
    rw [List.cons_append, linkTo, if_neg (Ne.symm hp.left), hi hp.right, List.getLast?_cons]
    cases front.getLast? <;> rfl

-- What is stored for an entry, apart from its link.
def data (t : ServerConnTracker) (p : Ptr) : Option (Nat × Bool) :=
  (t.get p).map fun x => (x.conn, x.closing)

-- Nothing but links has changed.
structure Relinked (t t' : ServerConnTracker) : Prop where
  shuttingDown : t'.shuttingDown = t.shuttingDown
  activeCount  : t'.activeCount = t.activeCount
  shutdowns    : t'.shutdowns = t.shutdowns
  data         : t'.data = t.data

theorem setLink_linkTo {front back : List Ptr} {x : ServerConnEntry}
    (hl : t.Listed (front ++ p :: back)) (hn : (front ++ p :: back).Nodup) (hx : t.get p = some x) :
    ∃ t', t.setLink x.next (linkTo p .head (front ++ p :: back)) = some t' ∧
      t'.Listed (front ++ back) ∧ t.Relinked t' := by
  have hp : p ∉ front := fun h => (List.nodup_append.mp hn).right.right p h p (.head _) rfl
  rw [linkTo_append hp]
  cases front using List.reverseRecOn
  case nil =>
    have ⟨_, y, hy, hback⟩ := Chain.cons_iff.mp hl
    cases hx.symm.trans hy
    exact ⟨_, rfl, hback, rfl, rfl, rfl, rfl⟩
  case append_singleton front q _ =>
    rw [List.append_assoc, List.singleton_append] at hl hn ⊢
    have ⟨y, hy⟩ := hl.get_of_mem (p := q) (by simp)
    have hy' : t.blocks.lookup q = some y := hy
    simp only [List.getLast?_concat, Option.map_some, Option.getD_some, setLink, hy']
    refine ⟨_, rfl, ?_, rfl, rfl, rfl, ?_⟩
    · exact Chain.splice (y := { y with next := x.next }) hl hn hx (AList.lookup_insert _) rfl
        fun r hr => AList.lookup_insert_ne hr
    · funext r
      by_cases hr : r = q
      case pos =>
        subst hr
        simp [data, get, hy']
      case neg => simp [data, get, AList.lookup_insert_ne hr]

theorem tracks_free {t : ServerConnTracker} (hl : t.Listed l) (hn : (p :: l).Nodup)
    (hb : ∀ q, q ∈ t.blocks ↔ q ∈ p :: l)
    (hc : ∀ q x, t.get q = some x → (x.closing ↔ t.shuttingDown))
    (hs : ∀ q x, t.get q = some x → t.shutdowns q = if x.closing then 1 else 0) :
    (t.free p).Tracks l := by
  have ⟨hp, hn'⟩ := List.nodup_cons.mp hn
  have hget : ∀ {q x}, (t.free p).get q = some x → t.get q = some x := by
    intro q x hx
    have hq : q ≠ p := by
      rintro rfl
      simp [get, free] at hx
    exact (AList.lookup_erase_ne hq).symm.trans hx
  refine ⟨hl.congr ?_, hn', ?_, fun q x hx => hc q x (hget hx), fun q x hx => hs q x (hget hx)⟩
  · intro q hq
    have hne : q ≠ p := fun h => hp (h ▸ hq)
    simp [get, free, AList.lookup_erase_ne hne]
  · intro q
    simp only [free, AList.mem_erase, hb, List.mem_cons]
    constructor
    · exact fun h => h.right.resolve_left h.left
    · exact fun h => ⟨fun he => hp (he ▸ h), .inr h⟩

theorem Relinked.get {q : Ptr} {x : ServerConnEntry} (h : t.Relinked t') (hx : t'.get q = some x) :
    ∃ y, t.get q = some y ∧ y.closing = x.closing := by
  have hd := congrFun h.data q
  simp only [ServerConnTracker.data, hx, Option.map_some] at hd
  have ⟨y, hy, he⟩ := Option.map_eq_some_iff.mp hd.symm
  exact ⟨y, hy, congrArg Prod.snd he⟩

theorem Relinked.mem_blocks (h : t.Relinked t') (q : Ptr) : q ∈ t'.blocks ↔ q ∈ t.blocks := by
  have hd := congrArg Option.isSome (congrFun h.data q)
  simp only [ServerConnTracker.data, Option.isSome_map, ServerConnTracker.get] at hd
  rw [← AList.lookup_isSome, hd, AList.lookup_isSome]

@[simp] theorem countDown_head (t : ServerConnTracker) : t.countDown.head = t.head := by
  rw [countDown]; split <;> rfl

@[simp] theorem countDown_blocks (t : ServerConnTracker) : t.countDown.blocks = t.blocks := by
  rw [countDown]; split <;> rfl

@[simp] theorem countDown_shutdowns (t : ServerConnTracker) : t.countDown.shutdowns = t.shutdowns := by
  rw [countDown]; split <;> rfl

@[simp] theorem countDown_shuttingDown (t : ServerConnTracker) :
    t.countDown.shuttingDown = t.shuttingDown := by
  rw [countDown]; split <;> rfl

theorem countDown_listed : t.countDown.Listed l ↔ t.Listed l := by
  have hg : t.countDown.get = t.get := by funext q; simp [get]
  rw [Listed, Listed, hg, countDown_head]

-- An entry of the list is taken out of it, and no other.
theorem Tracks.end (ht : t.Tracks l) (hp : p ∈ l) :
    ∃ t', serverConnTrackerEnd t (some p) = some t' ∧ t'.Tracks (l.erase p) ∧
      t'.shuttingDown = t.shuttingDown ∧ t'.activeCount = t.countDown.activeCount ∧
      ∀ q, q ≠ p → t'.data q = t.data q := by
  have ⟨front, back, hl⟩ := List.append_of_mem hp
  subst hl
  have ⟨x, hx⟩ := ht.get_of_mem hp
  have ⟨t₁, ht₁, hlist, hrel⟩ := setLink_linkTo ht.listed ht.nodup hx
  have hloop : serverConnTrackerEnd.loop t p _ .head _ = _ := loop_end hx ht.listed hp ht.length_keys.ge
  have hfront : p ∉ front := fun h => (List.nodup_append.mp ht.nodup).right.right p h p (.head _) rfl
  have hperm : (front ++ p :: back).Perm (p :: (front ++ back)) := List.perm_middle
  rw [List.erase_append_right _ hfront, List.erase_cons_head]
  refine ⟨t₁.countDown.free p, by rw [serverConnTrackerEnd, hloop, ht₁]; rfl, ?_, ?_, ?_, ?_⟩
  · apply tracks_free (countDown_listed.mpr hlist) (hperm.nodup_iff.mp ht.nodup)
    · intro q
      rw [countDown_blocks, hrel.mem_blocks, ht.blocks, hperm.mem_iff]
    · intro q y hy
      have ⟨z, hz, hc⟩ := hrel.get (q := q) (x := y) (by simpa [get] using hy)
      rw [← hc, ht.closing q z hz, countDown_shuttingDown, hrel.shuttingDown]
    · intro q y hy
      have ⟨z, hz, hc⟩ := hrel.get (q := q) (x := y) (by simpa [get] using hy)
      rw [countDown_shutdowns, hrel.shutdowns, ht.shutdowns q z hz, hc]
  · simp [free, hrel.shuttingDown]
  · simp only [free, countDown, hrel.activeCount]
    split <;> simp [hrel.activeCount]
  · intro q hq
    have hd := congrFun hrel.data q
    rw [← hd]
    simp [data, get, free, AList.lookup_erase_ne hq]

def close (x : ServerConnEntry) : ServerConnEntry :=
  { x with closing := true }

theorem get_abortEntry {x : ServerConnEntry} (hx : t.get p = some x) (q : Ptr) :
    (serverConnTrackerAbortEntry t p x).get q = if q = p then some (close x) else t.get q := by
  rw [serverConnTrackerAbortEntry]
  by_cases hq : q = p
  case pos =>
    subst hq
    rw [if_pos rfl]
    split
    case isTrue hc  => simp [hx, close, ← hc]
    case isFalse hc => exact AList.lookup_insert _
  case neg =>
    rw [if_neg hq]
    split
    case isTrue hc  => rfl
    case isFalse hc => exact AList.lookup_insert_ne hq

theorem shutdowns_abortEntry (x : ServerConnEntry) (q : Ptr) :
    (serverConnTrackerAbortEntry t p x).shutdowns q =
      t.shutdowns q + if q = p ∧ x.closing = false then 1 else 0 := by
  rw [serverConnTrackerAbortEntry]
  by_cases hq : q = p
  case pos =>
    subst hq
    split
    case isTrue hc  => simp [hc]
    case isFalse hc => simp [hc]
  case neg =>
    split
    case isTrue hc  => simp [hq]
    case isFalse hc => simp [hq]

-- All entries are marked, and `shutdown` is called for those that were not marked yet.
structure Aborted (t t' : ServerConnTracker) (l : List Ptr) : Prop where
  head         : t'.head = t.head
  shuttingDown : t'.shuttingDown = t.shuttingDown
  activeCount  : t'.activeCount = t.activeCount
  get          : ∀ q, t'.get q = if q ∈ l then (t.get q).map close else t.get q
  shutdowns    : ∀ q, t'.shutdowns q =
    t.shutdowns q + if q ∈ l ∧ (t.get q).any (!·.closing) then 1 else 0

theorem loop_shutdownAll {h : Option Ptr} {fuel : Nat}
    (hl : Chain t.get ServerConnEntry.next h l) (hn : l.Nodup) (hf : l.length ≤ fuel) :
    ∃ t', serverConnTrackerShutdownAll.loop fuel h t = some t' ∧ t.Aborted t' l := by
  induction l generalizing t h fuel
  case nil =>
    cases Chain.nil_iff.mp hl
    refine ⟨t, by rw [serverConnTrackerShutdownAll.loop], rfl, rfl, rfl, ?_, ?_⟩
    all_goals simp
  case cons p l hi =>
    have ⟨hh, x, hx, hl'⟩ := Chain.cons_iff.mp hl
    have ⟨hp, hn'⟩ := List.nodup_cons.mp hn
    subst hh
    cases fuel
    case zero => simp at hf
    case succ fuel =>
      have hx' : t.blocks.lookup p = some x := hx
      rw [serverConnTrackerShutdownAll.loop, hx']
      dsimp only
      have hchain : Chain (serverConnTrackerAbortEntry t p x).get ServerConnEntry.next x.next l := by
        apply hl'.congr
        intro q hq
        have hne : q ≠ p := fun h => hp (h ▸ hq)
        rw [get_abortEntry hx, if_neg hne]
      have ⟨t', ht', ha⟩ := hi hchain hn' (Nat.le_of_succ_le_succ hf)
      have hkeep : ∀ {β : Type} (f : ServerConnTracker → β), (∀ b s, f { t with blocks := b, shutdowns := s } = f t) →
          f (serverConnTrackerAbortEntry t p x) = f t := by
        intro β f hf
        rw [serverConnTrackerAbortEntry]
        split
        case isTrue  => rfl
        case isFalse => exact hf _ _
      refine ⟨t', ht', ?_, ?_, ?_, ?_, ?_⟩
      · rw [ha.head, hkeep head fun _ _ => rfl]
      · rw [ha.shuttingDown, hkeep shuttingDown fun _ _ => rfl]
      · rw [ha.activeCount, hkeep activeCount fun _ _ => rfl]
      · intro q
        rw [ha.get, get_abortEntry hx]
        by_cases hq : q = p
        case pos => simp [hq, hp, hx]
        case neg => simp [hq]
      · intro q
        rw [ha.shutdowns, get_abortEntry hx, shutdowns_abortEntry]
        by_cases hq : q = p
        case pos => simp [hq, hp, hx]
        case neg => simp [hq]

theorem Tracks.shutdownAll (ht : t.Tracks l) :
    ∃ t', serverConnTrackerShutdownAll t = some t' ∧ t'.Tracks l ∧ t'.shuttingDown = true ∧
      t'.activeCount = t.activeCount ∧ ∀ q, (t'.data q).map Prod.fst = (t.data q).map Prod.fst := by
  have ⟨t', ht', ha⟩ := loop_shutdownAll (t := { t with shuttingDown := true }) ht.listed ht.nodup
    ht.length_keys.ge
  have hget : ∀ q, t'.get q = (t.get q).map close := by
    intro q
    rw [ha.get q]
    split
    case isTrue => rfl
    case isFalse hq =>
      cases hx : t.get q
      case none   => exact hx
      case some x => exact absurd (ht.mem_of_get hx) hq
  refine ⟨t', ht', ?_, ha.shuttingDown, ha.activeCount, ?_⟩
  · refine ⟨?_, ht.nodup, ?_, ?_, ?_⟩
    · rw [Listed, ha.head]
      apply ht.listed.congr
      intro q _
      rw [hget q, Option.map_map]
      rfl
    · intro q
      rw [← ht.blocks, ← AList.lookup_isSome, ← AList.lookup_isSome]
      have hq := congrArg Option.isSome (hget q)
      rw [Option.isSome_map] at hq
      exact Bool.coe_iff_coe.mpr hq
    · intro q x hx
      rw [hget q, Option.map_eq_some_iff] at hx
      have ⟨y, hy, he⟩ := hx
      simp [← he, close, ha.shuttingDown]
    · intro q x hx
      rw [hget q, Option.map_eq_some_iff] at hx
      have ⟨y, hy, he⟩ := hx
      have hs := ha.shutdowns q
      have hy' : get { t with shuttingDown := true } q = some y := hy
      simp only [hy', ht.mem_of_get hy, true_and, ht.shutdowns q y hy] at hs
      rw [hs, ← he]
      cases hc : y.closing <;> simp [close, hc]
  · intro q
    simp only [data, hget q, Option.map_map]
    rfl

end ServerConnTracker

-- The calls of the tracker's functions by any number of threads.
inductive TrackerOp
  | begin (conn : Nat) (block : Option Ptr)
  | «end» (entry : Option Ptr)
  | shutdownAll
  | waitIdle

-- `live` holds the entries that were returned by a call of `begin` and have not been ended.
structure TrackerState where
  tracker : ServerConnTracker
  live    : List Ptr

-- `malloc` does not return a block that is in use, every entry is ended at most once, and `waitIdle`
-- stands for the return of the call.
inductive TrackerStep (s : TrackerState) : TrackerOp → TrackerState → Prop
  | begin {conn block t r} :
    (∀ p, block = some p → p ∉ s.tracker.blocks) →
    serverConnTrackerBegin s.tracker conn block = (r, t) →
    TrackerStep s (.begin conn block) ⟨t, r.toList ++ s.live⟩
  | «end» {p t} :
    p ∈ s.live →
    serverConnTrackerEnd s.tracker (some p) = some t →
    TrackerStep s (.end (some p)) ⟨t, s.live.erase p⟩
  | endNull {t} :
    serverConnTrackerEnd s.tracker none = some t →
    TrackerStep s (.end none) ⟨t, s.live⟩
  | shutdownAll {t} :
    serverConnTrackerShutdownAll s.tracker = some t →
    TrackerStep s .shutdownAll ⟨t, s.live⟩
  | waitIdle :
    serverConnTrackerWaitIdle s.tracker →
    TrackerStep s .waitIdle s

-- The runs whose states all satisfy `P`.
inductive TrackerRun (P : TrackerState → Prop) : List TrackerOp → TrackerState → Prop
  | nil : TrackerRun P [] ⟨.init, []⟩
  | snoc {ops s op s'} : TrackerRun P ops s → TrackerStep s op s' → P s' → TrackerRun P (ops ++ [op]) s'

-- `active_count` has not wrapped around.
def TrackerState.Counted (s : TrackerState) : Prop :=
  s.tracker.activeCount.toNat = s.live.length

namespace TrackerStep

variable {s s' : TrackerState} {op : TrackerOp}

theorem tracks (h : TrackerStep s op s') (ht : s.tracker.Tracks s.live) : s'.tracker.Tracks s'.live := by
  cases h
  case begin conn block t r hb he =>
    cases block
    case none =>
      cases he
      exact ht
    case some p =>
      have hp : p ∉ s.live := fun h => hb p rfl ((ht.blocks p).mpr h)
      by_cases hs : s.tracker.shuttingDown
      case pos =>
        rw [serverConnTrackerBegin, if_pos hs] at he
        cases he
        exact ht
      case neg =>
        have hnew := ht.begin hp (by simpa using hs) conn
        rw [serverConnTrackerBegin, if_neg hs] at he hnew
        cases he
        exact hnew
  case «end» p t hp he =>
    have ⟨t', ht', htr, _⟩ := ht.end hp
    cases he.symm.trans ht'
    exact htr
  case endNull he =>
    cases he
    exact ht
  case shutdownAll t he =>
    have ⟨t', ht', htr, _⟩ := ht.shutdownAll
    cases he.symm.trans ht'
    exact htr
  case waitIdle => exact ht

theorem shuttingDown (h : TrackerStep s op s') (ht : s.tracker.Tracks s.live) :
    s'.tracker.shuttingDown ↔ s.tracker.shuttingDown ∨ op = .shutdownAll := by
  cases h
  case begin conn block t r _ he =>
    cases block
    case none =>
      cases he
      simp
    case some p =>
      rw [serverConnTrackerBegin] at he
      split at he <;> cases he <;> simp
  case «end» p t hp he =>
    have ⟨t', ht', _, hs, _⟩ := ht.end hp
    cases he.symm.trans ht'
    simp [hs]
  case endNull he =>
    cases he
    simp
  case shutdownAll t he =>
    have ⟨t', ht', _, hs, _⟩ := ht.shutdownAll
    cases he.symm.trans ht'
    simp [hs]
  case waitIdle => simp

theorem counted (h : TrackerStep s op s') (ht : s.tracker.Tracks s.live) (hc : s.Counted)
    (hl : s'.live.length < 2 ^ 32) : s'.Counted := by
  rw [TrackerState.Counted] at hc ⊢
  cases h
  case begin conn block t r _ he =>
    cases block
    case none =>
      cases he
      simpa using hc
    case some p =>
      rw [serverConnTrackerBegin] at he
      split at he
      case isTrue =>
        cases he
        simpa using hc
      case isFalse =>
        cases he
        simp only [Option.toList_some, List.singleton_append, List.length_cons] at hl ⊢
        rw [UInt32.toNat_add, hc, UInt32.toNat_one, Nat.mod_eq_of_lt hl]
  case «end» p t hp he =>
    have ⟨t', ht', _, _, ha, _⟩ := ht.end hp
    cases he.symm.trans ht'
    have hpos : 0 < s.tracker.activeCount := by
      rw [UInt32.lt_iff_toNat_lt, hc]
      exact List.length_pos_of_mem hp
    rw [ha, ServerConnTracker.countDown, if_pos hpos, List.length_erase_of_mem hp, ← hc]
    have h1 : (1 : UInt32) ≤ s.tracker.activeCount := by
      rw [UInt32.le_iff_toNat_le]
      exact UInt32.lt_iff_toNat_lt.mp hpos
    rw [UInt32.toNat_sub_of_le _ _ h1, UInt32.toNat_one]
  case endNull he =>
    cases he
    exact hc
  case shutdownAll t he =>
    have ⟨t', ht', _, _, ha, _⟩ := ht.shutdownAll
    cases he.symm.trans ht'
    rw [ha, hc]
  case waitIdle => exact hc

theorem live_of_waitIdle (h : TrackerStep s .waitIdle s') (hc : s.Counted) : s'.live = [] := by
  cases h
  case waitIdle hw =>
    have hz : s.tracker.activeCount = 0 := of_decide_eq_true hw
    rw [TrackerState.Counted, hz] at hc
    exact List.eq_nil_of_length_eq_zero hc.symm

theorem live_nil (h : TrackerStep s op s') (hs : s.tracker.shuttingDown) (hl : s.live = []) :
    s'.live = [] := by
  cases h
  case begin conn block t r _ he =>
    cases block
    case none =>
      cases he
      simpa using hl
    case some p =>
      rw [serverConnTrackerBegin, if_pos hs] at he
      cases he
      simpa using hl
  case «end» hp _ =>
    rw [hl] at hp
    cases hp
  all_goals exact hl

end TrackerStep

namespace TrackerRun

variable {P : TrackerState → Prop} {ops : List TrackerOp} {s : TrackerState}

theorem tracks (h : TrackerRun P ops s) : s.tracker.Tracks s.live := by
  induction h
  case nil              => exact ServerConnTracker.tracks_init
  case snoc hs _ hi => exact hs.tracks hi

theorem shuttingDown_iff (h : TrackerRun P ops s) :
    s.tracker.shuttingDown ↔ .shutdownAll ∈ ops := by
  induction h
  case nil => simp [ServerConnTracker.init]
  case snoc ops s op s' hr hs _ hi =>
    rw [hs.shuttingDown hr.tracks, hi, List.mem_append, List.mem_singleton, @eq_comm _ op]

theorem counted (h : TrackerRun (·.live.length < 2 ^ 32) ops s) : s.Counted := by
  induction h
  case nil => rfl
  case snoc hr hs hl hi => exact hs.counted hr.tracks hi hl

-- Once the tracker is shutting down and idle, no entry is handed out any more.
theorem live_of_idle (h : TrackerRun (·.live.length < 2 ^ 32) ops s) {before after : List TrackerOp}
    (ho : ops = before ++ .waitIdle :: after) (hs : .shutdownAll ∈ before) : s.live = [] := by
  induction h generalizing after
  case nil => simp at ho
  case snoc ops s op s' hr hstep _ hi =>
    cases after using List.reverseRecOn
    case nil =>
      have ⟨_, hop⟩ := List.append_inj' ho rfl
      cases hop
      exact hstep.live_of_waitIdle hr.counted
    case append_singleton after op' _ =>
      have ho' : ops ++ [op] = (before ++ .waitIdle :: after) ++ [op'] := by simpa using ho
      have ⟨hops, _⟩ := List.append_inj' ho' rfl
      have hdown : s.tracker.shuttingDown := hr.shuttingDown_iff.mpr (hops ▸ List.mem_append_left _ hs)
      exact hstep.live_nil hdown (hi hops)

end TrackerRun
