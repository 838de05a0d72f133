import HFile.Theorems.Store

-- What a client sees of the file store.
abbrev Store := CStr → Option Content

abbrev Event := (o : SysOp) × o.Res

namespace Event

-- The temporary name that a connection holds after a call, if it held `tmp` before it.
def hold (tmp : Option CStr) : Event → Option CStr
  | ⟨.openExcl p _, .ok _⟩ => some p
  | ⟨.rename .., true⟩     => none
  | ⟨.remove _, _⟩         => none
  | _                      => tmp

-- Whether a request takes effect with this call.
def effective : Event → Bool
  | ⟨.rename .., true⟩     => true
  | ⟨.openRead .., .ok _⟩  => true
  | _                      => false

end Event

namespace Connection

-- What a request that takes effect at once does to a store.
def effect (c : Connection) (baseDir : CStr) (s : Store) : Store :=
  match c.request, c.fullPath baseDir with
  | .upload _ _ size, some path => Function.update s path (some (.file (c.payload size)))
  | _, _                        => s

theorem effect_upload {c : Connection} {baseDir path : CStr} {kind : AppUploadKind} {target : CStr}
    {size : UInt64} (hr : c.request = .upload kind target size)
    (hp : c.fullPath baseDir = some path) (s : Store) :
    c.effect baseDir s = Function.update s path (some (.file (c.payload size))) := by
  simp [effect, hr, hp]

theorem effect_download {c : Connection} {baseDir target : CStr} (hr : c.request = .download target)
    (s : Store) : c.effect baseDir s = s := by
  simp [effect, hr]

end Connection

section

variable {ι : Type}

-- The connections whose requests have taken effect, in the order in which they have.
def effectOrder (log : List (ι × Event)) : List ι :=
  (log.filter (fun x => x.2.effective)).map (fun x => x.1)

-- The outcome of serving requests one after the other.
def replay (conns : ι → Connection) (baseDir : CStr) (s : Store) (order : List ι) : Store :=
  order.foldl (fun s i => (conns i).effect baseDir s) s

theorem effectOrder_append (log : List (ι × Event)) (i : ι) (x : Event) :
    effectOrder (log ++ [(i, x)]) = effectOrder log ++ if x.effective then [i] else [] := by
  by_cases hx : x.effective <;> simp [effectOrder, hx]

theorem effectOrder_isPrefix {l₁ l₂ : List (ι × Event)} (h : l₁ <+: l₂) :
    effectOrder l₁ <+: effectOrder l₂ :=
  (h.filter _).map _

theorem mem_effectOrder {log : List (ι × Event)} :
    i ∈ effectOrder log ↔ ∃ x : Event, (i, x) ∈ log ∧ x.effective := by
  simp [effectOrder]

-- The calls that stand behind the places in the order.
theorem effectOrder_split {log : List (ι × Event)} {i : ι} {pre post : List ι}
    (h : effectOrder log = pre ++ i :: post) : ∃ l o r l', log = l ++ (i, ⟨o, r⟩) :: l' ∧
      effectOrder l = pre ∧ Event.effective ⟨o, r⟩ := by
  have ⟨l₁, l₂, hf, h₁, h₂⟩ := List.map_eq_append_iff.mp h
  have ⟨⟨_, x⟩, l₃, hx, hi, _⟩ := List.map_eq_cons_iff.mp h₂
  have ⟨m₁, m₂, hl, hm₁, hm₂⟩ := List.filter_eq_append_iff.mp hf
  have ⟨n₁, n₂, hn, hnone, he, _⟩ := List.filter_eq_cons_iff.mp (hm₂.trans hx)
  subst hi
  refine ⟨m₁ ++ n₁, x.1, x.2, n₂, by rw [hl, hn, List.append_assoc], ?_, he⟩
  rw [effectOrder, List.filter_append, List.filter_eq_nil_iff.mpr hnone, List.append_nil, hm₁, h₁]

@[simp]
theorem replay_append (conns : ι → Connection) (baseDir : CStr) (s : Store) (order : List ι) (i : ι) :
    replay conns baseDir s (order ++ [i]) = (conns i).effect baseDir (replay conns baseDir s order) := by
  simp [replay]

namespace Phase

def tmp : Phase → Option CStr
  | writing tmp _ _ => some tmp
  | _               => none

-- The file that a connection works on.
def ino : Phase → Option Nat
  | writing _ ino _       => some ino
  | reading (.file ino) _ => some ino
  | _                     => none

def effective : Phase → Bool
  | stored      => true
  | reading _ _ => true
  | _           => false

-- Two connections do not work on the same file if one of them writes to it.
def Apart (x y : Phase) : Prop :=
  (∀ {t n bs}, x = writing t n bs → y.ino ≠ some n) ∧ (∀ {t n bs}, y = writing t n bs → x.ino ≠ some n)

theorem Apart.symm {x y : Phase} (h : Apart x y) : Apart y x :=
  ⟨h.right, h.left⟩

end Phase

section

variable (conns : ι → Connection) (baseDir : CStr) (s : Store)

-- The phase of `i` fits the files and the order in which requests have taken effect: a temporary
-- name is the only one of its file, and the file that is read is what the store held at the turn of
-- `i`.
def PhaseFits (fs : Files) (order : List ι) (i : ι) : Phase → Prop
  | .writing tmp ino bs      =>
    fs.get tmp = some (.file ino) ∧ fs.data ino = bs ∧ (∀ p, fs.get p = some (.file ino) → p = tmp) ∧
    replay conns baseDir s order tmp = none
  | .reading (.file ino) bs  =>
    ino < fs.fresh ∧ fs.data ino = bs ∧ ∃ pre post path, order = pre ++ i :: post ∧
      (conns i).fullPath baseDir = some path ∧ replay conns baseDir s pre path = some (.file bs)
  | .reading _ bs            => bs = []
  | _                        => True

structure Fits (fs : Files) (order : List ι) (ls : ι → Phase) : Prop where
  each  : ∀ i, PhaseFits conns baseDir s fs order i (ls i)
  apart : ∀ {i j}, i ≠ j → (ls i).Apart (ls j)
  nodup : order.Nodup
  mem   : ∀ i, i ∈ order ↔ (ls i).effective
  view  : ∀ {p}, (∀ i, (ls i).tmp ≠ some p) → fs.view p = replay conns baseDir s order p

end

section

variable {conns : ι → Connection} {baseDir : CStr} {s : Store} {fs fs' : Files}
variable {order order' : List ι} {ls : ι → Phase} {i : ι} {tmp path : CStr} {ino : Nat} {bs : Bytes}

theorem PhaseFits.lt_fresh {x : Phase} (h : PhaseFits conns baseDir s fs order i x)
    (hx : x.ino = some ino) : ino < fs.fresh := by
  cases x <;> simp only [Phase.ino, reduceCtorEq] at hx
  case writing =>
    cases hx
    exact Files.lt_fresh h.left
  case reading fd _ =>
    cases fd <;> cases hx
    exact h.left

-- What others do is of no concern as long as they keep away from the files and the temporary name
-- of a connection.
theorem PhaseFits.frame {x : Phase} (h : PhaseFits conns baseDir s fs order i x)
    (hf : fs.fresh ≤ fs'.fresh) (hd : ∀ n, x.ino = some n → fs'.data n = fs.data n)
    (ht : ∀ t, x.tmp = some t → fs'.get t = fs.get t)
    (hp : ∀ p n, x.ino = some n → fs'.get p = some (.file n) → fs.get p = some (.file n))
    (hr : ∀ t, x.tmp = some t → replay conns baseDir s order t = none →
      replay conns baseDir s order' t = none)
    (ho : order <+: order') : PhaseFits conns baseDir s fs' order' i x := by
  cases x
  case writing t n b =>
    have ⟨hg, hb, hu, ha⟩ := h
    refine ⟨?_, ?_, fun p hg' => hu p (hp p n rfl hg'), hr t rfl ha⟩
    · rw [ht t rfl, hg]
    · rw [hd n rfl, hb]
  case reading fd b =>
    cases fd
    case file n =>
      have ⟨hlt, hb, pre, post, path, hpre, hpath, hc⟩ := h
      have ⟨rest, hrest⟩ := ho
      refine ⟨Nat.lt_of_lt_of_le hlt hf, by rw [hd n rfl, hb], pre, post ++ rest, path, ?_, hpath, hc⟩
      rw [← hrest, hpre, List.append_assoc, List.cons_append]
    all_goals exact h
  all_goals trivial

namespace Fits

theorem start (conns : ι → Connection) (baseDir : CStr) (fs : Files) :
    Fits conns baseDir fs.view fs [] (fun _ => .idle) where
  each _  := trivial
  apart _ := ⟨fun h => (by cases h), fun h => (by cases h)⟩
  nodup   := List.nodup_nil
  mem _   := by simp [Phase.effective]
  view _  := rfl

theorem nodup_append (h : Fits conns baseDir s fs order ls) (hi : (ls i).effective = false) :
    (order ++ [i]).Nodup := by
  apply List.nodup_append.mpr ⟨h.nodup, List.nodup_singleton i, _⟩
  intro j hj k hk he
  cases he
  rw [List.mem_singleton] at hk
  simp [h.mem, hk, hi] at hj

-- No other connection holds the temporary name of `i`, or works on its file.
theorem tmp_ne (h : Fits conns baseDir s fs order ls) (hi : ls i = .writing tmp ino bs) {j : ι}
    (hj : j ≠ i) : (ls j).tmp ≠ some tmp := by
  intro ht
  cases hl : ls j <;> rw [hl] at ht <;> cases ht
  case writing n b =>
    have hfi := h.each i
    have hfj := h.each j
    rw [hi] at hfi
    rw [hl] at hfj
    have hn : n = ino := by simpa using hfj.left.symm.trans hfi.left
    exact (h.apart hj).left hl (by simp [hi, Phase.ino, hn])

theorem ino_ne (h : Fits conns baseDir s fs order ls) (hi : ls i = .writing tmp ino bs) {j : ι}
    (hj : j ≠ i) : (ls j).ino ≠ some ino :=
  (h.apart hj.symm).left hi

theorem absent (h : Fits conns baseDir s fs order ls) {t : CStr} (ht : (ls i).tmp = some t) :
    replay conns baseDir s order t = none := by
  have hf := h.each i
  cases hl : ls i <;> rw [hl] at ht hf <;> cases ht
  exact hf.right.right.right

theorem tmp_get (h : Fits conns baseDir s fs order ls) {t : CStr} (ht : (ls i).tmp = some t) :
    ∃ n, fs.get t = some (.file n) := by
  have hf := h.each i
  cases hl : ls i <;> rw [hl] at ht hf <;> cases ht
  exact ⟨_, hf.left⟩

-- A connection with nothing open keeps clear of all others.
theorem apart_of_ino {x y : Phase} (hx : x.ino = none) : x.Apart y := by
  constructor
  · intro t n bs he
    simp [he, Phase.ino] at hx
  · intro t n bs _
    simp [hx]


section

variable [DecidableEq ι]

-- `i` goes over to the phase `x`.
theorem update (h : Fits conns baseDir s fs order ls) {x : Phase}
    (hi : PhaseFits conns baseDir s fs' order' i x)
    (hj : ∀ j, j ≠ i → PhaseFits conns baseDir s fs' order' j (ls j))
    (ha : ∀ j, j ≠ i → x.Apart (ls j)) (hn : order'.Nodup)
    (hm : ∀ j, j ∈ order' ↔ (Function.update ls i x j).effective)
    (hv : ∀ p, x.tmp ≠ some p → (∀ j, j ≠ i → (ls j).tmp ≠ some p) →
      fs'.view p = replay conns baseDir s order' p) :
    Fits conns baseDir s fs' order' (Function.update ls i x) where
  each j := by
    by_cases he : j = i
    case pos =>
      subst he
      rwa [Function.update_self]
    case neg =>
      rw [Function.update_of_ne he]
      exact hj j he
  apart {j k} hne := by
    by_cases hj : j = i
    case pos =>
      subst hj
      rw [Function.update_self, Function.update_of_ne hne.symm]
      exact ha k hne.symm
    case neg =>
      rw [Function.update_of_ne hj]
      by_cases hk : k = i
      case pos =>
        subst hk
        rw [Function.update_self]
        exact (ha j hj).symm
      case neg =>
        rw [Function.update_of_ne hk]
        exact h.apart hne
  nodup := hn
  mem   := hm
  view {p} hp := by
    apply hv p
    · have := hp i
      rwa [Function.update_self] at this
    · intro j hj
      have := hp j
      rwa [Function.update_of_ne hj] at this

-- The effect of `i` is still to come, or has come before.
theorem mem_update (h : Fits conns baseDir s fs order ls) {x : Phase}
    (hx : x.effective = (ls i).effective) (j : ι) :
    j ∈ order ↔ (Function.update ls i x j).effective := by
  by_cases hj : j = i
  case pos =>
    subst hj
    rw [Function.update_self, hx, h.mem]
  case neg => rw [Function.update_of_ne hj, h.mem]

-- The effect of `i` takes place now.
theorem mem_update_append (h : Fits conns baseDir s fs order ls) {x : Phase} (hx : x.effective)
    (j : ι) : j ∈ order ++ [i] ↔ (Function.update ls i x j).effective := by
  rw [List.mem_append, List.mem_singleton]
  by_cases hj : j = i
  case pos =>
    subst hj
    simp [hx]
  case neg => simp [hj, h.mem]

theorem created (h : Fits conns baseDir s fs order ls) (hi : ls i = .idle) (ht : fs.get tmp = none) :
    Fits conns baseDir s (fs.create tmp) order (Function.update ls i (.writing tmp fs.fresh [])) := by
  have hfree : ∀ j, (ls j).tmp ≠ some tmp := by
    intro j hj
    have ⟨n, hn⟩ := h.tmp_get hj
    simp [ht] at hn
  have hdata : ∀ {n}, n < fs.fresh → (fs.create tmp).data n = fs.data n :=
    fun hn => Function.update_of_ne hn.ne ..
  apply h.update
  case hi =>
    refine ⟨Files.get_create_self, Function.update_self .., fun p hp => ?_, ?_⟩
    · by_contra hne
      rw [Files.get_create_ne hne] at hp
      exact absurd (Files.lt_fresh hp) (Nat.lt_irrefl _)
    · rw [← h.view hfree, Files.view, ht]
  case hj =>
    intro j hj
    apply (h.each j).frame
    case hf => exact Nat.le_succ _
    case hd => exact fun n hn => hdata ((h.each j).lt_fresh hn)
    case ht => exact fun t ht => Files.get_create_ne fun he => hfree j (he ▸ ht)
    case hr => exact fun _ _ hr => hr
    case ho => exact List.prefix_rfl
    case hp =>
      intro p n hn hp
      by_cases he : p = tmp
      case pos =>
        rw [he, Files.get_create_self] at hp
        cases hp
        exact absurd ((h.each j).lt_fresh hn) (Nat.lt_irrefl _)
      case neg => rwa [Files.get_create_ne he] at hp
  case ha =>
    intro j hj
    constructor
    · intro t n b hx hn
      cases hx
      exact absurd ((h.each j).lt_fresh hn) (Nat.lt_irrefl _)
    · intro t n b hx hn
      cases hn
      exact absurd ((h.each j).lt_fresh (by rw [hx]; rfl)) (Nat.lt_irrefl fs.fresh)
  case hn => exact h.nodup
  case hm => exact h.mem_update (by rw [hi]; rfl)
  case hv =>
    intro p hp hq
    have hne : p ≠ tmp := fun he => hp (he ▸ rfl)
    rw [Files.view_congr (Files.get_create_ne hne) (fun n hn => hdata hn)]
    apply h.view
    intro j
    by_cases hj : j = i
    case pos => simp [hj, hi, Phase.tmp]
    case neg => exact hq j hj

-- `i` writes to its temporary file.
theorem written (h : Fits conns baseDir s fs order ls) (hi : ls i = .writing tmp ino bs) (bs' : Bytes) :
    Fits conns baseDir s (fs.setData ino bs') order
      (Function.update ls i (.writing tmp ino bs')) := by
  have hfi := h.each i
  rw [hi] at hfi
  have hdata : ∀ {n}, n ≠ ino → (fs.setData ino bs').data n = fs.data n :=
    fun hn => Function.update_of_ne hn ..
  apply h.update
  case hi => exact ⟨hfi.left, Function.update_self .., hfi.right.right.left, hfi.right.right.right⟩
  case hj =>
    intro j hj
    apply (h.each j).frame
    case hf => exact Nat.le_refl _
    case hd =>
      intro n hn
      apply hdata
      rintro rfl
      exact h.ino_ne hi hj hn
    case ht => exact fun _ _ => rfl
    case hp => exact fun _ _ _ hp => hp
    case hr => exact fun _ _ hr => hr
    case ho => exact List.prefix_rfl
  case ha =>
    intro j hj
    constructor
    · intro t n b hx
      cases hx
      exact h.ino_ne hi hj
    · intro t n b hx hn
      cases hn
      exact h.ino_ne hi hj (by rw [hx]; rfl)
  case hn => exact h.nodup
  case hm => exact h.mem_update (by rw [hi]; rfl)
  case hv =>
    intro p hp hq
    have hne : p ≠ tmp := fun he => hp (he ▸ rfl)
    have hv : (fs.setData ino bs').view p = fs.view p := by
      simp only [Files.view, Files.get_setData]
      split
      case h_1 n hg => rw [hdata fun he => hne (hfi.right.right.left p (he ▸ hg))]
      all_goals rfl
    rw [hv]
    apply h.view
    intro j
    by_cases hj : j = i
    case pos =>
      subst hj
      rwa [hi]
    case neg => exact hq j hj

-- `i` moves its complete temporary file to its target, which no other connection holds.
theorem renamed (h : Fits conns baseDir s fs order ls) {kind : AppUploadKind} {target : CStr}
    {size : UInt64} (hr : (conns i).request = .upload kind target size)
    (hp : (conns i).fullPath baseDir = some path)
    (hi : ls i = .writing tmp ino ((conns i).payload size))
    (hclear : ∀ j, j ≠ i → (ls j).tmp ≠ some path) (hg : fs.get tmp = some (.file ino)) :
    Fits conns baseDir s (fs.move tmp path ino hg) (order ++ [i]) (Function.update ls i .stored) := by
  have hfi := h.each i
  rw [hi] at hfi
  have hreplay : ∀ p ≠ path, replay conns baseDir s (order ++ [i]) p = replay conns baseDir s order p := by
    intro p hpath
    rw [replay_append, Connection.effect_upload hr hp, Function.update_of_ne hpath]
  apply h.update
  case hi => trivial
  case hj =>
    intro j hj
    apply (h.each j).frame
    case hf => exact Nat.le_refl _
    case hd => exact fun _ _ => rfl
    case ht =>
      intro t ht
      have hpath : t ≠ path := fun he => hclear j hj (he ▸ ht)
      have htmp : t ≠ tmp := fun he => h.tmp_ne hi hj (he ▸ ht)
      rw [Files.get_move_ne hpath, Files.get_unlink_ne htmp]
    case hp =>
      intro p n hn hq
      by_cases hpath : p = path
      case pos =>
        rw [hpath, Files.get_move_self] at hq
        cases hq
        exact absurd hn (h.ino_ne hi hj)
      case neg =>
        rw [Files.get_move_ne hpath] at hq
        by_cases ht : p = tmp
        case pos => simp [ht] at hq
        case neg => rwa [Files.get_unlink_ne ht] at hq
    case hr =>
      intro t ht habs
      rw [hreplay t fun he => hclear j hj (he ▸ ht), habs]
    case ho => exact List.prefix_append _ _
  case ha => exact fun j _ => apart_of_ino rfl
  case hn => exact h.nodup_append (by rw [hi]; rfl)
  case hm => exact h.mem_update_append rfl
  case hv =>
    intro p _ hq
    by_cases hpath : p = path
    case pos =>
      rw [hpath, replay_append, Connection.effect_upload hr hp, Function.update_self, Files.view,
        Files.get_move_self, ← hfi.right.left]
      rfl
    case neg =>
      rw [hreplay p hpath, Files.view, Files.get_move_ne hpath]
      by_cases ht : p = tmp
      case pos => rw [ht, Files.get_unlink_self, hfi.right.right.right]
      case neg =>
        rw [Files.get_unlink_ne ht]
        apply h.view
        intro j
        by_cases hj : j = i
        case pos => simp [hj, hi, Phase.tmp, Ne.symm ht]
        case neg => exact hq j hj

-- `i` removes its temporary file.
theorem removed (h : Fits conns baseDir s fs order ls) (hi : ls i = .writing tmp ino bs) :
    Fits conns baseDir s (fs.unlink tmp) order (Function.update ls i .idle) := by
  have hfi := h.each i
  rw [hi] at hfi
  apply h.update
  case hi => trivial
  case hj =>
    intro j hj
    apply (h.each j).frame
    case hf => exact Nat.le_refl _
    case hd => exact fun _ _ => rfl
    case ht => exact fun t ht => Files.get_unlink_ne fun he => h.tmp_ne hi hj (he ▸ ht)
    case hp =>
      intro p n hn hq
      by_cases ht : p = tmp
      case pos => simp [ht] at hq
      case neg => rwa [Files.get_unlink_ne ht] at hq
    case hr => exact fun _ _ hr => hr
    case ho => exact List.prefix_rfl
  case ha => exact fun j _ => apart_of_ino rfl
  case hn => exact h.nodup
  case hm => exact h.mem_update (by rw [hi]; rfl)
  case hv =>
    intro p _ hq
    rw [Files.view]
    by_cases ht : p = tmp
    case pos => rw [ht, Files.get_unlink_self, hfi.right.right.right]
    case neg =>
      rw [Files.get_unlink_ne ht]
      apply h.view
      intro j
      by_cases hj : j = i
      case pos => simp [hj, hi, Phase.tmp, Ne.symm ht]
      case neg => exact hq j hj

-- `i` opens its target, which no other connection holds.
theorem opened (h : Fits conns baseDir s fs order ls) {target : CStr} {fd : Entry}
    (hr : (conns i).request = .download target) (hp : (conns i).fullPath baseDir = some path)
    (hi : ls i = .idle) (hclear : ∀ j, j ≠ i → (ls j).tmp ≠ some path) (hg : fs.get path = some fd) :
    Fits conns baseDir s fs (order ++ [i])
      (Function.update ls i (.reading fd (fs.content fd))) := by
  have hreplay : replay conns baseDir s (order ++ [i]) = replay conns baseDir s order := by
    rw [replay_append, Connection.effect_download hr]
  have htmp : ∀ {p}, (∀ j, j ≠ i → (ls j).tmp ≠ some p) → fs.view p = replay conns baseDir s order p := by
    intro p hq
    apply h.view
    intro j
    by_cases hj : j = i
    case pos => simp [hj, hi, Phase.tmp]
    case neg => exact hq j hj
  -- A file that can be opened is no temporary one.
  have hino : ∀ {n j}, fd = .file n → j ≠ i → ∀ {t b}, ls j ≠ .writing t n b := by
    intro n j hfd hj t b hl
    have hfj := h.each j
    rw [hl] at hfj
    have ht := hfj.right.right.left path (hfd ▸ hg)
    exact hclear j hj (by rw [hl, ht]; rfl)
  apply h.update
  case hi =>
    cases fd
    case file n =>
      refine ⟨Files.lt_fresh hg, rfl, order, [], path, rfl, hp, ?_⟩
      rw [← htmp hclear, Files.view, hg]
      rfl
    all_goals rfl
  case hj =>
    intro j hj
    apply (h.each j).frame
    case hf => exact Nat.le_refl _
    case hd => exact fun _ _ => rfl
    case ht => exact fun _ _ => rfl
    case hp => exact fun _ _ _ hp => hp
    case hr => exact fun _ _ habs => by rw [hreplay, habs]
    case ho => exact List.prefix_append _ _
  case ha =>
    intro j hj
    constructor
    · intro t n b hx
      cases hx
    · intro t n b hl hn
      cases fd <;> cases hn
      exact hino rfl hj hl
  case hn => exact h.nodup_append (by rw [hi]; rfl)
  case hm => exact h.mem_update_append rfl
  case hv =>
    intro p _ hq
    rw [hreplay]
    exact htmp hq

end
end Fits

section

variable [DecidableEq ι]

-- The temporary name that `i` has created, and neither moved nor removed since.
def held (log : List (ι × Event)) (i : ι) : Option CStr :=
  log.foldl (fun tmp x => if x.1 = i then x.2.hold tmp else tmp) none

-- The name by which the next call of a connection reaches for a file that others may have made.
def SysOp.reach : SysOp → Option CStr
  | .openRead p _ _ => some p
  | .rename _ p _   => some p
  | _               => none

-- The connection whose turn it is does not reach for the temporary file of another one.
def Clear (P : Pool Sys World ι Outcome) (i : ι) : Prop :=
  ∀ o ∈ (P.procs i).next, ∀ p ∈ o.reach, ∀ j ≠ i, held P.log j ≠ some p

instance [Fintype ι] (P : Pool Sys World ι Outcome) (i : ι) : Decidable (Clear P i) :=
  inferInstanceAs <| Decidable (∀ o ∈ (P.procs i).next, ∀ p ∈ o.reach, ∀ j ≠ i, held P.log j ≠ some p)

theorem held_append (log : List (ι × Event)) (i j : ι) (x : Event) :
    held (log ++ [(i, x)]) j = if i = j then x.hold (held log j) else held log j := by
  simp [held]

-- The phases fit all that has happened in a pool.
structure Consistent (conns : ι → Connection) (baseDir : CStr) (s : Store)
    (P : Pool Sys World ι Outcome) (ls : ι → Phase) : Prop where
  fits : Fits conns baseDir s P.world.files (effectOrder P.log) ls
  held : ∀ i, held P.log i = (ls i).tmp

namespace Consistent

variable {P : Pool Sys World ι Outcome} {o : SysOp} {k : o.Res → Program Sys Outcome}

theorem start (conns : ι → Connection) (baseDir : CStr) (w : World) :
    Consistent conns baseDir w.files.view (.start w (fun i => (conns i).serve baseDir))
      (fun _ => .idle) where
  fits   := .start conns baseDir w.files
  held _ := rfl

theorem step (h : Consistent conns baseDir s P ls) (hp : P.procs i = .call o k) {x : Phase}
    {r : o.Res} {w : World} (hw : World.handle o P.world = (r, w))
    (hf : Fits conns baseDir s w.files
      (effectOrder P.log ++ if Event.effective ⟨o, r⟩ then [i] else []) (Function.update ls i x))
    (hx : Event.hold (ls i).tmp ⟨o, r⟩ = x.tmp) :
    Consistent conns baseDir s (P.step World.handle i) (Function.update ls i x) := by
  rw [Pool.step_of_call hp, hw]
  constructor
  case fits => rwa [← effectOrder_append] at hf
  case held =>
    intro j
    rw [held_append, h.held]
    by_cases hj : i = j
    case pos =>
      subst hj
      rw [if_pos rfl, hx, Function.update_self]
    case neg => rw [if_neg hj, Function.update_of_ne (Ne.symm hj)]

-- A call by which `i` neither changes anything nor goes over to another phase.
theorem quiet (h : Consistent conns baseDir s P ls) (hp : P.procs i = .call o k) {x : Phase}
    (hl : ls i = x) {r : o.Res} (hw : World.handle o P.world = (r, P.world))
    (he : Event.effective ⟨o, r⟩ = false) (hx : ∀ t, Event.hold t ⟨o, r⟩ = t) :
    Consistent conns baseDir s (P.step World.handle i) (Function.update ls i x) := by
  apply h.step hp hw
  · rw [he, ← hl, Function.update_eq_self]
    simpa using h.fits
  · rw [hx, hl]

-- The world's answer to a call of `i` is as agreed, unless `i` reaches for a file of another
-- connection.
theorem progress (h : Consistent conns baseDir s P ls) (hc : Clear P i) (hp : P.procs i = .call o k)
    (ha : ((conns i).contract baseDir).allows (ls i) o) :
    ∃ x, ((conns i).contract baseDir).next (ls i) o (World.handle o P.world).1 x ∧
      Consistent conns baseDir s (P.step World.handle i) (Function.update ls i x) := by
  have hclear : ∀ {p}, o.reach = some p → ∀ j, j ≠ i → (ls j).tmp ≠ some p := by
    intro p ho j hj ht
    exact hc o (by rw [hp]; rfl) p ho j hj (by rw [h.held, ht])
  have hfi := h.fits.each i
  generalize hl : ls i = x at ha hfi
  cases ha
  case openExcl tmp f hr =>
    cases World.handle_openExcl_cases tmp f P.world
    case inl he =>
      have ⟨e, he, _⟩ := he
      rw [he]
      exact ⟨_, .taken, h.quiet hp hl he rfl fun _ => rfl⟩
    case inr he =>
      have ⟨_, hn, he⟩ := he
      rw [he]
      refine ⟨_, .created, h.step hp he ?_ rfl⟩
      simpa [Event.effective] using h.fits.created hl hn
  case openRead target path b f hr hpath =>
    cases World.handle_openRead_cases path b f P.world
    case inl he =>
      have ⟨e, he⟩ := he
      rw [he]
      exact ⟨_, .missed, h.quiet hp hl he rfl fun _ => rfl⟩
    case inr he =>
      have ⟨fd, hg, he⟩ := he
      rw [he]
      exact ⟨_, .opened, h.step hp he (h.fits.opened hr hpath hl (hclear rfl) hg) (by rw [hl]; rfl)⟩
  case write tmp ino bs chunk =>
    have he := World.handle_write chunk hfi.right.left
    rw [he]
    refine ⟨_, .write (Files.room_le ..), h.step hp he ?_ (by rw [hl]; rfl)⟩
    simpa [Event.effective] using h.fits.written hl _
  case pwrite tmp ino bs off chunk =>
    have ⟨n, new, he⟩ : ∃ n new, World.handle (.pwrite ino off chunk) P.world =
        (n, { P.world with files := P.world.files.setData ino new }) := ⟨_, _, rfl⟩
    rw [he]
    refine ⟨.writing tmp ino new, .pwrite, h.step hp he ?_ (by rw [hl]; rfl)⟩
    simpa [Event.effective] using h.fits.written hl new
  case closeOut fd f => exact ⟨_, .closeOut, h.quiet hp hl rfl rfl fun _ => rfl⟩
  case rename kind target size path tmp bs ino f hr hpath hbs =>
    subst hbs
    cases World.handle_rename_cases path f hfi.left
    case inl he =>
      rw [he]
      exact ⟨_, .kept, h.quiet hp hl he rfl fun _ => rfl⟩
    case inr he =>
      rw [he]
      refine ⟨_, .renamed, h.step hp he ?_ rfl⟩
      exact h.fits.renamed hr hpath hl (hclear rfl) hfi.left
  case remove =>
    have he := World.handle_remove_file hfi.left
    rw [he]
    refine ⟨_, .removed, h.step hp he ?_ rfl⟩
    simpa [Event.effective] using h.fits.removed hl
  case fstat fd bs f =>
    have ⟨r, he, hinfo⟩ := World.handle_fstat_cases fd f P.world
    rw [he]
    refine ⟨_, .fstat fun info hr hk => ?_, h.quiet hp hl he rfl fun _ => rfl⟩
    have ⟨n, hn, hs, hlt⟩ := hinfo info hr hk
    subst hn
    exact ⟨⟨n, rfl⟩, by rw [hs, hfi.right.left], hlt⟩
  case pread fd bs off len =>
    have he : World.handle (.pread fd off len) P.world = ((bs.drop off).take len, P.world) := by
      cases fd
      case file => rw [← hfi.right.left]; rfl
      all_goals
        cases (hfi : bs = [])
        simp [World.handle]
    rw [he]
    exact ⟨_, .pread, h.quiet hp hl he rfl fun _ => rfl⟩
  case closeIn fd f => exact ⟨_, .closeIn, h.quiet hp hl rfl rfl fun _ => rfl⟩

end Consistent

end
end
end
