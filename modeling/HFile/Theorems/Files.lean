import HFile.System.Wp

namespace Files

variable {fs fs' fs'' : Files} {p q : CStr} {i : Nat} {bs : Bytes}

@[simp]
theorem get_create_self : (fs.create p).get p = some (.file fs.fresh) :=
  AList.lookup_insert _

theorem get_create_ne (h : q ≠ p) : (fs.create p).get q = fs.get q :=
  AList.lookup_insert_ne h

@[simp]
theorem get_setData : (fs.setData i bs).get p = fs.get p :=
  rfl

@[simp]
theorem data_setData : (fs.setData i bs).data = Function.update fs.data i bs :=
  rfl

@[simp]
theorem setData_setData {cs : Bytes} : (fs.setData i bs).setData i cs = fs.setData i cs := by
  simp [setData]

@[simp]
theorem get_unlink_self : (fs.unlink p).get p = none :=
  AList.lookup_erase _ _

theorem get_unlink_ne (h : q ≠ p) : (fs.unlink p).get q = fs.get q :=
  AList.lookup_erase_ne h

@[simp]
theorem get_move_self {h : fs.get p = some (.file i)} :
    (fs.move p q i h).get q = some (.file i) :=
  AList.lookup_insert _

theorem get_move_ne {r : CStr} {h : fs.get p = some (.file i)} (hr : r ≠ q) :
    (fs.move p q i h).get r = (fs.unlink p).get r :=
  AList.lookup_insert_ne hr

theorem room_le (fs : Files) (i want : Nat) : fs.room i want ≤ want := by
  rw [room]
  split
  · exact Nat.le_refl _
  · exact Nat.min_le_left ..

theorem lt_fresh (h : fs.get p = some (.file i)) : i < fs.fresh :=
  fs.bounded p i h

-- A new file starts out empty.
@[simp]
theorem create_setData_nil : (fs.create p).setData fs.fresh [] = fs.create p := by
  simp [create, setData]

-- What a descriptor refers to.
def content (fs : Files) : Entry → Bytes
  | .file i => fs.data i
  | _       => []

-- The files that exist are the same ones, with the same contents.
structure Same (fs fs' : Files) : Prop where
  get  : fs'.get = fs.get
  data : ∀ i < fs.fresh, fs'.data i = fs.data i

-- Exactly the name `p` stands for another file now, which is new and has the content `bs`.
structure Replaced (fs : Files) (p : CStr) (bs : Bytes) (fs' : Files) : Prop where
  self : fs'.get p = some (.file fs.fresh)
  new  : fs'.data fs.fresh = bs
  get  : ∀ q ≠ p, fs'.get q = fs.get q
  data : ∀ i < fs.fresh, fs'.data i = fs.data i

theorem Same.refl (fs : Files) : Same fs fs :=
  ⟨rfl, fun _ _ => rfl⟩

theorem view_congr (hg : fs'.get p = fs.get p) (hd : ∀ i < fs.fresh, fs'.data i = fs.data i) :
    fs'.view p = fs.view p := by
  simp only [view, hg]
  split
  case h_1 i h => rw [hd i (lt_fresh h)]
  all_goals rfl

theorem Same.view (h : Same fs fs') : fs'.view = fs.view :=
  funext fun p => view_congr (congrFun h.get p) h.data

theorem Replaced.view_self (h : Replaced fs p bs fs') : fs'.view p = some (.file bs) := by
  simp [Files.view, h.self, h.new]

theorem Replaced.view_ne (h : Replaced fs p bs fs') (hq : q ≠ p) : fs'.view q = fs.view q :=
  view_congr (h.get q hq) h.data

-- A name that is created, filled and removed again leaves nothing behind.
theorem same_unlink (bs : Bytes) (hp : fs.get p = none) :
    Same fs (((fs.create p).setData fs.fresh bs).unlink p) where
  get := by
    funext q
    by_cases hq : q = p
    case pos => rw [hq, get_unlink_self, hp]
    case neg => rw [get_unlink_ne hq, get_setData, get_create_ne hq]
  data i hi := by
    have hne : i ≠ fs.fresh := by omega
    simp [unlink, create, hne]

-- A name that is created, filled and moved replaces just the name that it is moved to.
theorem replaced_move (hp : fs.get p = none)
    {h : ((fs.create p).setData fs.fresh bs).get p = some (.file fs.fresh)} :
    Replaced fs q bs (((fs.create p).setData fs.fresh bs).move p q fs.fresh h) where
  self := get_move_self
  new  := by simp [move]
  get r hr := by rw [get_move_ne hr, (same_unlink bs hp).get]
  data := (same_unlink bs hp).data

end Files

namespace World

variable {w : World} {p : CStr} {i : Nat}

theorem handle_openExcl_cases (p : CStr) (fault : Option Errno) (w : World) :
    (∃ e, handle (.openExcl p fault) w = (.error e, w) ∧ (fault = some e ∨ w.files.get p ≠ none)) ∨
    (fault = none ∧ w.files.get p = none ∧
      handle (.openExcl p fault) w = (.ok w.files.fresh, { w with files := w.files.create p })) := by
  simp only [handle]
  cases fault
  case some e => exact .inl ⟨e, rfl, .inl rfl⟩
  case none =>
    cases h : w.files.get p
    case some => exact .inl ⟨.EEXIST, rfl, .inr (by simp)⟩
    case none => exact .inr ⟨rfl, rfl, rfl⟩

theorem handle_openRead_cases (p : CStr) (b : Bool) (fault : Option Errno) (w : World) :
    (∃ e, handle (.openRead p b fault) w = (.error e, w)) ∨
    (∃ fd, w.files.get p = some fd ∧ handle (.openRead p b fault) w = (.ok fd, w)) := by
  simp only [handle]
  cases fault
  case some e => exact .inl ⟨e, rfl⟩
  case none =>
    cases h : w.files.get p
    case none    => exact .inl ⟨.ENOENT, rfl⟩
    case some fd => exact .inr ⟨fd, rfl, rfl⟩

theorem handle_fstat_cases (fd : Entry) (fault : Option Errno) (w : World) :
    ∃ r, handle (.fstat fd fault) w = (r, w) ∧ ∀ info, r = some info → info.kind = .file →
      ∃ i, fd = .file i ∧ info.size = (w.files.data i).length ∧ info.size < 2 ^ 63 := by
  cases fault
  case some => exact ⟨none, rfl, by simp⟩
  case none =>
    refine ⟨_, rfl, fun info hi hk => ?_⟩
    simp only [Files.stat, Option.ite_none_right_eq_some, Option.some.injEq] at hi
    have ⟨hlt, hi⟩ := hi
    subst hi
    cases fd <;> simp only [Files.info, reduceCtorEq] at hk hlt ⊢
    case file i => exact ⟨i, rfl, rfl, hlt⟩

theorem handle_write {bs : Bytes} (chunk : Bytes) (h : w.files.data i = bs) :
    handle (.write i chunk) w = (w.files.room i chunk.length,
      { w with files := w.files.setData i (bs ++ chunk.take (w.files.room i chunk.length)) }) := by
  rw [← h]
  rfl

theorem handle_rename_cases (q : CStr) (fault : Option Errno) (h : w.files.get p = some (.file i)) :
    handle (.rename p q fault) w = (false, w) ∨
    handle (.rename p q fault) w = (true, { w with files := w.files.move p q i h }) := by
  cases fault
  case some => exact .inl rfl
  case none =>
    simp only [handle]
    split
    case h_1 j hj =>
      cases hj.symm.trans h
      split
      · exact .inl rfl
      · exact .inr rfl
    case h_2 hn => exact absurd h (hn i)

@[simp]
theorem handle_remove_file (h : w.files.get p = some (.file i)) :
    handle (.remove p) w = ((), { w with files := w.files.unlink p }) := by
  simp [handle, h, Files.removable]

end World
