import HFile.System.Files

-- What stands at a place of a file system with symbolic links.
inductive Node
  | entry (x : Entry)
  | link (target : CStr)
  deriving DecidableEq

-- A file system with directories and symbolic links. A place in it is given by the names that lead
-- there from the root, without any links on the way.
structure LinkedFiles where
  nodes    : AList (fun _ : List CStr => Node)
  data     : Nat → Bytes
  mtime    : Nat → Nat
  fresh    : Nat
  clock    : Nat
  cwd      : List CStr
  maxLinks : Nat  -- how many links can be followed on the way along one path
  root     : nodes.lookup [] = some (.entry .dir)
  parents  : ∀ p n x, nodes.lookup (p ++ [n]) = some x → nodes.lookup p = some (.entry .dir)
  bounded  : ∀ p i, nodes.lookup p = some (.entry (.file i)) → i < fresh

namespace LinkedFiles

def get (t : LinkedFiles) (p : List CStr) : Option Node :=
  t.nodes.lookup p

def IsDir (t : LinkedFiles) (p : List CStr) : Prop :=
  t.get p = some (.entry .dir)

instance (t : LinkedFiles) (p : List CStr) : Decidable (t.IsDir p) :=
  inferInstanceAs <| Decidable (_ = _)

-- The names in a directory.
def members (t : LinkedFiles) (p : List CStr) : List CStr :=
  t.nodes.keys.filterMap fun q => if q.dropLast = p then q.getLast? else none

theorem mem_members {t : LinkedFiles} {p : List CStr} {n : CStr} {x : Node} (h : t.get (p ++ [n]) = some x) :
    n ∈ t.members p := by
  have hk : p ++ [n] ∈ t.nodes.keys := AList.mem_keys.mp (AList.lookup_isSome.mp (Option.isSome_of_eq_some h))
  exact List.mem_filterMap.mpr ⟨p ++ [n], hk, by simp⟩

-- The place `p` can be given to the file `i`.
structure Free (t : LinkedFiles) (p : List CStr) : Prop where
  ne_root : p ≠ []
  parent  : t.IsDir p.dropLast
  notDir  : ¬t.IsDir p

instance (t : LinkedFiles) (p : List CStr) : Decidable (t.Free p) :=
  decidable_of_iff (p ≠ [] ∧ t.IsDir p.dropLast ∧ ¬t.IsDir p)
    ⟨fun h => ⟨h.left, h.right.left, h.right.right⟩, fun h => ⟨h.ne_root, h.parent, h.notDir⟩⟩

def put (t : LinkedFiles) (p : List CStr) (i : Nat) (hp : t.Free p) (hi : i < t.fresh) : LinkedFiles :=
  { t with
    nodes := t.nodes.insert p (.entry (.file i))
    root := by rw [AList.lookup_insert_ne (Ne.symm hp.ne_root), t.root]
    parents := fun q n x h => by
      have hq : t.nodes.lookup q = some (.entry .dir) := by
        by_cases hn : q ++ [n] = p
        case pos =>
          have hd := hp.parent
          rwa [← hn, List.dropLast_concat] at hd
        case neg =>
          rw [AList.lookup_insert_ne hn] at h
          exact t.parents q n x h
      have hne : q ≠ p := fun he => hp.notDir (he ▸ hq)
      rw [AList.lookup_insert_ne hne, hq]
    bounded := fun q j h => by
      by_cases hq : q = p
      case pos =>
        subst hq
        simp only [AList.lookup_insert, Option.some.injEq, Node.entry.injEq, Entry.file.injEq] at h
        exact h ▸ hi
      case neg =>
        rw [AList.lookup_insert_ne hq] at h
        exact t.bounded q j h }

-- There is nothing below the place `p`.
structure Bare (t : LinkedFiles) (p : List CStr) : Prop where
  ne_root : p ≠ []
  empty   : t.members p = []

instance (t : LinkedFiles) (p : List CStr) : Decidable (t.Bare p) :=
  decidable_of_iff (p ≠ [] ∧ t.members p = []) ⟨fun h => ⟨h.left, h.right⟩, fun h => ⟨h.ne_root, h.empty⟩⟩

def unlink (t : LinkedFiles) (p : List CStr) (hp : t.Bare p) : LinkedFiles :=
  { t with
    nodes := t.nodes.erase p
    root := by rw [AList.lookup_erase_ne (Ne.symm hp.ne_root), t.root]
    parents := fun q n x h => by
      have hn : q ++ [n] ≠ p := by
        rintro rfl
        simp at h
      rw [AList.lookup_erase_ne hn] at h
      have hq : q ≠ p := by
        rintro rfl
        have hm := mem_members h
        rw [hp.empty] at hm
        exact List.not_mem_nil hm
      rw [AList.lookup_erase_ne hq]
      exact t.parents q n x h
    bounded := fun q j h => by
      by_cases hq : q = p
      case pos =>
        subst hq
        simp at h
      case neg =>
        rw [AList.lookup_erase_ne hq] at h
        exact t.bounded q j h }

def create (t : LinkedFiles) (p : List CStr) (hp : t.Free p) : LinkedFiles :=
  let t' : LinkedFiles := { t with
    data    := Function.update t.data t.fresh []
    mtime   := Function.update t.mtime t.fresh t.clock
    fresh   := t.fresh + 1
    bounded := fun q i h => Nat.lt_succ_of_lt (t.bounded q i h) }
  t'.put p t.fresh ⟨hp.ne_root, hp.parent, hp.notDir⟩ (Nat.lt_succ_self _)

def setData (t : LinkedFiles) (i : Nat) (bs : Bytes) : LinkedFiles :=
  { t with data := Function.update t.data i bs }

-- The parts of a path between its slashes.
def parts (path : CStr) : List Bytes :=
  path.chars.splitOn 47

-- The place that the part `s` of a path leads to from the place `p`.
def enter (t : LinkedFiles) (p : List CStr) (s : Bytes) : Option (List CStr) :=
  if ¬t.IsDir p then none
  else if s = [] ∨ s = [46] then some p
  else if s = [46, 46] then some p.dropLast
  else some (p ++ [.ofBuf s])

-- Where a path starts from, if a link at the place of `p` has it.
def start (p : List CStr) (path : CStr) : List CStr :=
  if path.chars.head? = some 47 then [] else p

-- Follows some parts of a path from a place. `jump` says where a link leads, if it can be followed.
def follow.parts (t : LinkedFiles) (n : Nat) (jump : List CStr → List Bytes → Option (Nat × List CStr)) :
    List CStr → List Bytes → Option (Nat × List CStr)
  | p, []      => some (n, p)
  | p, s :: ss =>
    match t.enter p s with
    | none   => none
    | some q =>
      match t.get q with
      | none                => none
      | some (.entry _)     => follow.parts t n jump q ss
      | some (.link target) => jump (start p target) (LinkedFiles.parts target ++ ss)

-- Follows some parts of a path from a place, over at most `n` links. The result holds how many more
-- links can be followed and the place at the end.
def follow (t : LinkedFiles) : Nat → List CStr → List Bytes → Option (Nat × List CStr)
  | 0     => follow.parts t 0 fun _ _ => none
  | n + 1 => follow.parts t (n + 1) (follow t n)

-- What a path leads to if it is a link's, too.
def realPath (t : LinkedFiles) (path : CStr) : Option (Nat × List CStr) :=
  if path.chars = [] then none else t.follow t.maxLinks (start t.cwd path) (parts path)

-- The directory in which the last part of a path is looked up. The empty part at the end makes sure
-- that it is a directory.
def dirOf (t : LinkedFiles) (path : CStr) : Option (List CStr) :=
  if path.chars = [] then none
  else (t.follow t.maxLinks (start t.cwd path) ((parts path).dropLast ++ [[]])).map Prod.snd

def lastPart (path : CStr) : Bytes :=
  (parts path).getLast?.getD []

-- The place of a path, whose last part is not followed if it is a link.
def place (t : LinkedFiles) (path : CStr) : Option (List CStr) :=
  (t.dirOf path).bind fun p => t.enter p (lastPart path)

def lookup (t : LinkedFiles) (path : CStr) : Option Node :=
  (t.place path).bind t.get

def info (t : LinkedFiles) : Node → FsPathInfo
  | .entry (.file i) => { kind := .file, size := (t.data i).length, mtime := t.mtime i }
  | .entry .dir      => { kind := .dir, size := 0, mtime := 0 }
  | .entry .other    => { kind := .other, size := 0, mtime := 0 }
  | .link _          => { kind := .symlink, size := 0, mtime := 0 }

-- A size that does not fit `off_t` makes `fstat` and `lstat` fail with `EOVERFLOW`.
def stat (t : LinkedFiles) (x : Node) : Option FsPathInfo :=
  if (t.info x).size < 2 ^ 63 then some (t.info x) else none

def openFollowed (t : LinkedFiles) (path : CStr) : Except Errno Entry :=
  match (t.realPath path).bind fun x => t.get x.2 with
  | some (.entry x) => .ok x
  | _               => .error .ENOENT

-- `open` with `O_NOFOLLOW`.
def openUnfollowed (t : LinkedFiles) (path : CStr) : Except Errno Entry :=
  match t.lookup path with
  | some (.entry x) => .ok x
  | some (.link _)  => .error .ELOOP
  | none            => .error .ENOENT

-- `open` with `O_CREAT` and `O_EXCL`.
def openNew (t : LinkedFiles) (path : CStr) : Except Errno Nat × LinkedFiles :=
  match t.place path with
  | none   => (.error .ENOENT, t)
  | some p =>
    if lastPart path = [] then (.error .EISDIR, t)
    else if t.get p ≠ none then (.error .EEXIST, t)
    else if h : t.Free p then (.ok t.fresh, t.create p h)
    else (.error .ENOENT, t)

-- `rename` of a file.
def rename (t : LinkedFiles) (old new : CStr) : Option LinkedFiles :=
  match t.place old, t.place new with
  | some p, some q =>
    match h : t.get p with
    | some (.entry (.file i)) =>
      if hp : t.Bare p then
        if hq : (t.unlink p hp).Free q then some ((t.unlink p hp).put q i hq (t.bounded p i h)) else none
      else none
    | _                       => none
  | _, _           => none

-- `remove` takes an empty directory away, too.
def remove (t : LinkedFiles) (path : CStr) : LinkedFiles :=
  match t.place path with
  | none   => t
  | some p => if hp : t.Bare p then t.unlink p hp else t

def list (t : LinkedFiles) (path : CStr) : Option (List CStr) :=
  match t.realPath path with
  | none        => none
  | some (_, p) => if t.IsDir p then some (t.members p) else none

end LinkedFiles

structure LinkedWorld where
  tree  : LinkedFiles
  board : Board

namespace LinkedWorld

def handle : Program.Handler Sys LinkedWorld
  | .openExcl p fault, w =>
    match fault with
    | some e => (.error e, w)
    | none   => ((w.tree.openNew p).1, { w with tree := (w.tree.openNew p).2 })
  | .openRead p nofollow fault, w =>
    match fault with
    | some e => (.error e, w)
    | none   => (if nofollow then w.tree.openUnfollowed p else w.tree.openFollowed p, w)
  | .fstat fd fault, w =>
    match fault with
    | some _ => (none, w)
    | none   => (w.tree.stat (.entry fd), w)
  | .pread fd off len, w =>
    match fd with
    | .file i => (((w.tree.data i).drop off).take len, w)
    | _       => ([], w)
  | .write i bs, w => (bs.length, { w with tree := w.tree.setData i (w.tree.data i ++ bs) })
  | .pwrite i off bs, w =>
    let old := w.tree.data i
    let new := old.take off ++ List.replicate (off - old.length) 0 ++ bs ++ old.drop (off + bs.length)
    (bs.length, { w with tree := w.tree.setData i new })
  | .close _ fault, w => (fault.isNone, w)
  | .rename p q fault, w =>
    match fault with
    | some _ => (false, w)
    | none   =>
      match w.tree.rename p q with
      | none   => (false, w)
      | some t => (true, { w with tree := t })
  | .remove p, w => ((), { w with tree := w.tree.remove p })
  | .lstat p fault, w =>
    match fault with
    | some _ => (none, w)
    | none   => ((w.tree.lookup p).bind w.tree.stat, w)
  | .opendir p fault, w =>
    match fault with
    | some _ => (none, w)
    | none   => (w.tree.list p, w)
  | .setMessage m, w => ((), { w with board := ⟨some m, w.board.version + 1⟩ })
  | .getMessage, w => ((w.board.message, w.board.version), w)
  | .waitMessage known, w =>
    (if w.board.version > known then (w.board.message, w.board.version)
     else (none, w.board.version), w)

end LinkedWorld
