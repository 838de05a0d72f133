import HFile.System.Syscall

-- A file system without symbolic links, in which a path is one name.
structure Files where
  entries : AList (fun _ : CStr => Entry)
  data    : Nat → Bytes
  mtime   : Nat → Nat
  fresh   : Nat
  clock   : Nat
  limit   : Option Nat  -- the size past which no file can grow
  bounded : ∀ p i, entries.lookup p = some (.file i) → i < fresh

inductive Content
  | file (bytes : Bytes)
  | dir
  | other
  deriving DecidableEq

namespace Files

def empty : Files where
  entries := ∅
  data    := fun _ => []
  mtime   := fun _ => 0
  fresh   := 0
  clock   := 0
  limit   := none
  bounded := by simp

def get (fs : Files) (p : CStr) : Option Entry :=
  fs.entries.lookup p

-- What can be seen of the file system: which names exist and what they contain.
def view (fs : Files) (p : CStr) : Option Content :=
  match fs.get p with
  | some (.file i) => some (.file (fs.data i))
  | some .dir      => some .dir
  | some .other    => some .other
  | none           => none

def info (fs : Files) : Entry → FsPathInfo
  | .file i => { kind := .file, size := (fs.data i).length, mtime := fs.mtime i }
  | .dir    => { kind := .dir, size := 0, mtime := 0 }
  | .other  => { kind := .other, size := 0, mtime := 0 }

-- A size that does not fit `off_t` makes `fstat` and `lstat` fail with `EOVERFLOW`.
def stat (fs : Files) (x : Entry) : Option FsPathInfo :=
  if (fs.info x).size < 2 ^ 63 then some (fs.info x) else none

def create (fs : Files) (p : CStr) : Files where
  entries := fs.entries.insert p (.file fs.fresh)
  data    := Function.update fs.data fs.fresh []
  mtime   := Function.update fs.mtime fs.fresh fs.clock
  fresh   := fs.fresh + 1
  clock   := fs.clock
  limit   := fs.limit
  bounded q i h := by
    by_cases hq : q = p
    case pos =>
      subst hq
      simp only [AList.lookup_insert, Option.some.injEq, Entry.file.injEq] at h
      omega
    case neg =>
      rw [AList.lookup_insert_ne hq] at h
      exact Nat.lt_succ_of_lt (fs.bounded q i h)

def setData (fs : Files) (i : Nat) (bs : Bytes) : Files :=
  { fs with data := Function.update fs.data i bs }

def unlink (fs : Files) (p : CStr) : Files :=
  { fs with
    entries := fs.entries.erase p
    bounded := fun q i h => by
      by_cases hq : q = p
      case pos =>
        subst hq
        simp at h
      case neg =>
        rw [AList.lookup_erase_ne hq] at h
        exact fs.bounded q i h }

def move (fs : Files) (p q : CStr) (i : Nat) (h : fs.get p = some (.file i)) : Files :=
  { fs with
    entries := (fs.entries.erase p).insert q (.file i)
    bounded := fun r j hr => by
      by_cases hq : r = q
      case pos =>
        subst hq
        simp only [AList.lookup_insert, Option.some.injEq, Entry.file.injEq] at hr
        exact hr ▸ fs.bounded p i h
      case neg =>
        rw [AList.lookup_insert_ne hq] at hr
        exact (fs.unlink p).bounded r j hr }

-- The number of further bytes that a file can take.
def room (fs : Files) (i : Nat) (want : Nat) : Nat :=
  match fs.limit with
  | none   => want
  | some n => min want (n - (fs.data i).length)

-- The name of `p` in the directory `dir`, if it is one of its immediate members.
def childName (dir p : CStr) : Option CStr :=
  let base := if dir.chars.getLast? = some 47 then dir.chars else dir.chars ++ [47]
  if base.isPrefixOf p.chars ∧ p.chars ≠ base ∧ 47 ∉ p.chars.drop base.length then
    some ⟨p.chars.drop base.length, fun h => p.nul_free (List.mem_of_mem_drop h)⟩
  else
    none

-- `remove` takes an empty directory away, too.
def removable (fs : Files) (p : CStr) : Entry → Bool
  | .dir => (fs.entries.keys.filterMap (childName p)).isEmpty
  | _    => true

end Files

-- The message store's state (its mutex and its condition variable have no counterpart, since each
-- of the calls on it is atomic).
structure Board where
  message : Option CStr
  version : Nat

structure World where
  files : Files
  board : Board

namespace World

def empty : World where
  files := .empty
  board := ⟨none, 0⟩

def handle : Program.Handler Sys World
  | .openExcl p fault, w =>
    match fault with
    | some e => (.error e, w)
    | none   =>
      match w.files.get p with
      | some _ => (.error .EEXIST, w)
      | none   => (.ok w.files.fresh, { w with files := w.files.create p })
  | .openRead p _ fault, w =>
    match fault with
    | some e => (.error e, w)
    | none   =>
      match w.files.get p with
      | some x => (.ok x, w)
      | none   => (.error .ENOENT, w)
  | .fstat fd fault, w =>
    match fault with
    | some _ => (none, w)
    | none   => (w.files.stat fd, w)
  | .pread fd off len, w =>
    match fd with
    | .file i => (((w.files.data i).drop off).take len, w)
    | _       => ([], w)
  | .write i bs, w =>
    let n := w.files.room i bs.length
    (n, { w with files := w.files.setData i (w.files.data i ++ bs.take n) })
  | .pwrite i off bs, w =>
    let old := w.files.data i
    let new := old.take off ++ List.replicate (off - old.length) 0 ++ bs ++ old.drop (off + bs.length)
    (bs.length, { w with files := w.files.setData i new })
  | .close _ fault, w => (fault.isNone, w)
  | .rename p q fault, w =>
    match fault with
    | some _ => (false, w)
    | none   =>
      match h : w.files.get p with
      | some (.file i) =>
        if w.files.get q = some .dir then (false, w)
        else (true, { w with files := w.files.move p q i h })
      | _              => (false, w)
  | .remove p, w =>
    match w.files.get p with
    | some x => ((), if w.files.removable p x then { w with files := w.files.unlink p } else w)
    | none   => ((), w)
  | .lstat p fault, w =>
    match fault with
    | some _ => (none, w)
    | none   => ((w.files.get p).bind w.files.stat, w)
  | .opendir p fault, w =>
    match fault with
    | some _ => (none, w)
    | none   =>
      match w.files.get p with
      | some .dir => (some (w.files.entries.keys.filterMap (Files.childName p)), w)
      | _         => (none, w)
  | .setMessage m, w => ((), { w with board := ⟨some m, w.board.version + 1⟩ })
  | .getMessage, w => ((w.board.message, w.board.version), w)
  | .waitMessage known, w =>
    (if w.board.version > known then (w.board.message, w.board.version)
     else (none, w.board.version), w)

end World
