import HFile.Library.Program
import HFile.Library.Stream

inductive FsPathKind
  | file | dir | symlink | other
  deriving DecidableEq

structure FsPathInfo where
  kind  : FsPathKind
  size  : Nat
  mtime : Nat
  deriving DecidableEq

-- What a name stands for, and what a descriptor of it refers to. The contents of a file are reached
-- through its inode, so that a descriptor stays valid when the name is removed or given to another
-- file. Output files are always newly created, so their descriptors are written as plain inodes.
inductive Entry
  | file (ino : Nat)
  | dir
  | other
  deriving DecidableEq

-- The calls by which a process acts on state that it shares with others: the file system and the
-- message store. Calls that can fail for reasons outside of the file system's state carry the
-- failure that is injected into them, if any.
inductive SysOp
  | openExcl (path : CStr) (fault : Option Errno)                    -- O_CREAT | O_WRONLY | O_EXCL
  | openRead (path : CStr) (nofollow : Bool) (fault : Option Errno)  -- O_RDONLY
  | fstat (fd : Entry) (fault : Option Errno)
  | pread (fd : Entry) (off len : Nat)
  | write (ino : Nat) (data : Bytes)
  | pwrite (ino off : Nat) (data : Bytes)
  | close (fd : Entry) (fault : Option Errno)
  | rename (old new : CStr) (fault : Option Errno)
  | remove (path : CStr)
  | lstat (path : CStr) (fault : Option Errno)
  | opendir (path : CStr) (fault : Option Errno)                     -- with all of its `readdir`s
  | setMessage (message : CStr)
  | getMessage
  | waitMessage (known : Nat)

-- `write` and `pwrite` return how many bytes were taken, where 0 is a refusal. `close` and `rename`
-- return whether they succeeded.
abbrev SysOp.Res : SysOp → Type
  | openExcl ..    => Except Errno Nat
  | openRead ..    => Except Errno Entry
  | fstat ..       => Option FsPathInfo
  | pread ..       => Bytes
  | write ..       => Nat
  | pwrite ..      => Nat
  | close ..       => Bool
  | rename ..      => Bool
  | remove ..      => Unit
  | lstat ..       => Option FsPathInfo
  | opendir ..     => Option (List CStr)
  | setMessage ..  => Unit
  | getMessage     => Option CStr × Nat
  | waitMessage .. => Option CStr × Nat

abbrev Sys : Signature where
  Op  := SysOp
  Res := SysOp.Res

-- The private side of a process: its connected socket and the outcomes of its calls that do not
-- depend on shared state. Each call uses up the first outcome of its list. Once a list is used up,
-- calls succeed completely, except for a splice directly from the socket to a file, which is then
-- refused with `EINVAL`.
structure Env where
  pid    : Nat
  inp    : List Arrival          -- `recv`, and `splice` out of the socket
  out    : Bytes                 -- the bytes handed over to the peer so far
  snd    : List Transfer         -- `send`
  src    : List Transfer         -- `sendfile`, and `read` of a source file
  wr     : List Transfer         -- `write`, and `splice` into an output file
  direct : List (Option Errno)   -- `splice` directly from the socket to an output file
  faults : List (Option Errno)   -- `open`, `fstat`, `close`, `rename`, `lstat`, `pipe`, `connect`
  allocs : List Bool             -- `malloc`
  rounds : Nat                   -- how often a message stream waits before the server shuts down

-- A process for which every call succeeds.
def Env.calm (pid : Nat) (inp : List Arrival) : Env :=
  { pid, inp, out := [], snd := [], src := [], wr := [], direct := [], faults := [], allocs := [],
    rounds := 0 }

abbrev Io := StateT Env (Program Sys)

namespace Io

def sys (o : SysOp) : Io o.Res :=
  fun e => Program.perform (S := Sys) o >>= fun r => pure (r, e)

def getpid : Io Nat :=
  fun e => pure (e.pid, e)

def rounds : Io Nat :=
  fun e => pure (e.rounds, e)

def fault : Io (Option Errno) :=
  fun e => pure (e.faults.headD none, { e with faults := e.faults.tail })

-- Whether a `malloc` succeeds.
def malloc : Io Bool :=
  fun e => pure (e.allocs.headD true, { e with allocs := e.allocs.tail })

end Io
