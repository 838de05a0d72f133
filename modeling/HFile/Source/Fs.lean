import HFile.Source.Net

-- src/fs.c, for POSIX. The validators return `true` where the code returns 0.

-- The size of every buffer that holds a full path.
def pathCap : Nat := 4096

def slash : UInt8 := 47
def backslash : UInt8 := 92
def dot : UInt8 := 46

def fsValidateFileName (fileName : CStr) : Bool :=
  fileName.chars ≠ [] ∧ slash ∉ fileName.chars ∧ backslash ∉ fileName.chars ∧
  ¬[dot, dot] <:+: fileName.chars

def fsValidateRelativePath.loop (segment : Bytes) : Bool :=
  if segment = [] then true else
  let name := segment.takeWhile (· != slash)
  if name = [] ∨ name = [dot] ∨ name = [dot, dot] then false else
  match _h : segment.dropWhile (· != slash) with
  | []        => true
  | _ :: rest => fsValidateRelativePath.loop rest
termination_by segment.length
decreasing_by
  have := (List.dropWhile_suffix (l := segment) (· != slash)).length_le
  simp only [_h, List.length_cons] at this
  omega

def fsValidateRelativePath (path : CStr) : Bool :=
  match path.chars with
  | []     => false
  | c :: _ => c ≠ slash ∧ backslash ∉ path.chars ∧ fsValidateRelativePath.loop path.chars

-- What `snprintf` leaves in a buffer of `cap` bytes for the text `s`, and whether `s` fits.
def snprintf (cap : Nat) (s : CStr) : CStr × Bool :=
  (⟨s.chars.take (cap - 1), fun h => s.nul_free (List.mem_of_mem_take h)⟩, s.strlen < cap)

def fsJoinPath (cap : Nat) (dir file : CStr) : Option CStr :=
  let sep := if dir.chars.getLast? = some slash then .lit "" else .lit "/"
  let (out, fits) := snprintf cap (dir ++ sep ++ file)
  if fits then some out else none

def fsJoinRelativePath (cap : Nat) (baseDir relativePath : CStr) : Option CStr :=
  if relativePath.chars = [] then
    let (out, fits) := snprintf cap baseDir
    if fits then some out else none
  else if fsValidateRelativePath relativePath then
    fsJoinPath cap baseDir relativePath
  else
    none

def fsBuildTempPath (cap : Nat) (finalPath : CStr) (pid attempt : Nat) : CStr × Bool :=
  snprintf cap (finalPath ++ .lit ".tmp." ++ .decimal pid ++ .lit "." ++ .decimal attempt)

def fsBasenameFromPath (path : CStr) : CStr where
  chars    := (path.chars.reverse.takeWhile (· != slash)).reverse
  nul_free := fun h =>
    path.nul_free <| by simpa using List.takeWhile_subset _ (List.mem_reverse.mp h)

def fsOpenTempFile (tmpPath : CStr) : Io (Except Errno Nat) := do
  Io.sys (.openExcl tmpPath (← Io.fault))

def fsClose (fd : Entry) : Io Bool := do
  Io.sys (.close fd (← Io.fault))

def fsCommitTempFile (tmpPath finalPath : CStr) : Io Bool := do
  Io.sys (.rename tmpPath finalPath (← Io.fault))

def fsRemoveIgnoreError (path : CStr) : Io Unit :=
  Io.sys (.remove path)

def fsStatPath (path : CStr) : Io (Option FsPathInfo) := do
  Io.sys (.lstat path (← Io.fault))
