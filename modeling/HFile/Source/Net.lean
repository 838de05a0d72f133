import HFile.System.Syscall

open Program (perform)

-- src/net.c, for Linux, and for macOS where a name says so. Sockets and descriptors are valid wherever
-- these functions are called.

def chunkSize : Nat := 1024 * 1024

inductive NetSendFileResult
  | ok | unsupported | sourceChanged | io | invalidArgument
  deriving DecidableEq

inductive NetRecvFileResult
  | ok | unsupported | eof | io | invalidArgument
  deriving DecidableEq

def Errno.Unsupported (e : Errno) : Prop :=
  e = .EINVAL ∨ e = .ENOSYS ∨ e = .ENOTSUP

instance (e : Errno) : Decidable e.Unsupported :=
  inferInstanceAs <| Decidable (_ ∨ _ ∨ _)

-- The result is `none` for -1 and otherwise holds the bytes that were received.
def recvAll.loop (len : Nat) (as : List Arrival) : Option Bytes × List Arrival :=
  if len = 0 then (some [], as) else
  match _h : Arrival.recv len as with
  | (.error e, as') => if e = .EINTR then recvAll.loop len as' else (none, as')
  | (.ok got, as')  =>
    if _hg : got = [] then (some [], as') else
      let (r, as'') := recvAll.loop (len - got.length) as'
      (r.map (got ++ ·), as'')
termination_by Arrival.weight as
decreasing_by
  · simp [Arrival.recv_error _h, Arrival.weight]
  · have := Arrival.recv_ok_weight _h
    have := List.length_pos_iff.mpr _hg
    omega

def recvAll (len : Nat) : Io (Option Bytes) := fun e =>
  let (r, as) := recvAll.loop len e.inp
  pure (r, { e with inp := as })

-- The result is `none` for -1 and otherwise the number of bytes that were sent. The second component
-- holds the bytes that were sent in either case.
def sendAll.loop : List Transfer → Bytes → Option Nat × Bytes × List Transfer
  | ts, []            => (some 0, [], ts)
  | [], bs            => (some bs.length, bs, [])
  | .fail e :: ts, bs => if e = .EINTR then sendAll.loop ts bs else (none, [], ts)
  | .moves n :: ts, bs =>
    if n = 0 then (some 0, [], ts) else
      let (r, sent, ts') := sendAll.loop ts (bs.drop n)
      (r.map (min n bs.length + ·), bs.take n ++ sent, ts')

def sendAll (bs : Bytes) : Io (Option Nat) := fun e =>
  let (r, sent, ts) := sendAll.loop e.snd bs
  pure (r, { e with snd := ts, out := e.out ++ sent })

def encodeU16Be (v : UInt16) : Bytes :=
  [(v >>> 8).toUInt8, v.toUInt8]

def decodeU16Be (bs : Bytes) : UInt16 :=
  (bs[0]?.getD 0).toUInt16 <<< (8 : UInt16) ||| (bs[1]?.getD 0).toUInt16

def encodeU64Be (v : UInt64) : Bytes :=
  [(v >>> 56).toUInt8, (v >>> 48).toUInt8, (v >>> 40).toUInt8, (v >>> 32).toUInt8,
   (v >>> 24).toUInt8, (v >>> 16).toUInt8, (v >>> 8).toUInt8, v.toUInt8]

def decodeU64Be (bs : Bytes) : UInt64 :=
  (bs[0]?.getD 0).toUInt64 <<< (56 : UInt64) |||
  (bs[1]?.getD 0).toUInt64 <<< (48 : UInt64) |||
  (bs[2]?.getD 0).toUInt64 <<< (40 : UInt64) |||
  (bs[3]?.getD 0).toUInt64 <<< (32 : UInt64) |||
  (bs[4]?.getD 0).toUInt64 <<< (24 : UInt64) |||
  (bs[5]?.getD 0).toUInt64 <<< (16 : UInt64) |||
  (bs[6]?.getD 0).toUInt64 <<< (8 : UInt64) |||
  (bs[7]?.getD 0).toUInt64

-- The loop of `sendfile` calls. The second component of the result holds the bytes that were sent.
def netSendFileAll.loop (fd : Entry) (ts : List Transfer) (offset remaining : Nat) :
    Program Sys (NetSendFileResult × Bytes × List Transfer) :=
  if remaining = 0 then pure (.ok, [], ts) else
  match _h : Transfer.next remaining ts with
  | (.fail e, ts') =>
    if e.Unsupported ∧ offset = 0 then pure (.unsupported, [], ts')
    else if e = .EINTR then netSendFileAll.loop fd ts' offset remaining
    else pure (.io, [], ts')
  | (.moves n, ts') => do
    let got : Bytes ← perform (S := Sys) (.pread fd offset (min n remaining))
    if _hg : got = [] then pure (.sourceChanged, [], ts') else
    let (r, sent, ts'') ← netSendFileAll.loop fd ts' (offset + got.length) (remaining - got.length)
    pure (r, got ++ sent, ts'')
termination_by ts.length + remaining
decreasing_by
  · simp [Transfer.next_fail _h]
  · have := Transfer.next_length_le _h
    have := List.length_pos_iff.mpr _hg
    omega

def netSendFileAll (fd : Entry) (contentSize : UInt64) : Io NetSendFileResult := fun e => do
  let (r, sent, ts) ← netSendFileAll.loop fd e.src 0 contentSize.toNat
  pure (r, { e with src := ts, out := e.out ++ sent })

-- The loop of `read` and `send_all` calls. A `read` that is interrupted counts as failed.
def netSendFileBuffered.loop (fd : Entry) (ts snd : List Transfer) (offset remaining : Nat) :
    Program Sys (NetSendFileResult × Bytes × List Transfer × List Transfer) :=
  if _hr : remaining = 0 then pure (.ok, [], ts, snd) else
  let want := min chunkSize remaining
  match _h : Transfer.next want ts with
  | (.fail _, ts')  => pure (.io, [], ts', snd)
  | (.moves n, ts') => do
    let got : Bytes ← perform (S := Sys) (.pread fd offset (min n want))
    if _hg : got = [] then pure (.sourceChanged, [], ts', snd) else
    let (n, sent, snd) := sendAll.loop snd got
    if n ≠ some got.length then pure (.io, sent, ts', snd) else
    let (r, sent', ts'', snd) ←
      netSendFileBuffered.loop fd ts' snd (offset + got.length) (remaining - got.length)
    pure (r, sent ++ sent', ts'', snd)
termination_by ts.length + remaining
decreasing_by
  have := Transfer.next_length_le _h
  have := List.length_pos_iff.mpr _hg
  omega

def netSendFileBuffered (fd : Entry) (contentSize : UInt64) : Io NetSendFileResult := do
  if contentSize = 0 then return .ok
  if !(← Io.malloc) then return .io
  fun e => do
    let (r, sent, ts, snd) ← netSendFileBuffered.loop fd e.src e.snd 0 contentSize.toNat
    pure (r, { e with src := ts, snd := snd, out := e.out ++ sent })

def netSendFileBestEffort (fd : Entry) (contentSize : UInt64) : Io NetSendFileResult := do
  let res ← netSendFileAll fd contentSize
  if res ≠ .unsupported then return res
  netSendFileBuffered fd contentSize

-- What a `sendfile` of macOS reports: how many bytes it has sent, and its error, if it failed.
abbrev AppleTransfer := Nat × Option Errno

-- The next outcome of a list. Once the list is used up, a call sends all of the `full` bytes.
def AppleTransfer.next (full : Nat) : List AppleTransfer → AppleTransfer × List AppleTransfer
  | []      => ((full, none), [])
  | t :: ts => (t, ts)

theorem AppleTransfer.next_some {full n : Nat} {ts ts' : List AppleTransfer} {e : Errno}
    (h : next full ts = ((n, some e), ts')) : ts = (n, some e) :: ts' := by
  cases ts <;> simp_all [next]

theorem AppleTransfer.next_length_le {full : Nat} {ts ts' : List AppleTransfer} {t : AppleTransfer}
    (h : next full ts = (t, ts')) : ts'.length ≤ ts.length := by
  cases ts <;> simp_all [next]

-- The loop of `sendfile` calls of macOS, which may send a part of what they are to send and fail.
def netSendFileAllApple.loop (fd : Entry) (ts : List AppleTransfer) (offset remaining : Nat) :
    Program Sys (NetSendFileResult × Bytes) :=
  if remaining = 0 then pure (.ok, []) else
  match _h : AppleTransfer.next remaining ts with
  | ((n, err), ts') => do
    let sent : Bytes ← perform (S := Sys) (.pread fd offset (min n remaining))
    match _e : err with
    | none   =>
      if _hs : sent = [] then pure (.sourceChanged, []) else
      let (r, sent') ← netSendFileAllApple.loop fd ts' (offset + sent.length) (remaining - sent.length)
      pure (r, sent ++ sent')
    | some e =>
      if e = .EINTR then
        let (r, sent') ← netSendFileAllApple.loop fd ts' (offset + sent.length) (remaining - sent.length)
        pure (r, sent ++ sent')
      else if e.Unsupported ∧ offset + sent.length = 0 ∧ sent = [] then pure (.unsupported, sent)
      else pure (.io, sent)
termination_by ts.length + remaining
decreasing_by
  · have := AppleTransfer.next_length_le _h
    have := List.length_pos_iff.mpr _hs
    omega
  · rw [_e] at _h
    simp only [AppleTransfer.next_some _h, List.length_cons]
    omega

-- The outcomes of the `sendfile` calls are given as a list of their own.
def netSendFileAllApple (fd : Entry) (ts : List AppleTransfer) (contentSize : UInt64) :
    Io NetSendFileResult := fun e => do
  let (r, sent) ← netSendFileAllApple.loop fd ts 0 contentSize.toNat
  pure (r, { e with out := e.out ++ sent })

def netSendFileBestEffortApple (fd : Entry) (ts : List AppleTransfer) (contentSize : UInt64) :
    Io NetSendFileResult := do
  let res ← netSendFileAllApple fd ts contentSize
  if res ≠ .unsupported then return res
  netSendFileBuffered fd contentSize

-- `fs_write_all` of src/fs.c: `none` for -1, otherwise the number of bytes that were written. The
-- inner loop of `net_recv_file_all`, which empties the pipe into the file, has the same shape, and
-- takes both a failure and an incomplete write as the end of the transfer.
def fsWriteAll.loop (ino : Nat) (ts : List Transfer) (bs : Bytes) :
    Program Sys (Option Nat × List Transfer) :=
  if _hb : bs = [] then pure (some 0, ts) else
  match _h : Transfer.next bs.length ts with
  | (.fail e, ts')  => if e = .EINTR then fsWriteAll.loop ino ts' bs else pure (none, ts')
  | (.moves n, ts') =>
    if n = 0 then pure (some 0, ts') else do
    let m : Nat ← perform (S := Sys) (.write ino (bs.take n))
    if _hm : m = 0 then pure (none, ts') else
    let (r, ts'') ← fsWriteAll.loop ino ts' (bs.drop m)
    pure (r.map (m + ·), ts'')
termination_by ts.length + bs.length
decreasing_by
  · simp [Transfer.next_fail _h]
  · have := Transfer.next_length_le _h
    have := List.length_pos_iff.mpr _hb
    rw [List.length_drop]
    omega

-- The socket is emptied through a pipe, which takes over as long as nothing has been moved yet.
def netRecvFileAll.pipe (ino : Nat) (as : List Arrival) (ts : List Transfer) (remaining moved : Nat) :
    Program Sys (NetRecvFileResult × List Arrival × List Transfer) :=
  if remaining = 0 then pure (.ok, as, ts) else
  match _h : Arrival.recv (min chunkSize remaining) as with
  | (.error e, as') =>
    if e.Unsupported ∧ moved = 0 then pure (.unsupported, as', ts)
    else if e = .EINTR then netRecvFileAll.pipe ino as' ts remaining moved
    else pure (.io, as', ts)
  | (.ok got, as') =>
    if _hg : got = [] then pure (.eof, as', ts) else do
    let (r, ts) ← fsWriteAll.loop ino ts got
    if r ≠ some got.length then pure (.io, as', ts) else
    netRecvFileAll.pipe ino as' ts (remaining - got.length) (moved + got.length)
termination_by Arrival.weight as
decreasing_by
  · simp [Arrival.recv_error _h, Arrival.weight]
  · have := Arrival.recv_ok_weight _h
    have := List.length_pos_iff.mpr _hg
    omega

-- The loop of splices from the socket to the file. The result is `none` where the code turns to the
-- pipe. `splice` advances the offset it is given, and the code then adds the count once more.
def netRecvFileAll.direct (ino : Nat) (ds : List (Option Errno)) (as : List Arrival)
    (remaining moved offset : Nat) :
    Program Sys (Option NetRecvFileResult × List (Option Errno) × List Arrival) :=
  if remaining = 0 then pure (some .ok, ds, as) else
  match ds with
  | [] => pure (if moved = 0 then none else some .io, [], as)
  | some e :: ds =>
    if e.Unsupported ∧ moved = 0 then pure (none, ds, as)
    else if e = .EINTR then netRecvFileAll.direct ino ds as remaining moved offset
    else pure (some .io, ds, as)
  | none :: ds =>
    match Arrival.recv (min chunkSize remaining) as with
    | (.error e, as) =>
      if e.Unsupported ∧ moved = 0 then pure (none, ds, as)
      else if e = .EINTR then netRecvFileAll.direct ino ds as remaining moved offset
      else pure (some .io, ds, as)
    | (.ok got, as) =>
      if got = [] then pure (some .eof, ds, as) else do
      let _ ← perform (S := Sys) (.pwrite ino offset got)
      netRecvFileAll.direct ino ds as (remaining - got.length) (moved + got.length)
        (offset + got.length + got.length)

def netRecvFileAll (ino : Nat) (contentSize : UInt64) : Io NetRecvFileResult := do
  if contentSize = 0 then return .ok
  let direct : Option NetRecvFileResult ← fun e => do
    let (r, ds, as) ← netRecvFileAll.direct ino e.direct e.inp contentSize.toNat 0 0
    pure (r, { e with direct := ds, inp := as })
  match direct with
  | some r => return r
  | none   =>
    match ← Io.fault with
    | some e => return if e = .EMFILE ∨ e = .ENFILE then .io else .unsupported
    | none   => fun e => do
      let (r, as, ts) ← netRecvFileAll.pipe ino e.inp e.wr contentSize.toNat 0
      pure (r, { e with inp := as, wr := ts })

-- The loop of `recv` and `fs_write_all` calls, over a buffer of `cap` bytes.
def netRecvFileBuffered.loop (ino cap : Nat) (as : List Arrival) (ts : List Transfer)
    (remaining : Nat) : Program Sys (NetRecvFileResult × List Arrival × List Transfer) :=
  if remaining = 0 then pure (.ok, as, ts) else
  match _h : Arrival.recv (min cap remaining) as with
  | (.error e, as') =>
    if e = .EINTR then netRecvFileBuffered.loop ino cap as' ts remaining
    else pure (.io, as', ts)
  | (.ok got, as') =>
    if _hg : got = [] then pure (.eof, as', ts) else do
    let (r, ts) ← fsWriteAll.loop ino ts got
    if r ≠ some got.length then pure (.io, as', ts) else
    netRecvFileBuffered.loop ino cap as' ts (remaining - got.length)
termination_by Arrival.weight as
decreasing_by
  · simp [Arrival.recv_error _h, Arrival.weight]
  · have := Arrival.recv_ok_weight _h
    have := List.length_pos_iff.mpr _hg
    omega

def netRecvFileBuffered (ino : Nat) (contentSize : UInt64) : Io NetRecvFileResult := do
  if contentSize = 0 then return .ok
  let heap := contentSize > 1024 * 1024
  if heap then
    if !(← Io.malloc) then return .io
  fun e => do
    let cap := if heap then 256 * 1024 else 8192
    let (r, as, ts) ← netRecvFileBuffered.loop ino cap e.inp e.wr contentSize.toNat
    pure (r, { e with inp := as, wr := ts })

def netRecvFileBestEffort (ino : Nat) (contentSize : UInt64) : Io NetRecvFileResult := do
  let res ← netRecvFileAll ino contentSize
  if res ≠ .unsupported then return res
  netRecvFileBuffered ino contentSize
