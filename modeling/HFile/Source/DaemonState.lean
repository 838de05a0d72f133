import HFile.Source.Cli

-- src/daemon_state.c: the text of the state file.

structure DaemonState where
  pid        : Nat
  receiveDir : CStr
  webUrl     : CStr
  logPath    : CStr
  port       : UInt16
  daemonMode : Bool
  deriving DecidableEq

def daemonStateText (state : DaemonState) : Bytes :=
  ascii "pid=" ++ (CStr.decimal state.pid).chars ++ [10] ++
  ascii "receive_dir=" ++ state.receiveDir.chars ++ [10] ++
  ascii "port=" ++ (CStr.decimal state.port.toNat).chars ++ [10] ++
  ascii "web_url=" ++ state.webUrl.chars ++ [10] ++
  ascii "log_path=" ++ state.logPath.chars ++ [10] ++
  ascii "daemon_mode=" ++ ascii (if state.daemonMode then "1" else "0") ++ [10]

-- What `daemon_state_write` writes, unless it refuses the state.
def daemonStateWrite (state : DaemonState) : Option Bytes :=
  if state.pid = 0 ∨ state.receiveDir.chars = [] ∨ state.port = 0 then none
  else if (daemonStateText state).length ≥ 12288 then none
  else some (daemonStateText state)

def daemonStateParseU16 (value : CStr) : Option UInt16 :=
  if value.chars = [] then none else
  let (n, failed, rest) := strtoul value.chars
  if failed ∨ rest = value.chars ∨ rest ≠ [] ∨ n > 65535 then none
  else some n.toUInt16

-- `strtol` for base 10: the value, whether `errno` is set, and what `end` points to.
def strtol (s : Bytes) : Int × Bool × Bytes :=
  let t := s.dropWhile isspace
  let signed := t.head? = some minus ∨ t.head? = some plus
  let digits := (if signed then t.tail else t).takeWhile isdigit
  let rest := (if signed then t.tail else t).dropWhile isdigit
  let v : Int := digits.foldl (fun v d => v * 10 + (d - 48).toNat) 0
  if digits = [] then (0, false, s)
  else if t.head? = some minus then
    if v > 2 ^ 63 then (-2 ^ 63, true, rest) else (-v, false, rest)
  else
    if v > 2 ^ 63 - 1 then (2 ^ 63 - 1, true, rest) else (v, false, rest)

def daemonStateParseLong (value : CStr) : Option Int :=
  if value.chars = [] then none else
  let (n, failed, rest) := strtol value.chars
  if failed ∨ rest = value.chars ∨ rest ≠ [] then none
  else some n

-- What the lines that have been read so far say.
structure DaemonStateRead where
  state          : DaemonState
  havePid        : Bool
  haveReceiveDir : Bool
  havePort       : Bool

-- The effect of the line `key=value`.
def DaemonStateRead.set (r : DaemonStateRead) (key value : CStr) : DaemonStateRead :=
  if key = .lit "pid" then
    match daemonStateParseLong value with
    | some (.ofNat (n + 1)) => { r with state := { r.state with pid := n + 1 }, havePid := true }
    | _                     => { r with havePid := false }
  else if key = .lit "receive_dir" then
    if value.chars = [] then { r with haveReceiveDir := false } else
    let (receiveDir, fits) := snprintf 4096 value
    { r with state := { r.state with receiveDir }, haveReceiveDir := fits }
  else if key = .lit "port" then
    match daemonStateParseU16 value with
    | some port => { r with state := { r.state with port }, havePort := port ≠ 0 }
    | none      => { r with havePort := false }
  else if key = .lit "web_url" then
    { r with state := { r.state with webUrl := (snprintf 256 value).1 } }
  else if key = .lit "log_path" then
    { r with state := { r.state with logPath := (snprintf 4096 value).1 } }
  else if key = .lit "daemon_mode" then
    match daemonStateParseLong value with
    | some n => { r with state := { r.state with daemonMode := n ≠ 0 } }
    | none   => r
  else
    r

-- A line without `=` is skipped. The value ends at the end of the line.
def DaemonStateRead.line (r : DaemonStateRead) (line : CStr) : DaemonStateRead :=
  match line.chars.dropWhile (· != equalsSign) with
  | []         => r
  | _ :: value =>
    r.set (.ofBuf (line.chars.takeWhile (· != equalsSign)))
      (.ofBuf (value.takeWhile fun c => c ≠ 13 ∧ c ≠ 10))

-- The number of bytes that `fgets` takes for the next line.
def fgetsLength (cap : Nat) (text : Bytes) : Nat :=
  min (cap - 1) ((text.takeWhile (· != 10)).length + 1)

def daemonStateRead.loop (r : DaemonStateRead) (text : Bytes) : DaemonStateRead :=
  if _h : text = [] then r else
  daemonStateRead.loop (r.line (.ofBuf (text.take (fgetsLength 4608 text))))
    (text.drop (fgetsLength 4608 text))
termination_by text.length
decreasing_by
  have := List.length_pos_iff.mpr _h
  simp only [List.length_drop, fgetsLength]
  omega

def daemonStateRead (text : Bytes) : Option DaemonState :=
  let r := daemonStateRead.loop ⟨⟨0, .lit "", .lit "", .lit "", 0, false⟩, false, false, false⟩ text
  if r.havePid ∧ r.haveReceiveDir ∧ r.havePort then some r.state else none
