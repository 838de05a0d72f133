import HFile.Source.HttpText
import HFile.Source.Protocol

-- src/cli.c. The arguments are those after the program's name.

inductive Mode
  | server | client | status | stop
  deriving DecidableEq

structure Opt where
  mode       : Mode
  path       : Option CStr
  remotePath : Option CStr
  outputPath : Option CStr
  message    : Option CStr
  ip         : CStr
  port       : UInt16
  msgType    : UInt8
  deriving DecidableEq

inductive ParseResult
  | ok (opt : Opt)
  | help
  | err
  deriving DecidableEq

def minus : UInt8 := 45
def plus : UInt8 := 43

-- `strtoul` for base 10: the value, whether `errno` is set, and what `end` points to.
def strtoul (s : Bytes) : Nat × Bool × Bytes :=
  let t := s.dropWhile isspace
  let signed := t.head? = some minus ∨ t.head? = some plus
  let digits := (if signed then t.tail else t).takeWhile isdigit
  let rest := (if signed then t.tail else t).dropWhile isdigit
  let v := digits.foldl (fun v d => v * 10 + (d - 48).toNat) 0
  if digits = [] then (0, false, s)
  else if v ≥ 2 ^ 64 then (2 ^ 64 - 1, true, rest)
  else (if t.head? = some minus then (2 ^ 64 - v) % 2 ^ 64 else v, false, rest)

def parsePort (s : CStr) : Option UInt16 :=
  if s.chars = [] then none else
  let (v, failed, rest) := strtoul s.chars
  if failed ∨ rest = s.chars ∨ rest ≠ [] then none
  else if v = 0 ∨ v > 65535 then none
  else some v.toUInt16

inductive CliFlag
  | d | c | g | m | o | i | p
  deriving DecidableEq

def CliFlag.char : CliFlag → UInt8
  | d => 100
  | c => 99
  | g => 103
  | m => 109
  | o => 111
  | i => 105
  | p => 112

-- The checks of an argument that has to be a flag, which is `none` for `-h`.
def parseArgs.flag (a : CStr) : Except Unit (Option CliFlag) :=
  match a.chars with
  | [a₀, a₁] =>
    if a₀ ≠ minus ∨ a₁ = minus then .error ()
    else if a₁ = 104 then .ok none
    else match [CliFlag.d, .c, .g, .m, .o, .i, .p].find? (·.char = a₁) with
      | none   => .error ()
      | some f => .ok (some f)
  | _ => .error ()

-- The variables of the loop. `client_action` is the latest of the flags -c, -g and -m.
structure ParseState where
  opt            : Opt
  serverSelected : Bool
  clientActions  : Nat
  clientAction   : Option CliFlag
  outputSeen     : Bool
  ipSeen         : Bool

def ParseState.duplicate (st : ParseState) : CliFlag → Bool
  | .d => st.serverSelected
  | .c => st.clientAction = some .c
  | .g => st.clientAction = some .g
  | .m => st.clientAction = some .m
  | .o => st.outputSeen
  | .i => false
  | .p => false

-- What a flag does with its value.
def ParseState.take (st : ParseState) (v : CStr) : CliFlag → Option ParseState
  | .d => some { st with
      opt := { st.opt with path := some v, mode := .server }
      serverSelected := true }
  | .c => some { st with
      opt := { st.opt with
        mode := .client, path := some v, message := none, msgType := msgTypeSendFile }
      clientAction := some .c
      clientActions := st.clientActions + 1 }
  | .g => some { st with
      opt := { st.opt with mode := .client, remotePath := some v, msgType := msgTypeGetFile }
      clientAction := some .g
      clientActions := st.clientActions + 1 }
  | .m => some { st with
      opt := { st.opt with
        mode := .client, path := none, message := some v, msgType := msgTypeTextMessage }
      clientAction := some .m
      clientActions := st.clientActions + 1 }
  | .o => some { st with
      opt := { st.opt with outputPath := some v }
      outputSeen := true }
  | .i => some { st with
      opt := { st.opt with ip := v }
      ipSeen := true }
  | .p => (parsePort v).map fun port => { st with opt := { st.opt with port } }

-- The result is an error for the parse results other than `PARSE_OK`.
def parseArgs.loop (control : Bool) (st : ParseState) : List CStr → Except ParseResult ParseState
  | []        => .ok st
  | a :: args =>
    match parseArgs.flag a with
    | .error _     => .error .err
    | .ok none     => .error .help
    | .ok (some f) =>
      if control ∧ f ≠ .i then .error .err
      else if st.duplicate f then .error .err
      else match args with
        | []        => .error .err
        | v :: args =>
          match st.take v f with
          | none    => .error .err
          | some st => parseArgs.loop control st args

-- The checks after the loop.
def parseArgs.finish (control : Bool) (st : ParseState) : ParseResult :=
  if st.outputSeen ∧ st.clientAction ≠ some .g then .err
  else if !st.serverSelected ∧ st.clientActions = 0 ∧ !control then .err
  else if st.serverSelected ∧ st.clientActions > 0 then .err
  else if st.clientActions > 1 then .err
  else
    let opt := if control then st.opt else
      { st.opt with mode := if st.serverSelected then .server else .client }
    if opt.mode = .server ∧ opt.path = none then .err
    else if opt.mode = .client ∧ st.clientAction = some .c ∧ opt.path = none then .err
    else if opt.mode = .client ∧ st.clientAction = some .g ∧ opt.remotePath = none then .err
    else if opt.mode = .client ∧ st.clientAction = some .m ∧ opt.message = none then .err
    else if st.ipSeen ∧ opt.mode ≠ .client then .err
    else .ok opt

-- The value of `mode` before the call stays in place until one of the branches below writes it.
def parseArgs.init (mode : Mode) : ParseState where
  opt := {
    mode, path := none, remotePath := none, outputPath := none, message := none,
    ip := .lit "127.0.0.1", port := 8888, msgType := 0 }
  serverSelected := false
  clientActions  := 0
  clientAction   := none
  outputSeen     := false
  ipSeen         := false

def parseArgs.run (control : Bool) (mode : Mode) (args : List CStr) : ParseResult :=
  match parseArgs.loop control (parseArgs.init mode) args with
  | .error r => r
  | .ok st   => parseArgs.finish control st

def parseArgs (mode : Mode) (args : List CStr) : ParseResult :=
  if args.head? = some (.lit "status") then parseArgs.run true .status args.tail
  else if args.head? = some (.lit "stop") then parseArgs.run true .stop args.tail
  else parseArgs.run false mode args
