import HFile.Source.Fs
import HFile.Source.MessageStore

-- src/http.c: the functions on texts. All buffers grow as needed.

def httpHeaderMax : Nat := 16384
def httpPathMax : Nat := 1024
def httpContentTypeMax : Nat := 128
def httpUploadMax : UInt64 := 16 * 1024 * 1024 * 1024

def isdigit (c : UInt8) : Bool :=
  48 ≤ c ∧ c ≤ 57

def isxdigit (c : UInt8) : Bool :=
  isdigit c ∨ (65 ≤ c ∧ c ≤ 70) ∨ (97 ≤ c ∧ c ≤ 102)

-- `tolower` in the C locale.
def tolower (c : UInt8) : UInt8 :=
  if 65 ≤ c ∧ c ≤ 90 then c + 32 else c

def hexDigit (c : UInt8) : UInt8 :=
  if isdigit c then c - 48 else 10 + tolower c - 97

def httpAsciiStartsWith : Bytes → Bytes → Bool
  | _, []           => true
  | [], _ :: _      => false
  | c :: s, p :: ps => tolower c = tolower p ∧ httpAsciiStartsWith s ps

def httpParseU64.loop (value : UInt64) : Bytes → Option UInt64
  | []      => some value
  | ch :: s =>
    if !isdigit ch then none
    else if value > (0xFFFFFFFFFFFFFFFF - (ch - 48).toUInt64) / 10 then none
    else httpParseU64.loop (value * 10 + (ch - 48).toUInt64) s

def httpParseU64 (s : CStr) : Option UInt64 :=
  if s.chars = [] then none else httpParseU64.loop 0 s.chars

def percent : UInt8 := 37
def ampersand : UInt8 := 38
def equalsSign : UInt8 := 61

-- The bytes that are written to `out`, of which `oi` are there already.
def httpDecodeName.loop (cap oi : Nat) : Bytes → Option Bytes
  | []            => some []
  | ch :: encoded =>
    if oi + 1 ≥ cap then none
    else if ch = percent then
      match encoded with
      | hi :: lo :: encoded =>
        if !isxdigit hi || !isxdigit lo then none
        else (httpDecodeName.loop cap (oi + 1) encoded).map ((hexDigit hi <<< 4 ||| hexDigit lo) :: ·)
      | _ => none
    else (httpDecodeName.loop cap (oi + 1) encoded).map (ch :: ·)

-- A decoded NUL byte ends the string for all callers.
def httpDecodeName (cap : Nat) (encoded : CStr) : Option CStr :=
  if cap = 0 then none else (httpDecodeName.loop cap 0 encoded.chars).map .ofBuf

inductive HttpQueryValue
  | found (value : Bytes)
  | missing
  | tooLong
  deriving DecidableEq

def httpQueryGetValue.loop (key : Bytes) (cap : Nat) (query : Bytes) : HttpQueryValue :=
  if query = [] then .missing else
  let entry := query.takeWhile (· != ampersand)
  let name := entry.takeWhile (· != equalsSign)
  let value := (entry.dropWhile (· != equalsSign)).drop 1
  if name = key then if value.length ≥ cap then .tooLong else .found value
  else
    match _h : query.dropWhile (· != ampersand) with
    | []        => .missing
    | _ :: rest => httpQueryGetValue.loop key cap rest
termination_by query.length
decreasing_by
  have := (List.dropWhile_suffix (l := query) (· != ampersand)).length_le
  simp only [_h, List.length_cons] at this
  omega

def httpQueryGetValue (query key : CStr) (cap : Nat) : HttpQueryValue :=
  if cap = 0 then .missing else httpQueryGetValue.loop key.chars cap query.chars

def httpBuildRelativeChildPath (cap : Nat) (base name : CStr) : Option CStr :=
  let (out, fits) := snprintf cap (if base.chars = [] then name else base ++ .lit "/" ++ name)
  if fits then some out else none

def httpPathKindName : FsPathKind → Bytes
  | .file    => ascii "file"
  | .dir     => ascii "dir"
  | .symlink => ascii "symlink"
  | .other   => ascii "other"

def httpRelativeBasename (path : CStr) : CStr :=
  fsBasenameFromPath path

-- A digit of the format `%x`.
def hexChar (n : UInt8) : UInt8 :=
  if n < 10 then 48 + n else 87 + n

-- The format `\u%04x`, for a byte.
def jsonUnicodeEscape (c : UInt8) : Bytes :=
  ascii "\\u00" ++ [hexChar (c >>> 4), hexChar (c &&& 15)]

-- The escapes that the error replies use, which have no short form for `\b` and `\f`.
def httpSendJsonError.escape (c : UInt8) : Bytes :=
  if c = 92 then ascii "\\\\"
  else if c = 34 then ascii "\\\""
  else if c = 10 then ascii "\\n"
  else if c = 13 then ascii "\\r"
  else if c = 9 then ascii "\\t"
  else if c < 0x20 then jsonUnicodeEscape c
  else [c]

def httpJsonEscape.char (c : UInt8) : Bytes :=
  if c = 8 then ascii "\\b"
  else if c = 12 then ascii "\\f"
  else httpSendJsonError.escape c

def httpJsonEscape (text : CStr) : Bytes :=
  text.chars.flatMap httpJsonEscape.char

def httpJsonSkipWs (p : Bytes) : Bytes :=
  p.dropWhile isspace

def httpJsonParseHex4 (a b c d : UInt8) : Option UInt16 :=
  if isxdigit a ∧ isxdigit b ∧ isxdigit c ∧ isxdigit d then
    some ([a, b, c, d].foldl (fun value ch => value * 16 + (hexDigit ch).toUInt16) 0)
  else
    none

-- `http_buf_append_utf8` fails for code points that do not occur here.
def httpBufAppendUtf8 (cp : UInt32) : Bytes :=
  if cp ≤ 0x7F then [cp.toUInt8]
  else if cp ≤ 0x7FF then [lead 0xC0 6, next 0]
  else if cp ≤ 0xFFFF then [lead 0xE0 12, next 6, next 0]
  else [lead 0xF0 18, next 12, next 6, next 0]
where
  lead (mark shift : UInt32) : UInt8 := (mark ||| cp >>> shift).toUInt8
  next (shift : UInt32) : UInt8 := (0x80 ||| (cp >>> shift &&& 0x3F)).toUInt8

-- The escapes of one character.
def httpJsonParseString.short (ch : UInt8) : Option UInt8 :=
  if ch = 34 ∨ ch = 92 ∨ ch = 47 then some ch
  else if ch = 98 then some 8
  else if ch = 102 then some 12
  else if ch = 110 then some 10
  else if ch = 114 then some 13
  else if ch = 116 then some 9
  else none

def httpJsonParseString.pair (codeUnit lowSurrogate : UInt16) : UInt32 :=
  0x10000 + ((codeUnit - 0xD800).toUInt32 <<< (10 : UInt32) ||| (lowSurrogate - 0xDC00).toUInt32)

-- The contents of a string and what follows its closing quote. The end of the list stands for the
-- terminator, which no branch reads past.
def httpJsonParseString.loop : Bytes → Option (Bytes × Bytes)
  | []      => none
  | ch :: p =>
    if ch = 34 then some ([], p)
    else if ch ≠ 92 then (httpJsonParseString.loop p).map fun r => (ch :: r.1, r.2)
    else
      match p with
      | []      => none
      | ch :: p =>
        match httpJsonParseString.short ch with
        | some c => (httpJsonParseString.loop p).map fun r => (c :: r.1, r.2)
        | none   =>
          if ch ≠ 117 then none else
          match p with
          | a :: b :: c :: d :: p =>
            match httpJsonParseHex4 a b c d with
            | none          => none
            | some codeUnit =>
              if 0xD800 ≤ codeUnit ∧ codeUnit ≤ 0xDBFF then
                match p with
                | b₀ :: b₁ :: a :: b :: c :: d :: p =>
                  if b₀ ≠ 92 ∨ b₁ ≠ 117 then none else
                  match httpJsonParseHex4 a b c d with
                  | none              => none
                  | some lowSurrogate =>
                    if lowSurrogate < 0xDC00 ∨ lowSurrogate > 0xDFFF then none else
                    let codePoint := httpJsonParseString.pair codeUnit lowSurrogate
                    (httpJsonParseString.loop p).map fun r => (httpBufAppendUtf8 codePoint ++ r.1, r.2)
                | _ => none
              else if 0xDC00 ≤ codeUnit ∧ codeUnit ≤ 0xDFFF then none
              else (httpJsonParseString.loop p).map fun r =>
                (httpBufAppendUtf8 codeUnit.toUInt32 ++ r.1, r.2)
          | _ => none

def httpJsonParseString : Bytes → Option (CStr × Bytes)
  | []     => none
  | c :: p => if c ≠ 34 then none else (httpJsonParseString.loop p).map fun r => (.ofBuf r.1, r.2)

-- Consumes the byte `c` and the white space after it.
def httpParseMessageJson.expect (c : UInt8) : Bytes → Option Bytes
  | []     => none
  | d :: p => if d = c then some (httpJsonSkipWs p) else none

def httpParseMessageJson.parse (copy : CStr) : Option CStr := do
  let p ← httpParseMessageJson.expect 123 (httpJsonSkipWs copy.chars)
  let (key, p) ← httpJsonParseString p
  let p ← httpParseMessageJson.expect 58 (httpJsonSkipWs p)
  let (value, p) ← httpJsonParseString p
  let p ← httpParseMessageJson.expect 125 (httpJsonSkipWs p)
  if p ≠ [] then none
  else if key ≠ .lit "message" then none
  else some value

def httpParseMessageJson (body : Bytes) : Io (Option CStr) := do
  if !(← Io.malloc) then return none
  return httpParseMessageJson.parse (.ofBuf body)
