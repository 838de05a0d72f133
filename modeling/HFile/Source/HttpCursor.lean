import HFile.Source.HttpText

-- The JSON parser as it moves over its copy of the body. Every read names the index that it reads,
-- and ends the run if there is no byte at that index.
inductive Stop
  | outOfBounds
  | outOfFuel
  | reject
  deriving DecidableEq

def readAt (copy : Bytes) (p : Nat) : Except Stop UInt8 :=
  match copy[p]? with
  | some ch => .ok ch
  | none    => .error .outOfBounds

def require (b : Prop) [Decidable b] : Except Stop Unit :=
  if b then .ok () else .error .reject

-- The fuel is the number of rounds that a loop may take.
def httpJsonSkipWsAt (copy : Bytes) : Nat → Nat → Except Stop Nat
  | 0, _        => .error .outOfFuel
  | fuel + 1, p => do
    let ch ← readAt copy p
    if ch ≠ 0 ∧ isspace ch then httpJsonSkipWsAt copy fuel (p + 1) else return p

def httpJsonParseHex4At.step (copy : Bytes) (p : Nat) (value : UInt16) (i : Nat) : Except Stop UInt16 := do
  let ch ← readAt copy (p + i)
  require (isxdigit ch = true)
  return value * 16 + (hexDigit ch).toUInt16

def httpJsonParseHex4At (copy : Bytes) (p : Nat) : Except Stop UInt16 :=
  [0, 1, 2, 3].foldlM (httpJsonParseHex4At.step copy p) 0

-- The code point of an escape with `u`, whose first digit is at `p`, and where it ends.
def httpJsonParseStringAt.codePoint (copy : Bytes) (p : Nat) : Except Stop (UInt32 × Nat) := do
  let codeUnit ← httpJsonParseHex4At copy p
  if 0xD800 ≤ codeUnit ∧ codeUnit ≤ 0xDBFF then
    require ((← readAt copy (p + 4)) = 92)
    require ((← readAt copy (p + 5)) = 117)
    let lowSurrogate ← httpJsonParseHex4At copy (p + 6)
    require (¬(lowSurrogate < 0xDC00 ∨ lowSurrogate > 0xDFFF))
    return (httpJsonParseString.pair codeUnit lowSurrogate, p + 10)
  else
    require (¬(0xDC00 ≤ codeUnit ∧ codeUnit ≤ 0xDFFF))
    return (codeUnit.toUInt32, p + 4)

-- The bytes after `p`, up to a quote or the terminator.
def httpJsonParseStringAt.loop (copy : Bytes) : Nat → Nat → Bytes → Except Stop (Bytes × Nat)
  | 0, _, _          => .error .outOfFuel
  | fuel + 1, p, buf => do
    let ch ← readAt copy p
    if ch = 0 ∨ ch = 34 then return (buf, p)
    else if ch ≠ 92 then httpJsonParseStringAt.loop copy fuel (p + 1) (buf ++ [ch])
    else
      let ch ← readAt copy (p + 1)
      match httpJsonParseString.short ch with
      | some c => httpJsonParseStringAt.loop copy fuel (p + 2) (buf ++ [c])
      | none   =>
        require (ch = 117)
        let (codePoint, p) ← httpJsonParseStringAt.codePoint copy (p + 2)
        httpJsonParseStringAt.loop copy fuel p (buf ++ httpBufAppendUtf8 codePoint)

def httpJsonParseStringAt.close (copy : Bytes) : Bytes × Nat → Except Stop (Bytes × Nat)
  | (buf, p) => do
    require ((← readAt copy p) = 34)
    return (buf, p + 1)

def httpJsonParseStringAt (copy : Bytes) (fuel p : Nat) : Except Stop (CStr × Nat) := do
  require ((← readAt copy p) = 34)
  let (buf, p) ← httpJsonParseStringAt.loop copy fuel (p + 1) [] >>= httpJsonParseStringAt.close copy
  return (.ofBuf buf, p)

def httpParseMessageJsonAt.expect (copy : Bytes) (fuel : Nat) (c : UInt8) (p : Nat) : Except Stop Nat := do
  require ((← readAt copy p) = c)
  httpJsonSkipWsAt copy fuel (p + 1)

def httpParseMessageJsonAt (fuel : Nat) (body : Bytes) : Except Stop CStr := do
  let copy := body ++ [0]
  let p ← httpJsonSkipWsAt copy fuel 0
  let p ← httpParseMessageJsonAt.expect copy fuel 123 p
  let (key, p) ← httpJsonParseStringAt copy fuel p
  let p ← httpJsonSkipWsAt copy fuel p
  let p ← httpParseMessageJsonAt.expect copy fuel 58 p
  let (value, p) ← httpJsonParseStringAt copy fuel p
  let p ← httpJsonSkipWsAt copy fuel p
  let p ← httpParseMessageJsonAt.expect copy fuel 125 p
  require ((← readAt copy p) = 0)
  require (key = .lit "message")
  return value
