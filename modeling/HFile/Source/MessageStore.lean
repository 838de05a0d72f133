import HFile.Source.Protocol

-- src/message_store.c. The store is initialized before the server accepts connections.

-- `isspace` in the C locale.
def isspace (c : UInt8) : Bool :=
  c = 32 ∨ (9 ≤ c ∧ c ≤ 13)

def messageStoreIsUnicodeWhitespace (cp : UInt32) : Bool :=
  if cp ≤ 0x7F then isspace cp.toUInt8 else
  cp = 0x0085 ∨ cp = 0x00A0 ∨ cp = 0x1680 ∨ (0x2000 ≤ cp ∧ cp ≤ 0x200A) ∨ cp = 0x2028 ∨
  cp = 0x2029 ∨ cp = 0x202F ∨ cp = 0x205F ∨ cp = 0x3000

-- The backwards search for the first byte of the last character, from position `start`.
def messageStoreTrailingWhitespaceBytes.start (message : Bytes) : Nat → Nat
  | 0         => 0
  | start + 1 =>
    if message[start + 1]?.getD 0 &&& 0xC0 = 0x80 then
      messageStoreTrailingWhitespaceBytes.start message start
    else
      start + 1

-- Adds the continuation bytes to a code point. The result is `none` if one of them is not one.
def messageStoreTrailingWhitespaceBytes.decode : UInt32 → Bytes → Option UInt32
  | cp, []       => some cp
  | cp, bx :: bs =>
    if bx &&& 0xC0 ≠ 0x80 then none else
    messageStoreTrailingWhitespaceBytes.decode (cp <<< 6 ||| (bx &&& 0x3F).toUInt32) bs

-- How many bytes the whitespace character at the end of `message` has, or 0 if there is none.
def messageStoreTrailingWhitespaceBytes (message : Bytes) : Nat :=
  let len := message.length
  if len = 0 then 0 else
  let last := message[len - 1]?.getD 0
  if last &&& 0x80 = 0 then if messageStoreIsUnicodeWhitespace last.toUInt32 then 1 else 0 else
  let start := messageStoreTrailingWhitespaceBytes.start message (len - 1)
  let b0 := message[start]?.getD 0
  let lead : Option (Nat × UInt32) :=
    if b0 &&& 0xE0 = 0xC0 then some (2, (b0 &&& 0x1F).toUInt32)
    else if b0 &&& 0xF0 = 0xE0 then some (3, (b0 &&& 0x0F).toUInt32)
    else if b0 &&& 0xF8 = 0xF0 then some (4, (b0 &&& 0x07).toUInt32)
    else none
  match lead with
  | none               => 0
  | some (seqLen, cp₀) =>
    if start + seqLen ≠ len then 0 else
    match messageStoreTrailingWhitespaceBytes.decode cp₀ (message.drop (start + 1)) with
    | none    => 0
    | some cp =>
      if (seqLen = 2 ∧ cp < 0x80) ∨ (seqLen = 3 ∧ cp < 0x800) ∨ (seqLen = 4 ∧ cp < 0x10000) ∨
          (0xD800 ≤ cp ∧ cp ≤ 0xDFFF) ∨ cp > 0x10FFFF then
        0
      else if messageStoreIsUnicodeWhitespace cp then seqLen else 0

-- The trimming loop of `message_store_set`.
def messageStoreTrim (message : Bytes) : Bytes :=
  if _hm : message = [] then [] else
  let trimmed := messageStoreTrailingWhitespaceBytes message
  if _ht : trimmed = 0 then message else
  messageStoreTrim (message.take (message.length - trimmed))
termination_by message.length
decreasing_by
  have := List.length_pos_iff.mpr _hm
  rw [List.length_take]
  omega

theorem messageStoreTrim_isPrefix (message : Bytes) : messageStoreTrim message <+: message := by
  fun_induction messageStoreTrim message
  case case1       => exact List.prefix_rfl
  case case2       => exact List.prefix_rfl
  case case3 h hi  => exact hi.trans (List.take_prefix _ _)

theorem messageStoreTrim_nul_free (message : CStr) : 0 ∉ messageStoreTrim message.chars :=
  fun h => message.nul_free ((messageStoreTrim_isPrefix _).subset h)

def messageStoreSet (message : CStr) : Io Bool := do
  if !(← Io.malloc) then return false
  Io.sys (.setMessage ⟨messageStoreTrim message.chars, messageStoreTrim_nul_free message⟩)
  return true

-- The message, if there is one, and the version of the store. The copy of the message can fail.
def messageStoreGetSnapshot : Io (Option (Option CStr × Nat)) := do
  let (message, version) ← Io.sys .getMessage
  if message.isSome then
    if !(← Io.malloc) then return none
  return some (message, version)

def messageStoreGetCopy : Io (Option (Option CStr)) := do
  match ← messageStoreGetSnapshot with
  | none              => return none
  | some (message, _) => return some message

-- The message is `none` if the wait ends without an update.
def messageStoreWaitForUpdate (knownVersion : Nat) : Io (Option (Option CStr × Nat)) := do
  let (message, version) ← Io.sys (.waitMessage knownVersion)
  if message.isSome then
    if !(← Io.malloc) then return none
  return some (message, version)
