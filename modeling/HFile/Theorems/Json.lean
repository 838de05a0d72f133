import HFile.Source.HttpText

theorem UInt8.mem_below {c : UInt8} {n : Nat} (h : c.toNat < n) : c ∈ (List.range n).map Nat.toUInt8 :=
  List.mem_map.mpr ⟨c.toNat, List.mem_range.mpr h, by simp⟩

-- The digits of a byte.
theorem toNat_high (c : UInt8) : (c >>> 4).toNat = c.toNat / 16 := by
  rw [UInt8.toNat_shiftRight, Nat.shiftRight_eq_div_pow]
  rfl

theorem toNat_low (c : UInt8) : (c &&& 15).toNat = c.toNat % 16 := by
  rw [UInt8.toNat_and]
  exact Nat.and_two_pow_sub_one_eq_mod c.toNat 4

theorem hexDigit_hexChar {n : UInt8} (h : n.toNat < 16) :
    isxdigit (hexChar n) = true ∧ hexDigit (hexChar n) = n ∧ 0x20 ≤ hexChar n := by
  have hall : ∀ d ∈ (List.range 16).map Nat.toUInt8,
      isxdigit (hexChar d) = true ∧ hexDigit (hexChar d) = d ∧ 0x20 ≤ hexChar d := by
    decide +kernel
  exact hall n (UInt8.mem_below h)

-- The four digits of an escape stand for the byte.
theorem httpJsonParseHex4_byte (c : UInt8) :
    httpJsonParseHex4 48 48 (hexChar (c >>> 4)) (hexChar (c &&& 15)) = some c.toUInt16 := by
  have hc := c.toNat_lt
  have hhigh := toNat_high c
  have hlow := toNat_low c
  obtain ⟨hx, hd, _⟩ := hexDigit_hexChar (n := c >>> 4) (by omega)
  obtain ⟨hx', hd', _⟩ := hexDigit_hexChar (n := c &&& 15) (by omega)
  have hzero : hexDigit 48 = 0 := by decide
  rw [httpJsonParseHex4, if_pos ⟨rfl, rfl, hx, hx'⟩]
  simp only [List.foldl_cons, List.foldl_nil, hd, hd', hzero, Option.some.injEq]
  apply UInt16.toNat_inj.mp
  simp only [UInt16.toNat_add, UInt16.toNat_mul, UInt8.toNat_toUInt16, hhigh, hlow, UInt16.reduceToNat,
    UInt8.reduceToNat]
  omega

theorem httpBufAppendUtf8_byte (c : UInt8) (h : c < 0x20) :
    httpBufAppendUtf8 c.toUInt16.toUInt32 = [c] := by
  have hall : ∀ d ∈ (List.range 32).map Nat.toUInt8, httpBufAppendUtf8 d.toUInt16.toUInt32 = [d] := by
    decide +kernel
  exact hall c (UInt8.mem_below h)

theorem not_surrogate_byte (c : UInt8) :
    ¬(0xD800 ≤ c.toUInt16 ∧ c.toUInt16 ≤ 0xDBFF) ∧ ¬(0xDC00 ≤ c.toUInt16 ∧ c.toUInt16 ≤ 0xDFFF) := by
  have hc : c.toUInt16.toNat < 256 := by simpa using UInt8.toNat_lt c
  have hlt : c.toUInt16 < 0xD800 ∧ c.toUInt16 < 0xDC00 := by
    simp only [UInt16.lt_iff_toNat_lt]
    exact ⟨Nat.lt_trans hc (by decide), Nat.lt_trans hc (by decide)⟩
  exact ⟨fun h => UInt16.not_le.mpr hlt.left h.left, fun h => UInt16.not_le.mpr hlt.right h.left⟩

namespace httpJsonParseString

-- What the escape of a byte is read as.
theorem loop_short {c d : UInt8} {p : Bytes} (h : short d = some c) :
    loop (92 :: d :: p) = (loop p).map fun r => (c :: r.1, r.2) := by
  rw [loop.eq_def]
  dsimp only
  rw [if_neg (by decide), if_neg (by decide), h]

theorem loop_unicode {c : UInt8} {p : Bytes} (h : c < 0x20) :
    loop (jsonUnicodeEscape c ++ p) = (loop p).map fun r => (c :: r.1, r.2) := by
  have ⟨hhigh, hlow⟩ := not_surrogate_byte c
  change loop (92 :: 117 :: 48 :: 48 :: hexChar (c >>> 4) :: hexChar (c &&& 15) :: p) = _
  rw [loop.eq_def]
  dsimp only
  rw [if_neg (by decide), if_neg (by decide), show short 117 = none from rfl]
  dsimp only
  rw [if_neg (by decide), httpJsonParseHex4_byte c]
  dsimp only
  rw [if_neg hhigh, if_neg hlow, httpBufAppendUtf8_byte c h]
  rfl

theorem loop_plain {c : UInt8} {p : Bytes} (hq : c ≠ 34) (hb : c ≠ 92) :
    loop (c :: p) = (loop p).map fun r => (c :: r.1, r.2) := by
  rw [loop.eq_def]
  dsimp only
  rw [if_neg hq, if_pos hb]

theorem loop_escape (c : UInt8) (p : Bytes) :
    loop (httpJsonEscape.char c ++ p) = (loop p).map fun r => (c :: r.1, r.2) := by
  rw [httpJsonEscape.char, httpSendJsonError.escape]
  split
  case isTrue hc => exact hc ▸ loop_short rfl
  case isFalse =>
    split
    case isTrue hc => exact hc ▸ loop_short rfl
    case isFalse =>
      split
      case isTrue hc => exact hc ▸ loop_short rfl
      case isFalse hb =>
        split
        case isTrue hc => exact hc ▸ loop_short rfl
        case isFalse hq =>
          split
          case isTrue hc => exact hc ▸ loop_short rfl
          case isFalse =>
            split
            case isTrue hc => exact hc ▸ loop_short rfl
            case isFalse =>
              split
              case isTrue hc => exact hc ▸ loop_short rfl
              case isFalse =>
                split
                case isTrue hc  => exact loop_unicode hc
                case isFalse => exact loop_plain hq hb

theorem loop_httpJsonEscape (text p : Bytes) :
    loop (text.flatMap httpJsonEscape.char ++ 34 :: p) = some (text, p) := by
  induction text
  case nil =>
    rw [List.flatMap_nil, List.nil_append, loop.eq_def]
    rfl
  case cons c text hi =>
    rw [List.flatMap_cons, List.append_assoc, loop_escape, hi]
    rfl

end httpJsonParseString

-- The object that holds a message.
def messageJson (message : CStr) : Bytes :=
  ascii "\x7b\"message\":\"" ++ httpJsonEscape message ++ ascii "\"\x7d"

theorem messageJson_eq (message : CStr) : messageJson message =
    123 :: 34 :: ((ascii "message").flatMap httpJsonEscape.char ++
      34 :: 58 :: 34 :: (message.chars.flatMap httpJsonEscape.char ++ 34 :: [125])) := by
  have hpre : ascii "\x7b\"message\":\"" =
      123 :: 34 :: ((ascii "message").flatMap httpJsonEscape.char ++ [34, 58, 34]) := by decide
  have hpost : ascii "\"\x7d" = [34, 125] := by decide
  rw [messageJson, httpJsonEscape, hpre, hpost]
  simp

theorem jsonUnicodeEscape_eq (c : UInt8) :
    jsonUnicodeEscape c = [92, 117, 48, 48, hexChar (c >>> 4), hexChar (c &&& 15)] :=
  rfl

-- No escape has a control character.
theorem le_of_mem_escape {c d : UInt8} (h : d ∈ httpJsonEscape.char c) : 0x20 ≤ d := by
  have hshort : ∀ s ∈ ["\\b", "\\f", "\\\\", "\\\"", "\\n", "\\r", "\\t"], ∀ d ∈ ascii s, 0x20 ≤ d := by
    decide +kernel
  rw [httpJsonEscape.char, httpSendJsonError.escape] at h
  split_ifs at h
  any_goals exact hshort _ (by decide) d h
  case pos =>
    have hc := c.toNat_lt
    have hhigh := toNat_high c
    have hlow := toNat_low c
    rw [jsonUnicodeEscape_eq] at h
    simp only [List.mem_cons, List.not_mem_nil, or_false] at h
    rcases h with rfl | rfl | rfl | rfl | rfl | rfl
    case inr.inr.inr.inr.inl => exact (hexDigit_hexChar (by omega)).right.right
    case inr.inr.inr.inr.inr => exact (hexDigit_hexChar (by omega)).right.right
    all_goals decide
  case neg hc => exact List.mem_singleton.mp h ▸ UInt8.not_lt.mp hc

theorem le_of_mem_httpJsonEscape {text : CStr} {d : UInt8} (h : d ∈ httpJsonEscape text) : 0x20 ≤ d := by
  obtain ⟨c, _, h⟩ := List.mem_flatMap.mp h
  exact le_of_mem_escape h

theorem zero_not_mem_messageJson (message : CStr) : 0 ∉ messageJson message := by
  have hesc : 0 ∉ message.chars.flatMap httpJsonEscape.char :=
    fun h => absurd (le_of_mem_httpJsonEscape h) (by decide)
  have hkey : 0 ∉ (ascii "message").flatMap httpJsonEscape.char := by decide
  rw [messageJson_eq]
  simp [hesc, hkey]

theorem httpJsonParseString_httpJsonEscape (text p : Bytes) :
    httpJsonParseString (34 :: (text.flatMap httpJsonEscape.char ++ 34 :: p)) = some (.ofBuf text, p) := by
  rw [httpJsonParseString, if_neg (by decide), httpJsonParseString.loop_httpJsonEscape]
  rfl

-- A message is read back from its object.
theorem httpParseMessageJson_messageJson (message : CStr) :
    httpParseMessageJson.parse (.ofBuf (messageJson message)) = some message := by
  have hskip : ∀ (c : UInt8) (p : Bytes), isspace c = false → httpJsonSkipWs (c :: p) = c :: p := by
    intro c p hc
    rw [httpJsonSkipWs, List.dropWhile_cons_of_neg (by simp [hc])]
  have hexpect : ∀ (c : UInt8) (p : Bytes),
      httpParseMessageJson.expect c (c :: p) = some (httpJsonSkipWs p) := by
    intro c p
    rw [httpParseMessageJson.expect, if_pos rfl]
  rw [httpParseMessageJson.parse, CStr.ofBuf_eq_of_nul_free (zero_not_mem_messageJson message),
    messageJson_eq, hskip _ _ (by decide), hexpect, hskip _ _ (by decide)]
  dsimp only [Option.bind_eq_bind, Option.bind_some]
  rw [httpJsonParseString_httpJsonEscape]
  dsimp only [Option.bind_eq_bind, Option.bind_some]
  rw [hskip _ _ (by decide), hexpect, hskip _ _ (by decide)]
  dsimp only [Option.bind_eq_bind, Option.bind_some]
  rw [httpJsonParseString_httpJsonEscape]
  dsimp only [Option.bind_eq_bind, Option.bind_some]
  rw [hskip _ _ (by decide), hexpect]
  dsimp only [Option.bind_eq_bind, Option.bind_some]
  rw [CStr.ofBuf_chars, if_neg (by decide), if_neg (by decide)]
