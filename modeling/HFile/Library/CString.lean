import Mathlib

abbrev Bytes := List UInt8

-- The bytes of a text that has only ASCII characters.
def ascii (s : String) : Bytes :=
  s.toList.map (·.toNat.toUInt8)

-- A C string, without its terminator. No value of this type has a NUL byte, so that the length of
-- its list of characters is what `strlen` returns.
@[ext]
structure CStr where
  chars    : Bytes
  nul_free : 0 ∉ chars
  deriving DecidableEq

namespace CStr

-- The C string that starts at the beginning of a buffer: everything up to the first NUL byte.
def ofBuf (buf : Bytes) : CStr where
  chars    := buf.takeWhile (· != 0)
  nul_free := fun h => by simpa using List.mem_takeWhile_imp h

def lit (s : String) : CStr :=
  ofBuf (ascii s)

def strlen (s : CStr) : Nat :=
  s.chars.length

instance : Append CStr where
  append s t := ⟨s.chars ++ t.chars, by simp [s.nul_free, t.nul_free]⟩

@[simp]
theorem chars_append (s t : CStr) : (s ++ t).chars = s.chars ++ t.chars :=
  rfl

@[simp]
theorem strlen_append (s t : CStr) : (s ++ t).strlen = s.strlen + t.strlen :=
  List.length_append

theorem ne_zero_of_mem {s : CStr} {c : UInt8} (h : c ∈ s.chars) : c ≠ 0 :=
  fun hc => s.nul_free (hc ▸ h)

theorem ofBuf_eq_of_nul_free {buf : Bytes} (h : 0 ∉ buf) : (ofBuf buf).chars = buf := by
  simp only [ofBuf, List.takeWhile_eq_self_iff, bne_iff_ne]
  exact fun c hc he => h (he ▸ hc)

@[simp]
theorem ofBuf_chars (s : CStr) : ofBuf s.chars = s :=
  CStr.ext (ofBuf_eq_of_nul_free s.nul_free)

-- A buffer is the C string it holds exactly if it has no NUL byte.
theorem ofBuf_eq_iff {buf : Bytes} : (ofBuf buf).chars = buf ↔ 0 ∉ buf :=
  ⟨fun h => h ▸ (ofBuf buf).nul_free, ofBuf_eq_of_nul_free⟩

theorem strlen_ofBuf_le (buf : Bytes) : (ofBuf buf).strlen ≤ buf.length :=
  (List.takeWhile_prefix _).length_le

-- The decimal digits of a number, as printed by the formats `%d`, `%zu` and `%llu`.
def decimal (n : Nat) : CStr where
  chars    := if n = 0 then [48] else (Nat.digits 10 n).reverse.map (fun d => (48 + d).toUInt8)
  nul_free := by
    split
    · decide
    · simp only [List.mem_map, List.mem_reverse, not_exists, not_and]
      intro d hd h
      have hlt : d < 10 := Nat.digits_lt_base (by decide) hd
      interval_cases d <;> contradiction

end CStr
