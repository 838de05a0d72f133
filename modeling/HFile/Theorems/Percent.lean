import HFile.Library.Percent
import HFile.Theorems.JsonGrammar

open Json (hexValue)
open Percent (Decodes)

theorem hexValue_some_iff {c : UInt8} {n : Nat} :
    hexValue c = some n ↔ isxdigit c = true ∧ (hexDigit c).toNat = n := by
  rw [hexValue_eq]
  split <;> simp_all

theorem toNat_hexPair {hi lo : UInt8} (hh : (hexDigit hi).toNat < 16) (hl : (hexDigit lo).toNat < 16) :
    hexDigit hi <<< 4 ||| hexDigit lo = .ofNat ((hexDigit hi).toNat * 16 + (hexDigit lo).toNat) := by
  have hor : (hexDigit hi).toNat * 16 ||| (hexDigit lo).toNat =
      (hexDigit hi).toNat * 16 + (hexDigit lo).toNat := by
    rw [Nat.mul_comm]
    exact (Nat.two_pow_add_eq_or_of_lt (i := 4) hl _).symm
  apply UInt8.toNat_inj.mp
  simp only [UInt8.toNat_or, UInt8.toNat_shiftLeft, UInt8.reduceToNat, Nat.shiftLeft_eq, UInt8.toNat_ofNat']
  rw [show 2 ^ (4 % 8) = 16 from rfl, Nat.mod_eq_of_lt (by omega), hor, Nat.mod_eq_of_lt (by omega)]

namespace httpDecodeName

-- What is written to the output.
theorem loop_some {cap oi : Nat} {t s : Bytes} (ho : oi < cap) :
    loop cap oi t = some s ↔ Decodes t s ∧ oi + s.length < cap := by
  fun_induction loop cap oi t generalizing s
  case case1 oi =>
    rw [Percent.decodes_nil, Option.some.injEq]
    constructor
    case mp  => exact fun h => ⟨h.symm, by simpa [← h] using ho⟩
    case mpr => exact fun h => h.left.symm
  case case2 hfull =>
    refine iff_of_false nofun ?_
    rintro ⟨hd, hlt⟩
    have := List.length_pos_iff.mpr hd.ne_nil
    omega
  case case3 hhex =>
    refine iff_of_false nofun ?_
    rintro ⟨hd, _⟩
    obtain ⟨h, l, s', hh, hl, _⟩ := Percent.decodes_escape.mp hd
    simp [(hexValue_some_iff.mp hh).left, (hexValue_some_iff.mp hl).left] at hhex
  case case4 oi _ hi lo t hhex ih =>
    simp only [Bool.or_eq_true, Bool.not_eq_true', not_or, Bool.not_eq_false] at hhex
    have hh := hexValue_some_iff.mpr ⟨hhex.left, rfl⟩
    have hl := hexValue_some_iff.mpr ⟨hhex.right, rfl⟩
    rw [toNat_hexPair (Json.hexValue_some hh).right.right (Json.hexValue_some hl).right.right,
      Option.map_eq_some_iff]
    constructor
    case mp =>
      rintro ⟨s', hs', rfl⟩
      obtain ⟨hd, hlt⟩ := (ih (by omega)).mp hs'
      exact ⟨.escape hh hl hd, by rw [List.length_cons]; omega⟩
    case mpr =>
      rintro ⟨hd, hlt⟩
      obtain ⟨h, l, s', hh', hl', rfl, hd'⟩ := Percent.decodes_escape.mp hd
      rw [List.length_cons] at hlt
      rw [Option.some.inj (hh.symm.trans hh'), Option.some.inj (hl.symm.trans hl')]
      exact ⟨s', (ih (by omega)).mpr ⟨hd', by omega⟩, rfl⟩
  case case5 ht =>
    refine iff_of_false nofun ?_
    rintro ⟨hd, _⟩
    exact Percent.not_decodes (fun hi lo t' h => ht hi lo t' h) hd
  case case6 oi ch t _ hc ih =>
    rw [Percent.decodes_byte hc, Option.map_eq_some_iff]
    constructor
    case mp =>
      rintro ⟨s', hs', rfl⟩
      obtain ⟨hd, hlt⟩ := (ih (by omega)).mp hs'
      exact ⟨⟨s', rfl, hd⟩, by rw [List.length_cons]; omega⟩
    case mpr =>
      rintro ⟨⟨s', rfl, hd⟩, hlt⟩
      rw [List.length_cons] at hlt
      exact ⟨s', (ih (by omega)).mpr ⟨hd, by omega⟩, rfl⟩

end httpDecodeName

-- The name is decoded if it is well-formed and fits, and then the output is all of it.
structure DecodesExactly (cap : Nat) (encoded : CStr) : Prop where
  accepted : (httpDecodeName cap encoded).isSome ↔ ∃ s, Decodes encoded.chars s ∧ s.length < cap
  complete : ∀ s, Decodes encoded.chars s → s.length < cap →
    ∃ out, httpDecodeName cap encoded = some out ∧ out.chars = s

theorem httpDecodeName_of_decodes {cap : Nat} {encoded : CStr} {s : Bytes}
    (hd : Decodes encoded.chars s) (hs : s.length < cap) :
    httpDecodeName cap encoded = some (.ofBuf s) := by
  have hcap : 0 < cap := Nat.zero_lt_of_lt hs
  rw [httpDecodeName, if_neg hcap.ne', (httpDecodeName.loop_some hcap).mpr ⟨hd, by omega⟩]
  rfl

-- Names are decoded exactly, unless a NUL byte is decoded.
theorem httpDecodeName_exact_iff {cap : Nat} (hcap : 0 < cap) (encoded : CStr) :
    DecodesExactly cap encoded ↔ ∀ s, Decodes encoded.chars s → s.length < cap → 0 ∉ s := by
  constructor
  case mp =>
    intro h s hd hs
    obtain ⟨out, ho, rfl⟩ := h.complete s hd hs
    exact out.nul_free
  case mpr =>
    intro h
    refine ⟨⟨?_, ?_⟩, ?_⟩
    · intro ho
      rw [httpDecodeName, if_neg hcap.ne', Option.isSome_map] at ho
      obtain ⟨s, hs⟩ := Option.isSome_iff_exists.mp ho
      obtain ⟨hd, hlt⟩ := (httpDecodeName.loop_some hcap).mp hs
      exact ⟨s, hd, by omega⟩
    · rintro ⟨s, hd, hs⟩
      rw [httpDecodeName_of_decodes hd hs]
      rfl
    · intro s hd hs
      exact ⟨_, httpDecodeName_of_decodes hd hs, CStr.ofBuf_eq_of_nul_free (h s hd hs)⟩

theorem httpDecodeName_exact_iff_for_one_byte :
    DecodesExactly 1024 (.lit "a") ↔ ∀ s, Decodes (CStr.lit "a").chars s → s.length < 1024 → 0 ∉ s :=
  httpDecodeName_exact_iff (by decide) _

-- The decoded name has three bytes, and is used as a name of one byte.
theorem httpDecodeName_cuts_at_nul :
    Decodes (CStr.lit "a%00b").chars [97, 0, 98] ∧ httpDecodeName 1024 (.lit "a%00b") = some (.lit "a") ∧
    ¬DecodesExactly 1024 (.lit "a%00b") := by
  have hd : Decodes (CStr.lit "a%00b").chars [97, 0, 98] := by
    rw [show (CStr.lit "a%00b").chars = [97, 37, 48, 48, 98] by decide]
    exact .byte (by decide) (.escape (h := 0) (l := 0) (by decide) (by decide) (.byte (by decide) .nil))
  refine ⟨hd, by decide, ?_⟩
  intro h
  obtain ⟨out, _, ho⟩ := h.complete _ hd (by decide)
  exact out.nul_free (by rw [ho]; decide)
