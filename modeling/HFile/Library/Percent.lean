import HFile.Library.Json

namespace Percent

open Json (hexValue)

def sign : UInt8 := 37

-- The text `t` stands for the bytes `s`. Every byte can be escaped, and the percent sign has to be.
inductive Decodes : Bytes → Bytes → Prop
  | nil : Decodes [] []
  | byte {c t s} : c ≠ sign → Decodes t s → Decodes (c :: t) (c :: s)
  | escape {hi lo h l t s} : hexValue hi = some h → hexValue lo = some l → Decodes t s →
    Decodes (sign :: hi :: lo :: t) (.ofNat (h * 16 + l) :: s)

section

variable {c hi lo : UInt8} {t s : Bytes}

theorem decodes_nil : Decodes [] s ↔ s = [] :=
  ⟨fun | .nil => rfl, fun h => h ▸ .nil⟩

theorem Decodes.ne_nil (h : Decodes (c :: t) s) : s ≠ [] := by
  cases h <;> exact List.cons_ne_nil _ _

theorem decodes_byte (hc : c ≠ sign) : Decodes (c :: t) s ↔ ∃ s', s = c :: s' ∧ Decodes t s' := by
  constructor
  case mp =>
    intro h
    cases h
    case byte h   => exact ⟨_, rfl, h⟩
    case escape   => exact absurd rfl hc
  case mpr =>
    rintro ⟨s', rfl, h⟩
    exact .byte hc h

theorem decodes_escape : Decodes (sign :: hi :: lo :: t) s ↔
    ∃ h l s', hexValue hi = some h ∧ hexValue lo = some l ∧ s = .ofNat (h * 16 + l) :: s' ∧ Decodes t s' := by
  constructor
  case mp =>
    intro h
    cases h
    case byte h _        => exact absurd rfl h
    case escape hh hl h  => exact ⟨_, _, _, hh, hl, rfl, h⟩
  case mpr =>
    rintro ⟨h, l, s', hh, hl, rfl, h⟩
    exact .escape hh hl h

-- An escape that is cut off.
theorem not_decodes (ht : ∀ hi lo t', t ≠ hi :: lo :: t') : ¬Decodes (sign :: t) s := by
  intro h
  cases h
  case byte h _ => exact absurd rfl h
  case escape   => exact absurd rfl (ht _ _ _)

-- No byte takes more than an escape.
theorem Decodes.length_le (h : Decodes t s) : t.length ≤ 3 * s.length := by
  induction h
  case nil          => exact Nat.le_refl 0
  case byte hi      => simp only [List.length_cons]; omega
  case escape hi    => simp only [List.length_cons]; omega

end

-- The bytes that `encodeURIComponent` leaves as they are.
def unreserved (c : UInt8) : Bool :=
  (65 ≤ c ∧ c ≤ 90) ∨ (97 ≤ c ∧ c ≤ 122) ∨ (48 ≤ c ∧ c ≤ 57) ∨
  c = 45 ∨ c = 95 ∨ c = 46 ∨ c = 33 ∨ c = 126 ∨ c = 42 ∨ c = 39 ∨ c = 40 ∨ c = 41

def hexDigit (n : Nat) : UInt8 :=
  .ofNat (if n < 10 then 48 + n else 55 + n)

def encodeByte (c : UInt8) : Bytes :=
  if unreserved c then [c] else [sign, hexDigit (c.toNat / 16), hexDigit (c.toNat % 16)]

-- What `encodeURIComponent` makes of a text in UTF-8.
def encode (s : Bytes) : Bytes :=
  s.flatMap encodeByte

theorem hexValue_hexDigit {n : Nat} (h : n < 16) : hexValue (hexDigit n) = some n := by
  revert n
  decide

theorem decodes_encode (s : Bytes) : Decodes (encode s) s := by
  induction s
  case nil => exact .nil
  case cons c s hi =>
    rw [encode, List.flatMap_cons, encodeByte]
    split
    case isTrue hc =>
      apply Decodes.byte _ hi
      rintro rfl
      exact absurd hc (by decide)
    case isFalse =>
      have hlt := c.toNat_lt
      have hd := Decodes.escape (hexValue_hexDigit (n := c.toNat / 16) (by omega))
        (hexValue_hexDigit (n := c.toNat % 16) (by omega)) hi
      rw [Nat.div_add_mod' c.toNat 16, UInt8.ofNat_toNat] at hd
      exact hd

-- Only the bytes that need no escape and those of the escapes occur in the result.
theorem of_mem_encode {s : Bytes} {b : UInt8} (h : b ∈ encode s) : b = sign ∨ unreserved b = true := by
  have hdigit : ∀ n < 16, unreserved (hexDigit n) = true := by decide
  obtain ⟨c, _, hb⟩ := List.mem_flatMap.mp h
  rw [encodeByte] at hb
  split at hb
  case isTrue hc => exact .inr (List.mem_singleton.mp hb ▸ hc)
  case isFalse =>
    have hlt := c.toNat_lt
    simp only [List.mem_cons, List.not_mem_nil, or_false] at hb
    rcases hb with rfl | rfl | rfl
    · exact .inl rfl
    · exact .inr (hdigit _ (by omega))
    · exact .inr (hdigit _ (by omega))

theorem length_le_encode (s : Bytes) : s.length ≤ (encode s).length := by
  induction s
  case nil => exact Nat.le_refl 0
  case cons c s hi =>
    have hc : 1 ≤ (encodeByte c).length := by
      rw [encodeByte]
      split
      case isTrue  => exact Nat.le_refl 1
      case isFalse => exact Nat.le_add_left 1 2
    rw [encode, List.flatMap_cons, List.length_append, List.length_cons]
    rw [encode] at hi
    omega

end Percent
