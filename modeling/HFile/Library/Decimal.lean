import HFile.Library.CString

-- The number that a list of decimal digits stands for.
def decimalValue (digits : Bytes) : Nat :=
  digits.foldl (fun n c => n * 10 + (c - 48).toNat) 0

-- The sign of an integer, which can be left out.
inductive Sign
  | absent | plus | minus
  deriving DecidableEq

namespace Sign

def text : Sign → Bytes
  | absent => []
  | plus   => [43]
  | minus  => [45]

def apply : Sign → Nat → Int
  | absent, n => n
  | plus, n   => n
  | minus, n  => -n

-- A sign ends where the digits begin.
theorem text_append_inj {sign sign' : Sign} {digits digits' : Bytes} (hd : ∀ c ∈ digits, 48 ≤ c ∧ c ≤ 57)
    (hd' : ∀ c ∈ digits', 48 ≤ c ∧ c ≤ 57) (h : sign.text ++ digits = sign'.text ++ digits') :
    sign = sign' ∧ digits = digits' := by
  have hplus : ∀ {digits : Bytes}, (∀ c ∈ digits, 48 ≤ c ∧ c ≤ 57) → 43 ∉ digits :=
    fun hd hc => absurd (hd _ hc) (by decide)
  have hminus : ∀ {digits : Bytes}, (∀ c ∈ digits, 48 ≤ c ∧ c ≤ 57) → 45 ∉ digits :=
    fun hd hc => absurd (hd _ hc) (by decide)
  cases sign <;> cases sign' <;> simp only [text, List.nil_append, List.cons_append, List.cons.injEq] at h
  case absent.absent => exact ⟨rfl, h⟩
  case plus.plus     => exact ⟨rfl, h.right⟩
  case minus.minus   => exact ⟨rfl, h.right⟩
  case absent.plus   => exact absurd (h ▸ List.mem_cons_self ..) (hplus hd)
  case absent.minus  => exact absurd (h ▸ List.mem_cons_self ..) (hminus hd)
  case plus.absent   => exact absurd (h ▸ List.mem_cons_self ..) (hplus hd')
  case minus.absent  => exact absurd (h ▸ List.mem_cons_self ..) (hminus hd')
  case plus.minus    => exact absurd h.left (by decide)
  case minus.plus    => exact absurd h.left (by decide)

end Sign

-- A text that denotes an integer: white space, a sign and decimal digits.
inductive IntegerText (isSpace : UInt8 → Bool) : Bytes → Int → Prop
  | intro {blank digits : Bytes} (sign : Sign) :
    (∀ c ∈ blank, isSpace c = true) → digits ≠ [] → (∀ c ∈ digits, 48 ≤ c ∧ c ≤ 57) →
    IntegerText isSpace (blank ++ (sign.text ++ digits)) (sign.apply (decimalValue digits))

namespace IntegerText

variable {isSpace : UInt8 → Bool} {s : Bytes} {n m : Int}

-- The white space ends where the sign or the digits begin.
theorem dropWhile_blank (hs : ∀ c, isSpace c = true → c ≠ 43 ∧ c ≠ 45 ∧ ¬(48 ≤ c ∧ c ≤ 57)) {blank digits : Bytes}
    {sign : Sign} (hb : ∀ c ∈ blank, isSpace c = true) (hd : ∀ c ∈ digits, 48 ≤ c ∧ c ≤ 57) :
    (blank ++ (sign.text ++ digits)).dropWhile isSpace = sign.text ++ digits := by
  have hhead : ∀ {c : UInt8} {t : Bytes}, sign.text ++ digits = c :: t → ¬isSpace c = true := by
    intro c t ht hc
    cases sign <;> simp only [Sign.text, List.nil_append, List.cons_append, List.cons.injEq] at ht
    case absent => exact (hs c hc).right.right (hd c (ht ▸ List.mem_cons_self ..))
    case plus   => exact (hs c hc).left ht.left.symm
    case minus  => exact (hs c hc).right.left ht.left.symm
  rw [List.dropWhile_append_of_pos hb]
  cases ht : sign.text ++ digits
  case nil      => rfl
  case cons c t => exact List.dropWhile_cons_of_neg (hhead ht)

theorem unique (hs : ∀ c, isSpace c = true → c ≠ 43 ∧ c ≠ 45 ∧ ¬(48 ≤ c ∧ c ≤ 57)) (h : IntegerText isSpace s n)
    (h' : IntegerText isSpace s m) : n = m := by
  obtain ⟨sign, hb, _, hd⟩ := h
  generalize htext : _ ++ (sign.text ++ _) = s at h'
  obtain ⟨sign', hb', _, hd'⟩ := h'
  have hdrop := congrArg (List.dropWhile isSpace) htext
  rw [dropWhile_blank hs hb hd, dropWhile_blank hs hb' hd'] at hdrop
  obtain ⟨rfl, rfl⟩ := Sign.text_append_inj hd hd' hdrop
  rfl

end IntegerText

-- The decimal digits that a number is printed with.
namespace CStr

-- The character of a digit.
theorem toNat_digit {d : Nat} (h : d < 10) : ((48 + d).toUInt8).toNat = 48 + d := by
  rw [Nat.toUInt8_eq, UInt8.toNat_ofNat']
  omega

theorem digit_of_mem_decimal (n : Nat) : ∀ c ∈ (decimal n).chars, 48 ≤ c ∧ c ≤ 57 := by
  have hdigit : ∀ d < 10, 48 ≤ (48 + d).toUInt8 ∧ (48 + d).toUInt8 ≤ 57 := by decide
  intro c hc
  simp only [decimal] at hc
  split at hc
  case isTrue =>
    rw [List.mem_singleton.mp hc]
    decide
  case isFalse =>
    obtain ⟨d, hd, rfl⟩ := List.mem_map.mp hc
    exact hdigit d (Nat.digits_lt_base (by decide) (List.mem_reverse.mp hd))

theorem decimal_ne_nil (n : Nat) : (decimal n).chars ≠ [] := by
  simp only [decimal]
  split
  case isTrue    => simp
  case isFalse h => simpa using Nat.digits_ne_nil_iff_ne_zero.mpr h

-- Only zero starts with the digit zero.
theorem head_decimal {n : Nat} (h : n ≠ 0) : (decimal n).chars.head? ≠ some 48 := by
  have hne : Nat.digits 10 n ≠ [] := Nat.digits_ne_nil_iff_ne_zero.mpr h
  have hlast : (Nat.digits 10 n).getLast hne ≠ 0 := Nat.getLast_digit_ne_zero 10 h
  have hlt : (Nat.digits 10 n).getLast hne < 10 := Nat.digits_lt_base (by decide) (List.getLast_mem hne)
  simp only [decimal, if_neg h, List.head?_map, List.head?_reverse, List.getLast?_eq_some_getLast hne,
    Option.map_some, ne_eq, Option.some.injEq]
  intro he
  have := toNat_digit hlt
  rw [he] at this
  simp only [UInt8.reduceToNat] at this
  omega

theorem length_decimal_le {n k : Nat} (hk : 0 < k) (hn : n < 10 ^ k) : (decimal n).chars.length ≤ k := by
  simp only [decimal]
  split
  case isTrue => exact hk
  case isFalse =>
    rw [List.length_map, List.length_reverse]
    exact (Nat.digits_length_le_iff (by decide) n).mpr hn

-- Reading the digits from the left gives the number back.
theorem decimalValue_decimal (n : Nat) : decimalValue (decimal n).chars = n := by
  have hfold : ∀ ds : List Nat, (∀ d ∈ ds, d < 10) →
      ds.foldr (fun d m => m * 10 + ((48 + d).toUInt8 - 48).toNat) 0 = Nat.ofDigits 10 ds := by
    intro ds hds
    induction ds
    case nil => rfl
    case cons d ds hi =>
      rw [List.forall_mem_cons] at hds
      have hd : ((48 + d).toUInt8 - 48).toNat = d := by
        have := toNat_digit hds.left
        rw [UInt8.toNat_sub_of_le, this]
        · simp
        · rw [UInt8.le_iff_toNat_le, this]
          simp
      rw [List.foldr_cons, hi hds.right, hd, Nat.ofDigits_cons]
      ring
  simp only [decimal, decimalValue]
  split
  case isTrue h  => simp [h]
  case isFalse h =>
    rw [List.foldl_map, List.foldl_reverse, hfold _ fun d hd => Nat.digits_lt_base (by decide) hd, Nat.ofDigits_digits]

end CStr
