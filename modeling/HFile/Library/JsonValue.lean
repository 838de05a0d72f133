import HFile.Library.Decimal
import HFile.Library.Json

-- The JSON texts of RFC 8259, as sequences of bytes, with all kinds of values. A string is what its
-- bytes spell, which need not be UTF-8.
namespace Json

inductive Value
  | null
  | bool (b : Bool)
  | number (n : ℚ)
  | string (s : Bytes)
  | array (vs : List Value)
  | object (ms : List (Bytes × Value))

def Blank (s : Bytes) : Prop :=
  ∀ c ∈ s, isSpace c = true

-- The contents of a string. A control character needs an escape.
def Chars (t s : Bytes) : Prop :=
  Spells t s ∧ ∀ c ∈ t, 0x20 ≤ c

def Digits (t : Bytes) : Prop :=
  t ≠ [] ∧ ∀ c ∈ t, 48 ≤ c ∧ c ≤ 57

-- The part of a number before its fraction has no leading zero.
def IntPart (t : Bytes) : Prop :=
  Digits t ∧ (t.head? = some 48 → t = [48])

inductive Sign : Bytes → ℚ → Prop
  | none  : Sign [] 1
  | minus : Sign [45] (-1)

inductive Fraction : Bytes → ℚ → Prop
  | none : Fraction [] 0
  | some {t} : Digits t → Fraction (46 :: t) (decimalValue t / 10 ^ t.length)

inductive Exponent : Bytes → ℤ → Prop
  | none : Exponent [] 0
  | plain {e t} : e = 101 ∨ e = 69 → Digits t → Exponent (e :: t) (decimalValue t)
  | plus {e t} : e = 101 ∨ e = 69 → Digits t → Exponent (e :: 43 :: t) (decimalValue t)
  | minus {e t} : e = 101 ∨ e = 69 → Digits t → Exponent (e :: 45 :: t) (-decimalValue t)

inductive Number : Bytes → ℚ → Prop
  | mk {s i f x : Bytes} {sign fraction : ℚ} {exponent : ℤ} :
    Sign s sign → IntPart i → Fraction f fraction → Exponent x exponent →
    Number (s ++ i ++ f ++ x) (sign * (decimalValue i + fraction) * 10 ^ exponent)

mutual

inductive Derives : Bytes → Value → Prop
  | null : Derives (ascii "null") .null
  | true : Derives (ascii "true") (.bool .true)
  | false : Derives (ascii "false") (.bool .false)
  | number {t n} : Number t n → Derives t (.number n)
  | string {t s} : Chars t s → Derives (quote :: (t ++ [quote])) (.string s)
  | emptyArray {s} : Blank s → Derives (91 :: (s ++ [93])) (.array [])
  | array {t vs} : Elements t vs → Derives (91 :: (t ++ [93])) (.array vs)
  | emptyObject {s} : Blank s → Derives (123 :: (s ++ [125])) (.object [])
  | object {t ms} : Members t ms → Derives (123 :: (t ++ [125])) (.object ms)

-- One or more values with commas between them.
inductive Elements : Bytes → List Value → Prop
  | one {s t s' v} : Blank s → Derives t v → Blank s' → Elements (s ++ t ++ s') [v]
  | cons {s t s' ts v vs} : Blank s → Derives t v → Blank s' → Elements ts vs →
    Elements (s ++ t ++ s' ++ 44 :: ts) (v :: vs)

-- One or more names with their values.
inductive Members : Bytes → List (Bytes × Value) → Prop
  | one {t m} : Member t m → Members t [m]
  | cons {t ts m ms} : Member t m → Members ts ms → Members (t ++ 44 :: ts) (m :: ms)

inductive Member : Bytes → Bytes × Value → Prop
  | mk {s k s' s'' t s''' key v} : Blank s → Chars k key → Blank s' → Blank s'' → Derives t v → Blank s''' →
    Member (s ++ quote :: (k ++ quote :: (s' ++ 58 :: (s'' ++ t ++ s''')))) (key, v)

end

def Text (text : Bytes) (v : Value) : Prop :=
  ∃ s t s', Blank s ∧ Derives t v ∧ Blank s' ∧ text = s ++ t ++ s'

theorem Blank.nil : Blank [] :=
  fun _ h => nomatch h

-- A natural number as it is printed.
theorem Number.decimal (n : Nat) : Number (CStr.decimal n).chars n := by
  have hi : IntPart (CStr.decimal n).chars := by
    refine ⟨⟨CStr.decimal_ne_nil n, CStr.digit_of_mem_decimal n⟩, fun h => ?_⟩
    by_cases hn : n = 0
    case pos => simp [hn, CStr.decimal]
    case neg => exact absurd h (CStr.head_decimal hn)
  have hn := Number.mk Sign.none hi Fraction.none Exponent.none
  simpa [CStr.decimalValue_decimal] using hn

-- The texts that need no white space.
theorem Member.plain {k key t : Bytes} {v : Value} (hk : Chars k key) (hv : Derives t v) :
    Member (quote :: (k ++ quote :: 58 :: t)) (key, v) := by
  have h := Member.mk Blank.nil hk Blank.nil Blank.nil hv Blank.nil
  simpa using h

theorem Elements.intercalate {α : Type} {text : α → Bytes} {value : α → Value} {xs : List α} (hne : xs ≠ [])
    (h : ∀ x ∈ xs, Derives (text x) (value x)) : Elements ([44].intercalate (xs.map text)) (xs.map value) := by
  induction xs
  case nil => exact absurd rfl hne
  case cons x xs hi =>
    rw [List.forall_mem_cons] at h
    cases xs
    case nil =>
      have hone := Elements.one Blank.nil h.left Blank.nil
      simpa using hone
    case cons y ys =>
      have hcons := Elements.cons Blank.nil h.left Blank.nil (hi (by simp) h.right)
      simpa [List.intercalate] using hcons

-- An array as it is printed.
theorem Text.array {α : Type} {text : α → Bytes} {value : α → Value} {xs : List α}
    (h : ∀ x ∈ xs, Derives (text x) (value x)) :
    Text (91 :: ([44].intercalate (xs.map text) ++ [93])) (.array (xs.map value)) := by
  refine ⟨[], _, [], Blank.nil, ?_, Blank.nil, by simp; rfl⟩
  cases xs
  case nil  => exact .emptyArray Blank.nil
  case cons => exact .array (Elements.intercalate (by simp) h)

end Json
