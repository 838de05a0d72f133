import HFile.Library.CString

open String (utf8EncodeChar)

-- The encoding of a text.
def utf8 (text : List Char) : Bytes :=
  text.flatMap utf8EncodeChar

@[simp]
theorem utf8_nil : utf8 [] = [] :=
  rfl

@[simp]
theorem utf8_cons (x : Char) (text : List Char) : utf8 (x :: text) = utf8EncodeChar x ++ utf8 text :=
  List.flatMap_cons

@[simp]
theorem utf8_append (s t : List Char) : utf8 (s ++ t) = utf8 s ++ utf8 t :=
  List.flatMap_append

theorem Char.toNat_lt (x : Char) : x.toNat < 0x110000 := by
  have := x.valid
  simp only [UInt32.isValidChar, Nat.isValidChar] at this
  change x.val.toNat < _
  omega

theorem utf8EncodeChar_ascii {x : Char} (h : x.toNat < 128) : utf8EncodeChar x = [.ofNat x.toNat] := by
  change x.val.toNat < 128 at h
  simp only [utf8EncodeChar, if_pos (Nat.le_of_lt_succ h)]
  rfl

-- All bytes of a character that is not ASCII have the highest bit.
theorem le_of_mem_utf8EncodeChar {x : Char} {c : UInt8} (h : 128 ≤ x.toNat) (hc : c ∈ utf8EncodeChar x) :
    128 ≤ c.toNat := by
  change 128 ≤ x.val.toNat at h
  simp only [utf8EncodeChar, if_neg (Nat.not_le.mpr h)] at hc
  split_ifs at hc
  all_goals
    simp only [List.mem_cons, List.not_mem_nil, or_false] at hc
    rcases hc with rfl | rfl | rfl | rfl <;> rw [UInt8.toNat_ofNat'] <;> omega

-- Only the character NUL is encoded by a NUL byte.
theorem zero_not_mem_utf8 {text : List Char} (h : ∀ x ∈ text, x.toNat ≠ 0) : 0 ∉ utf8 text := by
  intro hz
  obtain ⟨x, hx, hz⟩ := List.mem_flatMap.mp hz
  by_cases hlt : x.toNat < 128
  case neg => exact absurd (le_of_mem_utf8EncodeChar (Nat.le_of_not_lt hlt) hz) (by decide)
  case pos =>
    rw [utf8EncodeChar_ascii hlt, List.mem_singleton] at hz
    have hzero := congrArg UInt8.toNat hz
    rw [UInt8.toNat_ofNat', UInt8.toNat_zero] at hzero
    exact h x hx (by omega)

namespace Utf8

-- A byte that continues a character.
def Continues (c : UInt8) : Prop :=
  128 ≤ c.toNat ∧ c.toNat < 192

instance (c : UInt8) : Decidable (Continues c) :=
  inferInstanceAs (Decidable (_ ∧ _))

-- The number `n`, extended by the payloads of continuation bytes.
def extend (n : Nat) (cs : Bytes) : Nat :=
  cs.foldl (fun n c => n * 64 + c.toNat % 64) n

-- The bytes `b :: cs` are a well-formed sequence for the code point `n`, which is not ASCII: the lead
-- byte says how many bytes follow, and the sequence is the shortest one for `n`.
inductive Sequence : UInt8 → Bytes → Nat → Prop
  | two {b c n} : 192 ≤ b.toNat ∧ b.toNat < 224 → Continues c →
    n = extend (b.toNat - 192) [c] → 0x80 ≤ n → Sequence b [c] n
  | three {b c d n} : 224 ≤ b.toNat ∧ b.toNat < 240 → Continues c → Continues d →
    n = extend (b.toNat - 224) [c, d] → 0x800 ≤ n → Sequence b [c, d] n
  | four {b c d e n} : 240 ≤ b.toNat ∧ b.toNat < 248 → Continues c → Continues d → Continues e →
    n = extend (b.toNat - 240) [c, d, e] → 0x10000 ≤ n → Sequence b [c, d, e] n

theorem Sequence.continues {b : UInt8} {cs : Bytes} {n : Nat} (h : Sequence b cs n) :
    ∀ c ∈ cs, Continues c := by
  cases h
  all_goals simp_all

theorem Sequence.lead {b : UInt8} {cs : Bytes} {n : Nat} (h : Sequence b cs n) : ¬Continues b := by
  unfold Continues
  cases h
  all_goals omega

theorem Sequence.ne_nil {b : UInt8} {cs : Bytes} {n : Nat} (h : Sequence b cs n) : cs ≠ [] := by
  cases h
  all_goals exact List.cons_ne_nil _ _

theorem Sequence.le {b : UInt8} {cs : Bytes} {n : Nat} (h : Sequence b cs n) : 128 ≤ n := by
  cases h
  all_goals omega

-- Well-formed sequences are the encodings of characters.
theorem sequence_iff {b : UInt8} {cs : Bytes} {x : Char} (hx : 128 ≤ x.toNat) :
    Sequence b cs x.toNat ↔ utf8EncodeChar x = b :: cs := by
  have hlt := x.toNat_lt
  have hv : x.val.toNat = x.toNat := rfl
  simp only [utf8EncodeChar, hv, if_neg (Nat.not_le.mpr hx)]
  constructor
  case mp =>
    intro h
    cases h
    case two c hb hc hn hm =>
      unfold Continues at hc
      simp only [extend, List.foldl_cons, List.foldl_nil] at hn
      rw [if_pos (by omega), List.cons_eq_cons, List.cons_eq_cons]
      refine ⟨?_, ?_, rfl⟩ <;> apply UInt8.toNat_inj.mp <;> rw [UInt8.toNat_ofNat'] <;> omega
    case three c d hb hc hd hn hm =>
      unfold Continues at hc hd
      simp only [extend, List.foldl_cons, List.foldl_nil] at hn
      rw [if_neg (by omega), if_pos (by omega), List.cons_eq_cons, List.cons_eq_cons, List.cons_eq_cons]
      refine ⟨?_, ?_, ?_, rfl⟩ <;> apply UInt8.toNat_inj.mp <;> rw [UInt8.toNat_ofNat'] <;> omega
    case four c d e hb hc hd he hn hm =>
      unfold Continues at hc hd he
      simp only [extend, List.foldl_cons, List.foldl_nil] at hn
      rw [if_neg (by omega), if_neg (by omega), List.cons_eq_cons, List.cons_eq_cons, List.cons_eq_cons,
        List.cons_eq_cons]
      refine ⟨?_, ?_, ?_, ?_, rfl⟩ <;> apply UInt8.toNat_inj.mp <;> rw [UInt8.toNat_ofNat'] <;> omega
  case mpr =>
    intro h
    split_ifs at h
    · obtain ⟨rfl, rfl⟩ := List.cons_eq_cons.mp h
      apply Sequence.two
      any_goals simp only [Continues, extend, UInt8.toNat_ofNat', List.foldl_cons, List.foldl_nil]
      all_goals omega
    · obtain ⟨rfl, rfl⟩ := List.cons_eq_cons.mp h
      apply Sequence.three
      any_goals simp only [Continues, extend, UInt8.toNat_ofNat', List.foldl_cons, List.foldl_nil]
      all_goals omega
    · obtain ⟨rfl, rfl⟩ := List.cons_eq_cons.mp h
      apply Sequence.four
      any_goals simp only [Continues, extend, UInt8.toNat_ofNat', List.foldl_cons, List.foldl_nil]
      all_goals omega

end Utf8
