import HFile.Library.Utf8

-- JSON texts, as sequences of bytes.
namespace Json

open String (utf8EncodeChar)

def quote : UInt8 := 34
def backslash : UInt8 := 92

-- White space of RFC 8259.
def isSpace (c : UInt8) : Bool :=
  c = 32 ∨ c = 9 ∨ c = 10 ∨ c = 13

def hexValue (c : UInt8) : Option Nat :=
  if 48 ≤ c ∧ c ≤ 57 then some (c.toNat - 48)
  else if 65 ≤ c ∧ c ≤ 70 then some (c.toNat - 55)
  else if 97 ≤ c ∧ c ≤ 102 then some (c.toNat - 87)
  else none

-- The code unit that is written with four digits.
def codeUnit (a b c d : UInt8) : Option Nat := do
  return (((← hexValue a) * 16 + (← hexValue b)) * 16 + (← hexValue c)) * 16 + (← hexValue d)

-- The character that a backslash stands for together with `c`.
def shortEscape (c : UInt8) : Option UInt8 :=
  match c.toNat with
  | 34  => some 34
  | 92  => some 92
  | 47  => some 47
  | 98  => some 8
  | 102 => some 12
  | 110 => some 10
  | 114 => some 13
  | 116 => some 9
  | _   => none

-- The scalar `x` is written as the code unit of the four digits.
def Unit (a b c d : UInt8) (x : Char) : Prop :=
  codeUnit a b c d = some x.toNat

-- The scalar `x` is written as two code units, a high and a low surrogate.
def Pair (a b c d a' b' c' d' : UInt8) (x : Char) : Prop :=
  ∃ high low, codeUnit a b c d = some high ∧ codeUnit a' b' c' d' = some low ∧
    (0xD800 ≤ high ∧ high ≤ 0xDBFF) ∧ (0xDC00 ≤ low ∧ low ≤ 0xDFFF) ∧
    x.toNat = 0x10000 + (high - 0xD800) * 0x400 + (low - 0xDC00)

-- The piece of a string that stands for one value: `Piece t v` holds if the text `t` is a single
-- byte or escape with the value `v`. The byte can be any one, also a control character or a part of
-- a malformed UTF-8 sequence.
inductive Piece : Bytes → Bytes → Prop
  | byte {c} : c ≠ quote → c ≠ backslash → Piece [c] [c]
  | short {d c} : shortEscape d = some c → Piece [backslash, d] [c]
  | unit {a b c d x} : Unit a b c d x → Piece [backslash, 117, a, b, c, d] (utf8EncodeChar x)
  | pair {a b c d a' b' c' d' x} : Pair a b c d a' b' c' d' x →
    Piece [backslash, 117, a, b, c, d, backslash, 117, a', b', c', d'] (utf8EncodeChar x)

-- The contents of a string, and its value.
inductive Spells : Bytes → Bytes → Prop
  | nil : Spells [] []
  | cons {t v ts vs} : Piece t v → Spells ts vs → Spells (t ++ ts) (v ++ vs)

-- The ways to write a scalar. Control characters, the quote and the backslash need an escape.
inductive Spelling : Bytes → Char → Prop
  | raw {x} : 0x20 ≤ x.toNat → x.toNat ≠ quote.toNat → x.toNat ≠ backslash.toNat →
    Spelling (utf8EncodeChar x) x
  | short {d c x} : shortEscape d = some c → c.toNat = x.toNat → Spelling [backslash, d] x
  | unit {a b c d x} : Unit a b c d x → Spelling [backslash, 117, a, b, c, d] x
  | pair {a b c d a' b' c' d' x} : Pair a b c d a' b' c' d' x →
    Spelling [backslash, 117, a, b, c, d, backslash, 117, a', b', c', d'] x

inductive TextSpelling : Bytes → List Char → Prop
  | nil : TextSpelling [] []
  | cons {t x ts xs} : Spelling t x → TextSpelling ts xs → TextSpelling (t ++ ts) (x :: xs)

-- Whether every quote comes after the backslash of an escape, and no backslash is left without a
-- byte to escape.
def escaped : Bytes → Bool
  | []          => true
  | [c]         => c ≠ quote ∧ c ≠ backslash
  | c :: d :: t => if c = backslash then escaped t else c ≠ quote ∧ escaped (d :: t)

-- The object with a single member whose value is a string. The kind of white space and the way in
-- which strings are written are parameters.
inductive Object (space : UInt8 → Bool) (Str : Bytes → σ → Prop) : Bytes → σ → σ → Prop
  | mk {s₀ s₁ s₂ s₃ s₄ s₅ k v : Bytes} {key value : σ} :
    (∀ c ∈ s₀ ++ s₁ ++ s₂ ++ s₃ ++ s₄ ++ s₅, space c = true) → Str k key → Str v value →
    Object space Str (s₀ ++ 123 :: (s₁ ++ quote :: (k ++ quote :: (s₂ ++ 58 :: (s₃ ++
      quote :: (v ++ quote :: (s₄ ++ 125 :: s₅))))))) key value

theorem shortEscape_some {d c : UInt8} (h : shortEscape d = some c) : d ≠ 0 ∧ c.toNat < 128 := by
  have hd : d ≠ 0 := by
    rintro rfl
    exact nomatch h
  rw [shortEscape] at h
  split at h
  case h_9 => exact nomatch h
  all_goals exact ⟨hd, Option.some.inj h ▸ by decide⟩

theorem hexValue_some {c : UInt8} {n : Nat} (h : hexValue c = some n) :
    c ≠ 0 ∧ (c ≠ quote ∧ c ≠ backslash) ∧ n < 16 := by
  simp only [hexValue, UInt8.le_iff_toNat_le, UInt8.reduceToNat] at h
  simp only [quote, backslash, ne_eq, ← UInt8.toNat_inj, UInt8.reduceToNat]
  split_ifs at h
  all_goals
    rw [Option.some.injEq] at h
    omega

theorem codeUnit_some {a b c d : UInt8} {n : Nat} (h : codeUnit a b c d = some n) :
    0 ∉ [a, b, c, d] ∧ (∀ x ∈ [a, b, c, d], x ≠ quote ∧ x ≠ backslash) ∧ n < 0x10000 := by
  simp only [codeUnit, Option.bind_eq_bind, Option.pure_def, Option.bind_eq_some_iff,
    Option.some.injEq] at h
  obtain ⟨na, ha, nb, hb, nc, hc, nd, hd, rfl⟩ := h
  have ⟨ha, ha', hna⟩ := hexValue_some ha
  have ⟨hb, hb', hnb⟩ := hexValue_some hb
  have ⟨hc, hc', hnc⟩ := hexValue_some hc
  have ⟨hd, hd', hnd⟩ := hexValue_some hd
  refine ⟨?_, ?_, ?_⟩
  · simp [ha.symm, hb.symm, hc.symm, hd.symm]
  · simp [ha', hb', hc', hd']
  · omega

theorem Spells.append {t v ts vs : Bytes} (h : Spells t v) (hs : Spells ts vs) :
    Spells (t ++ ts) (v ++ vs) := by
  induction h
  case nil => exact hs
  case cons hp _ hi =>
    rw [List.append_assoc, List.append_assoc]
    exact .cons hp hi

theorem Spells.bytes {t : Bytes} (h : ∀ c ∈ t, c ≠ quote ∧ c ≠ backslash) : Spells t t := by
  induction t
  case nil => exact .nil
  case cons c t hi =>
    have ⟨hq, hb⟩ := h c List.mem_cons_self
    exact .cons (.byte hq hb) (hi fun c hc => h c (List.mem_cons_of_mem _ hc))

theorem Piece.spells {t v : Bytes} (h : Piece t v) : Spells t v := by
  have hs := Spells.cons h .nil
  rwa [List.append_nil, List.append_nil] at hs

theorem escaped_byte {c : UInt8} {t : Bytes} (hq : c ≠ quote) (hb : c ≠ backslash) :
    escaped (c :: t) = escaped t := by
  cases t
  case nil  => simp [escaped, hq, hb]
  case cons => simp [escaped, hq, hb]

theorem escaped_bytes {s t : Bytes} (h : ∀ c ∈ s, c ≠ quote ∧ c ≠ backslash) :
    escaped (s ++ t) = escaped t := by
  induction s
  case nil => rfl
  case cons c s hi =>
    have ⟨hq, hb⟩ := h c List.mem_cons_self
    rw [List.cons_append, escaped_byte hq hb]
    exact hi fun c hc => h c (List.mem_cons_of_mem _ hc)

theorem escaped_unit {a b c d : UInt8} {n : Nat} {t : Bytes} (h : codeUnit a b c d = some n) :
    escaped (backslash :: 117 :: a :: b :: c :: d :: t) = escaped t :=
  escaped_bytes (s := [a, b, c, d]) (codeUnit_some h).right.left

theorem Piece.escaped_append {t v ts : Bytes} (h : Piece t v) : escaped (t ++ ts) = escaped ts := by
  cases h
  case byte hq hb => exact escaped_byte hq hb
  case short      => rfl
  case unit h     => exact escaped_unit h
  case pair h     =>
    obtain ⟨_, _, h, h', _⟩ := h
    exact (escaped_unit h).trans (escaped_unit h')

theorem Spells.escaped {t v : Bytes} (h : Spells t v) : escaped t = true := by
  induction h
  case nil          => rfl
  case cons hp _ hi => exact hp.escaped_append.trans hi

section

variable {t ts : Bytes} {x : Char} {xs : List Char}

theorem of_mem_utf8EncodeChar {c : UInt8} (hc : c ∈ utf8EncodeChar x) :
    c.toNat = x.toNat ∨ 128 ≤ c.toNat := by
  by_cases h : x.toNat < 128
  case pos =>
    rw [utf8EncodeChar_ascii h, List.mem_singleton] at hc
    rw [hc, UInt8.toNat_ofNat']
    omega
  case neg => exact .inr (le_of_mem_utf8EncodeChar (Nat.le_of_not_lt h) hc)

theorem Spelling.spells (h : Spelling t x) : Spells t (utf8EncodeChar x) := by
  cases h
  case raw hq hb =>
    apply Spells.bytes
    intro c hc
    have hne : ∀ d : UInt8, x.toNat ≠ d.toNat → d.toNat < 128 → c ≠ d := by
      rintro d hx hd rfl
      cases of_mem_utf8EncodeChar hc
      case inl h => exact hx h.symm
      case inr h => omega
    exact ⟨hne _ hq (by decide), hne _ hb (by decide)⟩
  case short d c hd hx =>
    have hv : utf8EncodeChar x = [c] := by
      rw [utf8EncodeChar_ascii]
      · rw [← hx, UInt8.ofNat_toNat]
      · exact hx ▸ (shortEscape_some hd).right
    rw [hv]
    exact (Piece.short hd).spells
  case unit h => exact (Piece.unit h).spells
  case pair h => exact (Piece.pair h).spells

theorem Spelling.nul_free (h : Spelling t x) : 0 ∉ t := by
  cases h
  case raw hx _ _ =>
    intro h
    cases of_mem_utf8EncodeChar h
    case inl h => rw [← h] at hx; exact absurd hx (by decide)
    case inr h => exact absurd h (by decide)
  case short hd _ => simp [backslash, (shortEscape_some hd).left.symm]
  case unit h     => simpa [backslash] using (codeUnit_some h).left
  case pair h     =>
    obtain ⟨_, _, h, h', _⟩ := h
    have hz := (codeUnit_some h).left
    have hz' := (codeUnit_some h').left
    simp only [List.mem_cons, List.not_mem_nil, or_false, not_or] at hz hz'
    simp [backslash, hz, hz']

theorem TextSpelling.raw (h : ∀ x ∈ xs, 0x20 ≤ x.toNat ∧ x.toNat ≠ quote.toNat ∧ x.toNat ≠ backslash.toNat) :
    TextSpelling (utf8 xs) xs := by
  induction xs
  case nil => exact .nil
  case cons x xs hi =>
    have ⟨hx, hq, hb⟩ := h x List.mem_cons_self
    exact .cons (.raw hx hq hb) (hi fun y hy => h y (List.mem_cons_of_mem _ hy))

theorem TextSpelling.spells (h : TextSpelling t xs) : Spells t (utf8 xs) := by
  induction h
  case nil         => exact .nil
  case cons h _ hi => exact h.spells.append hi

theorem TextSpelling.nul_free (h : TextSpelling t xs) : 0 ∉ t := by
  induction h
  case nil         => exact List.not_mem_nil
  case cons h _ hi => exact List.not_mem_append h.nul_free hi

end

section

variable {space space' : UInt8 → Bool} {Str : Bytes → σ → Prop} {t : Bytes} {key value : σ}

-- White space and strings can be read in a more general way.
theorem Object.map {Str' : Bytes → τ → Prop} {f : σ → τ} (h : Object space Str t key value)
    (hs : ∀ c, space c = true → space' c = true) (hf : ∀ s v, Str s v → Str' s (f v)) :
    Object space' Str' t (f key) (f value) := by
  obtain ⟨hw, hk, hv⟩ := h
  exact .mk (fun c hc => hs c (hw c hc)) (hf _ _ hk) (hf _ _ hv)

theorem Object.nul_free (h : Object space Str t key value) (hs : space 0 = false)
    (hf : ∀ s v, Str s v → 0 ∉ s) : 0 ∉ t := by
  obtain @⟨s₀, s₁, s₂, s₃, s₄, s₅, k, v, _, _, hw, hk, hv⟩ := h
  have hw : 0 ∉ s₀ ++ s₁ ++ s₂ ++ s₃ ++ s₄ ++ s₅ := fun h => by simpa [hs] using hw 0 h
  simp only [List.mem_append, not_or] at hw
  simp [hw, hf _ _ hk, hf _ _ hv, quote]

end

end Json
