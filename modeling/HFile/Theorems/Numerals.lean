import HFile.Library.Decimal
import HFile.Source.DaemonState

-- The integer that a text denotes for `strtoul` and `strtol`.
def Denotes (s : Bytes) (n : Int) : Prop :=
  IntegerText isspace s n

theorem isdigit_iff {c : UInt8} : isdigit c = true ↔ 48 ≤ c ∧ c ≤ 57 := by
  simp [isdigit]

-- White space is neither a sign nor a digit.
theorem sign_digit_of_isspace {c : UInt8} (h : isspace c = true) : c ≠ 43 ∧ c ≠ 45 ∧ ¬(48 ≤ c ∧ c ≤ 57) := by
  simp only [isspace, Bool.decide_or, Bool.decide_and, Bool.or_eq_true, Bool.and_eq_true, decide_eq_true_eq,
    ← UInt8.toNat_inj, UInt8.le_iff_toNat_le, UInt8.reduceToNat] at h
  simp only [ne_eq, ← UInt8.toNat_inj, UInt8.le_iff_toNat_le, UInt8.reduceToNat]
  omega

theorem Denotes.unique {s : Bytes} {n m : Int} (h : Denotes s n) (h' : Denotes s m) : n = m :=
  IntegerText.unique (fun _ => sign_digit_of_isspace) h h'

theorem Sign.natAbs_apply (sign : Sign) (n : Nat) : (sign.apply n).natAbs = n := by
  cases sign <;> simp [apply]

-- The first character after the white space tells the sign.
theorem head_signed {sign : Sign} {digits : Bytes} (hd : ∀ c ∈ digits, 48 ≤ c ∧ c ≤ 57) :
    ((sign.text ++ digits).head? = some minus ↔ sign = .minus) ∧
    ((sign.text ++ digits).head? = some plus ↔ sign = .plus) := by
  cases sign <;> simp [Sign.text, minus, plus]
  cases digits
  case nil => simp
  case cons c digits =>
    have hc := hd c (List.mem_cons_self ..)
    constructor <;> rintro ⟨⟩ <;> exact absurd hc (by decide)

theorem tail_signed (sign : Sign) (digits : Bytes) :
    (if sign = .minus ∨ sign = .plus then (sign.text ++ digits).tail else sign.text ++ digits) = digits := by
  cases sign <;> rfl

-- The parts in which a text is scanned.
theorem scan_signed {blank digits : Bytes} (sign : Sign) (hb : ∀ c ∈ blank, isspace c = true)
    (hd : ∀ c ∈ digits, 48 ≤ c ∧ c ≤ 57) :
    (blank ++ (sign.text ++ digits)).dropWhile isspace = sign.text ++ digits ∧
    digits.takeWhile isdigit = digits ∧ digits.dropWhile isdigit = [] := by
  have hdigit : ∀ c ∈ digits, isdigit c = true := fun c hc => isdigit_iff.mpr (hd c hc)
  refine ⟨?_, List.takeWhile_eq_self_iff.mpr hdigit, List.dropWhile_eq_nil_iff.mpr hdigit⟩
  exact IntegerText.dropWhile_blank (fun _ => sign_digit_of_isspace) hb hd

-- `strtol` adds up the digits as an integer.
theorem decimalValue_cast (digits : Bytes) :
    digits.foldl (fun (v : Int) d => v * 10 + (d - 48).toNat) 0 = decimalValue digits := by
  have hcast : ∀ n : Nat, digits.foldl (fun (v : Int) d => v * 10 + (d - 48).toNat) n =
      (digits.foldl (fun v d => v * 10 + (d - 48).toNat) n : Nat) := by
    induction digits
    case nil          => exact fun _ => rfl
    case cons c _ hi => exact fun n => by exact_mod_cast hi (n * 10 + (c - 48).toNat)
  exact hcast 0

section

variable {blank digits : Bytes} {sign : Sign} (hb : ∀ c ∈ blank, isspace c = true) (hne : digits ≠ [])
  (hd : ∀ c ∈ digits, 48 ≤ c ∧ c ≤ 57)
include hb hne hd

theorem strtoul_text : strtoul (blank ++ (sign.text ++ digits)) =
    if decimalValue digits ≥ 2 ^ 64 then (2 ^ 64 - 1, true, [])
    else (if sign = .minus then (2 ^ 64 - decimalValue digits) % 2 ^ 64 else decimalValue digits, false, []) := by
  obtain ⟨hblank, htake, hdrop⟩ := scan_signed sign hb hd
  simp only [strtoul, hblank, (head_signed hd).left, (head_signed hd).right, tail_signed, htake, hdrop, if_neg hne]
  rfl

theorem strtol_text : strtol (blank ++ (sign.text ++ digits)) =
    if sign = .minus then
      if (decimalValue digits : Int) > 2 ^ 63 then (-2 ^ 63, true, []) else (-(decimalValue digits : Int), false, [])
    else
      if (decimalValue digits : Int) > 2 ^ 63 - 1 then (2 ^ 63 - 1, true, [])
      else ((decimalValue digits : Int), false, []) := by
  obtain ⟨hblank, htake, hdrop⟩ := scan_signed sign hb hd
  simp only [strtol, hblank, (head_signed hd).left, (head_signed hd).right, tail_signed, htake, hdrop, if_neg hne,
    decimalValue_cast]

end

variable {s : Bytes} {n : Int}

theorem Denotes.ne_nil (h : Denotes s n) : s ≠ [] := by
  obtain ⟨sign, _, hne, _⟩ := h
  simp [hne]

theorem strtoul_denotes (h : Denotes s n) :
    strtoul s = if n.natAbs ≥ 2 ^ 64 then (2 ^ 64 - 1, true, []) else ((n % 2 ^ 64).toNat, false, []) := by
  obtain ⟨sign, hb, hne, hd⟩ := h
  rw [strtoul_text hb hne hd, Sign.natAbs_apply]
  split
  case isTrue    => rfl
  case isFalse h => 
    cases sign <;> simp only [Sign.apply, reduceCtorEq, if_false, if_true, Prod.mk.injEq, and_true] <;> omega

theorem strtol_denotes (h : Denotes s n) :
    strtol s = if n < -2 ^ 63 then (-2 ^ 63, true, []) else if n > 2 ^ 63 - 1 then (2 ^ 63 - 1, true, [])
      else (n, false, []) := by
  obtain @⟨_, digits, sign, hb, hne, hd⟩ := h
  rw [strtol_text hb hne hd]
  generalize hn : sign.apply (decimalValue digits) = n
  cases sign <;> simp only [Sign.apply] at hn <;> simp only [reduceCtorEq, if_false, if_true, hn]
  case absent => rw [if_neg (show ¬n < -2 ^ 63 by omega)]
  case plus   => rw [if_neg (show ¬n < -2 ^ 63 by omega)]
  case minus  =>
    rw [if_neg (show ¬n > 2 ^ 63 - 1 by omega)]
    exact if_congr (by omega) rfl rfl

-- What follows a sign.
def afterSign (t : Bytes) : Bytes :=
  if t.head? = some minus ∨ t.head? = some plus then t.tail else t

theorem sign_afterSign (t : Bytes) : ∃ sign : Sign, t = sign.text ++ afterSign t := by
  by_cases hm : t.head? = some minus
  case pos =>
    refine ⟨.minus, ?_⟩
    rw [afterSign, if_pos (.inl hm)]
    exact (List.cons_head?_tail hm).symm
  case neg =>
    by_cases hp : t.head? = some plus
    case pos =>
      refine ⟨.plus, ?_⟩
      rw [afterSign, if_pos (.inr hp)]
      exact (List.cons_head?_tail hp).symm
    case neg =>
      refine ⟨.absent, ?_⟩
      rw [afterSign, if_neg (not_or.mpr ⟨hm, hp⟩)]
      rfl

-- What is converted as a whole denotes an integer.
theorem denotes_of_scan (hne : (afterSign (s.dropWhile isspace)).takeWhile isdigit ≠ [])
    (hrest : (afterSign (s.dropWhile isspace)).dropWhile isdigit = []) : ∃ n, Denotes s n := by
  have hb : ∀ c ∈ s.takeWhile isspace, isspace c = true := fun _ => List.mem_takeWhile_imp
  have hd : ∀ c ∈ afterSign (s.dropWhile isspace), 48 ≤ c ∧ c ≤ 57 :=
    fun c hc => isdigit_iff.mp (List.dropWhile_eq_nil_iff.mp hrest c hc)
  have hnil : afterSign (s.dropWhile isspace) ≠ [] := fun h => hne (by rw [h, List.takeWhile_nil])
  obtain ⟨sign, hsign⟩ := sign_afterSign (s.dropWhile isspace)
  have hs : s = s.takeWhile isspace ++ (sign.text ++ afterSign (s.dropWhile isspace)) := by
    rw [← hsign, List.takeWhile_append_dropWhile]
  rw [hs]
  exact ⟨_, .intro sign hb hnil hd⟩

-- Both functions agree about the rest.
theorem strtoul_rest (s : Bytes) : (strtoul s).2.2 =
    if (afterSign (s.dropWhile isspace)).takeWhile isdigit = [] then s
    else (afterSign (s.dropWhile isspace)).dropWhile isdigit := by
  simp only [strtoul, afterSign, apply_ite Prod.snd, ite_self]
  rfl

theorem strtol_rest (s : Bytes) : (strtol s).2.2 = (strtoul s).2.2 := by
  simp only [strtol, strtoul, apply_ite Prod.snd, ite_self]

theorem denotes_of_strtoul (hs : s ≠ []) (h : (strtoul s).2.2 = []) : ∃ n, Denotes s n := by
  rw [strtoul_rest] at h
  split at h
  case isTrue      => exact absurd h hs
  case isFalse hne => exact denotes_of_scan hne h

section

variable {value : CStr} (h : Denotes value.chars n)
include h

-- A text is taken for the number that it denotes, up to a multiple of 2 ^ 64.
theorem daemonStateParseU16_denotes : daemonStateParseU16 value =
    if n.natAbs < 2 ^ 64 ∧ n % 2 ^ 64 ≤ 65535 then some (n % 2 ^ 64).toNat.toUInt16 else none := by
  have hrest : ¬[] = value.chars := fun he => h.ne_nil he.symm
  rw [daemonStateParseU16, if_neg h.ne_nil, strtoul_denotes h]
  by_cases hn : n.natAbs ≥ 2 ^ 64
  case pos =>
    rw [if_pos hn, if_neg (by omega)]
    rfl
  case neg =>
    rw [if_neg hn, ← ite_not]
    refine if_congr ?_ rfl rfl
    simp only [Bool.false_eq_true, hrest, ne_eq, not_true_eq_false, false_or]
    omega

theorem parsePort_denotes : parsePort value =
    if n.natAbs < 2 ^ 64 ∧ n % 2 ^ 64 ≤ 65535 ∧ n % 2 ^ 64 ≠ 0 then some (n % 2 ^ 64).toNat.toUInt16 else none := by
  have hrest : ¬[] = value.chars := fun he => h.ne_nil he.symm
  rw [parsePort, if_neg h.ne_nil, strtoul_denotes h]
  by_cases hn : n.natAbs ≥ 2 ^ 64
  case pos =>
    rw [if_pos hn, if_neg (by omega)]
    rfl
  case neg =>
    rw [if_neg hn]
    simp only [Bool.false_eq_true, hrest, ne_eq, not_true_eq_false, false_or, if_false]
    rw [← ite_not]
    refine if_congr ?_ rfl rfl
    omega

theorem daemonStateParseLong_denotes : daemonStateParseLong value =
    if -2 ^ 63 ≤ n ∧ n ≤ 2 ^ 63 - 1 then some n else none := by
  have hrest : ¬[] = value.chars := fun he => h.ne_nil he.symm
  rw [daemonStateParseLong, if_neg h.ne_nil, strtol_denotes h]
  by_cases hlow : n < -2 ^ 63
  case pos =>
    rw [if_pos hlow, if_neg (by omega)]
    rfl
  case neg =>
    rw [if_neg hlow]
    by_cases hhigh : n > 2 ^ 63 - 1
    case pos =>
      rw [if_pos hhigh, if_neg (by omega)]
      rfl
    case neg =>
      rw [if_neg hhigh, if_pos (by omega)]
      simp [hrest]

end

section

variable {value : CStr} (h : ¬∃ n, Denotes value.chars n)
include h

-- A text that denotes nothing is not converted as a whole.
theorem rest_of_not_denotes : value.chars = [] ∨ (strtoul value.chars).2.2 ≠ [] := by
  by_cases hs : value.chars = []
  case pos => exact .inl hs
  case neg => exact .inr fun hrest => h (denotes_of_strtoul hs hrest)

theorem daemonStateParseU16_not_denotes : daemonStateParseU16 value = none := by
  rw [daemonStateParseU16]
  cases rest_of_not_denotes h
  case inl hs    => rw [if_pos hs]
  case inr hrest =>
    split
    case isTrue  => rfl
    case isFalse => exact if_pos (.inr <| .inr <| .inl hrest)

theorem parsePort_not_denotes : parsePort value = none := by
  rw [parsePort]
  cases rest_of_not_denotes h
  case inl hs    => rw [if_pos hs]
  case inr hrest =>
    split
    case isTrue  => rfl
    case isFalse => exact if_pos (.inr <| .inr hrest)

theorem daemonStateParseLong_not_denotes : daemonStateParseLong value = none := by
  rw [daemonStateParseLong]
  cases rest_of_not_denotes h
  case inl hs    => rw [if_pos hs]
  case inr hrest =>
    rw [← strtol_rest] at hrest
    split
    case isTrue  => rfl
    case isFalse => exact if_pos (.inr <| .inr hrest)

end

-- `strtol` keeps the sign, so that a `long` is read exactly.
theorem daemonStateParseLong_some_iff {value : CStr} :
    daemonStateParseLong value = some n ↔ Denotes value.chars n ∧ -2 ^ 63 ≤ n ∧ n ≤ 2 ^ 63 - 1 := by
  constructor
  case mp =>
    intro h
    by_cases hden : ∃ m, Denotes value.chars m
    case neg =>
      rw [daemonStateParseLong_not_denotes hden] at h
      cases h
    case pos =>
      obtain ⟨m, hm⟩ := hden
      rw [daemonStateParseLong_denotes hm] at h
      split at h
      case isTrue hle =>
        cases h
        exact ⟨hm, hle⟩
      case isFalse => cases h
  case mpr =>
    rintro ⟨hn, hle⟩
    rw [daemonStateParseLong_denotes hn, if_pos hle]

-- The numbers that are read as a port although they are negative.
def WrapsToPort (s : CStr) : Prop :=
  ∃ n, Denotes s.chars n ∧ -2 ^ 64 < n ∧ n ≤ 65535 - 2 ^ 64

theorem daemonStateParseU16_some_iff {value : CStr} (hw : ¬WrapsToPort value) {out : UInt16} :
    daemonStateParseU16 value = some out ↔ Denotes value.chars out.toNat := by
  have hout := out.toNat_lt
  constructor
  case mp =>
    intro h
    by_cases hden : ∃ n, Denotes value.chars n
    case neg =>
      rw [daemonStateParseU16_not_denotes hden] at h
      cases h
    case pos =>
      obtain ⟨n, hn⟩ := hden
      rw [daemonStateParseU16_denotes hn] at h
      split at h
      case isFalse => cases h
      case isTrue hlt =>
        have hlow : ¬(-2 ^ 64 < n ∧ n ≤ 65535 - 2 ^ 64) := fun hle => hw ⟨n, hn, hle⟩
        have hval : (n % 2 ^ 64).toNat.toUInt16.toNat = n.toNat := by
          rw [Nat.toUInt16_eq, UInt16.toNat_ofNat']
          omega
        cases h
        rw [hval, Int.toNat_of_nonneg (by omega)]
        exact hn
  case mpr =>
    intro hn
    rw [daemonStateParseU16_denotes hn, if_pos (by omega)]
    have hval : ((out.toNat : Int) % 2 ^ 64).toNat = out.toNat := by omega
    rw [hval]
    simp

-- A port from the command line is one from the state file that is not zero.
theorem parsePort_some_iff {s : CStr} {v : UInt16} :
    parsePort s = some v ↔ daemonStateParseU16 s = some v ∧ v ≠ 0 := by
  by_cases hden : ∃ n, Denotes s.chars n
  case neg => simp [parsePort_not_denotes hden, daemonStateParseU16_not_denotes hden]
  case pos =>
    obtain ⟨n, hn⟩ := hden
    have hzero : n % 2 ^ 64 ≤ 65535 → ((n % 2 ^ 64).toNat.toUInt16 = 0 ↔ n % 2 ^ 64 = 0) := by
      intro hle
      rw [← UInt16.toNat_inj, Nat.toUInt16_eq, UInt16.toNat_ofNat', UInt16.toNat_zero]
      omega
    rw [parsePort_denotes hn, daemonStateParseU16_denotes hn]
    constructor
    case mp =>
      intro h
      split at h
      case isFalse => cases h
      case isTrue hlt =>
        cases h
        exact ⟨if_pos ⟨hlt.left, hlt.right.left⟩, (hzero hlt.right.left).not.mpr hlt.right.right⟩
    case mpr =>
      rintro ⟨h, hv⟩
      split at h
      case isFalse => cases h
      case isTrue hlt =>
        cases h
        exact if_pos ⟨hlt.left, hlt.right, (hzero hlt.right).not.mp hv⟩

-- A negative number that wraps is accepted as a port by both functions.
theorem wrapsToPort_accepted {s : CStr} (hw : WrapsToPort s) :
    ∃ v : UInt16, parsePort s = some v ∧ daemonStateParseU16 s = some v ∧ ¬Denotes s.chars v.toNat := by
  obtain ⟨n, hn, hle⟩ := hw
  refine ⟨(n % 2 ^ 64).toNat.toUInt16, ?_, ?_, ?_⟩
  · rw [parsePort_denotes hn, if_pos (by omega)]
  · rw [daemonStateParseU16_denotes hn, if_pos (by omega)]
  · intro hv
    have := hn.unique hv
    omega

-- The port that a text is accepted as is the number that it denotes, and no number out of range is
-- accepted.
structure PortExact (parse : CStr → Option UInt16) (low : Int) (s : CStr) : Prop where
  value : ∀ v, parse s = some v → Denotes s.chars v.toNat
  range : ∀ n, Denotes s.chars n → n < low ∨ 65535 < n → parse s = none

-- What only accepts the number that a text denotes accepts no number out of range.
theorem PortExact.of_value {parse : CStr → Option UInt16} {low : Int} {s : CStr}
    (h : ∀ v, parse s = some v → Denotes s.chars v.toNat ∧ low ≤ v.toNat) : PortExact parse low s := by
  refine ⟨fun v hv => (h v hv).left, fun n hn hrange => ?_⟩
  cases hv : parse s
  case none   => rfl
  case some v =>
    have hlt := v.toNat_lt
    obtain ⟨hden, hlow⟩ := h v hv
    have := hn.unique hden
    omega

-- A text is read exactly unless it denotes a negative number that wraps to a port.
theorem acceptedPort_exact_iff (s : CStr) :
    (PortExact parsePort 1 s ↔ ¬WrapsToPort s) ∧ (PortExact daemonStateParseU16 0 s ↔ ¬WrapsToPort s) := by
  constructor
  case left =>
    constructor
    case mp =>
      intro h hw
      obtain ⟨v, hport, _, hv⟩ := wrapsToPort_accepted hw
      exact hv (h.value v hport)
    case mpr =>
      intro hw
      apply PortExact.of_value
      intro v hv
      obtain ⟨hv, hne⟩ := parsePort_some_iff.mp hv
      have hpos : 0 < v.toNat := Nat.pos_of_ne_zero fun h => hne (UInt16.toNat_inj.mp h)
      exact ⟨(daemonStateParseU16_some_iff hw).mp hv, by omega⟩
  case right =>
    constructor
    case mp =>
      intro h hw
      obtain ⟨v, _, hport, hv⟩ := wrapsToPort_accepted hw
      exact hv (h.value v hport)
    case mpr =>
      intro hw
      apply PortExact.of_value
      intro v hv
      exact ⟨(daemonStateParseU16_some_iff hw).mp hv, by omega⟩

-- The text of 1 - 2 ^ 64 is accepted as port 1.
theorem acceptedPort_wraps :
    parsePort (.lit "-18446744073709551615") = some 1 ∧
    daemonStateParseU16 (.lit "-18446744073709551615") = some 1 ∧
    Denotes (CStr.lit "-18446744073709551615").chars (-18446744073709551615) ∧
    ¬PortExact parsePort 1 (.lit "-18446744073709551615") ∧
    ¬PortExact daemonStateParseU16 0 (.lit "-18446744073709551615") := by
  have hden : Denotes (CStr.lit "-18446744073709551615").chars (-18446744073709551615) := by
    have htext : (CStr.lit "-18446744073709551615").chars =
        [] ++ (Sign.minus.text ++ (CStr.lit "18446744073709551615").chars) := by decide
    have hval : decimalValue (CStr.lit "18446744073709551615").chars = 18446744073709551615 := by decide
    have hne : (CStr.lit "18446744073709551615").chars ≠ [] := by decide
    have h : Denotes _ _ := .intro .minus (List.forall_mem_nil _) hne (by decide +kernel)
    rwa [← htext, Sign.apply, hval] at h
  have hport : parsePort (.lit "-18446744073709551615") = some 1 := by decide
  have hu16 : daemonStateParseU16 (.lit "-18446744073709551615") = some 1 := by decide
  refine ⟨hport, hu16, hden, fun h => ?_, fun h => ?_⟩
  · exact absurd (hden.unique (h.value 1 hport)) (by decide)
  · exact absurd (hden.unique (h.value 1 hu16)) (by decide)
