import HFile.Library.Json
import HFile.Theorems.Json
import HFile.Theorems.Http

open String (utf8EncodeChar)
open Json (Piece Spells codeUnit hexValue shortEscape)

namespace httpBufAppendUtf8

theorem next_eq {cp shift : UInt32} (h : shift.toNat < 32) :
    next cp shift = .ofNat (cp.toNat / 2 ^ shift.toNat % 64 + 128) := by
  have hor : 128 ||| cp.toNat / 2 ^ shift.toNat % 64 = 128 + cp.toNat / 2 ^ shift.toNat % 64 :=
    (Nat.two_pow_add_eq_or_of_lt (i := 6) (Nat.mod_lt _ (by decide)) 2).symm
  apply UInt8.toNat_inj.mp
  simp only [next, UInt32.toNat_toUInt8, UInt32.toNat_or, UInt32.toNat_and, UInt32.toNat_shiftRight,
    UInt32.reduceToNat, Nat.shiftRight_eq_div_pow, Nat.mod_eq_of_lt h, UInt8.toNat_ofNat']
  rw [show 63 = 2 ^ 6 - 1 from rfl, Nat.and_two_pow_sub_one_eq_mod, show 2 ^ 6 = 64 from rfl, hor,
    Nat.add_comm]

theorem lead_eq {cp mark shift : UInt32} (k m : Nat) (h : shift.toNat < 32)
    (hm : mark.toNat = 2 ^ k * m) (hcp : cp.toNat / 2 ^ shift.toNat < 2 ^ k) :
    lead cp mark shift = .ofNat (cp.toNat / 2 ^ shift.toNat % 2 ^ k + mark.toNat) := by
  have hor : mark.toNat ||| cp.toNat / 2 ^ shift.toNat = mark.toNat + cp.toNat / 2 ^ shift.toNat :=
    hm ▸ (Nat.two_pow_add_eq_or_of_lt hcp m).symm
  apply UInt8.toNat_inj.mp
  simp only [lead, UInt32.toNat_toUInt8, UInt32.toNat_or, UInt32.toNat_shiftRight,
    Nat.shiftRight_eq_div_pow, Nat.mod_eq_of_lt h, UInt8.toNat_ofNat', Nat.mod_eq_of_lt hcp]
  rw [hor, Nat.add_comm]

end httpBufAppendUtf8

-- The hand-written encoder is the one of the Unicode standard.
theorem httpBufAppendUtf8_char (x : Char) : httpBufAppendUtf8 x.val = utf8EncodeChar x := by
  have hx : x.val.toNat < 0x110000 := x.toNat_lt
  simp only [httpBufAppendUtf8, utf8EncodeChar, UInt32.le_iff_toNat_le, UInt32.reduceToNat]
  split
  case isTrue  => congr 1
  case isFalse =>
    split
    case isTrue h =>
      rw [httpBufAppendUtf8.lead_eq 5 6 (by decide) (by decide)
        (Nat.div_lt_of_lt_mul (Nat.lt_of_le_of_lt h (by decide))), httpBufAppendUtf8.next_eq (by decide)]
      simp
    case isFalse =>
      split
      case isTrue h =>
        rw [httpBufAppendUtf8.lead_eq 4 14 (by decide) (by decide)
          (Nat.div_lt_of_lt_mul (Nat.lt_of_le_of_lt h (by decide))),
          httpBufAppendUtf8.next_eq (by decide), httpBufAppendUtf8.next_eq (by decide)]
        simp
      case isFalse =>
        rw [httpBufAppendUtf8.lead_eq 3 30 (by decide) (by decide)
          (Nat.div_lt_of_lt_mul (Nat.lt_of_lt_of_le hx (by decide))),
          httpBufAppendUtf8.next_eq (by decide), httpBufAppendUtf8.next_eq (by decide),
          httpBufAppendUtf8.next_eq (by decide)]
        simp

theorem hexValue_eq (c : UInt8) : hexValue c = if isxdigit c then some (hexDigit c).toNat else none := by
  simp only [hexValue, isxdigit, hexDigit, isdigit, tolower, UInt8.le_iff_toNat_le, UInt8.reduceToNat,
    decide_eq_true_eq]
  split_ifs
  any_goals omega
  all_goals simp only [Option.some.injEq, UInt8.toNat_sub, UInt8.toNat_add, UInt8.reduceToNat]
  any_goals omega

theorem httpJsonParseString.short_eq (c : UInt8) : short c = shortEscape c := by
  rw [shortEscape]
  split
  all_goals simp_all [short, ← UInt8.toNat_inj]

theorem httpJsonParseHex4_eq (a b c d : UInt8) :
    httpJsonParseHex4 a b c d = (codeUnit a b c d).map .ofNat := by
  simp only [httpJsonParseHex4, codeUnit, hexValue_eq]
  by_cases ha : isxdigit a = true
  case neg => simp [ha]
  by_cases hb : isxdigit b = true
  case neg => simp [hb]
  by_cases hc : isxdigit c = true
  case neg => simp [hc]
  by_cases hd : isxdigit d = true
  case neg => simp [hd]
  simp only [ha, hb, hc, hd, and_self, if_true]
  simp
  
theorem httpJsonParseHex4_some {a b c d : UInt8} {u : UInt16} :
    httpJsonParseHex4 a b c d = some u ↔ codeUnit a b c d = some u.toNat := by
  rw [httpJsonParseHex4_eq, Option.map_eq_some_iff]
  constructor
  case mp =>
    rintro ⟨n, hn, rfl⟩
    rw [hn, UInt16.toNat_ofNat', Nat.mod_eq_of_lt (Json.codeUnit_some hn).right.right]
  case mpr => exact fun h => ⟨_, h, UInt16.ofNat_toNat⟩

-- Code units that are not surrogates are scalars.
theorem unit_some {a b c d : UInt8} {u : UInt16} (h : httpJsonParseHex4 a b c d = some u)
    (hhigh : ¬(0xD800 ≤ u ∧ u ≤ 0xDBFF)) (hlow : ¬(0xDC00 ≤ u ∧ u ≤ 0xDFFF)) :
    ∃ x : Char, Json.Unit a b c d x ∧ u.toUInt32 = x.val := by
  have hu := u.toNat_lt
  simp only [UInt16.le_iff_toNat_le, UInt16.reduceToNat] at hhigh hlow
  have hv : u.toUInt32.isValidChar := by
    rw [UInt32.isValidChar, UInt16.toNat_toUInt32, Nat.isValidChar]
    omega
  exact ⟨⟨u.toUInt32, hv⟩, httpJsonParseHex4_some.mp h, rfl⟩

theorem some_of_unit {a b c d : UInt8} {x : Char} (h : Json.Unit a b c d x) :
    ∃ u : UInt16, httpJsonParseHex4 a b c d = some u ∧
      ¬(0xD800 ≤ u ∧ u ≤ 0xDBFF) ∧ ¬(0xDC00 ≤ u ∧ u ≤ 0xDFFF) ∧ u.toUInt32 = x.val := by
  have hlt : x.toNat < 0x10000 := (Json.codeUnit_some h).right.right
  have hx := x.valid
  simp only [UInt32.isValidChar, Nat.isValidChar] at hx
  change x.toNat < _ ∨ _ < x.toNat ∧ _ at hx
  have hu : (UInt16.ofNat x.toNat).toNat = x.toNat := by
    rw [UInt16.toNat_ofNat', Nat.mod_eq_of_lt hlt]
  refine ⟨.ofNat x.toNat, httpJsonParseHex4_some.mpr (hu.symm ▸ h), ?_, ?_, ?_⟩
  · simp only [UInt16.le_iff_toNat_le, UInt16.reduceToNat, hu]
    omega
  · simp only [UInt16.le_iff_toNat_le, UInt16.reduceToNat, hu]
    omega
  · apply UInt32.toNat_inj.mp
    rw [UInt16.toNat_toUInt32, hu]
    rfl

namespace httpJsonParseString

theorem toNat_pair {high low : UInt16} (hh : 0xD800 ≤ high.toNat ∧ high.toNat ≤ 0xDBFF)
    (hl : 0xDC00 ≤ low.toNat ∧ low.toNat ≤ 0xDFFF) :
    (pair high low).toNat = 0x10000 + (high.toNat - 0xD800) * 0x400 + (low.toNat - 0xDC00) := by
  have hor : (high.toNat - 0xD800) * 0x400 ||| (low.toNat - 0xDC00) =
      (high.toNat - 0xD800) * 0x400 + (low.toNat - 0xDC00) := by
    rw [Nat.mul_comm]
    exact (Nat.two_pow_add_eq_or_of_lt (i := 10) (by omega) _).symm
  have hh' : (high - 0xD800).toNat = high.toNat - 0xD800 :=
    UInt16.toNat_sub_of_le _ _ (UInt16.le_iff_toNat_le.mpr hh.left)
  have hl' : (low - 0xDC00).toNat = low.toNat - 0xDC00 :=
    UInt16.toNat_sub_of_le _ _ (UInt16.le_iff_toNat_le.mpr hl.left)
  simp only [pair, UInt32.toNat_add, UInt32.toNat_or, UInt32.toNat_shiftLeft, UInt16.toNat_toUInt32,
    UInt32.reduceToNat, hh', hl', Nat.shiftLeft_eq]
  rw [show 2 ^ (10 % 32) = 0x400 from rfl,
    Nat.mod_eq_of_lt (show (high.toNat - 0xD800) * 0x400 < 2 ^ 32 by omega), hor]
  omega

-- Two surrogates are a scalar.
theorem pair_some {a b c d a' b' c' d' : UInt8} {high low : UInt16}
    (hfirst : httpJsonParseHex4 a b c d = some high) (hsecond : httpJsonParseHex4 a' b' c' d' = some low)
    (hhigh : 0xD800 ≤ high ∧ high ≤ 0xDBFF) (hlow : ¬(low < 0xDC00 ∨ low > 0xDFFF)) :
    ∃ x : Char, Json.Pair a b c d a' b' c' d' x ∧ pair high low = x.val := by
  simp only [gt_iff_lt, UInt16.le_iff_toNat_le, UInt16.lt_iff_toNat_lt, UInt16.reduceToNat] at hhigh hlow
  have hlow : 0xDC00 ≤ low.toNat ∧ low.toNat ≤ 0xDFFF := by omega
  have hpair := toNat_pair hhigh hlow
  have hv : (pair high low).isValidChar := by
    rw [UInt32.isValidChar, hpair, Nat.isValidChar]
    omega
  exact ⟨⟨pair high low, hv⟩, ⟨high.toNat, low.toNat, httpJsonParseHex4_some.mp hfirst,
    httpJsonParseHex4_some.mp hsecond, hhigh, hlow, hpair⟩, rfl⟩

-- One piece is read as its value.
theorem loop_piece {t v : Bytes} (h : Piece t v) (p : Bytes) :
    loop (t ++ p) = (loop p).map fun r => (v ++ r.1, r.2) := by
  cases h
  case byte hq hb => exact loop_plain hq hb
  case short h    => exact loop_short (by rw [short_eq, h])
  case unit a b c d x h =>
    obtain ⟨u, hu, hhigh, hlow, hx⟩ := some_of_unit h
    change loop (92 :: 117 :: a :: b :: c :: d :: p) = _
    rw [loop.eq_def]
    dsimp only
    rw [if_neg (by decide), if_neg (by decide), show short 117 = none from rfl]
    dsimp only
    rw [if_neg (by decide), hu]
    dsimp only
    rw [if_neg hhigh, if_neg hlow, hx, httpBufAppendUtf8_char]
  case pair a b c d a' b' c' d' x h =>
    obtain ⟨high, low, hhigh, hlow, hh, hl, hx⟩ := h
    have hu : (UInt16.ofNat high).toNat = high := UInt16.toNat_ofNat_of_lt (Nat.lt_of_le_of_lt hh.right (by decide))
    have hu' : (UInt16.ofNat low).toNat = low := UInt16.toNat_ofNat_of_lt (Nat.lt_of_le_of_lt hl.right (by decide))
    rw [← hu] at hh hhigh
    rw [← hu'] at hl hlow
    have hpair : pair (.ofNat high) (.ofNat low) = x.val := by
      apply UInt32.toNat_inj.mp
      rw [toNat_pair hh hl, hu, hu', ← hx]
      rfl
    change loop (92 :: 117 :: a :: b :: c :: d :: 92 :: 117 :: a' :: b' :: c' :: d' :: p) = _
    rw [loop.eq_def]
    dsimp only
    rw [if_neg (by decide), if_neg (by decide), show short 117 = none from rfl]
    dsimp only
    rw [if_neg (by decide), httpJsonParseHex4_some.mpr hhigh]
    dsimp only
    rw [if_pos (by simpa only [UInt16.le_iff_toNat_le, UInt16.reduceToNat] using hh),
      if_neg (by decide), httpJsonParseHex4_some.mpr hlow]
    dsimp only
    rw [if_neg, hpair, httpBufAppendUtf8_char]
    simp only [gt_iff_lt, UInt16.lt_iff_toNat_lt, UInt16.reduceToNat]
    omega

-- The contents of a string are read completely.
theorem loop_spells {t v : Bytes} (h : Spells t v) (p : Bytes) :
    loop (t ++ 34 :: p) = some (v, p) := by
  induction h
  case nil =>
    rw [List.nil_append, loop.eq_def]
    rfl
  case cons hp _ hi =>
    rw [List.append_assoc, loop_piece hp, hi]
    rfl

-- What is read after a piece that was read.
theorem spells_of_map {s t v w p : Bytes} (hp : Piece t w)
    (hi : ∀ {v}, loop s = some (v, p) → ∃ t, s = t ++ 34 :: p ∧ Spells t v)
    (h : (loop s).map (fun r => (w ++ r.1, r.2)) = some (v, p)) :
    ∃ t', t ++ s = t' ++ 34 :: p ∧ Spells t' v := by
  obtain ⟨⟨v', p'⟩, hs, he⟩ := Option.map_eq_some_iff.mp h
  obtain ⟨rfl, rfl⟩ := Prod.ext_iff.mp he
  obtain ⟨t', rfl, ht'⟩ := hi hs
  exact ⟨t ++ t', (List.append_assoc ..).symm, .cons hp ht'⟩

-- Only the contents of strings are accepted.
theorem loop_some {s v p : Bytes} (h : loop s = some (v, p)) :
    ∃ t, s = t ++ 34 :: p ∧ Spells t v := by
  fun_induction loop s generalizing v
  case case2 => 
    cases h
    exact ⟨[], rfl, .nil⟩
  case case3 hq hb hi => exact spells_of_map (.byte hq hb) hi h
  case case5 hb _ _ _ hc hi => 
    rw [not_ne_iff.mp hb]
    exact spells_of_map (.short (short_eq _ ▸ hc)) hi h
  case case11 hb _ _ hu _ _ _ _ _ hfirst hhigh _ _ _ _ _ _ _ hb' low hsecond hlow cp hi =>
    rw [not_ne_iff.mp hb, not_ne_iff.mp hu]
    rw [not_or, not_ne_iff, not_ne_iff] at hb'
    rw [hb'.left, hb'.right]
    obtain ⟨x, hx, hv⟩ := pair_some hfirst hsecond hhigh hlow
    rw [show cp = x.val from hv, httpBufAppendUtf8_char] at h
    exact spells_of_map (.pair hx) hi h
  case case14 hb _ _ hu _ _ _ _ _ u hcu hhigh hlow hi =>
    obtain ⟨x, hx, hv⟩ := unit_some hcu hhigh hlow
    rw [hv, httpBufAppendUtf8_char] at h
    rw [not_ne_iff.mp hb, not_ne_iff.mp hu]
    exact spells_of_map (.unit hx) hi h
  all_goals exact nomatch h

end httpJsonParseString

namespace httpParseMessageJson

-- A string, before it is cut at its first NUL byte.
def string : Bytes → Option (Bytes × Bytes)
  | []     => none
  | c :: p => if c ≠ 34 then none else httpJsonParseString.loop p

-- The name and the value of the member, and what follows the object.
def members (p : Bytes) : Option (Bytes × Bytes × Bytes) := do
  let p ← expect 123 (httpJsonSkipWs p)
  let (key, p) ← string p
  let p ← expect 58 (httpJsonSkipWs p)
  let (value, p) ← string p
  let p ← expect 125 (httpJsonSkipWs p)
  return (key, value, p)

theorem httpJsonParseString_eq (p : Bytes) :
    httpJsonParseString p = (string p).map fun r => (.ofBuf r.1, r.2) := by
  cases p
  case nil      => rfl
  case cons c p => rw [httpJsonParseString, string, apply_ite (Option.map _), Option.map_none]

theorem parse_eq (copy : CStr) : parse copy = (members copy.chars).bind fun r =>
    if r.2.2 ≠ [] then none
    else if CStr.ofBuf r.1 ≠ .lit "message" then none
    else some (.ofBuf r.2.1) := by
  simp only [parse, members, httpJsonParseString_eq, Option.bind_eq_bind, Option.bind_map,
    Option.pure_def, Option.bind_assoc, Option.bind_some, Function.comp_def]

theorem skipWs_append {s p : Bytes} (h : ∀ c ∈ s, isspace c = true) :
    httpJsonSkipWs (s ++ p) = httpJsonSkipWs p := by
  rw [httpJsonSkipWs, List.dropWhile_append_of_pos h, httpJsonSkipWs]

theorem skipWs_of_not {c : UInt8} {p : Bytes} (h : isspace c = false) :
    httpJsonSkipWs (c :: p) = c :: p := by
  rw [httpJsonSkipWs, List.dropWhile_cons_of_neg (by simp [h])]

theorem skipWs_split (p : Bytes) : ∃ s, (∀ c ∈ s, isspace c = true) ∧ p = s ++ httpJsonSkipWs p :=
  ⟨p.takeWhile isspace, fun _ h => List.mem_takeWhile_imp h, (List.takeWhile_append_dropWhile ..).symm⟩

theorem expect_skipWs {c : UInt8} {s p : Bytes} (h : ∀ c ∈ s, isspace c = true)
    (hc : isspace c = false) : expect c (httpJsonSkipWs (s ++ c :: p)) = some (httpJsonSkipWs p) := by
  rw [skipWs_append h, skipWs_of_not hc, expect, if_pos rfl]

theorem string_quote {s t v p : Bytes} (hs : ∀ c ∈ s, isspace c = true) (h : Json.Spells t v) :
    string (httpJsonSkipWs (s ++ 34 :: (t ++ 34 :: p))) = some (v, p) := by
  rw [skipWs_append hs, skipWs_of_not (by decide), string, if_neg (by decide)]
  exact httpJsonParseString.loop_spells h p

theorem members_object {t k v : Bytes} (h : Json.Object isspace Json.Spells t k v) (tail : Bytes) :
    members (t ++ tail) = some (k, v, httpJsonSkipWs tail) := by
  obtain @⟨s₀, s₁, s₂, s₃, s₄, s₅, k', v', _, _, hw, hk, hv⟩ := h
  simp only [List.forall_mem_append, and_assoc] at hw
  obtain ⟨h₀, h₁, h₂, h₃, h₄, h₅⟩ := hw
  simp only [List.append_assoc, List.cons_append, Json.quote, members, Option.bind_eq_bind]
  rw [expect_skipWs h₀ (by decide), Option.bind_some, string_quote h₁ hk, Option.bind_some,
    expect_skipWs h₂ (by decide), Option.bind_some, string_quote h₃ hv, Option.bind_some,
    expect_skipWs h₄ (by decide), Option.bind_some, skipWs_append h₅]
  rfl

theorem expect_some {c : UInt8} {p p' : Bytes} (h : expect c (httpJsonSkipWs p) = some p') :
    ∃ s s', (∀ c ∈ s ++ s', isspace c = true) ∧ p = s ++ c :: (s' ++ p') := by
  obtain ⟨s, hs, hp⟩ := skipWs_split p
  cases hd : httpJsonSkipWs p
  case nil =>
    rw [hd] at h
    cases h
  case cons d q =>
    rw [hd, expect] at h
    split at h
    case isFalse => cases h
    case isTrue hdc =>
      obtain ⟨s', hs', hq⟩ := skipWs_split q
      refine ⟨s, s', List.forall_mem_append.mpr ⟨hs, hs'⟩, ?_⟩
      rwa [← Option.some.inj h, ← hq, ← hdc, ← hd]

theorem string_some {p v p' : Bytes} (h : string p = some (v, p')) :
    ∃ t, p = 34 :: (t ++ 34 :: p') ∧ Json.Spells t v := by
  cases p
  case nil      => exact nomatch h
  case cons c p =>
    rw [string] at h
    split at h
    case isTrue     => exact nomatch h
    case isFalse hc =>
      obtain ⟨t, rfl, ht⟩ := httpJsonParseString.loop_some h
      exact ⟨t, by rw [not_ne_iff.mp hc], ht⟩

theorem members_some {t k v : Bytes} (h : members t = some (k, v, [])) :
    Json.Object isspace Json.Spells t k v := by
  simp only [members, Option.bind_eq_bind, Option.bind_eq_some_iff, Option.pure_def] at h
  obtain ⟨p₁, h₁, ⟨k', p₂⟩, hk, p₃, h₂, ⟨v', p₄⟩, hv, p₅, h₃, he⟩ := h
  obtain ⟨rfl, rfl, rfl⟩ := by simpa only [Option.some.injEq, Prod.mk.injEq] using he
  obtain ⟨s₀, s₁, hs, rfl⟩ := expect_some h₁
  obtain ⟨tk, rfl, htk⟩ := string_some hk
  obtain ⟨s₂, s₃, hs', rfl⟩ := expect_some h₂
  obtain ⟨tv, rfl, htv⟩ := string_some hv
  obtain ⟨s₄, s₅, hs'', rfl⟩ := expect_some h₃
  have hobj := @Json.Object.mk _ isspace Json.Spells s₀ s₁ s₂ s₃ s₄ s₅ _ _ _ _ (by
    simp only [List.forall_mem_append] at hs hs' hs'' ⊢
    exact ⟨⟨⟨⟨hs, hs'.left⟩, hs'.right⟩, hs''.left⟩, hs''.right⟩) htk htv
  simpa [Json.quote] using hobj

-- What is accepted, and what is returned for it.
theorem parse_some {copy m : CStr} : parse copy = some m ↔
    ∃ key value, Json.Object isspace Json.Spells copy.chars key value ∧
      CStr.ofBuf key = .lit "message" ∧ CStr.ofBuf value = m := by
  rw [parse_eq, Option.bind_eq_some_iff]
  constructor
  case mp =>
    rintro ⟨⟨key, value, p⟩, h, hif⟩
    split at hif
    case isTrue    => exact nomatch hif
    case isFalse hp =>
      split at hif
      case isTrue     => exact nomatch hif
      case isFalse hk =>
        obtain rfl : p = [] := not_ne_iff.mp hp
        exact ⟨key, value, members_some h, not_ne_iff.mp hk, Option.some.inj hif⟩
  case mpr =>
    rintro ⟨key, value, h, hk, rfl⟩
    refine ⟨(key, value, []), ?_, ?_⟩
    · have hm := members_object h []
      rwa [List.append_nil] at hm
    · rw [if_neg (not_not.mpr rfl), if_neg (not_not.mpr hk)]

end httpParseMessageJson

section

variable {W : Type} {h : Program.Handler Sys W} {e : Env} {w : W} {body : Bytes}

theorem exec_httpParseMessageJson (ha : e.Allocates) :
    (Io.exec h (httpParseMessageJson body) e w).1.1 = httpParseMessageJson.parse (.ofBuf body) := by
  change Io.wp h (httpParseMessageJson body) (fun m _ _ => m = _) e w
  rw [httpParseMessageJson, Io.wp_bind]
  apply wp_malloc_of_allocates ha
  intro as _
  rfl

theorem parse_of_exec {m : CStr} (hm : (Io.exec h (httpParseMessageJson body) e w).1.1 = some m) :
    httpParseMessageJson.parse (.ofBuf body) = some m := by
  change Io.wp h (httpParseMessageJson body) (fun r _ _ => r = some m) e w at hm
  rw [httpParseMessageJson, Io.wp_bind, Io.wp_malloc_iff] at hm
  split at hm
  case isTrue  => exact nomatch hm
  case isFalse => exact hm

theorem isspace_of_isSpace {c : UInt8} (h : Json.isSpace c = true) : isspace c = true := by
  simp only [Json.isSpace, isspace, ← UInt8.toNat_inj, UInt8.le_iff_toNat_le, UInt8.reduceToNat,
    decide_eq_true_eq] at h ⊢
  omega

-- Every way to write a message is understood.
theorem httpParseMessageJson_complete {text : List Char} (ha : e.Allocates)
    (hz : ∀ x ∈ text, x.toNat ≠ 0)
    (hb : Json.Object Json.isSpace Json.TextSpelling body "message".toList text) :
    ∃ m : CStr, (Io.exec h (httpParseMessageJson body) e w).1.1 = some m ∧ m.chars = utf8 text := by
  have hkey : utf8 "message".toList = ascii "message" := by decide
  have hnul : 0 ∉ body := hb.nul_free rfl fun _ _ hs => hs.nul_free
  have hobj : Json.Object isspace Json.Spells (CStr.ofBuf body).chars (ascii "message") (utf8 text) := by
    rw [CStr.ofBuf_eq_of_nul_free hnul, ← hkey]
    exact hb.map (fun _ hc => isspace_of_isSpace hc) fun _ _ hs => hs.spells
  refine ⟨.ofBuf (utf8 text), ?_, CStr.ofBuf_eq_of_nul_free (zero_not_mem_utf8 hz)⟩
  rw [exec_httpParseMessageJson ha]
  exact httpParseMessageJson.parse_some.mpr ⟨_, _, hobj, rfl, rfl⟩

theorem httpParseMessageJson_complete_for_an_escape :
    ∃ m : CStr, (Io.exec World.handle (httpParseMessageJson (ascii "\x7b \"message\":\"\\u00E9\"\x7d"))
      (.calm 0 []) World.empty).1.1 = some m ∧ m.chars = utf8 [.ofNat 233] := by
  have hkey : Json.TextSpelling (utf8 "message".toList) "message".toList := by
    apply Json.TextSpelling.raw
    simp [Json.quote, Json.backslash]
  have hunit : Json.Unit 48 48 69 57 (.ofNat 233) := by
    show _ = _
    decide
  have hbody : ascii "\x7b \"message\":\"\\u00E9\"\x7d" =
      123 :: 32 :: 34 :: (utf8 "message".toList ++ 34 :: 58 :: 34 ::
        ([92, 117, 48, 48, 69, 57] ++ [34, 125])) := by
    decide
  refine httpParseMessageJson_complete (by simp [Env.Allocates, Env.calm]) (by simp) ?_
  rw [hbody]
  exact @Json.Object.mk _ Json.isSpace Json.TextSpelling [] [32] [] [] [] [] _ _ _ _ (by simp [Json.isSpace]) hkey
    (.cons (.unit hunit) .nil)

-- The body derives from the grammar as an object with the key `message`, and the message is the
-- complete value.
def Derives (body : Bytes) (m : CStr) : Prop :=
  Json.Object isspace Json.Spells body (ascii "message") m.chars

-- The text up to the first NUL byte and the whole body are both read as objects. As the text is
-- followed by the rest of the body, the rest must be empty.
theorem nul_free_of_derives {key value : Bytes}
    (h : Json.Object isspace Json.Spells (CStr.ofBuf body).chars key value)
    (hd : Derives body (.ofBuf value)) : 0 ∉ body ∧ 0 ∉ key ∧ 0 ∉ value := by
  have hsplit : (CStr.ofBuf body).chars ++ body.dropWhile (· != 0) = body :=
    List.takeWhile_append_dropWhile ..
  have hm := httpParseMessageJson.members_object h (body.dropWhile (· != 0))
  have hm' := httpParseMessageJson.members_object hd []
  rw [hsplit] at hm
  rw [List.append_nil, hm, Option.some.injEq, Prod.mk.injEq, Prod.mk.injEq] at hm'
  obtain ⟨hkey, hvalue, hrest⟩ := hm'
  refine ⟨?_, ?_, ?_⟩
  · have hnil : body.dropWhile (· != 0) = [] := by
      cases hd : body.dropWhile (· != 0)
      case nil => rfl
      case cons c p =>
        have hc : c = 0 := by
          have := List.head_dropWhile_not (l := body) (· != 0) (by simp [hd])
          simpa [hd] using this
        rw [hd, hc, httpParseMessageJson.skipWs_of_not (by decide)] at hrest
        exact nomatch hrest
    rw [hnil, List.append_nil] at hsplit
    exact CStr.ofBuf_eq_iff.mp hsplit
  · rw [hkey]
    decide
  · exact CStr.ofBuf_eq_iff.mp hvalue.symm

-- Only what derives from the grammar is understood, as long as no NUL byte comes into play.
theorem httpParseMessageJson_sound_iff (body : Bytes) :
    (∀ (e : Env) (w : World) (m : CStr),
      (Io.exec World.handle (httpParseMessageJson body) e w).1.1 = some m → Derives body m) ↔
    ∀ key value, Json.Object isspace Json.Spells (CStr.ofBuf body).chars key value →
      CStr.ofBuf key = .lit "message" → 0 ∉ body ∧ 0 ∉ key ∧ 0 ∉ value := by
  constructor
  case mp =>
    intro hsound key value hobj hkey
    have hcalm : (Env.calm 0 []).Allocates := by simp [Env.Allocates, Env.calm]
    have hrun : (Io.exec World.handle (httpParseMessageJson body) (.calm 0 []) World.empty).1.1 =
        httpParseMessageJson.parse (.ofBuf body) :=
      exec_httpParseMessageJson hcalm
    have hd := hsound _ _ (.ofBuf value)
      (hrun.trans (httpParseMessageJson.parse_some.mpr ⟨key, value, hobj, hkey, rfl⟩))
    exact nul_free_of_derives hobj hd
  case mpr =>
    intro hnul e w m hm
    obtain ⟨key, value, hobj, hkey, rfl⟩ := httpParseMessageJson.parse_some.mp (parse_of_exec hm)
    obtain ⟨hb, hk, hv⟩ := hnul key value hobj hkey
    have hkey : key = ascii "message" := by
      rw [← CStr.ofBuf_eq_of_nul_free hk, hkey]
      decide
    rw [CStr.ofBuf_eq_of_nul_free hb, hkey] at hobj
    rwa [Derives, CStr.ofBuf_eq_of_nul_free hv]

end

-- The escape for U+0000 cuts the message.
theorem escaped_nul_cuts_message :
    ∃ m : CStr, (Io.exec World.handle
      (httpParseMessageJson (ascii "\x7b\"message\":\"a\\u0000b\"\x7d")) (.calm 0 []) World.empty).1.1 = some m ∧
      ¬Derives (ascii "\x7b\"message\":\"a\\u0000b\"\x7d") m := by
  refine ⟨.lit "a", ?_, ?_⟩
  · rw [exec_httpParseMessageJson (by simp [Env.Allocates, Env.calm])]
    decide +kernel
  · intro hd
    have hm := httpParseMessageJson.members_object hd []
    rw [List.append_nil] at hm
    have hne : httpParseMessageJson.members (ascii "\x7b\"message\":\"a\\u0000b\"\x7d") ≠
        some (ascii "message", (CStr.lit "a").chars, []) := by
      decide +kernel
    exact hne hm

-- Escaping is undone by the parser, and the escaped text can stand in any string.
theorem httpJsonEscape_parse (text : CStr) (t : Bytes) :
    httpJsonParseString (34 :: (httpJsonEscape text ++ 34 :: t)) = some (text, t) ∧
    (∀ c ∈ httpJsonEscape text, 0x20 ≤ c) ∧
    Json.escaped (httpJsonEscape text) = true := by
  refine ⟨?_, ?_, ?_⟩
  · rw [httpJsonEscape, httpJsonParseString_httpJsonEscape, CStr.ofBuf_chars]
  · exact fun c hc => le_of_mem_httpJsonEscape hc
  · obtain ⟨s, hs, hspells⟩ :=
      httpJsonParseString.loop_some (httpJsonParseString.loop_httpJsonEscape text.chars [])
    rw [httpJsonEscape, List.append_cancel_right hs]
    exact hspells.escaped

