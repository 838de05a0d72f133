import HFile.Library.Split
import HFile.Source.HttpCursor
import HFile.Theorems.JsonGrammar

-- The cursor stands in front of the text `rest`, which ends at the terminator.
structure At (copy : Bytes) (p : Nat) (rest : Bytes) : Prop where
  nul_free : 0 ∉ rest
  drop_eq  : ∃ tail, copy.drop p = rest ++ 0 :: tail

@[simp]
theorem require_of {b : Prop} [Decidable b] (h : b) : require b = .ok () :=
  if_pos h

@[simp]
theorem require_of_not {b : Prop} [Decidable b] (h : ¬b) : require b = .error .reject :=
  if_neg h

@[simp]
theorem Except.ok_bind {α β ε : Type} (a : α) (f : α → Except ε β) : (Except.ok a >>= f) = f a :=
  rfl

@[simp]
theorem Except.error_bind {α β ε : Type} (e : ε) (f : α → Except ε β) : (Except.error e >>= f) = .error e :=
  rfl

namespace At

variable {copy rest : Bytes} {p i : Nat} {c : UInt8}

-- The text of a body ends at its first NUL byte, or at the terminator.
theorem body (body : Bytes) : At (body ++ [0]) 0 (CStr.ofBuf body).chars := by
  refine ⟨(CStr.ofBuf body).nul_free, ?_⟩
  cases hd : body.dropWhile (· != 0)
  case nil =>
    refine ⟨[], ?_⟩
    change body ++ [0] = body.takeWhile (· != 0) ++ [0]
    rw [(Split.splitOn_of_dropWhile_nil hd).right]
  case cons c tail =>
    refine ⟨tail ++ [0], ?_⟩
    change body ++ [0] = body.takeWhile (· != 0) ++ 0 :: (tail ++ [0])
    rw [← List.cons_append, ← List.append_assoc, ← Split.append_of_dropWhile hd]

theorem read (h : At copy p rest) (hi : (rest ++ [0])[i]? = some c) : readAt copy (p + i) = .ok c := by
  obtain ⟨tail, ht⟩ := h.drop_eq
  have hlt : i < (rest ++ [0]).length := List.getElem?_eq_some_iff.mp hi |>.choose
  have hc : copy[p + i]? = some c := by
    calc copy[p + i]?
      _ = (copy.drop p)[i]?              := List.getElem?_drop.symm
      _ = ((rest ++ [0]) ++ tail)[i]?    := by rw [ht]; simp
      _ = (rest ++ [0])[i]?              := List.getElem?_append_left hlt
      _ = some c                         := hi
  simp [readAt, hc]

theorem head (h : At copy p rest) : readAt copy p = .ok (rest.headD 0) := by
  apply h.read (i := 0)
  cases rest <;> rfl

theorem drop (h : At copy p rest) (hi : i ≤ rest.length) : At copy (p + i) (rest.drop i) := by
  obtain ⟨tail, ht⟩ := h.drop_eq
  refine ⟨fun hm => h.nul_free (List.mem_of_mem_drop hm), tail, ?_⟩
  rw [← List.drop_drop, ht, List.drop_append_of_le_length hi]

theorem next (h : At copy p (c :: rest)) : At copy (p + 1) rest :=
  h.drop (i := 1) (by simp)

theorem ne_zero (h : At copy p (c :: rest)) : c ≠ 0 :=
  fun hc => h.nul_free (by simp [hc])

end At

theorem httpJsonSkipWsAt_eq {copy rest : Bytes} {fuel p : Nat} (h : At copy p rest) (hf : rest.length < fuel) :
    ∃ q, httpJsonSkipWsAt copy fuel p = .ok q ∧ At copy q (httpJsonSkipWs rest) := by
  induction rest generalizing fuel p
  all_goals obtain ⟨fuel, rfl⟩ := Nat.exists_eq_add_one_of_ne_zero (Nat.ne_zero_of_lt hf)
  case nil =>
    refine ⟨p, ?_, h⟩
    simp [httpJsonSkipWsAt, h.head, pure, Except.pure]
  case cons c rest hi =>
    simp only [httpJsonSkipWsAt, h.head, Except.ok_bind, List.headD_cons]
    by_cases hs : isspace c = true
    case pos =>
      rw [if_pos ⟨h.ne_zero, hs⟩, httpJsonSkipWs, List.dropWhile_cons_of_pos hs]
      exact hi h.next (by simpa using hf)
    case neg =>
      rw [if_neg (fun hn => hs hn.right), httpJsonSkipWs, List.dropWhile_cons_of_neg hs]
      exact ⟨p, rfl, h⟩

namespace httpJsonParseHex4At

variable {copy rest : Bytes} {p i : Nat} {a b c d : UInt8}

theorem step_eq {value : UInt16} (h : readAt copy (p + i) = .ok c) :
    step copy p value i =
      if isxdigit c = true then .ok (value * 16 + (hexDigit c).toUInt16) else .error .reject := by
  by_cases hc : isxdigit c = true
  case pos => simp [step, h, hc, pure, Except.pure]
  case neg => simp [step, h, hc]

-- The first byte that is no digit ends the scan.
theorem eq_reject {before : List Nat} {after : List Nat} (hl : [0, 1, 2, 3] = before ++ i :: after)
    (hb : ∀ j ∈ before, ∃ c, readAt copy (p + j) = .ok c) (hr : readAt copy (p + i) = .ok c)
    (hc : isxdigit c = false) : httpJsonParseHex4At copy p = .error .reject := by
  rw [httpJsonParseHex4At, hl]
  generalize (0 : UInt16) = value
  clear hl
  induction before generalizing value
  case nil => simp [step_eq hr, hc]
  case cons j before hi =>
    rw [List.forall_mem_cons] at hb
    obtain ⟨c', hc'⟩ := hb.left
    rw [List.cons_append, List.foldlM_cons, step_eq hc']
    by_cases hx : isxdigit c' = true
    case pos => simpa [hx] using hi hb.right _
    case neg => simp [hx]

theorem of_cons (h : At copy p (a :: b :: c :: d :: rest)) :
    httpJsonParseHex4At copy p = (httpJsonParseHex4 a b c d).elim (.error .reject) .ok := by
  have ha : readAt copy (p + 0) = .ok a := h.read rfl
  have hb : readAt copy (p + 1) = .ok b := h.read rfl
  have hc : readAt copy (p + 2) = .ok c := h.read rfl
  have hd : readAt copy (p + 3) = .ok d := h.read rfl
  simp only [httpJsonParseHex4At, httpJsonParseHex4, List.foldlM_cons, List.foldlM_nil, step_eq ha, step_eq hb,
    step_eq hc, step_eq hd]
  by_cases h₁ : isxdigit a = true
  case neg => simp [h₁]
  by_cases h₂ : isxdigit b = true
  case neg => simp [h₁, h₂]
  by_cases h₃ : isxdigit c = true
  case neg => simp [h₁, h₂, h₃]
  by_cases h₄ : isxdigit d = true
  case neg => simp [h₁, h₂, h₃, h₄]
  case pos => simp [h₁, h₂, h₃, h₄, pure, Except.pure]

-- The terminator is no digit.
theorem of_short (h : At copy p rest) (hs : rest.length < 4) : httpJsonParseHex4At copy p = .error .reject := by
  have hread : ∀ j ≤ rest.length, ∃ c, readAt copy (p + j) = .ok c := by
    intro j hj
    exact ⟨_, h.read (List.getElem?_eq_getElem (by simp; omega))⟩
  have hend : readAt copy (p + rest.length) = .ok 0 := h.read (by simp)
  have hl : [0, 1, 2, 3] = List.range rest.length ++ rest.length :: (List.range' (rest.length + 1) (3 - rest.length)) := by
    generalize rest.length = n at hs
    decide +revert
  refine eq_reject hl (fun j hj => hread j ?_) hend (by decide)
  have := List.mem_range.mp hj
  omega

end httpJsonParseHex4At

-- The cursor's result is the result on the text: the same value and the same rest.
def Agrees {α : Type} (copy : Bytes) : Option (α × Bytes) → Except Stop (α × Nat) → Prop
  | none, r           => r = .error .reject
  | some (a, rest), r => ∃ q, r = .ok (a, q) ∧ At copy q rest

namespace httpJsonParseStringAt

open httpJsonParseString (short pair)

variable {copy rest buf : Bytes} {p q fuel : Nat} {ch a b c d : UInt8} {codeUnit lowSurrogate : UInt16}

namespace codePoint

theorem of_hex (h : At copy p (a :: b :: c :: d :: rest)) (hx : httpJsonParseHex4 a b c d = some codeUnit)
    (hh : ¬(0xD800 ≤ codeUnit ∧ codeUnit ≤ 0xDBFF)) (hl : ¬(0xDC00 ≤ codeUnit ∧ codeUnit ≤ 0xDFFF)) :
    codePoint copy p = .ok (codeUnit.toUInt32, p + 4) := by
  simp only [codePoint, httpJsonParseHex4At.of_cons h, hx, Option.elim, Except.ok_bind, if_neg hh, require_of hl]
  rfl

theorem of_low (h : At copy p (a :: b :: c :: d :: rest)) (hx : httpJsonParseHex4 a b c d = some codeUnit)
    (hh : ¬(0xD800 ≤ codeUnit ∧ codeUnit ≤ 0xDBFF)) (hl : 0xDC00 ≤ codeUnit ∧ codeUnit ≤ 0xDFFF) :
    codePoint copy p = .error .reject := by
  simp only [codePoint, httpJsonParseHex4At.of_cons h, hx, Option.elim, Except.ok_bind, if_neg hh,
    require_of_not (not_not.mpr hl), Except.error_bind]

theorem of_noHex (h : At copy p (a :: b :: c :: d :: rest)) (hx : httpJsonParseHex4 a b c d = none) :
    codePoint copy p = .error .reject := by
  simp only [codePoint, httpJsonParseHex4At.of_cons h, hx, Option.elim, Except.error_bind]

theorem of_short (h : At copy p rest) (hs : rest.length < 4) : codePoint copy p = .error .reject := by
  simp only [codePoint, httpJsonParseHex4At.of_short h hs, Except.error_bind]

theorem of_high (h : At copy p (a :: b :: c :: d :: rest)) (hx : httpJsonParseHex4 a b c d = some codeUnit)
    (hh : 0xD800 ≤ codeUnit ∧ codeUnit ≤ 0xDBFF) :
    codePoint copy p = do
      require ((← readAt copy (p + 4)) = 92)
      require ((← readAt copy (p + 5)) = 117)
      let lowSurrogate ← httpJsonParseHex4At copy (p + 6)
      require (¬(lowSurrogate < 0xDC00 ∨ lowSurrogate > 0xDFFF))
      return (pair codeUnit lowSurrogate, p + 10) := by
  simp only [codePoint, httpJsonParseHex4At.of_cons h, hx, Option.elim, Except.ok_bind, if_pos hh]

theorem of_pair {a' b' c' d' : UInt8} (h : At copy p (a :: b :: c :: d :: 92 :: 117 :: a' :: b' :: c' :: d' :: rest))
    (hx : httpJsonParseHex4 a b c d = some codeUnit) (hh : 0xD800 ≤ codeUnit ∧ codeUnit ≤ 0xDBFF)
    (hx' : httpJsonParseHex4 a' b' c' d' = some lowSurrogate)
    (hl : ¬(lowSurrogate < 0xDC00 ∨ lowSurrogate > 0xDFFF)) :
    codePoint copy p = .ok (pair codeUnit lowSurrogate, p + 10) := by
  have h₄ : readAt copy (p + 4) = .ok 92 := h.read rfl
  have h₅ : readAt copy (p + 5) = .ok 117 := h.read rfl
  have h₆ : At copy (p + 6) (a' :: b' :: c' :: d' :: rest) := h.drop (i := 6) (by simp)
  simp only [of_high h hx hh, h₄, h₅, httpJsonParseHex4At.of_cons h₆, hx', Option.elim, Except.ok_bind,
    require_of, require_of hl]
  rfl

-- A high surrogate that no low surrogate follows. What is read next depends on what was read before,
-- so that the terminator is never passed.
theorem of_high_reject (h : At copy p (a :: b :: c :: d :: rest)) (hx : httpJsonParseHex4 a b c d = some codeUnit)
    (hh : 0xD800 ≤ codeUnit ∧ codeUnit ≤ 0xDBFF)
    (hn : ∀ a' b' c' d' r v, rest = 92 :: 117 :: a' :: b' :: c' :: d' :: r → httpJsonParseHex4 a' b' c' d' = some v →
      v < 0xDC00 ∨ v > 0xDFFF) :
    codePoint copy p = .error .reject := by
  rw [of_high h hx hh]
  have h₄ : At copy (p + 4) rest := h.drop (i := 4) (by simp)
  rw [h₄.head]
  match rest, hn, h₄ with
  | [], _, _ => rfl
  | b₀ :: rest, hn, h₄ =>
    by_cases hb₀ : b₀ = 92
    case neg => simp [hb₀]
    have h₅ : At copy (p + 5) rest := h₄.next
    subst hb₀
    simp only [List.headD_cons, Except.ok_bind, require_of, h₅.head]
    match rest, hn, h₅ with
    | [], _, _ => rfl
    | b₁ :: rest, hn, h₅ =>
      by_cases hb₁ : b₁ = 117
      case neg => simp [hb₁]
      have h₆ : At copy (p + 6) rest := h₅.next
      subst hb₁
      simp only [List.headD_cons, Except.ok_bind, require_of]
      match rest, hn, h₆ with
      | a' :: b' :: c' :: d' :: r, hn, h₆ =>
        rw [httpJsonParseHex4At.of_cons h₆]
        cases hx' : httpJsonParseHex4 a' b' c' d'
        case none   => rfl
        case some v =>
          have hv := not_not.mpr (hn _ _ _ _ _ _ rfl hx')
          simp only [Option.elim, Except.ok_bind, require_of_not hv, Except.error_bind]
      | [], _, h₆        => simp [httpJsonParseHex4At.of_short h₆ (by simp)]
      | [_], _, h₆       => simp [httpJsonParseHex4At.of_short h₆ (by simp)]
      | [_, _], _, h₆    => simp [httpJsonParseHex4At.of_short h₆ (by simp)]
      | [_, _, _], _, h₆ => simp [httpJsonParseHex4At.of_short h₆ (by simp)]

end codePoint

theorem loop_plain (h : At copy p (ch :: rest)) (hq : ch ≠ 34) (hb : ch ≠ 92) :
    loop copy (fuel + 1) p buf = loop copy fuel (p + 1) (buf ++ [ch]) := by
  simp only [loop, h.head, List.headD_cons, Except.ok_bind, if_neg (not_or.mpr ⟨h.ne_zero, hq⟩), if_pos hb]

theorem loop_close (h : At copy p rest) (hc : rest.headD 0 = 0 ∨ rest.headD 0 = 34) :
    loop copy (fuel + 1) p buf >>= close copy = (do require (rest.headD 0 = 34); return (buf, p + 1)) := by
  simp only [loop, h.head, Except.ok_bind, if_pos hc, close, pure, Except.pure]

theorem loop_short (h : At copy p (92 :: rest)) {c : UInt8} (hs : short (rest.headD 0) = some c) :
    loop copy (fuel + 1) p buf = loop copy fuel (p + 2) (buf ++ [c]) := by
  have hq : ¬((92 : UInt8) = 0 ∨ (92 : UInt8) = 34) := by decide
  simp only [loop, h.head, List.headD_cons, Except.ok_bind, if_neg hq, h.next.head, ne_eq, not_true_eq_false,
    if_false, hs]

theorem loop_escape (h : At copy p (92 :: rest)) (hs : short (rest.headD 0) = none) :
    loop copy (fuel + 1) p buf =
      require (rest.headD 0 = 117) >>= fun _ =>
        codePoint copy (p + 2) >>= fun r => loop copy fuel r.2 (buf ++ httpBufAppendUtf8 r.1) := by
  have hq : ¬((92 : UInt8) = 0 ∨ (92 : UInt8) = 34) := by decide
  simp only [loop, h.head, List.headD_cons, Except.ok_bind, if_neg hq, h.next.head, ne_eq, not_true_eq_false,
    if_false, hs]

theorem loop_unicode (h : At copy p (92 :: 117 :: rest)) :
    loop copy (fuel + 1) p buf =
      codePoint copy (p + 2) >>= fun r => loop copy fuel r.2 (buf ++ httpBufAppendUtf8 r.1) := by
  have hs : short 117 = none := by decide
  simp only [loop_escape h hs, List.headD_cons, require_of, Except.ok_bind]

theorem exists_cons_four {rest : Bytes} (h : 4 ≤ rest.length) : ∃ a b c d r, rest = a :: b :: c :: d :: r := by
  obtain ⟨a, rest, rfl⟩ := List.exists_cons_of_length_pos (Nat.lt_of_lt_of_le (by decide) h)
  obtain ⟨b, rest, rfl⟩ := List.exists_cons_of_length_pos (Nat.lt_of_lt_of_le (by decide) (Nat.le_of_succ_le_succ h))
  simp only [List.length_cons, Nat.reduceLeDiff] at h
  obtain ⟨c, rest, rfl⟩ := List.exists_cons_of_length_pos (show 0 < rest.length by omega)
  simp only [List.length_cons] at h
  obtain ⟨d, rest, rfl⟩ := List.exists_cons_of_length_pos (show 0 < rest.length by omega)
  exact ⟨a, b, c, d, rest, rfl⟩

theorem loop_agrees (h : At copy p rest) (hf : rest.length < fuel) (buf : Bytes) :
    Agrees copy ((httpJsonParseString.loop rest).map fun r => (buf ++ r.1, r.2))
      (loop copy fuel p buf >>= close copy) := by
  fun_induction httpJsonParseString.loop rest generalizing fuel p buf
  all_goals obtain ⟨fuel, rfl⟩ := Nat.exists_eq_add_one_of_ne_zero (Nat.ne_zero_of_lt hf)
  case case1 => 
    rw [loop_close h (by simp)]
    rfl
  case case2 rest => 
    rw [loop_close h (by simp)]
    exact ⟨p + 1, by simp, h.next⟩
  case case3 ch rest hq hb hi => 
    rw [loop_plain h hq hb]
    simpa [Function.comp_def] using hi h.next (by simpa using hf) (buf ++ [ch])
  case case4 hq hb => 
    rw [not_not.mp hb] at h
    have hs : short 0 = none := by decide
    rw [loop_escape h hs]
    rfl
  case case5 hb ch rest c hs hi =>
    rw [not_not.mp hb] at h
    rw [loop_short h hs]
    have hlt : rest.length < fuel := by
      simp only [List.length_cons] at hf
      omega
    simpa [Function.comp_def] using hi h.next.next hlt (buf ++ [c])
  case case6 hb ch rest hs hu =>
    rw [not_not.mp hb] at h
    simp [loop_escape h hs, hu, Agrees]
  case case7 hb ch hs hu a b c d rest hx =>
    rw [not_not.mp hb, not_not.mp hu] at h
    rw [loop_unicode h, codePoint.of_noHex h.next.next hx]
    rfl
  case case8 hb ch hs hu a b c d codeUnit hx hh b₀ b₁ a' b' c' d' rest hn =>
    rw [not_not.mp hb, not_not.mp hu] at h
    have hc : codePoint copy (p + 2) = .error .reject := by
      apply codePoint.of_high_reject h.next.next hx hh
      rintro _ _ _ _ _ _ ⟨⟩
      simp at hn
    rw [loop_unicode h, hc]
    rfl
  case case9 hb ch hs hu a b c d codeUnit hx hh b₀ b₁ a' b' c' d' rest hn hx' =>
    rw [not_not.mp hb, not_not.mp hu] at h
    have hc : codePoint copy (p + 2) = .error .reject := by
      apply codePoint.of_high_reject h.next.next hx hh
      rintro _ _ _ _ _ _ ⟨⟩ hv
      cases hx'.symm.trans hv
    rw [loop_unicode h, hc]
    rfl
  case case10 hb ch hs hu a b c d codeUnit hx hh b₀ b₁ a' b' c' d' rest hn lowSurrogate hx' hl =>
    rw [not_not.mp hb, not_not.mp hu] at h
    have hc : codePoint copy (p + 2) = .error .reject := by
      apply codePoint.of_high_reject h.next.next hx hh
      rintro _ _ _ _ _ _ ⟨⟩ hv
      cases hx'.symm.trans hv
      exact hl
    rw [loop_unicode h, hc]
    rfl
  case case11 hb ch hs hu a b c d codeUnit hx hh b₀ b₁ a' b' c' d' rest hn lowSurrogate hx' hl cp hi =>
    rw [not_not.mp hb, not_not.mp hu] at h
    rw [not_or, not_not, not_not] at hn
    rw [hn.left, hn.right] at h
    have hlt : rest.length < fuel := by
      simp only [List.length_cons] at hf
      omega
    have hrest : At copy (p + 2 + 10) rest := h.drop (i := 12) (by simp)
    rw [loop_unicode h, codePoint.of_pair h.next.next hx hh hx' hl]
    simpa [Function.comp_def] using hi hrest hlt (buf ++ httpBufAppendUtf8 cp)
  case case12 hb ch hs hu a b c d rest codeUnit hx hh hn =>
    rw [not_not.mp hb, not_not.mp hu] at h
    have hc : codePoint copy (p + 2) = .error .reject := by
      apply codePoint.of_high_reject h.next.next hx hh
      exact fun _ _ _ _ _ _ hr => (hn _ _ _ _ _ _ _ hr).elim
    rw [loop_unicode h, hc]
    rfl
  case case13 hb ch hs hu a b c d rest codeUnit hx hh hl =>
    rw [not_not.mp hb, not_not.mp hu] at h
    rw [loop_unicode h, codePoint.of_low h.next.next hx hh hl]
    rfl
  case case14 hb ch hs hu a b c d rest codeUnit hx hh hl hi =>
    rw [not_not.mp hb, not_not.mp hu] at h
    have hlt : rest.length < fuel := by
      simp only [List.length_cons] at hf
      omega
    have hrest : At copy (p + 2 + 4) rest := h.drop (i := 6) (by simp)
    rw [loop_unicode h, codePoint.of_hex h.next.next hx hh hl]
    simpa [Function.comp_def] using hi hrest hlt (buf ++ httpBufAppendUtf8 codeUnit.toUInt32)
  case case15 hb ch rest hs hu hn =>
    rw [not_not.mp hb, not_not.mp hu] at h
    have hlt : rest.length < 4 := by
      by_contra hlong
      obtain ⟨a, b, c, d, r, rfl⟩ := exists_cons_four (Nat.not_lt.mp hlong)
      exact hn a b c d r rfl
    rw [loop_unicode h, codePoint.of_short h.next.next hlt]
    rfl

end httpJsonParseStringAt

-- The cursor moves to the rest that the text has.
def Follows (copy : Bytes) : Option Bytes → Except Stop Nat → Prop
  | none, r      => r = .error .reject
  | some rest, r => ∃ q, r = .ok q ∧ At copy q rest

def orReject {α : Type} (o : Option α) : Except Stop α :=
  o.elim (.error .reject) .ok

variable {α β : Type} {copy rest : Bytes} {fuel p : Nat}

theorem Agrees.bind {o : Option (α × Bytes)} {r : Except Stop (α × Nat)} {f : α × Bytes → Option β}
    {g : α × Nat → Except Stop β} (h : Agrees copy o r)
    (hg : ∀ a rest q, At copy q rest → g (a, q) = orReject (f (a, rest))) :
    r >>= g = orReject (o.bind f) := by
  cases o
  case none =>
    rw [show r = .error .reject from h]
    rfl
  case some x =>
    obtain ⟨q, rfl, hq⟩ := h
    exact hg x.1 x.2 q hq

theorem Follows.bind {o : Option Bytes} {r : Except Stop Nat} {f : Bytes → Option β} {g : Nat → Except Stop β}
    (h : Follows copy o r) (hg : ∀ rest q, At copy q rest → g q = orReject (f rest)) :
    r >>= g = orReject (o.bind f) := by
  cases o
  case none =>
    rw [show r = .error .reject from h]
    rfl
  case some rest =>
    obtain ⟨q, rfl, hq⟩ := h
    exact hg rest q hq

theorem httpJsonParseStringAt_agrees (h : At copy p rest) (hf : rest.length < fuel) :
    Agrees copy (httpJsonParseString rest) (httpJsonParseStringAt copy fuel p) := by
  rw [httpJsonParseStringAt, h.head, Except.ok_bind]
  cases rest
  case nil => rfl
  case cons c rest =>
    by_cases hc : c = 34
    case neg => simp [httpJsonParseString, hc, Agrees]
    case pos =>
      have hlt : rest.length < fuel := by
        simp only [List.length_cons] at hf
        omega
      have hl := httpJsonParseStringAt.loop_agrees h.next hlt []
      simp only [List.nil_append, Prod.mk.eta, Option.map_id_fun', id_eq] at hl
      simp only [httpJsonParseString, List.headD_cons, hc, require_of, Except.ok_bind, ne_eq, not_true_eq_false,
        if_false]
      cases hr : httpJsonParseString.loop rest
      case none =>
        rw [hr] at hl
        rw [show _ = Except.error Stop.reject from hl]
        rfl
      case some x =>
        rw [hr] at hl
        obtain ⟨q, hq, hrest⟩ := hl
        rw [hq]
        exact ⟨q, rfl, hrest⟩

theorem httpParseMessageJsonAt.expect_follows {c : UInt8} (hc : c ≠ 0) (h : At copy p rest) (hf : rest.length < fuel) :
    Follows copy (httpParseMessageJson.expect c rest) (expect copy fuel c p) := by
  rw [expect, h.head, Except.ok_bind]
  cases rest
  case nil => simp [httpParseMessageJson.expect, Follows, hc.symm]
  case cons d rest =>
    by_cases hd : d = c
    case neg => simp [httpParseMessageJson.expect, Follows, hd]
    case pos =>
      simp only [httpParseMessageJson.expect, hd, List.headD_cons, require_of, Except.ok_bind, if_true]
      exact httpJsonSkipWsAt_eq h.next (by simp only [List.length_cons] at hf; omega)

-- What is left of a copy is shorter than the copy.
theorem At.length_lt (h : At copy p rest) : rest.length < copy.length := by
  obtain ⟨tail, ht⟩ := h.drop_eq
  have := congrArg List.length ht
  simp only [List.length_drop, List.length_append, List.length_cons] at this
  omega

-- The cursor reads what the parser of the text reads.
theorem httpParseMessageJsonAt_eq {body : Bytes} (hf : body.length < fuel) :
    httpParseMessageJsonAt fuel body = orReject (httpParseMessageJson.parse (.ofBuf body)) := by
  have hlt : ∀ {p rest}, At (body ++ [0]) p rest → rest.length < fuel := by
    intro p rest h
    have := h.length_lt
    simp only [List.length_append, List.length_singleton] at this
    omega
  have hskip : ∀ {p rest} {g : Nat → Except Stop CStr} {o : Option CStr}, At (body ++ [0]) p rest →
      (∀ q, At (body ++ [0]) q (httpJsonSkipWs rest) → g q = orReject o) →
      httpJsonSkipWsAt (body ++ [0]) fuel p >>= g = orReject o := by
    intro p rest g o h hg
    obtain ⟨q, hq, hrest⟩ := httpJsonSkipWsAt_eq h (hlt h)
    rw [hq]
    exact hg q hrest
  rw [httpParseMessageJsonAt, httpParseMessageJson.parse]
  apply hskip (At.body body)
  intro p h
  apply (httpParseMessageJsonAt.expect_follows (by decide) h (hlt h)).bind
  intro rest p h
  apply (httpJsonParseStringAt_agrees h (hlt h)).bind
  intro key rest p h
  apply hskip h
  intro p h
  apply (httpParseMessageJsonAt.expect_follows (by decide) h (hlt h)).bind
  intro rest p h
  apply (httpJsonParseStringAt_agrees h (hlt h)).bind
  intro value rest p h
  apply hskip h
  intro p h
  apply (httpParseMessageJsonAt.expect_follows (by decide) h (hlt h)).bind
  intro rest p h
  rw [h.head, Except.ok_bind]
  cases rest
  case nil =>
    by_cases hk : key = .lit "message"
    case pos => simp [hk, orReject, pure, Except.pure]
    case neg => simp [hk, orReject]
  case cons c rest => simp [h.ne_zero, orReject]

-- A read of the copy is in bounds up to the terminator.
theorem readAt_eq_outOfBounds_iff (body : Bytes) (i : Nat) :
    readAt (body ++ [0]) i = .error .outOfBounds ↔ body.length < i := by
  rw [readAt]
  split
  case h_1 hc =>
    have := (List.getElem?_eq_some_iff.mp hc).choose
    simp only [List.length_append, List.length_singleton] at this
    simp
    omega
  case h_2 hc =>
    have := List.getElem?_eq_none_iff.mp hc
    simp only [List.length_append, List.length_singleton] at this
    simp
    omega

-- The parser stays within its copy, and every loop ends within one round for each byte of the copy.
theorem httpParseMessageJsonAt_inBounds (body : Bytes) :
    (∀ i, readAt (body ++ [0]) i = .error .outOfBounds ↔ body.length < i) ∧
    ∀ fuel ≥ (body ++ [0]).length,
      httpParseMessageJsonAt fuel body ≠ .error .outOfBounds ∧ httpParseMessageJsonAt fuel body ≠ .error .outOfFuel := by
  refine ⟨readAt_eq_outOfBounds_iff body, fun fuel hf => ?_⟩
  rw [List.length_append] at hf
  rw [httpParseMessageJsonAt_eq (Nat.lt_of_succ_le hf)]
  cases httpParseMessageJson.parse (.ofBuf body)
  case none => simp [orReject]
  case some => simp [orReject]

-- A body that ends within an escape.
theorem httpParseMessageJsonAt_inBounds_cut :
    httpParseMessageJsonAt 5 (ascii "\x7b\"a\\") ≠ .error .outOfBounds ∧
    httpParseMessageJsonAt 5 (ascii "\x7b\"a\\") ≠ .error .outOfFuel :=
  (httpParseMessageJsonAt_inBounds _).right 5 (by decide)
