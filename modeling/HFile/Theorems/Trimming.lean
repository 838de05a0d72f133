import HFile.Library.Utf8
import HFile.Theorems.Messages

open Arrival (bytes delivered)
open String (utf8EncodeChar)
open Utf8 (Continues Sequence extend sequence_iff)

-- The characters that count as white space.
def isWhitespace (x : Char) : Bool :=
  x.toNat ∈ [9, 10, 11, 12, 13, 32, 0x85, 0xA0, 0x1680, 0x2028, 0x2029, 0x202F, 0x205F, 0x3000] ∨
  (0x2000 ≤ x.toNat ∧ x.toNat ≤ 0x200A)

theorem messageStoreIsUnicodeWhitespace_iff {cp : UInt32} {x : Char} (h : cp.toNat = x.toNat) :
    messageStoreIsUnicodeWhitespace cp = isWhitespace x := by
  have hsmall : ∀ c : UInt8, isspace c = decide (c.toNat = 32 ∨ (9 ≤ c.toNat ∧ c.toNat ≤ 13)) := by
    intro c
    simp only [isspace, ← UInt8.toNat_inj, UInt8.le_iff_toNat_le, UInt8.reduceToNat]
  rw [Bool.eq_iff_iff, messageStoreIsUnicodeWhitespace]
  split
  case isTrue hcp =>
    simp only [UInt32.le_iff_toNat_le, UInt32.reduceToNat] at hcp
    rw [hsmall, isWhitespace]
    simp only [UInt32.toNat_toUInt8, ← h, decide_eq_true_eq, List.mem_cons, List.not_mem_nil, or_false]
    omega
  case isFalse hcp =>
    simp only [UInt32.le_iff_toNat_le, UInt32.reduceToNat] at hcp
    simp only [isWhitespace, ← UInt32.toNat_inj, UInt32.le_iff_toNat_le, UInt32.reduceToNat, h,
      decide_eq_true_eq, List.mem_cons, List.not_mem_nil, or_false]
    omega

namespace messageStoreTrailingWhitespaceBytes

-- A mask can be checked for all 256 numbers.
theorem and_eq_iff {m v : UInt8} (P : Nat → Prop) (h : ∀ n < 256, n &&& m.toNat = v.toNat ↔ P n) (c : UInt8) :
    c &&& m = v ↔ P c.toNat := by
  rw [← UInt8.toNat_inj, UInt8.toNat_and]
  exact h _ c.toNat_lt

theorem continues_iff (c : UInt8) : c &&& 0xC0 = 0x80 ↔ Continues c :=
  and_eq_iff (fun n => 128 ≤ n ∧ n < 192) (by decide +kernel) c

theorem ascii_iff (c : UInt8) : c &&& 0x80 = 0 ↔ c.toNat < 128 :=
  and_eq_iff (· < 128) (by decide +kernel) c

theorem lead_two (c : UInt8) : c &&& 0xE0 = 0xC0 ↔ 192 ≤ c.toNat ∧ c.toNat < 224 :=
  and_eq_iff (fun n => 192 ≤ n ∧ n < 224) (by decide +kernel) c

theorem lead_three (c : UInt8) : c &&& 0xF0 = 0xE0 ↔ 224 ≤ c.toNat ∧ c.toNat < 240 :=
  and_eq_iff (fun n => 224 ≤ n ∧ n < 240) (by decide +kernel) c

theorem lead_four (c : UInt8) : c &&& 0xF8 = 0xF0 ↔ 240 ≤ c.toNat ∧ c.toNat < 248 :=
  and_eq_iff (fun n => 240 ≤ n ∧ n < 248) (by decide +kernel) c

theorem toNat_payload {c m : UInt8} (k : Nat) (hm : m.toNat = 2 ^ k - 1) :
    (c &&& m).toUInt32.toNat = c.toNat % 2 ^ k := by
  rw [UInt8.toNat_toUInt32, UInt8.toNat_and, hm, Nat.and_two_pow_sub_one_eq_mod]

-- The length of a sequence and the payload of its lead byte.
def lead (b : UInt8) : Option (Nat × UInt32) :=
  if b &&& 0xE0 = 0xC0 then some (2, (b &&& 0x1F).toUInt32)
  else if b &&& 0xF0 = 0xE0 then some (3, (b &&& 0x0F).toUInt32)
  else if b &&& 0xF8 = 0xF0 then some (4, (b &&& 0x07).toUInt32)
  else none

theorem lead_eq (b : UInt8) : (lead b).map (fun r => (r.1, r.2.toNat)) =
    if 192 ≤ b.toNat ∧ b.toNat < 224 then some (2, b.toNat - 192)
    else if 224 ≤ b.toNat ∧ b.toNat < 240 then some (3, b.toNat - 224)
    else if 240 ≤ b.toNat ∧ b.toNat < 248 then some (4, b.toNat - 240)
    else none := by
  simp only [lead, lead_two, lead_three, lead_four]
  split_ifs
  all_goals simp only [Option.map_some, Option.map_none, Option.some.injEq, Prod.mk.injEq, true_and]
  · rw [toNat_payload 5 rfl]
    omega
  · rw [toNat_payload 4 rfl]
    omega
  · rw [toNat_payload 3 rfl]
    omega

theorem toNat_step {cp : UInt32} {c : UInt8} (h : cp.toNat < 2 ^ 26) :
    (cp <<< 6 ||| (c &&& 0x3F).toUInt32).toNat = cp.toNat * 64 + c.toNat % 64 := by
  have hor : cp.toNat * 64 ||| c.toNat % 64 = cp.toNat * 64 + c.toNat % 64 := by
    rw [Nat.mul_comm]
    exact (Nat.two_pow_add_eq_or_of_lt (i := 6) (Nat.mod_lt _ (by decide)) _).symm
  simp only [UInt32.toNat_or, UInt32.toNat_shiftLeft, UInt8.toNat_toUInt32, UInt8.toNat_and,
    UInt32.reduceToNat, UInt8.reduceToNat, Nat.shiftLeft_eq]
  rw [show 63 = 2 ^ 6 - 1 from rfl, Nat.and_two_pow_sub_one_eq_mod, show 2 ^ (6 % 32) = 64 from rfl,
    Nat.mod_eq_of_lt (by omega), hor]

theorem decode_continues {cp cp' : UInt32} {cs : Bytes} (h : decode cp cs = some cp') :
    ∀ c ∈ cs, Continues c := by
  induction cs generalizing cp
  case nil => exact fun _ h => nomatch h
  case cons c cs hi =>
    rw [decode] at h
    split at h
    case isTrue     => exact nomatch h
    case isFalse hc =>
      rw [List.forall_mem_cons]
      exact ⟨(continues_iff c).mp (not_ne_iff.mp hc), hi h⟩

theorem decode_extend {cp : UInt32} {cs : Bytes} (hc : ∀ c ∈ cs, Continues c)
    (hlt : (cp.toNat + 1) * 64 ^ cs.length ≤ 2 ^ 32) :
    ∃ cp', decode cp cs = some cp' ∧ cp'.toNat = extend cp.toNat cs := by
  induction cs generalizing cp
  case nil => exact ⟨cp, rfl, rfl⟩
  case cons c cs hi =>
    rw [List.length_cons, Nat.pow_succ] at hlt
    have hpos : 0 < 64 ^ cs.length := Nat.pow_pos (by decide)
    have hstep := @toNat_step cp c (by nlinarith)
    have hlt' : (cp.toNat * 64 + c.toNat % 64 + 1) * 64 ^ cs.length ≤ 2 ^ 32 := by
      calc _ ≤ ((cp.toNat + 1) * 64) * 64 ^ cs.length := Nat.mul_le_mul_right _ (by omega)
           _ = (cp.toNat + 1) * (64 ^ cs.length * 64)  := by ring
           _ ≤ 2 ^ 32                                  := hlt
    rw [decode, if_neg (not_not.mpr ((continues_iff c).mpr (hc c List.mem_cons_self))), extend,
      List.foldl_cons, ← extend, ← hstep]
    exact hi (fun c h => hc c (List.mem_cons_of_mem _ h)) (hstep ▸ hlt')

-- Sequences that are overlong, or that stand for no scalar.
def IllFormed (seqLen : Nat) (cp : UInt32) : Prop :=
  (seqLen = 2 ∧ cp < 0x80) ∨ (seqLen = 3 ∧ cp < 0x800) ∨ (seqLen = 4 ∧ cp < 0x10000) ∨
  (0xD800 ≤ cp ∧ cp ≤ 0xDFFF) ∨ cp > 0x10FFFF

theorem lead_some {b : UInt8} {seqLen : Nat} {cp : UInt32} (h : lead b = some (seqLen, cp)) :
    (seqLen = 2 ∧ (192 ≤ b.toNat ∧ b.toNat < 224) ∧ cp.toNat = b.toNat - 192) ∨
    (seqLen = 3 ∧ (224 ≤ b.toNat ∧ b.toNat < 240) ∧ cp.toNat = b.toNat - 224) ∨
    (seqLen = 4 ∧ (240 ≤ b.toNat ∧ b.toNat < 248) ∧ cp.toNat = b.toNat - 240) := by
  have he := lead_eq b
  rw [h, Option.map_some] at he
  split_ifs at he
  all_goals
    simp only [Option.some.injEq, Prod.mk.injEq] at he
    omega

theorem sequence_of_decode {b : UInt8} {cs : Bytes} {seqLen : Nat} {cp₀ cp : UInt32}
    (hl : lead b = some (seqLen, cp₀)) (hlen : cs.length + 1 = seqLen) (hd : decode cp₀ cs = some cp)
    (hw : ¬IllFormed seqLen cp) : Sequence b cs cp.toNat := by
  have hc := decode_continues hd
  simp only [IllFormed, gt_iff_lt, UInt32.le_iff_toNat_le, UInt32.lt_iff_toNat_lt, UInt32.reduceToNat] at hw
  have hcp : (cp₀.toNat + 1) * 64 ^ cs.length ≤ 2 ^ 32 → cp.toNat = extend cp₀.toNat cs := by
    intro hlt
    obtain ⟨cp', hd', he⟩ := decode_extend hc hlt
    rwa [Option.some.inj (hd.symm.trans hd')]
  rcases lead_some hl with ⟨hs, hb, h₀⟩ | ⟨hs, hb, h₀⟩ | ⟨hs, hb, h₀⟩
  case inl =>
    obtain ⟨c, rfl⟩ := List.length_eq_one_iff.mp (by omega : cs.length = 1)
    rw [h₀] at hcp
    simp only [List.forall_mem_cons] at hc
    exact .two hb hc.left (hcp (by simp; omega)) (by omega)
  case inr.inl =>
    obtain ⟨c, d, rfl⟩ := List.length_eq_two.mp (by omega : cs.length = 2)
    rw [h₀] at hcp
    simp only [List.forall_mem_cons] at hc
    exact .three hb hc.left hc.right.left (hcp (by simp; omega)) (by omega)
  case inr.inr =>
    obtain ⟨c, d, e, rfl⟩ := List.length_eq_three.mp (by omega : cs.length = 3)
    rw [h₀] at hcp
    simp only [List.forall_mem_cons] at hc
    exact .four hb hc.left hc.right.left hc.right.right.left (hcp (by simp; omega)) (by omega)

theorem some_of_lead {b : UInt8} {seqLen payload : Nat} (h : (if 192 ≤ b.toNat ∧ b.toNat < 224 then some (2, b.toNat - 192)
    else if 224 ≤ b.toNat ∧ b.toNat < 240 then some (3, b.toNat - 224)
    else if 240 ≤ b.toNat ∧ b.toNat < 248 then some (4, b.toNat - 240)
    else none) = some (seqLen, payload)) : ∃ cp, lead b = some (seqLen, cp) ∧ cp.toNat = payload := by
  rw [← lead_eq, Option.map_eq_some_iff] at h
  obtain ⟨⟨_, cp⟩, hl, he⟩ := h
  obtain ⟨rfl, rfl⟩ := Prod.ext_iff.mp he
  exact ⟨cp, hl, rfl⟩

theorem decode_of_sequence {b : UInt8} {cs : Bytes} {x : Char} (h : Sequence b cs x.toNat) :
    ∃ cp₀ cp, lead b = some (cs.length + 1, cp₀) ∧ decode cp₀ cs = some cp ∧ cp.toNat = x.toNat ∧
      ¬IllFormed (cs.length + 1) cp := by
  have hc := h.continues
  have hv := x.valid
  simp only [UInt32.isValidChar, Nat.isValidChar] at hv
  change x.toNat < _ ∨ _ < x.toNat ∧ x.toNat < _ at hv
  simp only [IllFormed, gt_iff_lt, UInt32.le_iff_toNat_le, UInt32.lt_iff_toNat_lt, UInt32.reduceToNat]
  cases h
  case two hb _ hn hm =>
    obtain ⟨cp₀, hl, h₀⟩ := some_of_lead (if_pos hb)
    obtain ⟨cp, hd, hcp⟩ := decode_extend hc (show (cp₀.toNat + 1) * _ ≤ _ by simp; omega)
    rw [h₀, ← hn] at hcp
    refine ⟨cp₀, cp, hl, hd, hcp, ?_⟩
    simp only [hcp, List.length_cons, List.length_nil]
    omega
  case three hb _ _ hn hm =>
    obtain ⟨cp₀, hl, h₀⟩ := some_of_lead ((if_neg (by omega)).trans (if_pos hb))
    obtain ⟨cp, hd, hcp⟩ := decode_extend hc (show (cp₀.toNat + 1) * _ ≤ _ by simp; omega)
    rw [h₀, ← hn] at hcp
    refine ⟨cp₀, cp, hl, hd, hcp, ?_⟩
    simp only [hcp, List.length_cons, List.length_nil]
    omega
  case four hb _ _ _ hn hm =>
    obtain ⟨cp₀, hl, h₀⟩ :=
      some_of_lead ((if_neg (by omega)).trans ((if_neg (by omega)).trans (if_pos hb)))
    obtain ⟨cp, hd, hcp⟩ := decode_extend hc (show (cp₀.toNat + 1) * _ ≤ _ by simp; omega)
    rw [h₀, ← hn] at hcp
    refine ⟨cp₀, cp, hl, hd, hcp, ?_⟩
    simp only [hcp, List.length_cons, List.length_nil]
    omega

theorem start_le (message : Bytes) (n : Nat) : start message n ≤ n := by
  induction n
  case zero => rw [start]
  case succ n hi =>
    rw [start]
    split
    case isTrue  => exact Nat.le_succ_of_le hi
    case isFalse => exact Nat.le_refl _

-- The search stops at the lead byte.
theorem start_eq {p cs : Bytes} {b : UInt8} (hb : ¬Continues b) (hc : ∀ c ∈ cs, Continues c) {n : Nat}
    (hp : p.length ≤ n) (hn : n ≤ p.length + cs.length) : start (p ++ b :: cs) n = p.length := by
  induction n
  case zero => 
    rw [start]
    omega
  case succ n hi =>
    rw [start]
    rcases Nat.eq_or_lt_of_le hp with he | hlt
    case inl =>
      have hget : (p ++ b :: cs)[n + 1]? = some b := by
        rw [← he, List.getElem?_append_right (Nat.le_refl _)]
        simp
      rw [hget, Option.getD_some, if_neg (fun h => hb ((continues_iff b).mp h)), he]
    case inr =>
      obtain ⟨i, hi'⟩ : ∃ i, n + 1 = p.length + (i + 1) := ⟨n - p.length, by omega⟩
      have hlt : i < cs.length := by omega
      have hget : (p ++ b :: cs)[n + 1]? = some cs[i] := by
        rw [hi', List.getElem?_append_right (by omega)]
        simp [hlt]
      rw [hget, Option.getD_some, if_pos ((continues_iff _).mpr (hc _ (List.getElem_mem hlt)))]
      exact hi (by omega) (by omega)

theorem last_continues {p cs : Bytes} {b : UInt8} (hne : cs ≠ []) (hc : ∀ c ∈ cs, Continues c) :
    ¬(p ++ b :: cs)[p.length + cs.length]?.getD 0 &&& 0x80 = 0 := by
  obtain ⟨ds, d, rfl⟩ := (List.eq_nil_or_concat cs).resolve_left hne
  have hget : (p ++ b :: (ds ++ [d]))[p.length + (ds ++ [d]).length]? = some d := by
    rw [List.length_append, List.length_singleton, List.getElem?_append_right (by omega)]
    simp
  rw [List.concat_eq_append, hget, Option.getD_some, ascii_iff]
  exact Nat.not_lt.mpr (hc d (by simp)).left

end messageStoreTrailingWhitespaceBytes

open messageStoreTrailingWhitespaceBytes

-- The encoding of a character at the end of a message is looked at as a whole.
theorem messageStoreTrailingWhitespaceBytes_append (p : Bytes) (x : Char) :
    messageStoreTrailingWhitespaceBytes (p ++ utf8EncodeChar x) =
      if isWhitespace x then (utf8EncodeChar x).length else 0 := by
  by_cases hx : x.toNat < 128
  case pos =>
    have hlast : (p ++ [UInt8.ofNat x.toNat])[p.length]? = some (UInt8.ofNat x.toNat) := by simp
    have hu : (UInt8.ofNat x.toNat).toNat = x.toNat := by
      rw [UInt8.toNat_ofNat']
      omega
    rw [utf8EncodeChar_ascii hx, messageStoreTrailingWhitespaceBytes]
    dsimp only
    rw [if_neg (by simp), List.length_append, List.length_singleton, Nat.add_sub_cancel, hlast,
      Option.getD_some, if_pos ((ascii_iff _).mpr (hu.symm ▸ hx)),
      messageStoreIsUnicodeWhitespace_iff (x := x) (by rw [UInt8.toNat_toUInt32, hu])]
  case neg =>
    obtain ⟨b, cs, he⟩ := List.exists_cons_of_ne_nil (String.utf8EncodeChar_ne_nil (c := x))
    have hseq := (sequence_iff (Nat.le_of_not_lt hx)).mpr he
    obtain ⟨cp₀, cp, hl, hd, hcp, hill⟩ := decode_of_sequence hseq
    have hget : (p ++ b :: cs)[p.length]? = some b := by simp
    have hdrop : (p ++ b :: cs).drop (p.length + 1) = cs := by simp
    have hlen : (p ++ b :: cs).length - 1 = p.length + cs.length := by
      rw [List.length_append, List.length_cons]
      omega
    rw [he, messageStoreTrailingWhitespaceBytes]
    dsimp only
    rw [if_neg (by simp), if_neg, hlen, start_eq hseq.lead (hseq.continues) (by omega) (by omega), hget,
      Option.getD_some]
    rw [lead] at hl
    rw [hl]
    dsimp only
    rw [if_neg (by simp), hdrop, hd]
    dsimp only
    rw [IllFormed] at hill
    rw [if_neg hill, messageStoreIsUnicodeWhitespace_iff hcp, List.length_cons]
    exact hlen ▸ last_continues hseq.ne_nil hseq.continues

-- What is found at the end of a message is the encoding of a character.
theorem messageStoreTrailingWhitespaceBytes_pos {message : Bytes}
    (h : messageStoreTrailingWhitespaceBytes message ≠ 0) : ∃ p x, isWhitespace x = true ∧
      message = p ++ utf8EncodeChar x ∧
      messageStoreTrailingWhitespaceBytes message = (utf8EncodeChar x).length := by
  generalize hn : messageStoreTrailingWhitespaceBytes message = n at h
  unfold messageStoreTrailingWhitespaceBytes at hn
  dsimp only at hn
  split at hn
  case isTrue => exact absurd hn.symm h
  rename_i hlen
  split at hn
  case isTrue hascii =>
    rw [ascii_iff] at hascii
    split at hn
    case isFalse   => exact absurd hn.symm h
    case isTrue hw =>
      obtain ⟨p, c, rfl⟩ := (List.eq_nil_or_concat message).resolve_left (hlen ∘ congrArg List.length)
      have hlast : (p.concat c)[(p.concat c).length - 1]?.getD 0 = c := by simp
      rw [hlast] at hascii hw
      obtain ⟨x, hx⟩ : ∃ x : Char, x.val = c.toUInt32 := by
        refine ⟨⟨c.toUInt32, ?_⟩, rfl⟩
        rw [UInt32.isValidChar, UInt8.toNat_toUInt32, Nat.isValidChar]
        omega
      have hx : x.toNat = c.toNat := congrArg UInt32.toNat hx
      have he : utf8EncodeChar x = [c] := by
        rw [utf8EncodeChar_ascii (hx.symm ▸ hascii), hx, UInt8.ofNat_toNat]
      refine ⟨p, x, ?_, ?_, ?_⟩
      · rwa [← messageStoreIsUnicodeWhitespace_iff (UInt8.toNat_toUInt32 .. |>.trans hx.symm)]
      · rw [he, List.concat_eq_append]
      · rw [← hn, he, List.length_singleton]
  -- The last byte is not ASCII. All the other returns are refusals, up to the last one.
  rw [← lead] at hn
  split at hn
  case h_1 => exact absurd hn.symm h
  rename_i seqLen cp₀ hl
  split at hn
  case isTrue => exact absurd hn.symm h
  rename_i hend
  split at hn
  case h_1 => exact absurd hn.symm h
  rename_i cp hd
  split at hn
  case isTrue => exact absurd hn.symm h
  rename_i hill
  split at hn
  case isFalse => exact absurd hn.symm h
  rename_i hw
  rw [← IllFormed] at hill
  have hlt : start message (message.length - 1) < message.length := by
    have := start_le message (message.length - 1)
    omega
  rw [List.getElem?_eq_getElem hlt, Option.getD_some] at hl
  have hseq := sequence_of_decode hl (by rw [List.length_drop]; omega) hd hill
  have hvalid : cp.isValidChar := by
    simp only [IllFormed, gt_iff_lt, UInt32.le_iff_toNat_le, UInt32.lt_iff_toNat_lt,
      UInt32.reduceToNat] at hill
    rw [UInt32.isValidChar, Nat.isValidChar]
    omega
  have he := (sequence_iff (x := ⟨cp, hvalid⟩) hseq.le).mp hseq
  refine ⟨message.take (start message (message.length - 1)), ⟨cp, hvalid⟩, ?_, ?_, ?_⟩
  · rwa [← @messageStoreIsUnicodeWhitespace_iff cp _ rfl]
  · rw [he, ← List.drop_eq_getElem_cons hlt, List.take_append_drop]
  · rw [← hn, he, List.length_cons, List.length_drop]
    omega

-- The stored text is the message without the white space at its end.
structure Trimmed (message stored : Bytes) : Prop where
  removed : ∃ text : List Char, (∀ x ∈ text, isWhitespace x = true) ∧ message = stored ++ utf8 text
  ends    : ∀ x, isWhitespace x = true → ¬utf8EncodeChar x <:+ stored

-- A text that ends with no white space is kept as it is.
theorem messageStoreTrim_of_ends {message : Bytes}
    (h : ∀ x, isWhitespace x = true → ¬utf8EncodeChar x <:+ message) : messageStoreTrim message = message := by
  have hzero : messageStoreTrailingWhitespaceBytes message = 0 := by
    by_contra hne
    obtain ⟨p, x, hx, rfl, _⟩ := messageStoreTrailingWhitespaceBytes_pos hne
    exact h x hx (List.suffix_append _ _)
  rw [messageStoreTrim]
  split
  case isTrue hm => exact hm.symm
  case isFalse   => rw [dif_pos hzero]

theorem messageStoreTrim_append {x : Char} (p : Bytes) : messageStoreTrim (p ++ utf8EncodeChar x) =
    if isWhitespace x then messageStoreTrim p else p ++ utf8EncodeChar x := by
  have hne : utf8EncodeChar x ≠ [] := String.utf8EncodeChar_ne_nil
  rw [messageStoreTrim, dif_neg (by simp [hne])]
  dsimp only
  rw [messageStoreTrailingWhitespaceBytes_append]
  split
  case isFalse => rw [dif_pos rfl]
  case isTrue  =>
    rw [dif_neg (List.length_pos_iff.mpr hne).ne', List.length_append, Nat.add_sub_cancel,
      List.take_left' rfl]

theorem messageStoreTrim_trimmed (message : Bytes) : Trimmed message (messageStoreTrim message) := by
  fun_induction messageStoreTrim message
  case case1 =>
    refine ⟨⟨[], List.forall_mem_nil _, rfl⟩, ?_⟩
    intro x _ hs
    exact String.utf8EncodeChar_ne_nil (List.suffix_nil.mp hs)
  case case2 message hm trimmed hzero =>
    refine ⟨⟨[], List.forall_mem_nil _, (List.append_nil _).symm⟩, ?_⟩
    rintro x hx ⟨p, rfl⟩
    change messageStoreTrailingWhitespaceBytes _ = 0 at hzero
    rw [messageStoreTrailingWhitespaceBytes_append, if_pos hx] at hzero
    exact String.utf8EncodeChar_ne_nil (List.length_eq_zero_iff.mp hzero)
  case case3 message hm trimmed hpos hi =>
    obtain ⟨p, x, hx, he, hl⟩ := messageStoreTrailingWhitespaceBytes_pos hpos
    have htake : message.take (message.length - trimmed) = p := by
      rw [show trimmed = (utf8EncodeChar x).length from hl, he, List.length_append, Nat.add_sub_cancel,
        List.take_left' rfl]
    rw [htake] at hi ⊢
    obtain ⟨⟨text, htext, hp⟩, hends⟩ := hi
    refine ⟨⟨text ++ [x], ?_, ?_⟩, hends⟩
    · intro y hy
      cases List.mem_append.mp hy
      case inl hy => exact htext y hy
      case inr hy => exact List.mem_singleton.mp hy ▸ hx
    · rw [utf8_append, ← List.append_assoc, ← hp, he, utf8_cons, utf8_nil, List.append_nil]

-- Of a text, the white space at its end is dropped.
theorem messageStoreTrim_utf8 (text : List Char) :
    messageStoreTrim (utf8 text) = utf8 (text.rdropWhile isWhitespace) := by
  induction text using List.reverseRecOn
  case nil => 
    rw [utf8_nil, messageStoreTrim]
    rfl
  case append_singleton text x hi =>
    rw [utf8_append, List.rdropWhile_concat, utf8_cons, utf8_nil, List.append_nil, messageStoreTrim_append, hi]
    split
    case isTrue  => rfl
    case isFalse => simp

-- A call stores the message without the white space at its end, unless there is no memory for it.
theorem messageStoreSet_trims (e : Env) (w : World) (message : CStr) :
    Io.wp World.handle (messageStoreSet message) (fun ok _ w' => ok = e.allocs.headD true ∧
      (ok = true → ∃ stored : CStr, w'.board.message = some stored ∧
        Trimmed message.chars stored.chars ∧
        (∀ text, message.chars = utf8 text → stored.chars = utf8 (text.rdropWhile isWhitespace)) ∧
        storedMessage stored = stored)) e w := by
  rw [messageStoreSet, Io.wp_bind, Io.wp_malloc_iff]
  cases e.allocs.headD true
  case false => exact ⟨rfl, fun h => absurd h Bool.false_ne_true⟩
  case true  =>
    refine ⟨rfl, fun _ => ⟨storedMessage message, rfl, messageStoreTrim_trimmed _, ?_, ?_⟩⟩
    · intro text ht
      change messageStoreTrim message.chars = _
      rw [ht, messageStoreTrim_utf8]
    · exact CStr.ext (messageStoreTrim_of_ends (messageStoreTrim_trimmed _).ends)

theorem zero_not_mem_of_trimmed {message stored : Bytes} (h : Trimmed message stored) (hs : 0 ∉ stored) :
    0 ∉ message := by
  obtain ⟨text, ht, rfl⟩ := h.removed
  refine List.not_mem_append hs (zero_not_mem_utf8 fun x hx hz => ?_)
  have hw := ht x hx
  simp [isWhitespace, hz] at hw

-- What a run of `server_handle_text_message` says about a payload is true: with FINAL/OK it is
-- stored up to the white space at its end, and with FINAL/FAILED nothing is stored.
def TextAnswer (payload : Bytes) (e e' : Env) (w w' : World) : Prop :=
  (e'.out = e.out ++ ResFrame.finalOk.bytes →
    ∃ stored : CStr, w'.board.message = some stored ∧ Trimmed payload stored.chars) ∧
  (∀ code, e'.out = e.out ++ (ResFrame.finalFailed code).bytes → w'.board = w.board)

-- What arrives is the payload, unless the stream ends within it.
def Carries (payload : Bytes) (e : Env) : Prop :=
  payload <+: bytes e.inp ∨ bytes e.inp <+: payload

theorem textRun_payload {header : ProtocolHeader} {payload message : Bytes} {e : Env} {rest : List Arrival}
    (hs : header.payloadSize.toNat = payload.length) (hc : Carries payload e)
    (hl : message.length = header.payloadSize.toNat) (hb : bytes e.inp = message ++ bytes rest) :
    message = payload := by
  have hm : message <+: bytes e.inp := hb ▸ List.prefix_append _ _
  have hle := hl.trans hs
  cases hc
  case inl hp => exact List.IsPrefix.eq_of_length (List.prefix_of_prefix_length_le hm hp hle.le) hle
  case inr hp => exact List.IsPrefix.eq_of_length (hm.trans hp) hle

theorem finalOk_ne_finalFailed (code : ProtocolResult) :
    ResFrame.finalOk.bytes ≠ (ResFrame.finalFailed code).bytes := by
  simp [ResFrame.bytes, ResFrame.finalOk, ResFrame.finalFailed, statusOk, statusFailed]

theorem not_sends_finalFailed {ts : List Transfer} (code : ProtocolResult) :
    ¬Sends ts (ResFrame.finalFailed code).bytes ResFrame.finalOk.bytes := by
  rintro (h | ⟨_, hlt, _⟩)
  case inl => exact finalOk_ne_finalFailed code h
  case inr => simp [ResFrame.bytes] at hlt

theorem not_sends_finalOk {ts : List Transfer} (code : ProtocolResult) :
    ¬Sends ts ResFrame.finalOk.bytes (ResFrame.finalFailed code).bytes := by
  rintro (h | ⟨_, hlt, _⟩)
  case inl => exact finalOk_ne_finalFailed code h.symm
  case inr => simp [ResFrame.bytes] at hlt

theorem TextRun.answer {header : ProtocolHeader} {payload sent : Bytes} {e e' : Env} {w w' : World}
    (hs : header.payloadSize.toNat = payload.length) (hc : Carries payload e) (hz : 0 ∉ payload)
    (hout : e'.out = e.out ++ sent) (h : TextRun header e w.board sent w'.board) :
    TextAnswer payload e e' w w' := by
  generalize hb : w'.board = board at h
  constructor
  case left =>
    intro ho
    obtain rfl := List.append_cancel_left (hout.symm.trans ho)
    cases h
    case failed hsent => exact absurd hsent (not_sends_finalFailed _)
    case stored message rest hl hin _ =>
      obtain rfl := textRun_payload hs hc hl hin
      refine ⟨_, congrArg Board.message hb, ?_⟩
      change Trimmed message (messageStoreTrim (CStr.ofBuf message).chars)
      rw [CStr.ofBuf_eq_of_nul_free hz]
      exact messageStoreTrim_trimmed message
  case right =>
    intro code ho
    obtain rfl := List.append_cancel_left (hout.symm.trans ho)
    cases h
    case failed       => exact hb
    case stored hsent => exact absurd hsent (not_sends_finalOk _)

-- A payload that arrives completely is stored up to its first NUL byte.
theorem wp_serverHandleTextMessage_of_reliable {header : ProtocolHeader} {payload : Bytes} {e : Env}
    {w : World} (he : e.Reliable) (hm : payload.length ≤ maxTextMessageSize)
    (hs : header.payloadSize.toNat = payload.length) (hin : payload <+: delivered e.inp) :
    Io.wp World.handle (serverHandleTextMessage header) (fun _ e' w' =>
      e'.out = e.out ++ ResFrame.finalOk.bytes ∧
      w' = { w with board := ⟨some (storedMessage (.ofBuf payload)), w.board.version + 1⟩ }) e w := by
  rw [serverHandleTextMessage, Io.wp_bind, serverHandleTextMessage.receive, hs,
    if_neg (Nat.not_lt.mpr hm), Io.wp_bind]
  apply wp_malloc_of_allocates he.allocates
  intro al hal
  rw [if_neg (by simp), Io.wp_bind]
  apply wp_recvAll_of_delivered (e := { e with allocs := al }) hin
  intro as _
  dsimp only
  rw [if_neg (not_not.mpr rfl)]
  apply wp_appSubmitMessage_of_allocates (e := { e with inp := as, allocs := al }) hal
    ((CStr.strlen_ofBuf_le payload).trans hm)
  intro al' _
  rw [Io.wp_bind, Io.wp_discard]
  apply wp_sendResFrame_sends ResFrame.finalOk_valid
  intro r sent ts _ hsent _
  rw [hsent.eq_of_benign he.benign]
  exact ⟨rfl, rfl⟩

-- The header of a payload of `n` bytes, and a connection that delivers the payload.
def textHeader (n : Nat) : ProtocolHeader :=
  requestHeader msgTypeTextMessage n.toUInt64

def textEnv (payload : Bytes) : Env :=
  .calm 0 (Arrival.push payload [])

theorem textEnv_reliable (payload : Bytes) : (textEnv payload).Reliable :=
  ⟨nofun, nofun⟩

-- What is acknowledged is stored as a whole exactly for payloads without a NUL byte.
theorem textAnswer_iff (payload : Bytes) (hm : payload.length ≤ maxTextMessageSize) :
    (∀ (e : Env) (w : World) (header : ProtocolHeader), header.payloadSize.toNat = payload.length →
      Carries payload e → Io.wp World.handle (serverHandleTextMessage header)
        (fun _ e' w' => TextAnswer payload e e' w w') e w) ↔ 0 ∉ payload := by
  constructor
  case mp =>
    intro h
    have hd : delivered (textEnv payload).inp = payload := by simp [textEnv, Env.calm]
    have hb : bytes (textEnv payload).inp = payload := by simp [textEnv, Env.calm]
    have hs : (textHeader payload.length).payloadSize.toNat = payload.length :=
      Nat.mod_eq_of_lt (Nat.lt_of_le_of_lt hm (by decide))
    obtain ⟨hout, _⟩ := Io.wp_iff_exec.mp (wp_serverHandleTextMessage_of_reliable (w := World.empty)
      (textEnv_reliable payload) hm hs (hd.symm ▸ List.prefix_rfl))
    obtain ⟨stored, _, ht⟩ := (Io.wp_iff_exec.mp (h _ World.empty _ hs (.inl (hb.symm ▸ List.prefix_rfl)))).left hout
    exact zero_not_mem_of_trimmed ht stored.nul_free
  case mpr =>
    intro hz e w header hs hc
    apply Io.wp_mono (wp_serverHandleTextMessage header e w)
    rintro _ e' w' ⟨_, sent, hout, hrun⟩
    exact hrun.answer hs hc hz hout

theorem textAnswer_iff_of_one_byte :
    (∀ (e : Env) (w : World) (header : ProtocolHeader), header.payloadSize.toNat = [(97 : UInt8)].length →
      Carries [97] e → Io.wp World.handle (serverHandleTextMessage header)
        (fun _ e' w' => TextAnswer [97] e e' w w') e w) ↔ 0 ∉ [(97 : UInt8)] :=
  textAnswer_iff [97] (by decide)

-- Three bytes are acknowledged, of which one is stored.
theorem text_cut_at_nul :
    (Io.exec World.handle (serverHandleTextMessage (textHeader 3)) (textEnv [97, 0, 98]) World.empty).1.2.out =
      ResFrame.finalOk.bytes ∧
    (Io.exec World.handle (serverHandleTextMessage (textHeader 3)) (textEnv [97, 0, 98]) World.empty).2.board.message =
      some (.lit "a") ∧
    ¬Trimmed [97, 0, 98] (CStr.lit "a").chars := by
  refine ⟨by decide +kernel, by decide +kernel, ?_⟩
  intro h
  exact zero_not_mem_of_trimmed h (CStr.nul_free _) (by decide)
