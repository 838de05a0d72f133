import HFile.Theorems.HttpRequest

namespace httpParseU64

-- Every multiplication and every addition that the loop makes has the result of the same operation
-- on natural numbers.
def Exact : UInt64 → Bytes → Prop
  | _, []          => True
  | value, ch :: s => isdigit ch = true → ¬value > (0xFFFFFFFFFFFFFFFF - (ch - 48).toUInt64) / 10 →
    (value * 10).toNat = value.toNat * 10 ∧
    (value * 10 + (ch - 48).toUInt64).toNat = value.toNat * 10 + (ch - 48).toNat ∧
    Exact (value * 10 + (ch - 48).toUInt64) s

theorem exact (value : UInt64) (s : Bytes) : Exact value s := by
  induction s generalizing value
  case nil => trivial
  case cons ch s hi =>
    intro _ hv
    obtain ⟨hmul, hadd⟩ := toNat_step ((guard_iff _ _).mp hv)
    exact ⟨hmul, hadd, hi _⟩

end httpParseU64

-- The texts that stand for a number of type `uint64_t`.
structure DecimalText (s : Bytes) : Prop where
  ne_nil : s ≠ []
  digits : ∀ c ∈ s, isdigit c = true
  le     : decimalValue s ≤ 2 ^ 64 - 1

theorem httpParseU64_some_iff (s : CStr) (n : UInt64) :
    httpParseU64 s = some n ↔ DecimalText s.chars ∧ n.toNat = decimalValue s.chars := by
  constructor
  case mp =>
    intro h
    have hn := httpParseU64_eq h
    rw [httpParseU64] at h
    split at h
    case isTrue     => cases h
    case isFalse hs => exact ⟨⟨hs, (httpParseU64.loop_eq h).right, by have := n.toNat_lt; omega⟩, hn⟩
  case mpr =>
    rintro ⟨hs, hn⟩
    have hlt : decimalValue s.chars < 2 ^ 64 := by
      have := hs.le
      omega
    obtain ⟨m, hm⟩ := @httpParseU64.loop_some 0 _ hs.digits hlt
    have hp : httpParseU64 s = some m := by rw [httpParseU64, if_neg hs.ne_nil, hm]
    rw [hp, UInt64.toNat_inj.mp ((httpParseU64_eq hp).trans hn.symm)]

-- Decimal lengths are read exactly.
theorem httpParseU64_exact (s : CStr) :
    ((httpParseU64 s).isSome = true ↔ DecimalText s.chars) ∧
    (∀ n, httpParseU64 s = some n → n.toNat = decimalValue s.chars) ∧
    httpParseU64.Exact 0 s.chars := by
  refine ⟨?_, fun n h => httpParseU64_eq h, httpParseU64.exact 0 _⟩
  rw [Option.isSome_iff_exists]
  constructor
  case mp =>
    rintro ⟨n, h⟩
    exact ((httpParseU64_some_iff s n).mp h).left
  case mpr =>
    intro hs
    have hn : (UInt64.ofNat (decimalValue s.chars)).toNat = decimalValue s.chars := by
      have := hs.le
      rw [UInt64.toNat_ofNat', Nat.mod_eq_of_lt (by omega)]
    exact ⟨_, (httpParseU64_some_iff s _).mpr ⟨hs, hn⟩⟩

-- What a receiver may conclude from the headers of a request about the length of its body.
structure LengthClear (headers : List PhrHeader) (req : HttpRequest) : Prop where
  same   : req.hasContentLength = true → ∀ x ∈ headers, x.Named "Content-Length" →
    DecimalText x.value ∧ decimalValue x.value = req.contentLength.toNat
  absent : req.hasContentLength = false → ∀ x ∈ headers, ¬x.Named "Content-Length"

-- Two lengths that are well-formed and differ.
def Ambiguous (headers : List PhrHeader) : Prop :=
  ∃ x ∈ headers, ∃ y ∈ headers, x.Named "Content-Length" ∧ y.Named "Content-Length" ∧
    decimalValue x.value ≠ decimalValue y.value

namespace httpParseRequest

-- A header that is taken over is in order.
theorem accepted_of_header {req req' : HttpRequest} {x : PhrHeader} (hz : 0 ∉ x.value)
    (h : header req x = some req') : x.Accepted := by
  have hv : (CStr.ofBuf x.value).chars = x.value := CStr.ofBuf_eq_of_nul_free hz
  have hlt : ∀ {value : CStr}, httpCopyHeaderValue httpContentTypeMax x.value = some value →
      x.value.length < httpContentTypeMax := by
    intro value h
    rw [httpCopyHeaderValue] at h
    split at h
    case isTrue     => cases h
    case isFalse hn => exact Nat.not_le.mp hn
  have ht := header_takes h
  rw [header] at h
  split at h
  case h_1 => cases h
  case h_2 name hname =>
    have hnamed : ∀ n, x.Named n ↔ httpHeaderNameEquals name (ascii n) = true := by
      simp [PhrHeader.Named, hname]
    refine ⟨by simp [hname], ?_, ?_⟩
    case refine_1 =>
      intro hl
      rw [if_pos ((hnamed _).mp hl)] at h
      obtain ⟨value, hvalue, _⟩ := Option.bind_eq_some_iff.mp h
      obtain ⟨htext, hn⟩ := (httpParseU64_some_iff _ _).mp (ht.length hl).left
      rw [hv] at htext hn
      exact ⟨_, htext.ne_nil, htext.digits, hn.symm, req'.contentLength.toNat_lt, hlt hvalue⟩
    case refine_2 =>
      intro hc
      have hl : ¬x.Named "Content-Length" := by
        rw [hnamed, httpHeaderNameEquals_ne ((hnamed _).mp hc) (by decide)]
        simp
      rw [if_neg (fun hn => hl ((hnamed _).mpr hn)), if_pos ((hnamed _).mp hc)] at h
      obtain ⟨value, hvalue, _⟩ := Option.bind_eq_some_iff.mp h
      exact hlt hvalue

theorem accepted_of_headers {headers : List PhrHeader} {req req' : HttpRequest} (hz : ∀ x ∈ headers, 0 ∉ x.value)
    (h : headers.foldlM header req = some req') : ∀ x ∈ headers, x.Accepted := by
  induction headers generalizing req
  case nil => exact nofun
  case cons x headers hi =>
    obtain ⟨req₁, hx, hrest⟩ := Option.bind_eq_some_iff.mp (List.foldlM_cons.symm.trans h)
    rw [List.forall_mem_cons] at hz ⊢
    exact ⟨accepted_of_header hz.left hx, hi hz.right hrest⟩

end httpParseRequest

theorem httpParseRequest_headers {deps : HttpDeps} {block : Bytes} {phr : PhrRequest} {req : HttpRequest}
    (hp : deps.phrParseRequest (CStr.ofBuf block).chars = some phr) (h : httpParseRequest deps block = .ok req) :
    ∃ req₁, phr.headers.foldlM httpParseRequest.header (.ofLine phr) = some req₁ ∧
      req₁.contentLength = req.contentLength ∧ req₁.hasContentLength = req.hasContentLength := by
  rw [httpParseRequest, hp] at h
  dsimp only at h
  split at h
  case isTrue => cases h
  case isFalse =>
    split at h
    case isTrue => cases h
    case isFalse =>
      split at h
      case h_1 => cases h
      case h_2 hr =>
        cases h
        obtain ⟨req₁, h₁, h₂⟩ := Option.bind_eq_some_iff.mp hr
        obtain ⟨_, _, hl, hh, _, _⟩ := httpParseRequest.split_path h₂
        exact ⟨req₁, h₁, hl.symm, hh.symm⟩

-- The length of a header is taken over, and every other length is the same.
theorem lengthClear_of_headers {headers : List PhrHeader} {req req' : HttpRequest}
    (hz : ∀ x ∈ headers, 0 ∉ x.value) (ha : ¬Ambiguous headers)
    (h : headers.foldlM httpParseRequest.header req = some req') : LengthClear headers req' := by
  have hset : ∀ x ∈ headers, x.Named "Content-Length" → ∀ r r' : HttpRequest, r.Takes x r' →
      DecimalText x.value ∧ r'.contentLength.toNat = decimalValue x.value ∧ r'.hasContentLength = true := by
    intro x hx hn r r' ht
    obtain ⟨hl, hh⟩ := ht.length hn
    obtain ⟨htext, hv⟩ := (httpParseU64_some_iff _ _).mp hl
    rw [CStr.ofBuf_eq_of_nul_free (hz x hx)] at htext hv
    exact ⟨htext, hv, hh⟩
  have hreach : ∀ x ∈ headers, x.Named "Content-Length" → DecimalText x.value ∧
      req'.contentLength.toNat = decimalValue x.value ∧ req'.hasContentLength = true := by
    intro x hx hn
    apply httpParseRequest.headers_reach (P := fun r => DecimalText x.value ∧
      r.contentLength.toNat = decimalValue x.value ∧ r.hasContentLength = true) hx (hset x hx hn) _ h
    intro y hy r r' ht hr
    by_cases hyn : y.Named "Content-Length"
    case pos =>
      obtain ⟨_, hv, hh⟩ := hset y hy hyn r r' ht
      have he : decimalValue x.value = decimalValue y.value :=
        not_ne_iff.mp fun hne => ha ⟨x, hx, y, hy, hn, hyn, hne⟩
      exact ⟨hr.left, hv.trans he.symm, hh⟩
    case neg =>
      obtain ⟨hl, hh⟩ := ht.other hyn
      rwa [hl, hh]
  refine ⟨fun _ x hx hn => ?_, fun hf x hx hn => ?_⟩
  · exact ⟨(hreach x hx hn).left, (hreach x hx hn).right.left.symm⟩
  · exact absurd (hf.symm.trans (hreach x hx hn).right.right) (by simp)
