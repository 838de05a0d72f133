import HFile.Library.Decimal
import HFile.Theorems.Http

theorem le_foldl_decimal (n : Nat) (digits : Bytes) :
    n ≤ digits.foldl (fun n c => n * 10 + (c - 48).toNat) n := by
  induction digits generalizing n
  case nil => exact Nat.le_refl n
  case cons c digits hi =>
    have := hi (n * 10 + (c - 48).toNat)
    rw [List.foldl_cons]
    omega

-- The loop takes another digit exactly if the number with that digit is still below 2^64.
theorem httpParseU64.guard_iff (value : UInt64) (d : UInt8) :
    ¬value > (0xFFFFFFFFFFFFFFFF - d.toUInt64) / 10 ↔ value.toNat * 10 + d.toNat < 2 ^ 64 := by
  have hd : d.toNat < 256 := UInt8.toNat_lt d
  have hsub : (0xFFFFFFFFFFFFFFFF - d.toUInt64).toNat = 2 ^ 64 - 1 - d.toNat := by
    rw [UInt64.toNat_sub_of_le]
    · rfl
    · rw [UInt64.le_iff_toNat_le]
      simp
      omega
  rw [gt_iff_lt, UInt64.lt_iff_toNat_lt, UInt64.toNat_div, hsub]
  simp
  omega

theorem httpParseU64.toNat_step {value : UInt64} {d : UInt8} (h : value.toNat * 10 + d.toNat < 2 ^ 64) :
    (value * 10).toNat = value.toNat * 10 ∧ (value * 10 + d.toUInt64).toNat = value.toNat * 10 + d.toNat := by
  have hmul : (value * 10).toNat = value.toNat * 10 := by
    rw [UInt64.toNat_mul]
    simp
    omega
  rw [UInt64.toNat_add, hmul]
  simp
  omega

theorem httpParseU64.loop_eq {value n : UInt64} {digits : Bytes} (h : httpParseU64.loop value digits = some n) :
    n.toNat = digits.foldl (fun n c => n * 10 + (c - 48).toNat) value.toNat ∧
    ∀ c ∈ digits, isdigit c = true := by
  induction digits generalizing value
  case nil =>
    cases h
    exact ⟨rfl, nofun⟩
  case cons c digits hi =>
    rw [httpParseU64.loop] at h
    split at h
    case isTrue => cases h
    case isFalse hc =>
      split at h
      case isTrue => cases h
      case isFalse hv =>
        obtain ⟨hn, hd⟩ := hi h
        rw [List.foldl_cons, hn, (toNat_step ((guard_iff _ _).mp hv)).right]
        exact ⟨rfl, List.forall_mem_cons.mpr ⟨by simpa using hc, hd⟩⟩

theorem httpParseU64_eq {s : CStr} {n : UInt64} (h : httpParseU64 s = some n) :
    n.toNat = decimalValue s.chars := by
  rw [httpParseU64] at h
  split at h
  case isTrue  => cases h
  case isFalse => exact (httpParseU64.loop_eq h).left

-- A number that fits is read.
theorem httpParseU64.loop_some {value : UInt64} {digits : Bytes} (hd : ∀ c ∈ digits, isdigit c = true)
    (hlt : digits.foldl (fun n c => n * 10 + (c - 48).toNat) value.toNat < 2 ^ 64) :
    ∃ n, httpParseU64.loop value digits = some n := by
  induction digits generalizing value
  case nil => exact ⟨value, rfl⟩
  case cons c digits hi =>
    rw [httpParseU64.loop, if_neg (by simp [hd c (by simp)])]
    rw [List.foldl_cons] at hlt
    have hstep : value.toNat * 10 + (c - 48).toNat < 2 ^ 64 :=
      Nat.lt_of_le_of_lt (le_foldl_decimal _ _) hlt
    rw [if_neg ((guard_iff _ _).mpr hstep)]
    exact hi (fun c hc => hd c (by simp [hc])) ((toNat_step hstep).right ▸ hlt)

-- A list of digits that is read as a number of type `uint64_t`.
structure Numeral (value : Bytes) (n : Nat) : Prop where
  ne_nil   : value ≠ []
  digits   : ∀ c ∈ value, isdigit c = true
  value_eq : decimalValue value = n
  lt       : n < 2 ^ 64
  fits     : value.length < httpContentTypeMax

theorem Numeral.parse {value : Bytes} {n : Nat} (h : Numeral value n) :
    ∃ m, httpParseU64 (.ofBuf value) = some m ∧ m.toNat = n := by
  have hv : (CStr.ofBuf value).chars = value :=
    CStr.ofBuf_eq_of_nul_free fun hz => absurd (h.digits 0 hz) (by decide)
  have hlt : value.foldl (fun n c => n * 10 + (c - 48).toNat) (0 : UInt64).toNat < 2 ^ 64 := by
    have := h.value_eq ▸ h.lt
    simpa [decimalValue] using this
  obtain ⟨m, hm⟩ := httpParseU64.loop_some h.digits hlt
  have hp : httpParseU64 (.ofBuf value) = some m := by rw [httpParseU64, hv, if_neg h.ne_nil, hm]
  exact ⟨m, hp, by rw [httpParseU64_eq hp, hv, h.value_eq]⟩

-- The names of headers are compared without regard to case.
def PhrHeader.Named (name : String) (header : PhrHeader) : Prop :=
  ∃ n, header.name = some n ∧ httpHeaderNameEquals n (ascii name) = true

theorem PhrHeader.named_iff {name value : Bytes} {n : String} :
    PhrHeader.Named n ⟨some name, value⟩ ↔ httpHeaderNameEquals name (ascii n) = true := by
  simp [Named]

theorem httpHeaderNameEquals_ne {name m n : Bytes} (hm : httpHeaderNameEquals name m = true)
    (hne : m.map tolower ≠ n.map tolower) : httpHeaderNameEquals name n = false := by
  simp only [httpHeaderNameEquals, decide_eq_true_eq] at hm
  simp [httpHeaderNameEquals, hm, hne]

-- What a header changes in a request.
structure HttpRequest.Takes (req : HttpRequest) (header : PhrHeader) (req' : HttpRequest) : Prop where
  method : req'.method = req.method
  path   : req'.path = req.path
  length : header.Named "Content-Length" →
    httpParseU64 (.ofBuf header.value) = some req'.contentLength ∧ req'.hasContentLength = true
  other  : ¬header.Named "Content-Length" →
    req'.contentLength = req.contentLength ∧ req'.hasContentLength = req.hasContentLength
  type   : header.Named "Content-Type" → req'.contentType = .ofBuf header.value
  others : ¬header.Named "Content-Type" → req'.contentType = req.contentType
  coding : ¬header.Named "Transfer-Encoding" → req'.hasTransferEncoding = req.hasTransferEncoding

theorem httpCopyHeaderValue_eq {cap : Nat} {value : Bytes} {s : CStr}
    (h : httpCopyHeaderValue cap value = some s) : s = .ofBuf value := by
  rw [httpCopyHeaderValue] at h
  split at h
  case isTrue  => cases h
  case isFalse =>
    cases h
    rfl

theorem httpParseRequest.header_takes {req req' : HttpRequest} {header : PhrHeader}
    (h : httpParseRequest.header req header = some req') : req.Takes header req' := by
  rw [httpParseRequest.header] at h
  split at h
  case h_1 => cases h
  case h_2 name hname =>
    have hnamed : ∀ n, header.Named n ↔ httpHeaderNameEquals name (ascii n) = true := by
      simp [PhrHeader.Named, hname]
    split at h
    case isTrue hc =>
      have ⟨value, hvalue, h⟩ := Option.bind_eq_some_iff.mp h
      have ⟨length, hlength, hreq⟩ := Option.bind_eq_some_iff.mp h
      cases httpCopyHeaderValue_eq hvalue
      cases hreq
      have ht : ¬header.Named "Content-Type" := by
        rw [hnamed, httpHeaderNameEquals_ne hc (by decide)]
        simp
      exact ⟨rfl, rfl, fun _ => ⟨hlength, rfl⟩, fun hn => absurd ((hnamed _).mpr hc) hn,
        fun hn => absurd hn ht, fun _ => rfl, fun _ => rfl⟩
    case isFalse hc =>
      have hl : ¬header.Named "Content-Length" := fun hn => hc ((hnamed _).mp hn)
      split at h
      case isTrue ht =>
        have ⟨value, hvalue, hreq⟩ := Option.bind_eq_some_iff.mp h
        cases httpCopyHeaderValue_eq hvalue
        cases hreq
        exact ⟨rfl, rfl, fun hn => absurd hn hl, fun _ => ⟨rfl, rfl⟩, fun _ => rfl,
          fun hn => absurd ((hnamed _).mpr ht) hn, fun _ => rfl⟩
      case isFalse ht =>
        have ht : ¬header.Named "Content-Type" := fun hn => ht ((hnamed _).mp hn)
        split at h
        case isTrue hcoding =>
          cases h
          exact ⟨rfl, rfl, fun hn => absurd hn hl, fun _ => ⟨rfl, rfl⟩, fun hn => absurd hn ht,
            fun _ => rfl, fun hn => absurd ((hnamed _).mpr hcoding) hn⟩
        case isFalse =>
          cases h
          exact ⟨rfl, rfl, fun hn => absurd hn hl, fun _ => ⟨rfl, rfl⟩, fun hn => absurd hn ht,
            fun _ => rfl, fun _ => rfl⟩

-- A header that every request may have.
structure PhrHeader.Accepted (header : PhrHeader) : Prop where
  named  : header.name ≠ none
  length : header.Named "Content-Length" → ∃ n, Numeral header.value n
  type   : header.Named "Content-Type" → header.value.length < httpContentTypeMax

theorem PhrHeader.Accepted.taken {header : PhrHeader} (h : header.Accepted) (req : HttpRequest) :
    ∃ req', httpParseRequest.header req header = some req' := by
  have ⟨name, hname⟩ := Option.ne_none_iff_exists'.mp h.named
  rw [httpParseRequest.header, hname]
  dsimp only
  split
  case isTrue hc =>
    have ⟨n, hn⟩ := h.length ⟨name, hname, hc⟩
    have ⟨m, hm, _⟩ := hn.parse
    refine ⟨{ req with contentLength := m, hasContentLength := true }, ?_⟩
    rw [httpCopyHeaderValue, if_neg (Nat.not_le.mpr hn.fits)]
    dsimp only [Option.bind_eq_bind, Option.bind_some]
    rw [hm]
    rfl
  case isFalse =>
    split
    case isTrue hc =>
      refine ⟨{ req with contentType := .ofBuf header.value }, ?_⟩
      rw [httpCopyHeaderValue, if_neg (Nat.not_le.mpr (h.type ⟨name, hname, hc⟩))]
      rfl
    case isFalse => split <;> exact ⟨_, rfl⟩

theorem httpParseRequest.headers_some {headers : List PhrHeader} (h : ∀ x ∈ headers, x.Accepted)
    (req : HttpRequest) : ∃ req', headers.foldlM httpParseRequest.header req = some req' := by
  induction headers generalizing req
  case nil => exact ⟨req, rfl⟩
  case cons x headers hi =>
    have ⟨req₁, hx⟩ := (h x (by simp)).taken req
    have ⟨req₂, hr⟩ := hi (fun y hy => h y (by simp [hy])) req₁
    exact ⟨req₂, by rw [List.foldlM_cons, hx]; exact hr⟩

namespace httpParseRequest

section

variable {P : HttpRequest → Prop} {req req' : HttpRequest} {headers : List PhrHeader}

-- What no header destroys still holds after all of them.
theorem headers_keep (hk : ∀ x ∈ headers, ∀ r r' : HttpRequest, r.Takes x r' → P r → P r')
    (h : headers.foldlM header req = some req') (hp : P req) : P req' := by
  induction headers generalizing req
  case nil =>
    cases h
    exact hp
  case cons x headers hi =>
    have ⟨req₁, hx, h⟩ := Option.bind_eq_some_iff.mp (List.foldlM_cons.symm.trans h)
    exact hi (fun y hy => hk y (by simp [hy])) h (hk x (by simp) _ _ (header_takes hx) hp)

-- What one header establishes and no other one destroys holds after all of them.
theorem headers_reach {x : PhrHeader} (hx : x ∈ headers) (hset : ∀ r r' : HttpRequest, r.Takes x r' → P r')
    (hk : ∀ x ∈ headers, ∀ r r' : HttpRequest, r.Takes x r' → P r → P r')
    (h : headers.foldlM header req = some req') : P req' := by
  induction headers generalizing req
  case nil => cases hx
  case cons y headers hi =>
    have ⟨req₁, hy, hrest⟩ := Option.bind_eq_some_iff.mp (List.foldlM_cons.symm.trans h)
    have hk' := fun z hz => hk z (List.mem_cons_of_mem y hz)
    cases hx
    case head => exact headers_keep hk' hrest (hset _ _ (header_takes hy))
    case tail hx => exact hi hx hk' hrest

theorem headers_line (h : headers.foldlM header req = some req') :
    req'.method = req.method ∧ req'.path = req.path := by
  apply headers_keep (P := fun r => r.method = req.method ∧ r.path = req.path) _ h ⟨rfl, rfl⟩
  intro x _ r r' ht ⟨hm, hp⟩
  exact ⟨ht.method.trans hm, ht.path.trans hp⟩

-- A list of headers with one length.
theorem headers_length {pre post : List PhrHeader} {x : PhrHeader} (hx : x.Named "Content-Length")
    (hn : ∀ x ∈ pre ++ post, ¬x.Named "Content-Length")
    (h : (pre ++ x :: post).foldlM header req = some req') :
    httpParseU64 (.ofBuf x.value) = some req'.contentLength ∧ req'.hasContentLength = true := by
  apply headers_reach (P := fun r => httpParseU64 (.ofBuf x.value) = some r.contentLength ∧
    r.hasContentLength = true) (x := x) (by simp) (fun r r' ht => ht.length hx) _ h
  intro y hy r r' ht hp
  by_cases hyx : y = x
  case pos =>
    subst hyx
    exact ht.length hx
  case neg =>
    have ⟨hl, hh⟩ := ht.other (hn y (by simpa [hyx] using hy))
    rw [hl, hh]
    exact hp

end
end httpParseRequest

def questionMark : UInt8 := 63

-- The path without its query.
def routeOf (path : CStr) : CStr :=
  .ofBuf (path.chars.takeWhile (· != questionMark))

theorem httpParseRequest.split_path {req req' : HttpRequest} (h : httpParseRequest.split req = some req') :
    req'.path = routeOf req.path ∧ req'.method = req.method ∧
      req'.contentLength = req.contentLength ∧ req'.hasContentLength = req.hasContentLength ∧
      req'.contentType = req.contentType ∧ req'.hasTransferEncoding = req.hasTransferEncoding := by
  rw [httpParseRequest.split] at h
  split at h
  case h_1 hd =>
    cases h
    have ht : req.path.chars.takeWhile (· != questionMark) = req.path.chars := by
      have := List.takeWhile_append_dropWhile (p := (· != questionMark)) (l := req.path.chars)
      rw [show req.path.chars.dropWhile (· != questionMark) = [] from hd, List.append_nil] at this
      exact this
    exact ⟨by rw [routeOf, ht, CStr.ofBuf_chars], rfl, rfl, rfl, rfl, rfl⟩
  case h_2 =>
    split at h
    case isTrue => cases h
    case isFalse =>
      cases h
      exact ⟨rfl, rfl, rfl, rfl, rfl, rfl⟩

theorem chars_routeOf (path : CStr) :
    (routeOf path).chars = path.chars.takeWhile (· != questionMark) :=
  CStr.ofBuf_eq_of_nul_free fun h => path.nul_free (List.takeWhile_subset _ h)

theorem routeOf_files (path : CStr) :
    (routeOf (.ofBuf (ascii "/api/files/" ++ path.chars))).chars =
      ascii "/api/files/" ++ (routeOf path).chars := by
  have hn : 0 ∉ ascii "/api/files/" ++ path.chars := by
    have h : 0 ∉ ascii "/api/files/" := by decide
    simp [h, path.nul_free]
  rw [chars_routeOf, chars_routeOf, CStr.ofBuf_eq_of_nul_free hn]
  exact List.takeWhile_append_of_pos (by decide +kernel)

-- The request line alone.
def HttpRequest.ofLine (phr : PhrRequest) : HttpRequest where
  method              := .ofBuf phr.method
  path                := .ofBuf phr.path
  query               := .lit ""
  contentType         := .lit ""
  contentLength       := 0
  hasContentLength    := false
  hasTransferEncoding := false

theorem httpParseRequest.split_some {req : HttpRequest} (h : req.path.strlen < httpPathMax) :
    ∃ req', httpParseRequest.split req = some req' := by
  rw [httpParseRequest.split]
  split
  case h_1 => exact ⟨_, rfl⟩
  case h_2 query hd =>
    have hle := (List.dropWhile_suffix (l := req.path.chars) (· != 63)).length_le
    rw [hd, List.length_cons] at hle
    have hq := CStr.strlen_ofBuf_le query
    have hlt : (CStr.ofBuf query).strlen < httpPathMax := by
      simp only [CStr.strlen] at h hq ⊢
      omega
    rw [if_neg (Nat.not_le.mpr hlt)]
    exact ⟨_, rfl⟩

-- A request that fits, with headers that are in order, is accepted.
theorem httpParseRequest_ok {deps : HttpDeps} {block : Bytes} {phr : PhrRequest}
    (hp : deps.phrParseRequest (CStr.ofBuf block).chars = some phr) (hv : phr.minorVersion = 1)
    (hm : phr.method.length < 8) (ht : phr.path.length < httpPathMax)
    (hh : ∀ x ∈ phr.headers, x.Accepted) :
    ∃ req₁ req, phr.headers.foldlM httpParseRequest.header (.ofLine phr) = some req₁ ∧
      httpParseRequest.split req₁ = some req ∧ httpParseRequest deps block = .ok req := by
  have ⟨req₁, h₁⟩ := httpParseRequest.headers_some hh (.ofLine phr)
  have hpath : req₁.path.strlen < httpPathMax := by
    rw [(httpParseRequest.headers_line h₁).right]
    exact Nat.lt_of_le_of_lt (CStr.strlen_ofBuf_le _) ht
  have ⟨req, h₂⟩ := httpParseRequest.split_some hpath
  refine ⟨req₁, req, h₁, h₂, ?_⟩
  have hline : ¬(phr.method.length ≥ 8 ∨ phr.path.length ≥ httpPathMax) := by omega
  have h₁ := h₁
  rw [HttpRequest.ofLine] at h₁
  simp only [httpParseRequest, hp, hv, ne_eq, not_true_eq_false, if_false, hline, h₁, Option.bind_some, h₂]

-- None of the exact routes is below `/api/files/`.
theorem httpExactRoutes_find_none {opt : ServerOpt} {req : HttpRequest} (hp : ascii "/api/files/" <+: req.path.chars) :
    (httpExactRoutes opt req).find? (fun route => req.path = route.1) = none := by
  have hroutes : ∀ p ∈ (httpExactRoutes opt req).map (·.1), ¬ascii "/api/files/" <+: p.chars := by
    change ∀ p ∈ [CStr.lit "/api/files", .lit "/api/messages", .lit "/api/messages/latest",
      .lit "/api/messages/stream"], _
    decide
  rw [List.find?_eq_none]
  intro route hr he
  have hpath : req.path = route.1 := by simpa using he
  exact hroutes _ (List.mem_map_of_mem hr) (hpath ▸ hp)
