import HFile.Source.Http
import HFile.Theorems.Net

open Arrival (bytes prompt)

-- A header block: it ends with the first empty line, and fits the buffer.
structure HeaderBlock (block : Bytes) : Prop where
  ends  : crlf ++ crlf <:+ block
  first : ∀ p, p <+: block → crlf ++ crlf <:+ p → p = block
  fits  : block.length < httpHeaderMax

theorem headerBlock_iff {block : Bytes} : HeaderBlock block ↔
    crlf ++ crlf <:+ block ∧ (∀ n < block.length, ¬crlf ++ crlf <:+ block.take n) ∧
      block.length < httpHeaderMax := by
  constructor
  · intro h
    refine ⟨h.ends, fun n hn hs => ?_, h.fits⟩
    have := congrArg List.length (h.first _ (List.take_prefix n block) hs)
    rw [List.length_take] at this
    omega
  · intro ⟨hends, hfirst, hfits⟩
    refine ⟨hends, fun p hp hs => ?_, hfits⟩
    by_contra hne
    rw [List.prefix_iff_eq_take.mp hp] at hs
    have hlt : p.length < block.length := Nat.lt_of_le_of_ne hp.length_le fun hl => hne (hp.eq_of_length hl)
    exact hfirst _ hlt hs

instance : DecidablePred HeaderBlock :=
  fun _ => decidable_of_iff _ headerBlock_iff.symm

-- A `recv` of one byte takes the first one of what is still to come.
theorem recv_one_prefix {as as' : List Arrival} {got tail rest : Bytes}
    (h : Arrival.recv 1 as = (.ok got, as')) (hg : got ≠ []) (ht : tail ≠ [])
    (has : bytes as = tail ++ rest) : ∃ tail', tail = got ++ tail' := by
  rw [Arrival.recv_ok_bytes h] at has
  have hle := Arrival.recv_ok_length_le h
  match got, tail with
  | [b], c :: tail =>
    have hbc : b = c := (List.cons.inj has).left
    exact ⟨tail, by rw [hbc]; rfl⟩

-- The block is found unless a `recv` fails, and nothing past its end is read.
theorem httpReadHeaderBlock.loop_spec {block rest out tail : Bytes} {as : List Arrival}
    (hb : HeaderBlock block) (hout : block = out ++ tail) (ht : tail ≠ []) (has : bytes as = tail ++ rest) :
    ∃ r as', httpReadHeaderBlock.loop httpHeaderMax out as = (r, as') ∧
      (r = .ok block ∧ bytes as' = rest ∧ prompt as = tail ++ prompt as' ∨
        r = .failed ∧ ¬tail <+: prompt as) := by
  fun_induction httpReadHeaderBlock.loop httpHeaderMax out as generalizing tail
  case case1 out as hc =>
    have hfits := hb.fits
    have hpos := List.length_pos_iff.mpr ht
    rw [hout, List.length_append] at hfits
    omega
  case case2 out as hc e as' h =>
    cases Arrival.recv_error h
    refine ⟨_, _, rfl, .inr ⟨rfl, ?_⟩⟩
    simpa [prompt] using ht
  case case3 out as hc as' h =>
    cases (Arrival.recv_ok_nil (by decide) h).left
    exact absurd (List.append_eq_nil_iff.mp has.symm).left ht
  case case4 out as hc got as' h hg hs =>
    obtain ⟨tail', htail⟩ := recv_one_prefix h hg ht has
    subst htail
    have hblock : out ++ got = block := hb.first _ ⟨tail', by rw [hout, List.append_assoc]⟩ hs
    have hnil : tail' = [] := by simpa [hout] using hblock
    subst hnil
    rw [Arrival.recv_ok_bytes h, List.append_nil] at has
    refine ⟨_, _, rfl, .inl ⟨by rw [hblock], List.append_cancel_left has, ?_⟩⟩
    rw [Arrival.recv_ok_prompt h, List.append_nil]
  case case5 out as hc got as' h hg hs hi =>
    obtain ⟨tail', htail⟩ := recv_one_prefix h hg ht has
    subst htail
    have hne : tail' ≠ [] := by
      intro hnil
      subst hnil
      exact hs (by simpa [hout] using hb.ends)
    rw [Arrival.recv_ok_bytes h, List.append_assoc] at has
    obtain ⟨r, as'', he, hr⟩ := hi (by rw [hout, List.append_assoc]) hne (List.append_cancel_left has)
    refine ⟨r, as'', he, ?_⟩
    rw [Arrival.recv_ok_prompt h]
    simpa [List.append_assoc, List.prefix_append_right_inj] using hr

section

variable {W : Type} {h : Program.Handler Sys W} {e : Env} {w : W}

theorem wp_httpReadHeaderBlock {block rest : Bytes} (hb : HeaderBlock block)
    (hin : bytes e.inp = block ++ rest) {Q : HttpHeaderBlock → Env → W → Prop}
    (hok : ∀ as, bytes as = rest → prompt e.inp = block ++ prompt as →
      Q (.ok block) { e with inp := as } w)
    (hfail : ∀ as, ¬block <+: prompt e.inp → Q .failed { e with inp := as } w) :
    Io.wp h (httpReadHeaderBlock httpHeaderMax) Q e w := by
  have hne : block ≠ [] := by
    intro hnil
    have := hb.ends.length_le
    simp [hnil, crlf] at this
  have hw : Io.wp h (httpReadHeaderBlock httpHeaderMax) Q e w ↔
      Q (httpReadHeaderBlock.loop httpHeaderMax [] e.inp).1
        { e with inp := (httpReadHeaderBlock.loop httpHeaderMax [] e.inp).2 } w := Iff.rfl
  have ⟨r, as, he, hr⟩ := httpReadHeaderBlock.loop_spec hb (List.nil_append block).symm hne hin
  rw [hw, he]
  cases hr
  case inl hr =>
    have ⟨hr, has, hp⟩ := hr
    subst hr
    exact hok as has hp
  case inr hr =>
    have ⟨hr, hp⟩ := hr
    subst hr
    exact hfail as hp

-- A block that arrives without a failure is found.
theorem wp_httpReadHeaderBlock_of_prompt {block tail : Bytes} (hb : HeaderBlock block)
    (hp : block ++ tail <+: prompt e.inp) {Q : HttpHeaderBlock → Env → W → Prop}
    (hq : ∀ as, tail <+: prompt as → Q (.ok block) { e with inp := as } w) :
    Io.wp h (httpReadHeaderBlock httpHeaderMax) Q e w := by
  have hbytes := hp.trans ((Arrival.prompt_isPrefix_delivered _).trans (Arrival.delivered_isPrefix_bytes _))
  have ⟨rest, hrest⟩ := hbytes
  rw [List.append_assoc] at hrest
  apply wp_httpReadHeaderBlock hb hrest.symm
  case hok =>
    intro as _ has
    rw [has] at hp
    exact hq as ((List.prefix_append_right_inj _).mp hp)
  case hfail =>
    intro as hno
    exact absurd ((List.prefix_append _ _).trans hp) hno

-- All of a buffer is sent, or a part of it if the peer is gone.
theorem wp_httpSendAll {bs : Bytes} {Q : Bool → Env → W → Prop}
    (hq : ∀ b sent ts, ts ⊆ e.snd → sent <+: bs → (b = true → sent = bs) →
      ((∀ t ∈ e.snd, t.Benign) → b = true) →
      Q b { e with snd := ts, out := e.out ++ sent } w) : Io.wp h (httpSendAll bs) Q e w := by
  rw [httpSendAll, Io.wp_bind]
  apply wp_sendAll
  · intro ts hs _
    exact hq _ bs ts hs List.prefix_rfl (fun _ => rfl) (by simp)
  · intro r sent ts hs hp hl hr hb _
    have ⟨t, ht, hb⟩ := hb
    apply hq _ sent ts hs hp _ (fun hall => absurd (hall t ht) hb)
    intro hb
    have hn : r = some bs.length := by simpa using hb
    exact absurd (hr _ hn) (Nat.lt_irrefl _)

-- The header of a reply, and all of the reply.
def httpResponseHeader (status : Nat) (reason contentType : CStr) (body : Bytes) : Bytes :=
  ascii "HTTP/1.1 " ++ (CStr.decimal status).chars ++ ascii " " ++ reason.chars ++ crlf ++
    ascii "Content-Type: " ++ contentType.chars ++ crlf ++
    ascii "Content-Length: " ++ (CStr.decimal body.length).chars ++ crlf ++
    ascii "Connection: close" ++ crlf ++ crlf

def httpResponse (status : Nat) (reason contentType : CStr) (body : Bytes) : Bytes :=
  httpResponseHeader status reason contentType body ++ body

-- The three digits of the status that a reply begins with.
def answerStatus (sent : Bytes) : Option Bytes :=
  if ascii "HTTP/1.1 " <+: sent ∧ 12 ≤ sent.length then some ((sent.drop 9).take 3) else none

theorem answerStatus_of_isPrefix {status : Nat} {reason contentType : CStr} {body sent c : Bytes}
    (hl : (CStr.decimal status).chars.length = 3)
    (hp : sent <+: httpResponse status reason contentType body) (h : answerStatus sent = some c) :
    c = (CStr.decimal status).chars := by
  rw [answerStatus] at h
  split at h
  case isFalse => cases h
  case isTrue hs =>
    cases h
    have ⟨tail, ht⟩ := hp
    have hsent : (sent.drop 9).take 3 = ((sent ++ tail).drop 9).take 3 := by
      rw [List.drop_append_of_le_length (by omega), List.take_append_of_le_length]
      rw [List.length_drop]
      omega
    have ⟨rest, hres⟩ : ∃ rest, httpResponse status reason contentType body =
        ascii "HTTP/1.1 " ++ ((CStr.decimal status).chars ++ rest) :=
      ⟨_, by simp only [httpResponse, httpResponseHeader, List.append_assoc]; rfl⟩
    rw [hsent, ht, hres, ← hl]
    exact List.take_left

theorem httpSendResponse_eq (status : Nat) (reason contentType : CStr) (body : Bytes) :
    httpSendResponse status reason contentType body = (do
      if (httpResponseHeader status reason contentType body).length ≥ 1024 then return false
      if !(← httpSendAll (httpResponseHeader status reason contentType body)) then return false
      if body.length > 0 then
        if !(← httpSendAll body) then return false
      return true) :=
  rfl

theorem wp_httpSendResponse {status : Nat} {reason contentType : CStr} {body : Bytes}
    {Q : Bool → Env → W → Prop}
    (hq : ∀ b sent ts, sent <+: httpResponse status reason contentType body →
      ((∀ t ∈ e.snd, t.Benign) → (httpResponseHeader status reason contentType body).length < 1024 →
        sent = httpResponse status reason contentType body) →
      Q b { e with snd := ts, out := e.out ++ sent } w) :
    Io.wp h (httpSendResponse status reason contentType body) Q e w := by
  have hnone := fun b => hq b [] e.snd List.nil_prefix
  rw [List.append_nil] at hnone
  rw [httpSendResponse_eq]
  split
  case isTrue hl => exact hnone false fun _ hl' => absurd hl (Nat.not_le.mpr hl')
  case isFalse hl =>
    rw [Io.wp_bind]
    apply wp_httpSendAll
    intro b sent ts hs hp hsent hall
    cases b
    case false =>
      exact hq false sent ts (hp.trans (List.prefix_append _ _)) fun hb => absurd (hall hb) (by simp)
    case true =>
      cases hsent rfl
      rw [if_neg (by simp)]
      split
      case isFalse hbody =>
        have hnil : body = [] := List.length_eq_zero_iff.mp (by omega)
        apply hq true _ ts
        · rw [httpResponse]
          exact List.prefix_append _ _
        · intro _ _
          rw [httpResponse, hnil, List.append_nil]
      case isTrue =>
        rw [Io.wp_bind]
        apply wp_httpSendAll
        intro b sent' ts' _ hp' hsent' hall'
        have hq' := hq b (httpResponseHeader status reason contentType body ++ sent') ts'
          ((List.prefix_append_right_inj _).mpr hp') (by
            intro hb _
            rw [hsent' (hall' fun t ht => hb t (hs ht)), httpResponse])
        rw [← List.append_assoc] at hq'
        cases b <;> exact hq'

-- Every `malloc` succeeds.
def Env.Allocates (e : Env) : Prop :=
  ∀ b ∈ e.allocs, b = true

theorem wp_malloc_of_allocates (ha : e.Allocates) {Q : Bool → Env → W → Prop}
    (hq : ∀ as, (∀ b ∈ as, b = true) → Q true { e with allocs := as } w) : Io.wp h Io.malloc Q e w := by
  rw [Io.wp_malloc_iff]
  have hb : e.allocs.headD true = true := by
    cases he : e.allocs
    case nil       => rfl
    case cons b as => exact ha b (by simp [he])
  rw [hb]
  exact hq _ fun b hm => ha b (List.mem_of_mem_tail hm)

end
