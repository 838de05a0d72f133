import HFile.Theorems.HttpRequest
import HFile.Theorems.Json
import HFile.Theorems.Wire
import HFile.Theorems.Server

open Arrival (bytes delivered prompt)

-- No allocation fails, and all that is sent gets through.
structure Env.Reliable (e : Env) : Prop where
  allocates : e.Allocates
  benign    : ∀ t ∈ e.snd, t.Benign

section

variable {e : Env} {w : World} {message : CStr}

theorem wp_appSubmitMessage_of_allocates (ha : e.Allocates) (hm : message.strlen ≤ maxTextMessageSize)
    {Q : ProtocolResult → Env → World → Prop}
    (hq : ∀ as, (∀ b ∈ as, b = true) → Q .ok { e with allocs := as }
      { w with board := ⟨some (storedMessage message), w.board.version + 1⟩ }) :
    Io.wp World.handle (appSubmitMessage message) Q e w := by
  rw [appSubmitMessage, if_neg (Nat.not_lt.mpr hm), Io.wp_bind, messageStoreSet, Io.wp_bind]
  exact wp_malloc_of_allocates ha hq

-- Bytes that are delivered are received.
theorem wp_recvAll_of_delivered {W : Type} {h : Program.Handler Sys W} {x : W} {bs : Bytes}
    (hd : bs <+: delivered e.inp) {Q : Option Bytes → Env → W → Prop}
    (hq : ∀ as, delivered e.inp = bs ++ delivered as → Q (some bs) { e with inp := as } x) :
    Io.wp h (recvAll bs.length) Q e x := by
  apply wp_recvAll
  · intro cs as hl _ hd'
    have hcs : bs = cs := by
      rw [hd'] at hd
      have ⟨tail, ht⟩ := hd
      exact (List.append_inj ht hl.symm).left
    subst hcs
    exact hq as hd'
  · intro r as lost hlt
    exact absurd hd.length_le (Nat.not_le.mpr hlt)

-- A message that is sent by the native protocol.
def textRequest (message : CStr) : Bytes :=
  encodeHeader (requestHeader msgTypeTextMessage message.strlen.toUInt64) ++ message.chars

theorem wp_handleProtocolConnection_text (he : e.Reliable) (opt : ServerOpt)
    (hm : message.strlen ≤ maxTextMessageSize) (hin : textRequest message <+: delivered e.inp) :
    Io.wp World.handle (handleProtocolConnection opt) (fun _ e' w' =>
      e'.out = e.out ++ ResFrame.finalOk.bytes ∧
      w' = { w with board := ⟨some (storedMessage message), w.board.version + 1⟩ }) e w := by
  have hle := hin.length_le
  obtain ⟨tail, ht⟩ := hin
  have hsize : (requestHeader msgTypeTextMessage message.strlen.toUInt64).payloadSize.toNat =
      message.strlen :=
    Nat.mod_eq_of_lt (Nat.lt_of_le_of_lt hm (by decide))
  rw [handleProtocolConnection, Io.wp_bind]
  apply wp_recvHeader
  case herr =>
    intro r as hlt
    simp [textRequest] at hle
    omega
  case hok =>
    intro buf as hl _ hd
    rw [textRequest, List.append_assoc] at ht
    obtain ⟨hbuf, hrest⟩ := List.append_inj (ht.trans hd) (by simp [hl])
    subst hbuf
    have hdec := @decodeHeader_encodeHeader_of_supported
      (requestHeader msgTypeTextMessage message.strlen.toUInt64) ⟨rfl, rfl, .inr (.inl rfl), rfl⟩
    dsimp only
    rw [hdec]
    dsimp only
    rw [if_pos (requestHeader_msgType _ _), Io.wp_bind, serverHandleTextMessage, Io.wp_bind,
      serverHandleTextMessage.receive, hsize, if_neg (Nat.not_lt.mpr hm), Io.wp_bind]
    apply wp_malloc_of_allocates (e := { e with inp := as }) he.allocates
    intro al hal
    rw [if_neg (by simp), Io.wp_bind]
    have hchars : message.chars <+: delivered as := ⟨tail, hrest⟩
    apply wp_recvAll_of_delivered hchars
    intro as' _
    have hlen : ¬message.chars.length ≠ message.strlen := not_not.mpr rfl
    dsimp only
    rw [if_neg hlen, CStr.ofBuf_chars]
    apply wp_appSubmitMessage_of_allocates (e := { e with inp := as', allocs := al }) hal hm
    intro al' _
    rw [Io.wp_bind, Io.wp_discard]
    apply wp_sendResFrame_sends ResFrame.finalOk_valid
    intro r sent ts _ hs _
    rw [hs.eq_of_benign he.benign]
    exact ⟨rfl, rfl⟩

end

-- A request to store a message, as the request parser returns it. The body has `length` bytes.
structure PostRequest (deps : HttpDeps) (block : Bytes) (length : Nat) where
  phr     : PhrRequest
  parsed  : deps.phrParseRequest (CStr.ofBuf block).chars = some phr
  version : phr.minorVersion = 1
  method  : phr.method = ascii "POST"
  target  : phr.path = ascii "/api/messages"
  headers : ∀ x ∈ phr.headers, x.Accepted
  lengths : ∀ x ∈ phr.headers, x.Named "Content-Length" → Numeral x.value length
  sized   : ∃ x ∈ phr.headers, x.Named "Content-Length"
  types   : ∀ x ∈ phr.headers, x.Named "Content-Type" →
    httpAsciiStartsWith (CStr.ofBuf x.value).chars (ascii "application/json") = true
  typed   : ∃ x ∈ phr.headers, x.Named "Content-Type"
  coding  : ∀ x ∈ phr.headers, ¬x.Named "Transfer-Encoding"

structure HttpRequest.IsPost (req : HttpRequest) (length : Nat) : Prop where
  method : req.method = .lit "POST"
  target : req.path = .lit "/api/messages"
  length : req.contentLength.toNat = length
  sized  : req.hasContentLength = true
  type   : httpAsciiStartsWith req.contentType.chars (ascii "application/json") = true
  coding : req.hasTransferEncoding = false

theorem httpParseRequest.headers_post {deps : HttpDeps} {block : Bytes} {length : Nat} {req req' : HttpRequest}
    (hp : PostRequest deps block length) (hcoding : req.hasTransferEncoding = false)
    (h : hp.phr.headers.foldlM httpParseRequest.header req = some req') :
    (req'.contentLength.toNat = length ∧ req'.hasContentLength = true) ∧
    httpAsciiStartsWith req'.contentType.chars (ascii "application/json") = true ∧
    req'.hasTransferEncoding = false := by
  have hlen : ∀ x ∈ hp.phr.headers, x.Named "Content-Length" → ∀ r r' : HttpRequest, r.Takes x r' →
      r'.contentLength.toNat = length ∧ r'.hasContentLength = true := by
    intro x hx hn r r' ht
    have ⟨m, hm, hl⟩ := (hp.lengths x hx hn).parse
    have ⟨hm', hs⟩ := ht.length hn
    exact ⟨by rw [← hl, Option.some.inj (hm'.symm.trans hm)], hs⟩
  have htype : ∀ x ∈ hp.phr.headers, x.Named "Content-Type" → ∀ r r' : HttpRequest, r.Takes x r' →
      httpAsciiStartsWith r'.contentType.chars (ascii "application/json") = true := by
    intro x hx hn r r' ht
    rw [ht.type hn]
    exact hp.types x hx hn
  have ⟨x, hx, hnx⟩ := hp.sized
  have ⟨y, hy, hny⟩ := hp.typed
  refine ⟨?_, ?_, ?_⟩
  · apply headers_reach (P := fun r => r.contentLength.toNat = length ∧ r.hasContentLength = true) hx
      (fun r r' ht => hlen x hx hnx r r' ht) _ h
    intro z hz r r' ht hr
    by_cases hn : z.Named "Content-Length"
    case pos => exact hlen z hz hn r r' ht
    case neg =>
      have ⟨hl, hs⟩ := ht.other hn
      rw [hl, hs]
      exact hr
  · apply headers_reach (P := fun r =>
      httpAsciiStartsWith r.contentType.chars (ascii "application/json") = true) hy
      (fun r r' ht => htype y hy hny r r' ht) _ h
    intro z hz r r' ht hr
    by_cases hn : z.Named "Content-Type"
    case pos => exact htype z hz hn r r' ht
    case neg => rwa [ht.others hn]
  · apply headers_keep (P := fun r => r.hasTransferEncoding = false) _ h hcoding
    intro z hz r r' ht hr
    rw [ht.coding (hp.coding z hz), hr]

theorem httpParseRequest_post {deps : HttpDeps} {block : Bytes} {length : Nat}
    (hp : PostRequest deps block length) :
    ∃ req, httpParseRequest deps block = .ok req ∧ req.IsPost length := by
  have ⟨req₁, req, hheaders, hsplit, hreq⟩ := httpParseRequest_ok hp.parsed hp.version
    (by rw [hp.method]; decide) (by rw [hp.target]; decide) hp.headers
  have ⟨hpath, hmethod, hlength, hsized, htype, hcoding⟩ := httpParseRequest.split_path hsplit
  have ⟨hm, ht⟩ := httpParseRequest.headers_line hheaders
  have ⟨⟨hl, hs⟩, hty, hc⟩ := httpParseRequest.headers_post hp rfl hheaders
  refine ⟨req, hreq, ?_⟩
  constructor
  case method => rw [hmethod, hm]; simp only [HttpRequest.ofLine, hp.method]; rfl
  case target => rw [hpath, ht]; simp only [HttpRequest.ofLine, hp.target]; decide
  case length => rw [hlength, hl]
  case sized  => rw [hsized, hs]
  case type   => rw [htype, hty]
  case coding => rw [hcoding, hc]

section

variable {e : Env} {w : World} {message : CStr} {opt : ServerOpt}

-- The reply to a message that is posted.
def postedReply : Bytes :=
  httpResponse 201 (.lit "Created") jsonContentType (ascii "\x7b\"ok\":true\x7d")

theorem wp_httpHandleMessagesPost (he : e.Reliable) (hm : message.strlen ≤ maxTextMessageSize)
    {req : HttpRequest} (hreq : req.IsPost (messageJson message).length)
    (hin : messageJson message <+: delivered e.inp) :
    Io.wp World.handle (httpHandleMessagesPost req) (fun _ e' w' =>
      (e'.out = e.out ++ postedReply ↔ (messageJson message).length ≤ maxTextMessageSize) ∧
      ((messageJson message).length ≤ maxTextMessageSize →
        w' = { w with board := ⟨some (storedMessage message), w.board.version + 1⟩ })) e w := by
  rw [httpHandleMessagesPost, if_neg (by simp [hreq.coding]), if_neg (by simp [hreq.sized]), hreq.length]
  split
  case isTrue hlt =>
    apply wp_httpSendResponse
    intro b sent ts hp _
    refine ⟨iff_of_false ?_ (Nat.not_le.mpr hlt), fun hle => absurd hle (Nat.not_le.mpr hlt)⟩
    intro hs
    rw [List.append_cancel_left hs] at hp
    have hstatus : answerStatus postedReply = some (ascii "201") := by decide
    exact absurd (answerStatus_of_isPrefix (by decide) hp hstatus) (by decide)
  case isFalse hle =>
    rw [if_neg (by simp [hreq.type]), httpHandleMessagesPost.receive, hreq.length,
      Io.wp_bind]
    apply wp_malloc_of_allocates he.allocates
    intro al hal
    rw [if_neg (by simp), Io.wp_bind]
    apply wp_recvAll_of_delivered (e := { e with allocs := al }) hin
    intro as _
    dsimp only
    rw [if_neg (not_not.mpr rfl), Io.wp_bind, httpParseMessageJson, Io.wp_bind]
    apply wp_malloc_of_allocates (e := { e with inp := as, allocs := al }) hal
    intro al' hal'
    rw [if_neg (by simp), Io.wp_pure, httpParseMessageJson_messageJson]
    dsimp only
    rw [Io.wp_bind]
    apply wp_appSubmitMessage_of_allocates (e := { e with inp := as, allocs := al' }) hal' hm
    intro al'' _
    rw [if_neg (by simp)]
    apply wp_httpSendResponse
    intro b sent ts _ hall
    rw [hall he.benign (by decide)]
    exact ⟨iff_of_true rfl (Nat.not_lt.mp hle), fun _ => rfl⟩

theorem wp_handleHttpConnection_post {deps : HttpDeps} {block : Bytes} (he : e.Reliable)
    (hm : message.strlen ≤ maxTextMessageSize) (hblock : HeaderBlock block)
    (hpost : PostRequest deps block (messageJson message).length)
    (hin : block ++ messageJson message <+: prompt e.inp) :
    Io.wp World.handle (handleHttpConnection deps opt) (fun _ e' w' =>
      (e'.out = e.out ++ postedReply ↔ (messageJson message).length ≤ maxTextMessageSize) ∧
      ((messageJson message).length ≤ maxTextMessageSize →
        w' = { w with board := ⟨some (storedMessage message), w.board.version + 1⟩ })) e w := by
  have ⟨req, hparse, hreq⟩ := httpParseRequest_post hpost
  have hget : req.method ≠ .lit "GET" := by
    rw [hreq.method]
    decide
  have hroute : (httpExactRoutes opt req).find? (fun route => req.path = route.1) =
      some (.lit "/api/messages", .lit "POST", httpHandleMessagesPost req) := by
    have hne : CStr.lit "/api/messages" ≠ .lit "/api/files" := by decide
    rw [hreq.target, httpExactRoutes, List.find?_cons_of_neg (by simpa using hne),
      List.find?_cons_of_pos (by simp)]
  rw [handleHttpConnection, Io.wp_bind]
  apply wp_httpReadHeaderBlock_of_prompt hblock hin
  intro as has
  dsimp only
  rw [hparse]
  dsimp only
  rw [httpDispatch, if_neg hget]
  dsimp only
  rw [httpDispatchExactRoute, hroute]
  dsimp only
  rw [Io.wp_bind, if_neg (not_not.mpr hreq.method), Io.wp_bind]
  exact wp_httpHandleMessagesPost (e := { e with inp := as }) ⟨he.allocates, he.benign⟩ hm hreq
    (has.trans (Arrival.prompt_isPrefix_delivered _))

end

-- A message is acknowledged by both front ends, one as the message of a native request and one as
-- the object of a POST request, and they leave the same message behind.
structure FrontEndsAgree (deps : HttpDeps) (opt : ServerOpt) (native http : Env) (w : World) : Prop where
  acknowledged : (Io.exec World.handle (handleProtocolConnection opt) native w).1.2.out =
    native.out ++ ResFrame.finalOk.bytes
  posted : (Io.exec World.handle (handleHttpConnection deps opt) http w).1.2.out = http.out ++ postedReply
  stored : (Io.exec World.handle (handleProtocolConnection opt) native w).2.board =
    (Io.exec World.handle (handleHttpConnection deps opt) http w).2.board

-- The front ends agree on a message exactly if its object is not longer than the longest message.
theorem frontEndsAgree_iff {deps : HttpDeps} {opt : ServerOpt} {native http : Env} {w : World}
    {message : CStr} {block : Bytes} (hm : message.strlen ≤ maxTextMessageSize)
    (hn : native.Reliable) (hin : textRequest message <+: delivered native.inp)
    (hh : http.Reliable) (hblock : HeaderBlock block)
    (hpost : PostRequest deps block (messageJson message).length)
    (hin' : block ++ messageJson message <+: prompt http.inp) :
    FrontEndsAgree deps opt native http w ↔ (messageJson message).length ≤ maxTextMessageSize := by
  have ⟨hout, hw⟩ := wp_handleProtocolConnection_text (w := w) hn opt hm hin
  have ⟨hout', hw'⟩ : Io.wp World.handle (handleHttpConnection deps opt) _ http w :=
    wp_handleHttpConnection_post hh hm hblock hpost hin'
  constructor
  · intro h
    exact hout'.mp h.posted
  · intro hle
    exact ⟨hout, hout'.mpr hle, (congrArg World.board hw).trans (congrArg World.board (hw' hle)).symm⟩

-- A message of `n` letters.
def letters (n : Nat) : CStr where
  chars    := List.replicate n 97
  nul_free := fun h => absurd (List.eq_of_mem_replicate h) (by decide)

theorem length_messageJson_letters (n : Nat) : (messageJson (letters n)).length = n + 14 := by
  have hesc : httpJsonEscape (letters n) = List.replicate n 97 := by
    have hflat : ∀ k, (List.replicate k 97).flatMap httpJsonEscape.char = List.replicate k 97 := by
      intro k
      induction k
      case zero => rfl
      case succ k hi =>
        rw [List.replicate_succ, List.flatMap_cons, hi]
        rfl
    exact hflat n
  have hpre : (ascii "\x7b\"message\":\"").length = 12 := by decide
  have hpost : (ascii "\"\x7d").length = 2 := by decide
  rw [messageJson, hesc, List.length_append, List.length_append, List.length_replicate, hpre, hpost]
  omega

def postBlock (length : Nat) : Bytes :=
  ascii "POST /api/messages HTTP/1.1\r\nContent-Type: application/json\r\nContent-Length: " ++
    (CStr.decimal length).chars ++ crlf ++ crlf

def postPhr (length : Nat) : PhrRequest where
  method       := ascii "POST"
  path         := ascii "/api/messages"
  minorVersion := 1
  headers      := [⟨some (ascii "Content-Type"), ascii "application/json"⟩,
    ⟨some (ascii "Content-Length"), (CStr.decimal length).chars⟩]

def postDeps (length : Nat) : HttpDeps where
  phrParseRequest block := if block = postBlock length then some (postPhr length) else none
  webuiAssets           := []

def postRequest {length : Nat} (hb : (CStr.ofBuf (postBlock length)).chars = postBlock length)
    (hn : Numeral (CStr.decimal length).chars length) : PostRequest (postDeps length) (postBlock length) length where
  phr     := postPhr length
  parsed  := by
    rw [hb]
    simp only [postDeps, if_true]
  version := rfl
  method  := rfl
  target  := rfl
  headers := by
    simp only [postPhr, List.forall_mem_cons, List.not_mem_nil, false_imp_iff, implies_true, and_true]
    refine ⟨⟨by simp, fun h => ?_, fun _ => by decide⟩, ⟨by simp, fun _ => ⟨_, hn⟩, fun h => ?_⟩⟩
    all_goals exact absurd (PhrHeader.named_iff.mp h) (by decide)
  lengths := by
    simp only [postPhr, List.forall_mem_cons, List.not_mem_nil, false_imp_iff, implies_true, and_true]
    exact ⟨fun h => absurd (PhrHeader.named_iff.mp h) (by decide), fun _ => hn⟩
  sized   := ⟨_, .tail _ (.head _), _, rfl, by decide⟩
  types   := by
    simp only [postPhr, List.forall_mem_cons, List.not_mem_nil, false_imp_iff, implies_true, and_true]
    exact ⟨fun _ => by decide, fun h => absurd (PhrHeader.named_iff.mp h) (by decide)⟩
  typed   := ⟨_, .head _, _, rfl, by decide⟩
  coding  := by
    simp only [postPhr, List.forall_mem_cons, List.not_mem_nil, false_imp_iff, implies_true, and_true,
      PhrHeader.named_iff]
    decide

theorem Env.Reliable.calm (pid : Nat) (inp : List Arrival) : (Env.calm pid inp).Reliable where
  allocates b hb := by cases hb
  benign t ht    := by cases ht

theorem frontEndsAgree_on_a_letter :
    FrontEndsAgree (postDeps 15) ⟨.lit "d", 0⟩ (.calm 1 (Arrival.push (textRequest (letters 1)) []))
      (.calm 1 (Arrival.push (postBlock 15 ++ messageJson (letters 1)) [])) .empty ↔
    (messageJson (letters 1)).length ≤ maxTextMessageSize := by
  have hlen : (messageJson (letters 1)).length = 15 := length_messageJson_letters 1
  have hn : Numeral (CStr.decimal 15).chars 15 := by
    constructor <;> decide +kernel
  have hpost : PostRequest (postDeps 15) (postBlock 15) (messageJson (letters 1)).length :=
    hlen ▸ postRequest (by decide) hn
  have hblock : HeaderBlock (postBlock 15) := by decide
  exact frontEndsAgree_iff (by decide) (.calm ..) (by simp [Env.calm, delivered]) (.calm ..) hblock
    hpost (by simp [Env.calm, prompt])

-- The longest message does not get through in a POST request.
theorem longest_message_not_posted :
    ¬FrontEndsAgree (postDeps 262158) ⟨.lit "d", 0⟩
      (.calm 1 (Arrival.push (textRequest (letters maxTextMessageSize)) []))
      (.calm 1 (Arrival.push (postBlock 262158 ++ messageJson (letters maxTextMessageSize)) [])) .empty := by
  intro h
  have hlen := length_messageJson_letters maxTextMessageSize
  have hn : Numeral (CStr.decimal 262158).chars 262158 := by
    constructor <;> decide +kernel
  have hpost : PostRequest (postDeps 262158) (postBlock 262158)
      (messageJson (letters maxTextMessageSize)).length := hlen ▸ postRequest (by decide) hn
  have hm : (letters maxTextMessageSize).strlen ≤ maxTextMessageSize := by
    simp [letters, CStr.strlen]
  have hw : Io.wp World.handle (handleHttpConnection (postDeps 262158) ⟨.lit "d", 0⟩) _
      (.calm 1 (Arrival.push (postBlock 262158 ++ messageJson (letters maxTextMessageSize)) [])) .empty :=
    wp_handleHttpConnection_post (.calm ..) hm (by decide) hpost (by simp [Env.calm, prompt])
  have hle := hw.left.mp h.posted
  omega
