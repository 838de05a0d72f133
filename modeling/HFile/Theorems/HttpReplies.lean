import HFile.Library.HttpFormat
import HFile.Theorems.HttpDownload
import HFile.Theorems.Listing
import HFile.Theorems.Percent
import HFile.Theorems.Silent
import HFile.Theorems.Streams

open Program (Handler)
open Io (Silent silent_pure)
open Arrival (bytes delivered prompt)

-- The statuses of replies and what they are called.
def httpPhrases : List (Nat × String) :=
  [(200, "OK"),
   (201, "Created"),
   (400, "Bad Request"),
   (404, "Not Found"),
   (405, "Method Not Allowed"),
   (411, "Length Required"),
   (413, "Payload Too Large"),
   (415, "Unsupported Media Type"),
   (431, "Request Header Fields Too Large"),
   (500, "Internal Server Error"),
   (501, "Not Implemented"),
   (505, "HTTP Version Not Supported")]

theorem httpPhrases_valid : ∀ p ∈ httpPhrases, (CStr.decimal p.1).chars.length = 3 ∧
    (13 ∉ (CStr.lit p.2).chars ∧ 10 ∉ (CStr.lit p.2).chars) ∧ (CStr.lit p.2).chars.length < 100 := by
  have hdigits : ∀ p ∈ httpPhrases, (CStr.decimal p.1).chars.length = 3 := by
    simp only [httpPhrases, List.forall_mem_cons, List.not_mem_nil, false_implies, implies_true, and_true]
    simp [CStr.decimal]
  have htext : ∀ p ∈ httpPhrases, (13 ∉ (CStr.lit p.2).chars ∧ 10 ∉ (CStr.lit p.2).chars) ∧
      (CStr.lit p.2).chars.length < 100 := by
    decide
  exact fun p hp => ⟨hdigits p hp, htext p hp⟩

-- The texts of errors.
def httpErrorTexts : List String :=
  ["allocation failed", "content-length required", "content-type must be application/json",
   "content-type must be application/octet-stream", "failed to list files", "failed to load message",
   "failed to save file", "failed to store message", "file not found", "header too large", "invalid file name",
   "invalid file path", "invalid message payload", "invalid path", "invalid request", "message too large",
   "method not allowed", "only HTTP/1.1 is supported", "path is not a directory", "path not found",
   "route not found", "saved file missing", "transfer-encoding not supported", "upload too large"]

theorem httpErrorTexts_short : ∀ t ∈ httpErrorTexts, (CStr.lit t).strlen < 100 := by
  decide

-- The types of contents are words on one line.
structure ContentType (contentType : CStr) : Prop where
  onLine : 13 ∉ contentType.chars ∧ 10 ∉ contentType.chars
  short  : contentType.strlen < 200

theorem contentType_json : ContentType jsonContentType where
  onLine := by decide
  short  := by decide

-- The names and the values that do not depend on the reply.

set_option maxRecDepth 8000 in
theorem fieldNames_valid : ∀ t ∈ ["Content-Type", "Content-Length", "Connection", "Content-Disposition", "Cache-Control",
    "X-Accel-Buffering"], ascii t ≠ [] ∧ ∀ c ∈ ascii t, Http.TokenChar c := by
  decide

theorem fieldValues_onLine : ∀ t ∈ ["close", "application/octet-stream", "text/event-stream; charset=utf-8", "no-cache",
    "no", "OK"], 13 ∉ ascii t ∧ 10 ∉ ascii t := by
  decide

set_option maxRecDepth 8000 in
theorem jsonNames_plain : ∀ t ∈ ["error", "ok", "has_message", "message"],
    ∀ c ∈ ascii t, 0x20 ≤ c ∧ c ≠ Json.quote ∧ c ≠ Json.backslash := by
  decide

set_option maxRecDepth 8000 in
theorem status_ok : ascii "200" = (CStr.decimal 200).chars ∧ ascii "OK" = (CStr.lit "OK").chars ∧
    ∀ c ∈ ascii "200", 48 ≤ c ∧ c ≤ 57 := by
  decide

-- What the heads of replies say.

def lengthField (n : Nat) : Http.Field :=
  ⟨ascii "Content-Length", (CStr.decimal n).chars⟩

def closeField : Http.Field :=
  ⟨ascii "Connection", ascii "close"⟩

def replyHead (status : Nat) (reason contentType : CStr) (n : Nat) : Http.Head where
  status := (CStr.decimal status).chars
  reason := reason.chars
  fields := [⟨ascii "Content-Type", contentType.chars⟩, lengthField n, closeField]

def downloadHead (size : Nat) (name : Bytes) : Http.Head where
  status := ascii "200"
  reason := ascii "OK"
  fields := [⟨ascii "Content-Type", ascii "application/octet-stream"⟩, lengthField size,
    ⟨ascii "Content-Disposition", ascii "attachment; filename=\"" ++ name ++ ascii "\""⟩, closeField]

def streamHead : Http.Head where
  status := ascii "200"
  reason := ascii "OK"
  fields := [⟨ascii "Content-Type", ascii "text/event-stream; charset=utf-8"⟩,
    ⟨ascii "Cache-Control", ascii "no-cache"⟩, closeField, ⟨ascii "X-Accel-Buffering", ascii "no"⟩]

theorem field_valid {name : String} {value : Bytes} (hn : name ∈ ["Content-Type", "Content-Length", "Connection",
    "Content-Disposition", "Cache-Control", "X-Accel-Buffering"]) (hv : 13 ∉ value ∧ 10 ∉ value) :
    Http.Field.Valid ⟨ascii name, value⟩ where
  named  := (fieldNames_valid name hn).left
  token  := (fieldNames_valid name hn).right
  onLine := hv

theorem lengthField_valid (n : Nat) : (lengthField n).Valid :=
  field_valid (by simp)
    ⟨fun h => absurd (CStr.digit_of_mem_decimal n _ h) (by decide),
     fun h => absurd (CStr.digit_of_mem_decimal n _ h) (by decide)⟩

theorem closeField_valid : closeField.Valid :=
  field_valid (by simp) (fieldValues_onLine "close" (by simp))

-- A head whose only field about its body is a length announces that length.
theorem announces_of_values {head : Http.Head} {n : Nat}
    (hl : head.values (ascii "Content-Length") = [(CStr.decimal n).chars])
    (ht : head.values (ascii "Transfer-Encoding") = []) : head.Announces n where
  length    := ⟨_, hl, CStr.decimal_ne_nil n, CStr.digit_of_mem_decimal n, CStr.decimalValue_decimal n⟩
  unchunked := ht

section

variable {status : Nat} {reason : String} {contentType : CStr}

theorem replyHead_valid (hs : (status, reason) ∈ httpPhrases) (hc : ContentType contentType) (n : Nat) :
    (replyHead status (.lit reason) contentType n).Valid where
  length := (httpPhrases_valid _ hs).left
  digits := CStr.digit_of_mem_decimal status
  reason := (httpPhrases_valid _ hs).right.left
  fields := by
    simp only [replyHead, List.forall_mem_cons, List.not_mem_nil, false_implies, implies_true, and_true]
    exact ⟨field_valid (by simp) hc.onLine, lengthField_valid n, closeField_valid⟩

theorem replyHead_announces (n : Nat) : (replyHead status (.lit reason) contentType n).Announces n :=
  announces_of_values rfl rfl

theorem text_replyHead (body : Bytes) : (replyHead status (.lit reason) contentType body.length).text =
    httpResponseHeader status (.lit reason) contentType body := by
  have htype : ascii "Content-Type: " = ascii "Content-Type" ++ [Http.colon, Http.space] := by decide
  have hlength : ascii "Content-Length: " = ascii "Content-Length" ++ [Http.colon, Http.space] := by decide
  have hclose : ascii "Connection: close" = ascii "Connection" ++ Http.colon :: Http.space :: ascii "close" := by decide
  have hspace : ascii " " = [Http.space] := by decide
  rw [httpResponseHeader, htype, hlength, hclose, hspace]
  simp [Http.Head.text, replyHead, lengthField, closeField, Http.Field.line, Http.crlf, crlf, Http.cr, Http.lf]

end

theorem downloadHead_valid (size : Nat) {name : Bytes} (hn : Harmless name) : (downloadHead size name).Valid where
  length := rfl
  digits := status_ok.right.right
  reason := fieldValues_onLine "OK" (by simp)
  fields := by
    obtain ⟨_, _, hcr, hlf⟩ := hn
    simp only [downloadHead, List.forall_mem_cons, List.not_mem_nil, false_implies, implies_true, and_true]
    refine ⟨field_valid (by simp) (fieldValues_onLine "application/octet-stream" (by simp)), lengthField_valid size,
      field_valid (by simp) ?_, closeField_valid⟩
    simp only [List.mem_append, hcr, hlf, not_or, or_false]
    decide

theorem downloadHead_announces (size : Nat) (name : Bytes) : (downloadHead size name).Announces size :=
  announces_of_values rfl rfl

theorem text_downloadHead (size : Nat) (name : Bytes) :
    (downloadHead size name).text = httpSendFile.header size name := by
  have hstatus : ascii "HTTP/1.1 200 OK" = ascii "HTTP/1.1 " ++ ascii "200" ++ Http.space :: ascii "OK" := by decide
  have htype : ascii "Content-Type: application/octet-stream" =
      ascii "Content-Type" ++ Http.colon :: Http.space :: ascii "application/octet-stream" := by decide
  have hlength : ascii "Content-Length: " = ascii "Content-Length" ++ [Http.colon, Http.space] := by decide
  have hname : ascii "Content-Disposition: attachment; filename=\"" =
      ascii "Content-Disposition" ++ Http.colon :: Http.space :: ascii "attachment; filename=\"" := by decide
  have hclose : ascii "Connection: close" = ascii "Connection" ++ Http.colon :: Http.space :: ascii "close" := by decide
  rw [httpSendFile.header, hstatus, htype, hlength, hname, hclose]
  simp [Http.Head.text, downloadHead, lengthField, closeField, Http.Field.line, Http.crlf, crlf, Http.cr, Http.lf]

theorem streamHead_valid : streamHead.Valid where
  length := by decide
  digits := status_ok.right.right
  reason := fieldValues_onLine "OK" (by simp)
  fields := by
    simp only [streamHead, List.forall_mem_cons, List.not_mem_nil, false_implies, implies_true, and_true]
    exact ⟨field_valid (by simp) (fieldValues_onLine "text/event-stream; charset=utf-8" (by simp)),
      field_valid (by simp) (fieldValues_onLine "no-cache" (by simp)), closeField_valid,
      field_valid (by simp) (fieldValues_onLine "no" (by simp))⟩

theorem text_streamHead : streamHead.text = sseHeaders := by
  decide

-- The texts of the bodies.

theorem length_flatMap_le {k : Nat} {f : UInt8 → Bytes} (h : ∀ c, (f c).length ≤ k) (bs : Bytes) :
    (bs.flatMap f).length ≤ k * bs.length := by
  induction bs
  case nil => exact Nat.zero_le _
  case cons c bs hi =>
    rw [List.flatMap_cons, List.length_append, List.length_cons, Nat.mul_succ]
    have := h c
    omega

theorem length_httpJsonEscape_le (text : CStr) : (httpJsonEscape text).length ≤ 6 * text.strlen := by
  have hchar : ∀ c, (httpJsonEscape.char c).length ≤ 6 := by
    intro c
    rw [httpJsonEscape.char, httpSendJsonError.escape]
    split_ifs
    all_goals exact Nat.le_of_ble_eq_true rfl
  exact length_flatMap_le hchar text.chars

theorem length_decimal_le {n : Nat} (hn : n < 2 ^ 64) : (CStr.decimal n).chars.length ≤ 20 :=
  CStr.length_decimal_le (by decide) (by omega)

set_option maxRecDepth 8000 in
theorem le_of_mem_jsonUnicodeEscape : ∀ c ∈ jsonUnicodeEscape 8 ++ jsonUnicodeEscape 12, 0x20 ≤ c := by
  decide

-- The bodies of errors use the escapes of other texts, which have no special forms for two control
-- characters.
theorem chars_errorText (text : CStr) : Json.Chars (text.chars.flatMap httpSendJsonError.escape) text.chars := by
  have hescape : ∀ c, httpSendJsonError.escape c = httpJsonEscape.char c ∨
      (c = 8 ∨ c = 12) ∧ httpSendJsonError.escape c = jsonUnicodeEscape c := by
    intro c
    by_cases h₈ : c = 8
    case pos => exact .inr ⟨.inl h₈, h₈ ▸ rfl⟩
    case neg =>
      by_cases h₁₂ : c = 12
      case pos => exact .inr ⟨.inr h₁₂, h₁₂ ▸ rfl⟩
      case neg => exact .inl (by rw [httpJsonEscape.char, if_neg h₈, if_neg h₁₂])
  have hchar : ∀ c p, httpJsonParseString.loop (httpSendJsonError.escape c ++ p) =
      (httpJsonParseString.loop p).map fun r => (c :: r.1, r.2) := by
    intro c p
    rcases hescape c with h | ⟨hc, h⟩
    · rw [h, httpJsonParseString.loop_escape]
    · rw [h, httpJsonParseString.loop_unicode]
      rcases hc with rfl | rfl <;> decide
  have hloop : ∀ t p, httpJsonParseString.loop (t.flatMap httpSendJsonError.escape ++ 34 :: p) = some (t, p) := by
    intro t p
    induction t
    case nil =>
      rw [List.flatMap_nil, List.nil_append, httpJsonParseString.loop.eq_def]
      rfl
    case cons c t hi =>
      rw [List.flatMap_cons, List.append_assoc, hchar, hi]
      rfl
  obtain ⟨s, hs, hspells⟩ := httpJsonParseString.loop_some (hloop text.chars [])
  rw [List.append_cancel_right hs]
  refine ⟨hspells, fun c hc => ?_⟩
  rw [← List.append_cancel_right hs] at hc
  obtain ⟨d, _, hd⟩ := List.mem_flatMap.mp hc
  rcases hescape d with h | ⟨hd', h⟩ <;> rw [h] at hd
  · exact le_of_mem_escape hd
  · apply le_of_mem_jsonUnicodeEscape
    rcases hd' with rfl | rfl
    · exact List.mem_append_left _ hd
    · exact List.mem_append_right _ hd

theorem derives_member (key : String) (hk : key ∈ ["error", "ok", "has_message", "message"]) {t : Bytes} {v : Json.Value} (hv : Json.Derives t v) :
    Json.Member (Json.quote :: (ascii key ++ Json.quote :: 58 :: t)) (ascii key, v) :=
  .plain (chars_plain (jsonNames_plain key hk)) hv

theorem text_of_members {t : Bytes} {ms : List (Bytes × Json.Value)} (h : Json.Members t ms) :
    Json.Text (123 :: (t ++ [125])) (.object ms) :=
  ⟨[], _, [], Json.Blank.nil, .object h, Json.Blank.nil, by simp⟩

theorem text_jsonError (message : CStr) : Json.Text
    (ascii "\x7b\"error\":\"" ++ message.chars.flatMap httpSendJsonError.escape ++ ascii "\"\x7d")
    (.object [(ascii "error", .string message.chars)]) := by
  have h := text_of_members (.one (derives_member "error" (by simp) (.string (chars_errorText message))))
  have h₁ : ascii "\x7b\"error\":\"" = 123 :: Json.quote :: (ascii "error" ++ [Json.quote, 58, Json.quote]) := by
    decide
  have h₂ : ascii "\"\x7d" = [Json.quote, 125] := by decide
  convert h using 1
  simp only [h₁, h₂, List.append_assoc, List.cons_append, List.nil_append]

theorem length_errorText_le (text : CStr) : (text.chars.flatMap httpSendJsonError.escape).length ≤ 6 * text.strlen := by
  have hchar : ∀ c, (httpSendJsonError.escape c).length ≤ 6 := by
    intro c
    rw [httpSendJsonError.escape]
    split_ifs
    all_goals exact Nat.le_of_ble_eq_true rfl
  exact length_flatMap_le hchar text.chars

theorem text_created (relativePath : CStr) (size mtime : Nat) : Json.Text
    (ascii "\x7b\"name\":\"" ++ httpJsonEscape (httpRelativeBasename relativePath) ++
     ascii "\",\"path\":\"" ++ httpJsonEscape relativePath ++
     ascii "\",\"kind\":\"file\",\"size\":" ++ (CStr.decimal size).chars ++
     ascii ",\"mtime\":" ++ (CStr.decimal mtime).chars ++ ascii "\x7d")
    (HttpFileEntry.json ⟨httpRelativeBasename relativePath, relativePath, .file, size, mtime⟩) := by
  have h := derives_entry ⟨httpRelativeBasename relativePath, relativePath, .file, size, mtime⟩
  have hkind : ascii "\",\"kind\":\"file\",\"size\":" = ascii "\",\"kind\":\"" ++ (httpPathKindName .file ++ ascii "\",\"size\":") := by
    decide
  refine ⟨[], _, [], Json.Blank.nil, h, Json.Blank.nil, ?_⟩
  simp only [httpBuildFilesJson.entry, hkind, List.append_assoc, List.nil_append, List.append_nil]

theorem text_ok : Json.Text (ascii "\x7b\"ok\":true\x7d") (.object [(ascii "ok", .bool true)]) := by
  have h := text_of_members (.one (derives_member "ok" (by simp) .true))
  have h₁ : ascii "\x7b\"ok\":true\x7d" = 123 :: (Json.quote :: (ascii "ok" ++ Json.quote :: 58 :: ascii "true") ++ [125]) := by
    decide
  rw [h₁]
  exact h

-- What the reply about the latest message says.
def latestJson (message : Option CStr) : Json.Value :=
  .object [(ascii "has_message", .bool message.isSome), (ascii "message", .string ((message.map (·.chars)).getD []))]

theorem text_latest (message : Option CStr) : Json.Text
    (ascii "\x7b\"has_message\":" ++ ascii (if message.isSome then "true" else "false") ++ ascii ",\"message\":\"" ++
      (message.map httpJsonEscape).getD [] ++ ascii "\"\x7d")
    (latestJson message) := by
  have hflag : Json.Derives (ascii (if message.isSome then "true" else "false")) (.bool message.isSome) := by
    cases message
    case none => exact .false
    case some => exact .true
  have hchars : Json.Chars ((message.map httpJsonEscape).getD []) ((message.map (·.chars)).getD []) := by
    cases message
    case none   => exact chars_plain nofun
    case some m => exact spells_httpJsonEscape m
  have h := text_of_members (.cons (derives_member "has_message" (by simp) hflag)
    (.one (derives_member "message" (by simp) (.string hchars))))
  have h₁ : ascii "\x7b\"has_message\":" = 123 :: Json.quote :: (ascii "has_message" ++ [Json.quote, 58]) := by
    decide
  have h₂ : ascii ",\"message\":\"" = 44 :: Json.quote :: (ascii "message" ++ [Json.quote, 58, Json.quote]) := by
    decide
  have h₃ : ascii "\"\x7d" = [Json.quote, 125] := by decide
  rw [latestJson]
  convert h using 1
  simp only [h₁, h₂, h₃, List.append_assoc, List.cons_append, List.nil_append]

theorem HttpFileEntry.Small.length_entry {x : HttpFileEntry} (hx : x.Small) :
    (httpBuildFilesJson.entry x).length < 2 ^ 14 := by
  have hname := length_httpJsonEscape_le x.name
  have hpath := length_httpJsonEscape_le x.path
  have hkind : (httpPathKindName x.kind).length ≤ 7 := by
    cases x.kind <;> exact Nat.le_of_ble_eq_true rfl
  have hsize := length_decimal_le hx.size
  have hmtime := length_decimal_le hx.mtime
  have hfixed : (ascii "\x7b\"name\":\"").length + (ascii "\",\"path\":\"").length + (ascii "\",\"kind\":\"").length +
      (ascii "\",\"size\":").length + (ascii ",\"mtime\":").length + (ascii "\x7d").length < 100 := by
    decide
  have hn := hx.name
  have hp := hx.path
  rw [httpPathMax] at hn hp
  simp only [httpBuildFilesJson.entry, List.length_append]
  omega

theorem length_intercalate_le {α : Type} {text : α → Bytes} {k : Nat} (xs : List α) (h : ∀ x ∈ xs, (text x).length < k) :
    ([44].intercalate (xs.map text)).length ≤ xs.length * k := by
  induction xs
  case nil => exact Nat.zero_le _
  case cons x xs hi =>
    rw [List.forall_mem_cons] at h
    have hrest := hi h.right
    cases xs
    case nil => simpa [List.intercalate] using Nat.le_of_lt h.left
    case cons y ys =>
      have hcons : [44].intercalate ((x :: y :: ys).map text) = text x ++ [44] ++ [44].intercalate ((y :: ys).map text) := by
        simp [List.intercalate]
      rw [hcons, List.length_append, List.length_append, List.length_singleton, List.length_cons, Nat.succ_mul]
      omega

theorem length_httpBuildFilesJson_text {entries : List HttpFileEntry} (hl : entries.length < 2 ^ 32)
    (he : ∀ x ∈ entries, x.Small) : (httpBuildFilesJson.text entries).length < 2 ^ 64 := by
  have hinter := length_intercalate_le entries fun x hx => (he x hx).length_entry
  have hcomma : ascii "," = [44] := by decide
  have hopen : (ascii "[").length = 1 := by decide
  have hclose : (ascii "]").length = 1 := by decide
  rw [httpBuildFilesJson.text, hcomma, List.length_append, List.length_append, hopen, hclose]
  omega

-- A reply with a body that is as long as its head announces, and that is JSON if the head says so.
inductive WholeReply (text : Bytes) : Prop
  | mk {head : Http.Head} {body : Bytes} :
    Http.Complete text head body →
    (∃ p ∈ httpPhrases, head.status = (CStr.decimal p.1).chars ∧ head.reason = (CStr.lit p.2).chars) →
    (head.values (ascii "Content-Type") = [jsonContentType.chars] → ∃ v, Json.Text body v) →
    WholeReply text

-- What is sent for a request: all of a reply, a download that ends early since its file could not be
-- read, or a stream of messages, whose end is the end of the connection.
inductive HttpReply (req : HttpRequest) : Bytes → Prop
  | whole {text : Bytes} : WholeReply text → HttpReply req text
  | cut {head : Http.Head} {n : Nat} {body : Bytes} :
    req.method = .lit "GET" → ascii "/api/files/" <+: req.path.chars →
    head.Valid → head.Announces n → body.length < n → HttpReply req (head.text ++ body)
  | stream (items : List StreamItem) :
    req.method = .lit "GET" → req.path = .lit "/api/messages/stream" →
    HttpReply req (streamHead.text ++ items.flatMap StreamItem.bytes)

-- `m` sends one text that satisfies `P`, as long as the peer takes it.
structure Io.Sends (m : Io α) (P : Bytes → Prop) : Prop where
  wp : ∀ {W : Type} {h : Handler Sys W}, h.Sane → ∀ e w, (∀ t ∈ e.snd, t.Benign) →
    Io.wp h m (fun _ e' _ => ∃ sent, e'.out = e.out ++ sent ∧ P sent) e w

namespace Io

variable {P : Bytes → Prop}

theorem Sends.mono {m : Io α} {R : Bytes → Prop} (hm : m.Sends P) (h : ∀ sent, P sent → R sent) : m.Sends R :=
  ⟨fun hs e w hb => wp_mono (hm.wp hs e w hb) fun _ _ _ ⟨sent, hout, hp⟩ => ⟨sent, hout, h sent hp⟩⟩

theorem Quiet.sends {m : Io α} {f : α → Io β} {Q : α → Prop} (hm : m.Quiet Q) (hf : ∀ a, Q a → (f a).Sends P) :
    (m >>= f).Sends P := by
  constructor
  intro W h hs e w hb
  rw [wp_bind]
  apply wp_mono (hm.wp hs e w)
  intro a e' w' ⟨ha, hout, hsnd⟩
  rw [← hout]
  exact (hf a ha).wp hs e' w' (hsnd ▸ hb)

theorem Silent.sends {m : Io α} {f : α → Io β} (hm : m.Silent) (hf : ∀ a, (f a).Sends P) : (m >>= f).Sends P :=
  Quiet.sends hm fun a _ => hf a

theorem Sends.then {m : Io α} {f : α → Io β} (hm : m.Sends P) (hf : ∀ a, (f a).Silent) : (m >>= f).Sends P := by
  constructor
  intro W h hs e w hb
  rw [wp_bind]
  apply wp_mono (hm.wp hs e w hb)
  intro a e' w' ⟨sent, hout, hp⟩
  apply wp_mono ((hf a).wp hs e' w')
  intro b e'' w'' ⟨_, hout', _⟩
  exact ⟨sent, hout'.trans hout, hp⟩

end Io

theorem sends_httpSendResponse {status : Nat} {reason : String} {contentType : CStr} {body : Bytes}
    (hs : (status, reason) ∈ httpPhrases) (hc : ContentType contentType) (hb : body.length < 2 ^ 64)
    (hj : contentType = jsonContentType → ∃ v, Json.Text body v) :
    (httpSendResponse status (.lit reason) contentType body).Sends WholeReply := by
  have hfits : (httpResponseHeader status (.lit reason) contentType body).length < 1024 := by
    have ⟨hdigits, _, hreason⟩ := httpPhrases_valid _ hs
    have hdigits : (CStr.decimal status).chars.length = 3 := hdigits
    have hreason : (CStr.lit reason).chars.length < 100 := hreason
    have htype : contentType.chars.length < 200 := hc.short
    have hlength := length_decimal_le hb
    have hfixed : (ascii "HTTP/1.1 ").length + (ascii " ").length + (ascii "Content-Type: ").length +
        (ascii "Content-Length: ").length + (ascii "Connection: close").length < 200 := by
      decide
    simp only [httpResponseHeader, crlf, List.length_append, List.length_cons, List.length_nil]
    omega
  constructor
  intro W h _ e w hben
  apply wp_httpSendResponse
  intro b sent ts _ hall
  refine ⟨sent, rfl, ?_⟩
  rw [hall hben hfits]
  have hcomplete : Http.Complete (httpResponse status (.lit reason) contentType body)
      (replyHead status (.lit reason) contentType body.length) body :=
    ⟨replyHead_valid hs hc _, replyHead_announces _, by rw [text_replyHead, httpResponse]⟩
  apply WholeReply.mk hcomplete
  · exact ⟨(status, reason), hs, rfl, rfl⟩
  · intro ht
    have ht : [contentType.chars] = [jsonContentType.chars] := ht
    exact hj (CStr.ext (by simpa using ht))

theorem sends_httpSendJsonError {status : Nat} {reason message : String} (hs : (status, reason) ∈ httpPhrases)
    (hm : message ∈ httpErrorTexts) : (httpSendJsonError status (.lit reason) (.lit message)).Sends WholeReply := by
  have hshort := httpErrorTexts_short message hm
  rw [httpSendJsonError]
  apply sends_httpSendResponse hs contentType_json
  · have hmessage := length_errorText_le (.lit message)
    have hfixed : (ascii "\x7b\"error\":\"").length + (ascii "\"\x7d").length < 100 := by decide
    rw [List.length_append, List.length_append]
    omega
  · exact fun _ => ⟨_, text_jsonError _⟩

theorem sends_httpMethodNotAllowed : httpMethodNotAllowed.Sends WholeReply :=
  sends_httpSendJsonError (by simp [httpPhrases]) (by simp [httpErrorTexts])

theorem sends_httpHandleFilesList (opt : ServerOpt) (req : HttpRequest) :
    (httpHandleFilesList opt req).Sends WholeReply := by
  rw [httpHandleFilesList]
  split
  case h_1 => exact sends_httpSendJsonError (by simp [httpPhrases]) (by simp [httpErrorTexts])
  case h_2 =>
    split
    case h_1 => exact sends_httpSendJsonError (by simp [httpPhrases]) (by simp [httpErrorTexts])
    case h_2 =>
      apply (quiet_fsStatPath _).silent.sends
      intro info
      split
      case h_1 => exact sends_httpSendJsonError (by simp [httpPhrases]) (by simp [httpErrorTexts])
      case h_2 =>
        apply (silent_httpHandleFilesList_isDir _ _ _).sends
        intro isDir
        split
        case isTrue => exact sends_httpSendJsonError (by simp [httpPhrases]) (by simp [httpErrorTexts])
        case isFalse =>
          apply (quiet_httpBuildFilesJson _ _).sends
          intro body hbody
          split
          case h_1 => exact sends_httpSendJsonError (by simp [httpPhrases]) (by simp [httpErrorTexts])
          case h_2 text =>
            obtain ⟨entries, rfl, hlen, hsmall⟩ := hbody text rfl
            exact sends_httpSendResponse (by simp [httpPhrases]) contentType_json
              (length_httpBuildFilesJson_text hlen hsmall) fun _ => ⟨_, text_httpBuildFilesJson entries⟩

theorem sends_httpHandleMessagesLatestGet : httpHandleMessagesLatestGet.Sends WholeReply := by
  apply quiet_messageStoreGetCopy.sends
  intro r hr
  split
  case h_1 => exact sends_httpSendJsonError (by simp [httpPhrases]) (by simp [httpErrorTexts])
  case h_2 message =>
    apply sends_httpSendResponse (by simp [httpPhrases]) contentType_json _ fun _ => ⟨_, text_latest message⟩
    have hmessage : ((message.map httpJsonEscape).getD []).length ≤ 6 * maxTextMessageSize := by
      cases message
      case none   => exact Nat.zero_le _
      case some m => exact (length_httpJsonEscape_le m).trans (Nat.mul_le_mul_left 6 (hr m rfl))
    have hflag : (ascii (if message.isSome then "true" else "false")).length ≤ 5 := by
      split <;> decide
    have hfixed : (ascii "\x7b\"has_message\":").length + (ascii ",\"message\":\"").length +
        (ascii "\"\x7d").length < 100 := by
      decide
    rw [maxTextMessageSize] at hmessage
    simp only [List.length_append]
    omega

theorem strlen_httpDecodeName {cap : Nat} {encoded name : CStr} (h : httpDecodeName cap encoded = some name) :
    name.strlen < cap := by
  rw [httpDecodeName] at h
  split at h
  case isTrue => cases h
  case isFalse hc =>
    obtain ⟨bs, hb, rfl⟩ := Option.map_eq_some_iff.mp h
    have hlt := ((httpDecodeName.loop_some (Nat.pos_of_ne_zero hc)).mp hb).right
    exact Nat.lt_of_le_of_lt (CStr.strlen_ofBuf_le bs) (by omega)

theorem strlen_fsBasenameFromPath_le (path : CStr) : (fsBasenameFromPath path).strlen ≤ path.strlen := by
  have hl := (List.takeWhile_prefix (l := path.chars.reverse) (· != slash)).length_le
  simpa [CStr.strlen, fsBasenameFromPath] using hl

theorem sends_created {relativePath : CStr} {info : FsPathInfo} (hp : relativePath.strlen < httpPathMax)
    (hi : info.size < 2 ^ 64 ∧ info.mtime < 2 ^ 64) :
    (httpHandleFilePut.created relativePath info).Sends WholeReply := by
  rw [httpHandleFilePut.created]
  apply sends_httpSendResponse (by simp [httpPhrases]) contentType_json _ fun _ => ⟨_, text_created _ _ _⟩
  have hname : (httpJsonEscape (httpRelativeBasename relativePath)).length ≤ 6 * relativePath.strlen :=
    (length_httpJsonEscape_le _).trans (Nat.mul_le_mul_left 6 (strlen_fsBasenameFromPath_le relativePath))
  have hpath := length_httpJsonEscape_le relativePath
  have hsize := length_decimal_le hi.left
  have hmtime := length_decimal_le hi.right
  have hfixed : (ascii "\x7b\"name\":\"").length + (ascii "\",\"path\":\"").length +
      (ascii "\",\"kind\":\"file\",\"size\":").length + (ascii ",\"mtime\":").length + (ascii "\x7d").length < 100 := by
    decide
  rw [httpPathMax] at hp
  simp only [List.length_append]
  omega

theorem sends_httpHandleFilePut (opt : ServerOpt) (req : HttpRequest) {relativePath : CStr}
    (hp : relativePath.strlen < httpPathMax) : (httpHandleFilePut opt req relativePath).Sends WholeReply := by
  have hdiscard : ∀ {m : Io Bool}, m.Sends WholeReply → Io.Sends (do
      discard <| httpDiscardBody req.contentLength
      return ← m) WholeReply := by
    intro m hm
    exact Silent.sends (silent_httpDiscardBody _).discard fun _ => hm
  rw [httpHandleFilePut]
  split
  case isTrue => exact sends_httpSendJsonError (by simp [httpPhrases]) (by simp [httpErrorTexts])
  case isFalse =>
    split
    case isTrue => exact sends_httpSendJsonError (by simp [httpPhrases]) (by simp [httpErrorTexts])
    case isFalse =>
      split
      case isTrue => exact sends_httpSendJsonError (by simp [httpPhrases]) (by simp [httpErrorTexts])
      case isFalse =>
        split
        case isTrue => exact hdiscard (sends_httpSendJsonError (by simp [httpPhrases]) (by simp [httpErrorTexts]))
        case isFalse =>
          split
          case isTrue => exact hdiscard (sends_httpSendJsonError (by simp [httpPhrases]) (by simp [httpErrorTexts]))
          case isFalse =>
            apply (silent_appReceiveFile _ _ _ _ _).sends
            intro r
            split
            case h_4 savedPath =>
              apply (quiet_fsStatPath _).sends
              intro info hinfo
              split
              case h_1 => exact sends_httpSendJsonError (by simp [httpPhrases]) (by simp [httpErrorTexts])
              case h_2 info =>
                split
                case isTrue => exact sends_httpSendJsonError (by simp [httpPhrases]) (by simp [httpErrorTexts])
                case isFalse => exact sends_created hp (hinfo info rfl)
            all_goals exact sends_httpSendJsonError (by simp [httpPhrases]) (by simp [httpErrorTexts])

-- The reply to a request for a file.
theorem sends_httpSendFile (opt : ServerOpt) (relativePath : CStr) {req : HttpRequest}
    (hm : req.method = .lit "GET") (hp : ascii "/api/files/" <+: req.path.chars) :
    (httpSendFile opt relativePath).Sends (HttpReply req) := by
  have herror : ∀ {status : Nat} {reason message : String}, (status, reason) ∈ httpPhrases →
      message ∈ httpErrorTexts →
      (httpSendJsonError status (.lit reason) (.lit message)).Sends (HttpReply req) :=
    fun hs hm => (sends_httpSendJsonError hs hm).mono fun _ => .whole
  have hsend : ∀ {download : AppDownload}, download.info.size < 2 ^ 64 →
      (httpSendFile.send relativePath download).Sends (HttpReply req) := by
    intro download hsize
    have hname := httpSendFile.safeName_harmless relativePath
    have hmod : download.info.size.toUInt64.toNat = download.info.size := by
      simpa using Nat.mod_eq_of_lt hsize
    have hfits := httpSendFile.length_header_lt download.info.size.toUInt64 relativePath
    rw [hmod] at hfits
    constructor
    intro W h hs e w hb
    have hreads : Reads h download.fd (fun _ _ => True) :=
      ⟨fun len _ => hs.pread _ _ _ _, fun _ _ => trivial⟩
    rw [httpSendFile.send, if_neg (Nat.not_le.mpr hfits), Io.wp_bind]
    apply wp_httpSendAll
    intro b sent ts _ _ hall hben
    cases hben hb
    cases hall rfl
    simp only [Bool.not_true, Bool.false_eq_true, if_false, Io.wp_bind]
    apply wp_netSendFileBestEffort hreads trivial
    intro r body src snd allocs w' hbody _
    refine ⟨_, List.append_assoc .., ?_⟩
    rw [← text_downloadHead]
    by_cases hr : r = .ok
    case pos =>
      have hlen : download.info.size = body.length := by rw [hbody.full hr, hmod]
      rw [hlen]
      apply HttpReply.whole
      apply WholeReply.mk ⟨downloadHead_valid _ hname, downloadHead_announces _ _, rfl⟩
      · exact ⟨(200, "OK"), by simp [httpPhrases], status_ok.left, status_ok.right.left⟩
      · intro ht
        have ht : [ascii "application/octet-stream"] = [jsonContentType.chars] := ht
        exact absurd ht (by decide)
    case neg =>
      have hlen : body.length < download.info.size := by
        have hshort := hbody.short hr
        rwa [hmod] at hshort
      exact .cut hm hp (downloadHead_valid _ hname) (downloadHead_announces _ _) hlen
  rw [httpSendFile]
  split
  case isTrue => exact herror (by simp [httpPhrases]) (by simp [httpErrorTexts])
  case isFalse =>
    apply (quiet_appPrepareDownload _ _).sends
    intro r hr
    split
    case h_1 => exact herror (by simp [httpPhrases]) (by simp [httpErrorTexts])
    case h_2 download =>
      apply (hsend (hr download rfl)).then
      intro done
      exact (silent_appDownloadCleanup _).then fun _ => silent_pure _

-- The end of a stream: more events, the last of which are all sent.
def MoreItems (sent : Bytes) : Prop :=
  ∃ items : List StreamItem, sent = items.flatMap StreamItem.bytes

theorem MoreItems.nil : MoreItems [] :=
  ⟨[], rfl⟩

theorem Io.Silent.moreItems {m : Io α} (hm : m.Silent) : m.Sends MoreItems := by
  constructor
  intro W h hs e w _
  apply Io.wp_mono (hm.wp hs e w)
  intro a e' w' ⟨_, hout, _⟩
  exact ⟨[], by simpa using hout, .nil⟩

theorem sends_item (item : StreamItem) {m : Io Bool} (hm : m = httpSendAll item.bytes) {f : Bool → Io Bool}
    (hf : (f true).Sends MoreItems) : (m >>= f).Sends MoreItems := by
  subst hm
  constructor
  intro W h hs e w hb
  rw [Io.wp_bind]
  apply wp_httpSendAll
  intro b sent ts hsub _ hall hben
  cases hben hb
  cases hall rfl
  apply Io.wp_mono (hf.wp hs _ _ fun t ht => hb t (hsub ht))
  intro b e' w' ⟨sent, hout, items, hitems⟩
  exact ⟨_, hout.trans (List.append_assoc ..), item :: items, by rw [hitems]; rfl⟩

theorem sends_httpHandleMessagesStream_loop (version rounds : Nat) :
    (httpHandleMessagesStream.loop version rounds).Sends MoreItems := by
  induction rounds generalizing version
  case zero =>
    apply Silent.moreItems
    apply (silent_messageStoreWaitForUpdate version).then
    intro r
    split <;> exact silent_pure _
  case succ rounds hi =>
    apply (silent_messageStoreWaitForUpdate version).sends
    intro r
    split
    case h_1           => exact (silent_pure _).moreItems
    case h_2 version   => exact sends_item (.keepalive version) rfl (hi version)
    case h_3 m version => exact sends_item (.message version m) rfl (hi version)

-- What follows the head of a stream.
theorem sends_snapshot : Io.Sends (do
    match ← messageStoreGetSnapshot with
    | none                         => return false
    | some (none, version)         => httpHandleMessagesStream.loop version (← Io.rounds)
    | some (some message, version) =>
      if !(← httpSendSseMessageEvent message) then return false
      httpHandleMessagesStream.loop version (← Io.rounds)) MoreItems := by
  have hloop : ∀ version, Io.Sends (do
      httpHandleMessagesStream.loop version (← Io.rounds)) MoreItems := by
    intro version
    have hrounds : Io.rounds.Silent := ⟨fun _ _ _ => ⟨trivial, rfl, rfl⟩⟩
    exact hrounds.sends fun rounds => sends_httpHandleMessagesStream_loop version rounds
  apply quiet_messageStoreGetSnapshot.silent.sends
  intro r
  split
  case h_1           => exact (silent_pure _).moreItems
  case h_2 version   => exact hloop version
  case h_3 m version => exact sends_item (.message version m) rfl (hloop version)

theorem sends_httpHandleMessagesStream {req : HttpRequest} (hm : req.method = .lit "GET")
    (hp : req.path = .lit "/api/messages/stream") : httpHandleMessagesStream.Sends (HttpReply req) := by
  constructor
  intro W h hs e w hb
  rw [httpHandleMessagesStream, Io.wp_bind, httpSendSseHeaders_eq]
  apply wp_httpSendAll
  intro b sent ts hsub _ hall hben
  cases hben hb
  cases hall rfl
  apply Io.wp_mono (sends_snapshot.wp hs _ _ fun t ht => hb t (hsub ht))
  rintro b e' w' ⟨sent, hout, items, hitems⟩
  refine ⟨_, hout.trans (List.append_assoc ..), ?_⟩
  rw [hitems, ← text_streamHead]
  exact .stream items hm hp

theorem crlf_notSuffix_nil (p : Bytes) (hp : p <+: []) : ¬crlf ++ crlf <:+ p := by
  intro hs
  rw [List.prefix_nil.mp hp] at hs
  exact absurd hs.length_le (by decide)

-- What has been read when a block is complete.
theorem httpReadHeaderBlock.loop_ok {out block : Bytes} {as as' : List Arrival}
    (hout : ∀ p, p <+: out → ¬crlf ++ crlf <:+ p) (h : httpReadHeaderBlock.loop httpHeaderMax out as = (.ok block, as')) :
    HeaderBlock block ∧ ∃ got, block = out ++ got ∧ prompt as = got ++ prompt as' ∧
      delivered as = got ++ delivered as' := by
  fun_induction httpReadHeaderBlock.loop httpHeaderMax out as
  case case1 => cases h
  case case2 => cases h
  case case3 => cases h
  case case4 out as hc got as'' hr hg hs =>
    cases h
    have hlen := Arrival.recv_ok_length_le hr
    refine ⟨⟨hs, fun p hp hps => ?_, ?_⟩, got, rfl, Arrival.recv_ok_prompt hr, Arrival.recv_ok_delivered hr⟩
    · by_contra hne
      have hlt : p.length < (out ++ got).length :=
        Nat.lt_of_le_of_ne hp.length_le fun hl => hne (hp.eq_of_length hl)
      rw [List.length_append] at hlt
      exact hout p (List.prefix_of_prefix_length_le hp (List.prefix_append _ _) (by omega)) hps
    · rw [List.length_append]
      omega
  case case5 out as hc got as'' hr hg hs hi =>
    have hlen := Arrival.recv_ok_length_le hr
    have hnone : ∀ p, p <+: out ++ got → ¬crlf ++ crlf <:+ p := by
      intro p hp hps
      by_cases hl : p.length ≤ out.length
      case pos => exact hout p (List.prefix_of_prefix_length_le hp (List.prefix_append _ _) hl) hps
      case neg =>
        have heq : p = out ++ got := hp.eq_of_length_le (by rw [List.length_append]; omega)
        exact hs (heq ▸ hps)
    obtain ⟨hb, got', heq, hp, hd⟩ := hi hnone h
    refine ⟨hb, got ++ got', by rw [heq, List.append_assoc], ?_, ?_⟩
    · rw [Arrival.recv_ok_prompt hr, hp, List.append_assoc]
    · rw [Arrival.recv_ok_delivered hr, hd, List.append_assoc]

-- A request has arrived, and `rest` can be read after its head.
structure Requested (deps : HttpDeps) (inp : List Arrival) (req : HttpRequest) (rest : Bytes) : Prop where
  head : ∃ block, HeaderBlock block ∧ block <+: prompt inp ∧ delivered inp = block ++ rest ∧
    httpParseRequest deps block = .ok req

-- What the server sends over a connection that it has taken for HTTP. Nothing is sent if there is no
-- request, or if a message that is posted does not arrive.
inductive HttpAnswer (deps : HttpDeps) (inp : List Arrival) : Bytes → Prop
  | noRequest : (∀ block, HeaderBlock block → ¬block <+: prompt inp) → HttpAnswer deps inp []
  | refused {text : Bytes} : WholeReply text → HttpAnswer deps inp text
  | noMessage {req : HttpRequest} {rest : Bytes} :
    Requested deps inp req rest → req.method = .lit "POST" → req.path = .lit "/api/messages" →
    rest.length < req.contentLength.toNat → HttpAnswer deps inp []
  | replied {req : HttpRequest} {rest text : Bytes} :
    Requested deps inp req rest → HttpReply req text → HttpAnswer deps inp text

section

variable {W : Type} {h : Handler Sys W} {e : Env} {w : W}

theorem wp_httpReadHeaderBlock_any {Q : HttpHeaderBlock → Env → W → Prop}
    (hok : ∀ block as, HeaderBlock block → block <+: prompt e.inp → delivered e.inp = block ++ delivered as →
      Q (.ok block) { e with inp := as } w)
    (hnone : ∀ r as, (∀ block, HeaderBlock block → ¬block <+: prompt e.inp) → (∀ block, r ≠ .ok block) →
      Q r { e with inp := as } w) :
    Io.wp h (httpReadHeaderBlock httpHeaderMax) Q e w := by
  have hw : ∀ {Q : HttpHeaderBlock → Env → W → Prop}, Io.wp h (httpReadHeaderBlock httpHeaderMax) Q e w ↔
      Q (httpReadHeaderBlock.loop httpHeaderMax [] e.inp).1
        { e with inp := (httpReadHeaderBlock.loop httpHeaderMax [] e.inp).2 } w := Iff.rfl
  rw [hw]
  cases hr : httpReadHeaderBlock.loop httpHeaderMax [] e.inp
  case mk r as =>
    by_cases hb : ∃ block, HeaderBlock block ∧ block <+: prompt e.inp
    case neg =>
      refine hnone r as (fun block hblock hp => hb ⟨block, hblock, hp⟩) fun block heq => hb ?_
      subst heq
      have ⟨hblock, got, hgot, hpr, _⟩ := httpReadHeaderBlock.loop_ok crlf_notSuffix_nil hr
      rw [List.nil_append] at hgot
      exact ⟨block, hblock, hgot ▸ hpr ▸ List.prefix_append _ _⟩
    case pos =>
      obtain ⟨block, hblock, hp⟩ := hb
      have hread : Io.wp h (httpReadHeaderBlock httpHeaderMax) (fun r _ _ => r = .ok block) e w :=
        wp_httpReadHeaderBlock_of_prompt hblock ((List.append_nil block).symm ▸ hp) fun _ _ => rfl
      rw [hw, hr] at hread
      have hread : r = .ok block := hread
      subst hread
      have ⟨_, got, hgot, hpr, hd⟩ := httpReadHeaderBlock.loop_ok crlf_notSuffix_nil hr
      rw [List.nil_append] at hgot
      exact hok block as hblock hp (hgot ▸ hd)

theorem sends_discardError {status : Nat} {reason message : String} (hs : (status, reason) ∈ httpPhrases)
    (hm : message ∈ httpErrorTexts) : Io.Sends (do
      discard <| httpSendJsonError status (.lit reason) (.lit message)
      return false) WholeReply := by
  have hdiscard : (Functor.discard (httpSendJsonError status (.lit reason) (.lit message))).Sends WholeReply := by
    constructor
    intro W h hsane e w hb
    rw [Io.wp_discard]
    exact (sends_httpSendJsonError hs hm).wp hsane e w hb
  exact hdiscard.then fun _ => silent_pure _

-- What follows a message's body.
theorem sends_posted (body : Bytes) : Io.Sends (do
    match ← httpParseMessageJson body with
    | none         =>
      discard <| httpSendJsonError 400 (.lit "Bad Request") (.lit "invalid message payload")
      return false
    | some message =>
      if (← appSubmitMessage message) ≠ .ok then
        discard <| httpSendJsonError 500 (.lit "Internal Server Error")
          (.lit "failed to store message")
        return false
      httpSendResponse 201 (.lit "Created") jsonContentType (ascii "\x7b\"ok\":true\x7d")) WholeReply := by
  apply (silent_httpParseMessageJson body).sends
  intro r
  split
  case h_1 => exact sends_discardError (by simp [httpPhrases]) (by simp [httpErrorTexts])
  case h_2 message =>
    apply (silent_appSubmitMessage message).sends
    intro r
    split
    case isTrue => exact sends_discardError (by simp [httpPhrases]) (by simp [httpErrorTexts])
    case isFalse =>
      exact sends_httpSendResponse (by simp [httpPhrases]) contentType_json (by decide) fun _ => ⟨_, text_ok⟩

variable (hs : h.Sane) (hb : ∀ t ∈ e.snd, t.Benign)

include hs hb in
-- Nothing is sent if the message does not arrive.
theorem wp_httpHandleMessagesPost_any (req : HttpRequest) : Io.wp h (httpHandleMessagesPost req)
    (fun _ e' _ => ∃ sent, e'.out = e.out ++ sent ∧
      (WholeReply sent ∨ sent = [] ∧ (delivered e.inp).length < req.contentLength.toNat)) e w := by
  have hwhole : ∀ {m : Io Bool} {e' : Env} {w' : W}, m.Sends WholeReply → e'.out = e.out → (∀ t ∈ e'.snd, t.Benign) →
      Io.wp h m (fun _ e'' _ => ∃ sent, e''.out = e.out ++ sent ∧
        (WholeReply sent ∨ sent = [] ∧ (delivered e.inp).length < req.contentLength.toNat)) e' w' := by
    intro m e' w' hm hout hb
    rw [← hout]
    exact (hm.mono fun _ => Or.inl).wp hs e' w' hb
  rw [httpHandleMessagesPost]
  split
  case isTrue => exact hwhole (sends_httpSendJsonError (by simp [httpPhrases]) (by simp [httpErrorTexts])) rfl hb
  case isFalse =>
    split
    case isTrue => exact hwhole (sends_httpSendJsonError (by simp [httpPhrases]) (by simp [httpErrorTexts])) rfl hb
    case isFalse =>
      split
      case isTrue => exact hwhole (sends_httpSendJsonError (by simp [httpPhrases]) (by simp [httpErrorTexts])) rfl hb
      case isFalse =>
        split
        case isTrue => exact hwhole (sends_httpSendJsonError (by simp [httpPhrases]) (by simp [httpErrorTexts])) rfl hb
        case isFalse =>
          rw [httpHandleMessagesPost.receive, Io.wp_bind]
          apply Io.wp_malloc
          intro b as
          split
          case isTrue => exact hwhole (sends_httpSendJsonError (by simp [httpPhrases]) (by simp [httpErrorTexts])) rfl hb
          case isFalse =>
            rw [Io.wp_bind]
            apply wp_recvAll
            case hshort =>
              intro r as' lost hlt hr _
              have hnothing : ∃ sent, e.out = e.out ++ sent ∧
                  (WholeReply sent ∨ sent = [] ∧ (delivered e.inp).length < req.contentLength.toNat) :=
                ⟨[], (List.append_nil _).symm, .inr ⟨rfl, hlt⟩⟩
              split
              case h_1 => exact hnothing
              case h_2 body =>
                rw [if_pos (Nat.ne_of_lt (hr body rfl))]
                exact hnothing
            case hfull =>
              intro body as' hlen _ _
              dsimp only
              rw [if_neg (by simp [hlen])]
              exact hwhole (sends_posted body) rfl hb

end

-- The server's files for browsers, which have sizes that fit memory.
structure ServesWebui (deps : HttpDeps) : Prop where
  table : ∃ indexHtml appJs stylesCss faviconSvg, deps.webuiAssets = webuiAssets indexHtml appJs stylesCss faviconSvg
  small : ∀ asset ∈ deps.webuiAssets, asset.body.length < 2 ^ 64

theorem ServesWebui.contentType {deps : HttpDeps} (h : ServesWebui deps) {asset : WebuiAsset}
    (ha : asset ∈ deps.webuiAssets) : ContentType asset.contentType ∧ asset.contentType ≠ jsonContentType := by
  have htypes : ∀ t ∈ ["text/html; charset=utf-8", "application/javascript; charset=utf-8", "text/css; charset=utf-8",
      "image/svg+xml"], ((13 ∉ (CStr.lit t).chars ∧ 10 ∉ (CStr.lit t).chars) ∧ (CStr.lit t).strlen < 200) ∧
        CStr.lit t ≠ jsonContentType := by
    decide
  obtain ⟨_, _, _, _, htable⟩ := h.table
  have hmem : ∃ t ∈ ["text/html; charset=utf-8", "application/javascript; charset=utf-8", "text/css; charset=utf-8",
      "image/svg+xml"], asset.contentType = CStr.lit t := by
    rw [htable] at ha
    simp only [webuiAssets, List.mem_cons, List.not_mem_nil, or_false] at ha
    rcases ha with rfl | rfl | rfl | rfl <;> simp
  obtain ⟨t, ht, heq⟩ := hmem
  have ⟨⟨honLine, hshort⟩, hne⟩ := htypes t ht
  rw [heq]
  exact ⟨⟨honLine, hshort⟩, hne⟩

section

variable {W : Type} {h : Handler Sys W} {deps : HttpDeps} {opt : ServerOpt} {e : Env} {w : W}

theorem sends_httpHandleWebuiAsset (hd : ServesWebui deps) {asset : WebuiAsset} (ha : asset ∈ deps.webuiAssets) :
    (httpHandleWebuiAsset asset).Sends WholeReply := by
  have ⟨htype, hne⟩ := hd.contentType ha
  exact sends_httpSendResponse (by simp [httpPhrases]) htype (hd.small asset ha) fun he => absurd he hne

theorem httpDispatchFileRoute_eq (opt : ServerOpt) (req : HttpRequest) (hp : ascii "/api/files/" <+: req.path.chars) :
    ∃ handler : Io Bool, httpDispatchFileRoute opt req = (do return some (← handler)) ∧
      handler.Sends (HttpReply req) := by
  rw [httpDispatchFileRoute, if_neg (not_not.mpr hp)]
  split
  case h_1 => exact ⟨_, rfl, (sends_httpSendJsonError (by simp [httpPhrases]) (by simp [httpErrorTexts])).mono fun _ => .whole⟩
  case h_2 routeName hname =>
    split
    case isTrue hget => exact ⟨_, rfl, sends_httpSendFile opt routeName hget hp⟩
    case isFalse =>
      split
      case isTrue =>
        exact ⟨_, rfl, (sends_httpHandleFilePut opt req (strlen_httpDecodeName hname)).mono fun _ => .whole⟩
      case isFalse => exact ⟨_, rfl, sends_httpMethodNotAllowed.mono fun _ => .whole⟩

-- What is sent for a request whose body is still to be read.
theorem wp_httpDispatch_any (hs : h.Sane) (hd : ServesWebui deps) (hb : ∀ t ∈ e.snd, t.Benign) (req : HttpRequest) :
    Io.wp h (httpDispatch deps opt req) (fun _ e' _ => ∃ sent, e'.out = e.out ++ sent ∧ (HttpReply req sent ∨
      sent = [] ∧ req.method = .lit "POST" ∧ req.path = .lit "/api/messages" ∧
        (delivered e.inp).length < req.contentLength.toNat)) e w := by
  have hreply : ∀ {m : Io Bool}, m.Sends (HttpReply req) → Io.wp h m (fun _ e' _ => ∃ sent,
      e'.out = e.out ++ sent ∧ (HttpReply req sent ∨ sent = [] ∧ req.method = .lit "POST" ∧
        req.path = .lit "/api/messages" ∧ (delivered e.inp).length < req.contentLength.toNat)) e w :=
    fun hm => (hm.mono fun _ => Or.inl).wp hs e w hb
  have hwhole : ∀ {m : Io Bool}, m.Sends WholeReply → m.Sends (HttpReply req) :=
    fun hm => hm.mono fun _ => .whole
  rw [httpDispatch]
  split
  case h_1 asset hfind =>
    split at hfind
    case isTrue  => exact hreply (hwhole (sends_httpHandleWebuiAsset hd (List.mem_of_find?_eq_some hfind)))
    case isFalse => cases hfind
  case h_2 =>
    rw [httpDispatchExactRoute]
    split
    case h_1 =>
      rw [Io.wp_bind, Io.wp_pure]
      by_cases hp : ascii "/api/files/" <+: req.path.chars
      case pos =>
        have ⟨handler, heq, hsends⟩ := httpDispatchFileRoute_eq opt req hp
        rw [heq, bind_assoc, Io.wp_bind]
        exact hreply hsends
      case neg =>
        rw [httpDispatchFileRoute, if_pos hp, Io.wp_bind, Io.wp_pure]
        exact hreply (hwhole (sends_httpSendJsonError (by simp [httpPhrases]) (by simp [httpErrorTexts])))
    case h_2 path method handler hfind =>
      have hmem := List.mem_of_find?_eq_some hfind
      have hpath : req.path = path := by simpa using List.find?_some hfind
      subst hpath
      split
      case isTrue =>
        rw [bind_assoc, Io.wp_bind]
        exact hreply (hwhole sends_httpMethodNotAllowed)
      case isFalse hm =>
        have hm : req.method = method := not_not.mp hm
        rw [bind_assoc, Io.wp_bind]
        simp only [httpExactRoutes, List.mem_cons, List.not_mem_nil, or_false, Prod.mk.injEq] at hmem
        rcases hmem with ⟨_, rfl, rfl⟩ | ⟨hpath, rfl, rfl⟩ | ⟨_, rfl, rfl⟩ | ⟨hpath, rfl, rfl⟩
        case inl => exact hreply (hwhole (sends_httpHandleFilesList opt req))
        case inr.inl =>
          apply Io.wp_mono (wp_httpHandleMessagesPost_any hs hb req)
          intro r e' w' ⟨sent, hout, hsent⟩
          exact ⟨sent, hout, hsent.imp .whole fun h => ⟨h.left, hm, hpath, h.right⟩⟩
        case inr.inr.inl => exact hreply (hwhole sends_httpHandleMessagesLatestGet)
        case inr.inr.inr => exact hreply (sends_httpHandleMessagesStream hm hpath)

theorem serverDetectConnectionKind_run (e : Env) :
    serverDetectConnectionKind.run e = pure (.http, e) ∨
      serverDetectConnectionKind.run e = pure (.protocol, e) ∨
      ∃ as, serverDetectConnectionKind.run e = pure (.invalid, { e with inp := as }) := by
  rw [StateT.run, serverDetectConnectionKind]
  split
  case h_1 => exact .inr (.inr ⟨e.inp, rfl⟩)
  case h_2 => exact .inr (.inr ⟨_, rfl⟩)
  case h_3 =>
    split
    case h_1 =>
      split
      case isTrue  => exact .inr (.inl rfl)
      case isFalse =>
        split
        case isTrue  => exact .inl rfl
        case isFalse => exact .inr (.inl rfl)
    case h_2 => exact .inr (.inr ⟨e.inp, rfl⟩)

end

def latestDeps : HttpDeps where
  phrParseRequest block :=
    if block = ascii "GET /api/messages/latest HTTP/1.1\r\n\r\n" then
      some ⟨ascii "GET", ascii "/api/messages/latest", 1, []⟩
    else none
  webuiAssets := webuiAssets [] [] [] []
