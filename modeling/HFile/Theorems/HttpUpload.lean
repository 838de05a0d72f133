import HFile.Theorems.HttpRequest
import HFile.Theorems.Ownership

open Arrival (bytes)

-- A request to store a file, as the request parser returns it. The path is what follows
-- `/api/files/`, with its query.
structure PutRequest (deps : HttpDeps) (block : Bytes) (path : CStr) (length : Nat) where
  phr    : PhrRequest
  pre    : List PhrHeader
  header : PhrHeader
  post   : List PhrHeader
  parsed : deps.phrParseRequest (CStr.ofBuf block).chars = some phr
  method : phr.method = ascii "PUT"
  target : phr.path = ascii "/api/files/" ++ path.chars
  header_list : phr.headers = pre ++ header :: post
  named  : header.Named "Content-Length"
  single : ∀ x ∈ pre ++ post, ¬x.Named "Content-Length"
  digits : ∀ c ∈ header.value, isdigit c = true
  value  : decimalValue header.value = length

-- What is known of a request for an upload once it is parsed.
structure HttpRequest.IsPut (req : HttpRequest) (path : CStr) (length : Nat) : Prop where
  method : req.method = .lit "PUT"
  target : req.path.chars = ascii "/api/files/" ++ (routeOf path).chars
  length : req.contentLength.toNat = length
  sized  : req.hasContentLength = true

theorem httpParseRequest_put {deps : HttpDeps} {block : Bytes} {path : CStr} {length : Nat} {req : HttpRequest}
    (hp : PutRequest deps block path length) (h : httpParseRequest deps block = .ok req) :
    req.IsPut path length := by
  simp only [httpParseRequest, hp.parsed] at h
  split at h
  case isTrue => cases h
  case isFalse =>
    split at h
    case isTrue => cases h
    case isFalse =>
      split at h
      case h_1 => cases h
      case h_2 req₂ hreq =>
        cases h
        obtain ⟨req₁, hheaders, hsplit⟩ := Option.bind_eq_some_iff.mp hreq
        obtain ⟨hpath, hmethod, hlength, hsized, _⟩ := httpParseRequest.split_path hsplit
        obtain ⟨hm, ht⟩ := httpParseRequest.headers_line hheaders
        rw [hp.header_list] at hheaders
        obtain ⟨hl, hh⟩ := httpParseRequest.headers_length hp.named hp.single hheaders
        constructor
        case method => rw [hmethod, hm, hp.method]; rfl
        case target => rw [hpath, ht, hp.target, routeOf_files]
        case length =>
          have hvalue : (CStr.ofBuf hp.header.value).chars = hp.header.value :=
            CStr.ofBuf_eq_of_nul_free fun h => absurd (hp.digits 0 h) (by decide)
          rw [hlength, httpParseU64_eq hl, hvalue, hp.value]
        case sized => rw [hsized, hh]

-- What an upload whose reply is `sent` does to the files. The request is for `length` bytes of `body`.
structure FramedUpload (opt : ServerOpt) (path : CStr) (length : Nat) (body sent : Bytes)
    (fs fs' : Files) : Prop where
  created : answerStatus sent = some (ascii "201") → length ≤ body.length ∧ ∃ name full,
    httpDecodeName httpPathMax (routeOf path) = some name ∧
    fsJoinRelativePath pathCap opt.path name = some full ∧
    fs'.view full = some (.file (body.take length)) ∧ ∀ p ≠ full, fs'.view p = fs.view p
  refused : body.length < length ∨ (∃ c, answerStatus sent = some c ∧ c ≠ ascii "201") →
    fs'.view = fs.view

section

variable {opt : ServerOpt} {path : CStr} {length : Nat} {body : Bytes} {e : Env} {w : World}

-- The result of a connection that asks for an upload.
def Framed (opt : ServerOpt) (path : CStr) (length : Nat) (body : Bytes) (e : Env) (w : World) :
    Bool → Env → World × List Event → Prop :=
  fun _ e' x => ∃ sent, e'.out = e.out ++ sent ∧
    ((∀ p f, ⟨.lstat p f, none⟩ ∉ x.2) → FramedUpload opt path length body sent w.files x.1.files)

-- An upload that is answered with 201 is stored.
def CreatesUpload (opt : ServerOpt) (path : CStr) (length : Nat) (body sent : Bytes) (fs fs' : Files) : Prop :=
  answerStatus sent = some (ascii "201") → length ≤ body.length ∧ ∃ name full,
    httpDecodeName httpPathMax (routeOf path) = some name ∧
    fsJoinRelativePath pathCap opt.path name = some full ∧
    fs'.view full = some (.file (body.take length)) ∧ ∀ p ≠ full, fs'.view p = fs.view p

-- The result of such a connection, where the reply 201 can be trusted even if an `lstat` fails.
def Settled (opt : ServerOpt) (path : CStr) (length : Nat) (body : Bytes) (e : Env) (w : World) :
    Bool → Env → World × List Event → Prop :=
  fun _ e' x => ∃ sent, e'.out = e.out ++ sent ∧ CreatesUpload opt path length body sent w.files x.1.files ∧
    ((∀ p f, ⟨.lstat p f, none⟩ ∉ x.2) → FramedUpload opt path length body sent w.files x.1.files)

theorem FramedUpload.silent {fs fs' : Files} (hv : fs'.view = fs.view) :
    FramedUpload opt path length body [] fs fs' where
  created h := by cases h
  refused _ := hv

-- A reply other than 201, when no file has changed.
theorem wp_refused {status : Nat} {reason message : CStr} {e' : Env} {x : World × List Event}
    (hs : (CStr.decimal status).chars.length = 3) (hne : (CStr.decimal status).chars ≠ ascii "201")
    (hout : e'.out = e.out) (hv : x.1.files.view = w.files.view) :
    Io.wp World.handle.traced (httpSendJsonError status reason message)
      (Settled opt path length body e w) e' x := by
  apply wp_httpSendResponse
  intro b sent ts hp _
  have hc : ¬answerStatus sent = some (ascii "201") :=
    fun hc => absurd (answerStatus_of_isPrefix hs hp hc).symm hne
  exact ⟨sent, by rw [← hout], fun h => absurd h hc, fun _ => ⟨fun h => absurd h hc, fun _ => hv⟩⟩

theorem wp_httpDiscardBody {W : Type} {h : Program.Handler Sys W} {x : W} {size : UInt64}
    {Q : Bool → Env → W → Prop} (hq : ∀ b as, Q b { e with inp := as } x) :
    Io.wp h (httpDiscardBody size) Q e x :=
  hq _ _

theorem FramedUpload.stored {name full : CStr} {as : List Arrival} {c sent : Bytes} {files : Files}
    (hname : httpDecodeName httpPathMax (routeOf path) = some name)
    (hfull : fsJoinRelativePath pathCap opt.path name = some full) (hlen : c.length = length)
    (hb : body = c ++ bytes as) (hrep : w.files.Replaced full c files)
    (hs : ∀ s, answerStatus sent = some s → s = ascii "201") :
    FramedUpload opt path length body sent w.files files where
  created _ := by
    refine ⟨by simp [hb, hlen], name, full, hname, hfull, ?_, fun p hp => hrep.view_ne hp⟩
    rw [hrep.view_self, hb, ← hlen, List.take_left]
  refused h := by
    cases h
    case inl hlt =>
      rw [hb, List.length_append] at hlt
      omega
    case inr hs' =>
      have ⟨s, hs', hne⟩ := hs'
      exact absurd (hs s hs') hne

-- The end of an upload that has replaced its target.
theorem wp_reply {name full : CStr} {as : List Arrival} {c : Bytes} {e' : Env} {files : Files} {l : List Event}
    (hname : httpDecodeName httpPathMax (routeOf path) = some name)
    (hfull : fsJoinRelativePath pathCap opt.path name = some full) (hlen : c.length = length)
    (hb : body = c ++ bytes as) (hrep : w.files.Replaced full c files) (hout : e'.out = e.out) :
    Io.wp World.handle.traced (do
      match ← fsStatPath full with
      | none      =>
        httpSendJsonError 500 (.lit "Internal Server Error") (.lit "saved file missing")
      | some info =>
        if info.kind ≠ .file then
          return ← httpSendJsonError 500 (.lit "Internal Server Error") (.lit "saved file missing")
        httpHandleFilePut.created name info)
      (Settled opt path length body e w) e' ({ w with files := files }, l) := by
  have hstat : ∀ f info, (World.handle (.lstat full f) { w with files := files }).1 = some info →
      info.kind = .file := by
    intro f info hi
    cases f
    case some => cases hi
    case none =>
      have hi : (files.get full).bind files.stat = some info := hi
      rw [hrep.self, Option.bind_some, Files.stat] at hi
      split at hi
      case isTrue =>
        cases hi
        rfl
      case isFalse => cases hi
  rw [fsStatPath, bind_assoc, Io.wp_bind]
  apply Io.wp_fault
  intro f fs
  rw [Io.wp_bind, Io.wp_sys]
  have hw : (World.handle (.lstat full f) { w with files := files }).2 = { w with files := files } := by
    cases f <;> rfl
  simp only [Program.Handler.traced, hw]
  cases hr : (World.handle (.lstat full f) { w with files := files }).1
  case none =>
    -- This reply only follows a failed `lstat`.
    apply wp_httpSendResponse
    intro b sent ts hp _
    refine ⟨sent, by rw [← hout], fun hc => ?_, fun hno => ?_⟩
    case refine_1 => exact absurd (answerStatus_of_isPrefix (by decide) hp hc).symm (by decide)
    case refine_2 => exact absurd (List.mem_append_right _ (List.mem_singleton.mpr rfl)) (hno full f)
  case some info =>
    dsimp only
    rw [if_neg (not_not.mpr (hstat f info hr))]
    apply wp_httpSendResponse
    intro b sent ts hp _
    have hstored : FramedUpload opt path length body sent w.files files :=
      .stored hname hfull hlen hb hrep fun s hs => answerStatus_of_isPrefix (by decide) hp hs
    exact ⟨sent, by rw [← hout], hstored.created, fun _ => hstored⟩

theorem wp_httpHandleFilePut {req : HttpRequest} {name : CStr} {l : List Event} {as : List Arrival}
    (hreq : req.IsPut path length) (hname : httpDecodeName httpPathMax (routeOf path) = some name)
    (hb : bytes as = body) :
    Io.wp World.handle.traced (httpHandleFilePut opt req name) (Settled opt path length body e w)
      { e with inp := as } (w, l) := by
  rw [httpHandleFilePut]
  split
  case isTrue => exact wp_refused (by decide) (by decide) rfl rfl
  case isFalse =>
    split
    case isTrue => exact wp_refused (by decide) (by decide) rfl rfl
    case isFalse =>
      split
      case isTrue => exact wp_refused (by decide) (by decide) rfl rfl
      case isFalse =>
        split
        case isTrue =>
          rw [Io.wp_bind, Io.wp_discard]
          apply wp_httpDiscardBody
          intro b as
          exact wp_refused (by decide) (by decide) rfl rfl
        case isFalse =>
          split
          case isTrue =>
            rw [Io.wp_bind, Io.wp_discard]
            apply wp_httpDiscardBody
            intro b as
            exact wp_refused (by decide) (by decide) rfl rfl
          case isFalse =>
            rw [Io.wp_bind]
            apply Io.wp_traced
            apply wp_transferRecvSocketHttpFile (e := { e with inp := as })
            · intro full c as' ts ds fs al files hfull hc hrep l
              exact wp_reply hname hfull (hc.left.trans hreq.length) (hb ▸ hc.right) hrep rfl
            · intro r as' ts ds fs al files hr hsame l
              have hv := hsame.view
              cases r
              case ok => exact absurd rfl hr
              all_goals exact wp_refused (by decide) (by decide) rfl hv

theorem wp_httpDispatch {deps : HttpDeps} {req : HttpRequest} {l : List Event} {as : List Arrival}
    (hreq : req.IsPut path length) (hb : bytes as = body) :
    Io.wp World.handle.traced (httpDispatch deps opt req) (Settled opt path length body e w)
      { e with inp := as } (w, l) := by
  have hp : ascii "/api/files/" <+: req.path.chars := ⟨_, hreq.target.symm⟩
  have hm : req.method ≠ .lit "GET" := by
    rw [hreq.method]
    decide
  rw [httpDispatch, if_neg hm]
  dsimp only
  rw [httpDispatchExactRoute, httpExactRoutes_find_none hp, Io.wp_bind, Io.wp_pure]
  dsimp only
  have hroute : CStr.ofBuf (req.path.chars.drop 11) = routeOf path := by
    rw [hreq.target]
    exact CStr.ofBuf_chars _
  rw [httpDispatchFileRoute, if_neg (not_not.mpr hp), hroute, Io.wp_bind]
  split
  case h_1 =>
    rw [Io.wp_bind]
    exact wp_refused (by decide) (by decide) rfl rfl
  case h_2 name hname =>
    have hput : req.method = .lit "PUT" := hreq.method
    rw [if_neg hm, if_pos hput, Io.wp_bind]
    exact wp_httpHandleFilePut hreq hname hb

theorem wp_handleHttpConnection_put {deps : HttpDeps} {block : Bytes} (hblock : HeaderBlock block)
    (hput : PutRequest deps block path length) (hin : bytes e.inp = block ++ body) :
    Io.wp World.handle.traced (handleHttpConnection deps opt) (Settled opt path length body e w) e (w, []) := by
  rw [handleHttpConnection, Io.wp_bind]
  apply wp_httpReadHeaderBlock hblock hin
  case hfail =>
    intro as _
    have hsilent : FramedUpload opt path length body [] w.files w.files := .silent rfl
    exact ⟨[], by simp, hsilent.created, fun _ => hsilent⟩
  case hok =>
    intro as has _
    dsimp only
    split
    case h_1 => exact wp_refused (by decide) (by decide) rfl rfl
    case h_2 => exact wp_refused (by decide) (by decide) rfl rfl
    case h_3 req hreq => exact wp_httpDispatch (httpParseRequest_put hput hreq) has

-- An upload is stored under its name with exactly the announced number of bytes after the header
-- block, or nothing changes, however the request is cut into pieces.
theorem http_upload_framing {deps : HttpDeps} {block : Bytes} (hblock : HeaderBlock block)
    (hput : PutRequest deps block path length) (hin : bytes e.inp = block ++ body) :
    Io.wp World.handle.traced (handleHttpConnection deps opt) (Framed opt path length body e w) e (w, []) := by
  apply Io.wp_mono (wp_handleHttpConnection_put hblock hput hin)
  rintro _ e' x ⟨sent, hout, _, hframed⟩
  exact ⟨sent, hout, hframed⟩

end

-- A request to store one byte under the name `f`.
def putBlock : Bytes :=
  ascii "PUT /api/files/f HTTP/1.1\r\nContent-Length: 1\r\nContent-Type: application/octet-stream\r\n\r\n"

def putHeaders : List PhrHeader :=
  [⟨some (ascii "Content-Length"), ascii "1"⟩,
   ⟨some (ascii "Content-Type"), ascii "application/octet-stream"⟩]

def putDeps : HttpDeps where
  phrParseRequest block :=
    if block = putBlock then some ⟨ascii "PUT", ascii "/api/files/f", 1, putHeaders⟩ else none
  webuiAssets := []

def putRequest : PutRequest putDeps putBlock (.lit "f") 1 where
  phr         := ⟨ascii "PUT", ascii "/api/files/f", 1, putHeaders⟩
  pre         := []
  header      := ⟨some (ascii "Content-Length"), ascii "1"⟩
  post        := [⟨some (ascii "Content-Type"), ascii "application/octet-stream"⟩]
  parsed      := by
    have hb : (CStr.ofBuf putBlock).chars = putBlock := by decide
    rw [hb]
    simp only [putDeps, if_true]
  method      := rfl
  target      := rfl
  header_list := rfl
  named       := ⟨_, rfl, by decide⟩
  single      := by simp [PhrHeader.Named]; decide
  digits      := by simp [ascii, isdigit]
  value       := by decide

def putEnv : Env :=
  .calm 1 (Arrival.push (putBlock.take 20) (Arrival.push (putBlock.drop 20 ++ [7]) []))

theorem http_upload_of_one_byte_framed :
    HeaderBlock putBlock ∧
    (Io.exec World.handle.traced (handleHttpConnection putDeps ⟨.lit "d", 0⟩) putEnv (.empty, [])).1.1 = true ∧
    Io.wp World.handle.traced (handleHttpConnection putDeps ⟨.lit "d", 0⟩)
      (Framed ⟨.lit "d", 0⟩ (.lit "f") 1 [7] putEnv .empty) putEnv (.empty, []) := by
  have hb : HeaderBlock putBlock := by decide
  exact ⟨hb, by decide +kernel, http_upload_framing hb putRequest (by decide +kernel)⟩
