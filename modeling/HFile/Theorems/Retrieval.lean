import HFile.Theorems.HttpDownload
import HFile.Theorems.HttpUpload
import HFile.Theorems.Links
import HFile.Theorems.Unfailing

open Program (Handler)
open Arrival (bytes prompt)

section Exec

variable {W : Type} {h : Handler Sys W}

-- Recording the calls of a process does not change its run.
theorem Io.exec_traced (m : Io α) (e : Env) (w : W) (l : List ((o : SysOp) × o.Res)) :
    (exec h.traced m e (w, l)).1 = (exec h m e w).1 ∧ (exec h.traced m e (w, l)).2.1 = (exec h m e w).2 := by
  have hrun : wp h m (fun a e' w' => ∀ _ : List ((o : SysOp) × o.Res), (a, e') = (exec h m e w).1 ∧ w' = (exec h m e w).2)
      e w := fun _ => ⟨rfl, rfl⟩
  exact wp_traced (Q := fun a e' x => (a, e') = (exec h m e w).1 ∧ x.1 = (exec h m e w).2) hrun l

end Exec

-- A session in which no call fails, and in which all that is sent arrives.
structure Session.Undisturbed {Wc Ws : Type} {hc : Handler Sys Wc} {hs : Handler Sys Ws} {client : Io α} {server : Io β}
    (s : Session hc hs client server) : Prop where
  client   : s.clientEnv.Unfailing
  server   : s.serverEnv.Unfailing
  toServer : bytes s.serverEnv.inp = s.clientSent
  toClient : bytes s.clientEnv.inp = s.serverSent

-- The file is in place under its name.
def InPlace (srv : ServerOpt) (name : CStr) (content : Bytes) (fs : Files) : Prop :=
  ∃ full, fsJoinRelativePath pathCap srv.path name = some full ∧ fs.view full = some (.file content)

section

variable {srv : ServerOpt} {name : CStr} {content : Bytes} {w : World}

theorem Files.view_file {fs : Files} {p : CStr} (h : fs.view p = some (.file content)) :
    ∃ i, fs.get p = some (.file i) ∧ fs.data i = content := by
  cases hg : fs.get p
  case none => simp [view, hg] at h
  case some x =>
    cases x
    case file i => exact ⟨i, rfl, by simpa [view, hg] using h⟩
    case dir    => simp [view, hg] at h
    case other  => simp [view, hg] at h

theorem InPlace.holds (h : InPlace srv name content w.files) (hlt : content.length < 2 ^ 63) :
    ∃ i, w.files.Holds srv.path name i content := by
  obtain ⟨full, hjoin, hview⟩ := h
  obtain ⟨i, hget, hdata⟩ := Files.view_file hview
  exact ⟨i, ⟨full, hjoin, hget⟩, hdata, hlt⟩

-- A name under which something can be in place is a relative path.
theorem InPlace.valid (h : InPlace srv name content w.files) (hn : name.chars ≠ []) : fsValidateRelativePath name = true := by
  obtain ⟨full, hjoin, _⟩ := h
  rcases fsJoinRelativePath_eq hjoin with ⟨hnil, _⟩ | ⟨hv, _⟩
  · exact absurd hnil hn
  · exact hv

-- The names that both validators accept.
theorem fsValidateFileName_iff (hn : name.chars ≠ []) (hs : slash ∉ name.chars) (hv : fsValidateRelativePath name = true) :
    fsValidateFileName name = true ↔ ¬[dot, dot] <:+: name.chars := by
  have hb : backslash ∉ name.chars := ((fsValidateRelativePath_iff name).mp hv).right.left
  simp only [fsValidateFileName, decide_eq_true_eq]
  constructor
  · exact fun h => h.right.right.right
  · exact fun h => ⟨hn, hs, hb, h⟩

end

section Http

variable {e : Env} {w : World} {i : Nat} {srv : ServerOpt} {name : CStr} {content : Bytes}

-- The header block is read byte by byte, so that no failure can stand in it.
theorem httpReadHeaderBlock.loop_interrupted {cap : Nat} {out : Bytes} {as : List Arrival}
    (h : Arrival.OnlyInterrupted as) : Arrival.OnlyInterrupted (httpReadHeaderBlock.loop cap out as).2 := by
  have hrecv := Arrival.onlyInterrupted_recv 1 h
  fun_induction httpReadHeaderBlock.loop cap out as
  case case1 => exact h
  case case2 hr => rwa [hr] at hrecv
  case case3 hr => rwa [hr] at hrecv
  case case4 hr _ _ => rwa [hr] at hrecv
  case case5 hr _ _ hi =>
    rw [hr] at hrecv
    exact hi hrecv (Arrival.onlyInterrupted_recv 1 hrecv)

theorem wp_httpReadHeaderBlock_of_unfailing (he : e.Unfailing) {block : Bytes} (hb : HeaderBlock block)
    (hp : block <+: prompt e.inp) {Q : HttpHeaderBlock → Env → World → Prop}
    (hq : ∀ e', e'.Unfailing → e'.out = e.out → Q (.ok block) e' w) :
    Io.wp World.handle (httpReadHeaderBlock httpHeaderMax) Q e w := by
  have hleft : Io.wp World.handle (httpReadHeaderBlock httpHeaderMax) (fun _ e' _ => Arrival.OnlyInterrupted e'.inp) e w :=
    httpReadHeaderBlock.loop_interrupted he.interrupted
  rw [← List.append_nil block] at hp
  apply Io.wp_imp hleft
  apply wp_httpReadHeaderBlock_of_prompt hb hp
  intro as _ has
  exact hq _ { he with interrupted := has } rfl

-- The answer to a request for a file.
def httpFileReply (name : CStr) (content : Bytes) : Bytes :=
  httpSendFile.header content.length (httpSendFile.safeName name) ++ content

theorem wp_httpSendFile_of_unfailing (he : e.Unfailing) (hv : fsValidateRelativePath name = true)
    (hf : w.files.Holds srv.path name i content) {Q : Bool → Env → World → Prop}
    (hq : ∀ e', e.Goes (httpFileReply name content) [] e' → Q true e' w) :
    Io.wp World.handle (httpSendFile srv name) Q e w := by
  have hlt : content.length < 2 ^ 64 := Nat.lt_trans hf.small (by decide)
  have hheader : ¬(httpSendFile.header content.length (httpSendFile.safeName name)).length ≥ 1024 := by
    have hlen := httpSendFile.length_header_lt content.length.toUInt64 name
    rw [show content.length.toUInt64.toNat = content.length from Nat.mod_eq_of_lt hlt] at hlen
    exact Nat.not_le.mpr hlen
  rw [httpSendFile, if_neg (by simp [hv]), Io.wp_bind]
  apply wp_appPrepareDownload_of_unfailing he hf
  intro e₁ info h₁ hi
  dsimp only
  rw [Io.wp_bind, httpSendFile.send, hi, if_neg hheader, Io.wp_bind]
  apply wp_httpSendAll_of_unfailing h₁.unfailing
  intro e₂ h₂
  rw [if_neg (by simp), Io.wp_bind]
  apply wp_netSendFileBestEffort_of_unfailing h₂.unfailing hf.data hlt
  intro e₃ h₃
  rw [Io.wp_pure, Io.wp_bind, appDownloadCleanup, Io.wp_discard]
  apply wp_fsClose_of_unfailing h₃.unfailing
  intro e₄ h₄
  have h := ((h₁.trans h₂).trans h₃).trans h₄
  simp only [List.nil_append, List.append_nil] at h
  exact hq e₄ h

theorem wp_handleHttpConnection_get {deps : HttpDeps} {block encoded : Bytes} {phr : PhrRequest}
    (hassets : ∀ a ∈ deps.webuiAssets, ¬ascii "/api/files/" <+: a.path.chars) (he : e.Unfailing)
    (hb : HeaderBlock block) (hp : block <+: prompt e.inp) (hget : GetRequest deps block phr encoded)
    (hd : Percent.Decodes encoded name.chars) (hl : name.strlen ≤ maxFileNameLen)
    (hv : fsValidateRelativePath name = true) (hf : w.files.Holds srv.path name i content) :
    Io.wp World.handle (handleHttpConnection deps srv) (fun done e' w' =>
      done = true ∧ e'.out = e.out ++ httpFileReply name content ∧ w' = w) e w := by
  have hlen : phr.path.length < httpPathMax := by
    have hle := hd.length_le
    have hroute : (ascii "/api/files/").length = 11 := by decide
    rw [hget.target, List.length_append, hroute]
    rw [CStr.strlen, maxFileNameLen] at hl
    rw [httpPathMax]
    omega
  obtain ⟨req, hreq⟩ := hget.accepted hlen
  have hname := hget.decoded hd (Nat.lt_of_le_of_lt hl (by decide)) hreq
  rw [handleHttpConnection, Io.wp_bind]
  apply wp_httpReadHeaderBlock_of_unfailing he hb hp
  intro e₁ he₁ hout
  dsimp only
  rw [hreq]
  dsimp only
  rw [hget.dispatch hassets hreq hname]
  apply wp_httpSendFile_of_unfailing he₁ hv hf
  intro e₂ h₂
  exact ⟨rfl, hout ▸ h₂.out, rfl⟩

end Http

-- A download by the native protocol succeeds and saves the content, in every session in which nothing
-- fails and the client has room for it.
def NativeFetches (srv : ServerOpt) (name : CStr) (content : Bytes) (w : World) : Prop :=
  ∀ (opt : ClientOpt) (s : Session World.handle World.handle (clientGetFile opt) (handleProtocolConnection srv)),
    s.Undisturbed → s.serverStart = w → opt.remotePath = some name →
    s.clientStart.files.CanSave s.clientEnv.pid (opt.outputPath.getD name) content →
    s.result = 0 ∧ s.clientStart.files.Replaced (opt.outputPath.getD name) content s.clientEnd.files

-- A GET request for the name, which is percent-encoded in one way or another, is answered with the
-- content.
def HttpFetches (deps : HttpDeps) (srv : ServerOpt) (name : CStr) (content : Bytes) (w : World) : Prop :=
  ∀ (block encoded : Bytes) (phr : PhrRequest) (e : Env), HeaderBlock block → GetRequest deps block phr encoded →
    Percent.Decodes encoded name.chars → e.Unfailing → block <+: prompt e.inp →
    (Io.exec World.handle (handleHttpConnection deps srv) e w).1.1 = true ∧
    (Io.exec World.handle (handleHttpConnection deps srv) e w).1.2.out = e.out ++ httpFileReply name content

-- What a server has been left with by an upload that was reported as successful: to a native client by
-- its own exit code, or to an HTTP client by the status of the reply.
inductive Uploaded (deps : HttpDeps) (srv : ServerOpt) (name : CStr) (content : Bytes) : World → Prop
  | native {Wc : Type} {hc : Handler Sys Wc} {opt : ClientOpt}
    (s : Session (Handler.traced hc) World.handle (client opt) (handleProtocolConnection srv)) :
    (∀ fd off len w, (hc (.pread fd off len) w).1.length ≤ len) → s.clientStart.2 = [] → s.serverEnv.direct = [] →
    opt.msgType = msgTypeSendFile → fsBasenameFromPath opt.path = name → fileReads s.clientEnd.2 = content →
    s.result = 0 → Uploaded deps srv name content s.serverEnd
  | http {block rest sent : Bytes} {path : CStr} {e : Env} {w : World} (put : PutRequest deps block path content.length) :
    HeaderBlock block → Percent.Decodes path.chars name.chars → questionMark ∉ path.chars →
    bytes e.inp = block ++ (content ++ rest) →
    (Io.exec World.handle (handleHttpConnection deps srv) e w).1.2.out = e.out ++ sent →
    answerStatus sent = some (ascii "201") →
    Uploaded deps srv name content (Io.exec World.handle (handleHttpConnection deps srv) e w).2

section

variable {deps : HttpDeps} {srv : ServerOpt} {name : CStr} {content : Bytes} {w : World}

theorem Uploaded.inPlace (h : Uploaded deps srv name content w) (hl : name.strlen ≤ maxFileNameLen) :
    InPlace srv name content w.files := by
  cases h
  case native Wc hc opt s hreads hstart hdirect htype hname hcontent hres =>
    obtain ⟨_, hcommit⟩ := ((client_success_has_server_effect hreads opt srv s hstart hdirect).left htype).left hres
    obtain ⟨path, i, hjoin, _, hget, hdata⟩ := hcommit.stored
    rw [hname] at hjoin
    exact ⟨path, hjoin, by rw [Files.view, hget, ← hcontent, ← hdata]⟩
  case http block rest sent path e w put hblock hd hq hin hout hstatus =>
    obtain ⟨sent', hout', hcreated, _⟩ := Io.wp_iff_exec.mp (wp_handleHttpConnection_put hblock put hin)
    obtain ⟨henv, hfiles⟩ := Io.exec_traced (handleHttpConnection deps srv) e w []
    rw [henv] at hout'
    rw [hfiles] at hcreated
    cases List.append_cancel_left (hout.symm.trans hout')
    obtain ⟨_, name', full, hname', hjoin, hview, _⟩ := hcreated hstatus
    have hroute : (routeOf path).chars = path.chars := by
      rw [chars_routeOf, List.takeWhile_eq_self_iff]
      intro b hb
      exact bne_iff_ne.mpr fun h => hq (h ▸ hb)
    have hname : httpDecodeName httpPathMax (routeOf path) = some (.ofBuf name.chars) :=
      httpDecodeName_of_decodes (hroute ▸ hd) (Nat.lt_of_le_of_lt hl (by decide))
    rw [CStr.ofBuf_chars] at hname
    cases hname.symm.trans hname'
    rw [List.take_left] at hview
    exact ⟨full, hjoin, hview⟩

-- A client and a server that understand each other.
theorem Session.Undisturbed.fetches {opt : ClientOpt} {i : Nat}
    {s : Session World.handle World.handle (clientGetFile opt) (handleProtocolConnection srv)} (hs : s.Undisturbed)
    (hremote : opt.remotePath = some name) (hv : fsValidateFileName name = true) (hl : name.strlen ≤ maxFileNameLen)
    (hf : s.serverStart.files.Holds srv.path name i content) (hmax : content.length ≤ httpUploadMax.toNat)
    (hsave : s.clientStart.files.CanSave s.clientEnv.pid (opt.outputPath.getD name) content) :
    s.result = 0 ∧ s.clientStart.files.Replaced (opt.outputPath.getD name) content s.clientEnd.files := by
  have hsent : s.clientSent = getRequest name := by
    have hout := Io.wp_iff_exec.mp (wp_clientGetFile_sends (w := s.clientStart) hs.client hremote hv hl)
    rwa [s.clientOut, List.nil_append] at hout
  have hreply : s.serverSent = fileReply name content := by
    obtain ⟨hout, _⟩ := Io.wp_iff_exec.mp
      (wp_handleProtocolConnection_get_of_unfailing hs.server hv hl hf (hs.toServer.trans hsent))
    rwa [s.serverOut, List.nil_append] at hout
  have hsize : content.length.toUInt64 ≤ maxFileSize := by
    have hlt : content.length.toUInt64.toNat = content.length := Nat.mod_eq_of_lt (Nat.lt_trans hf.small (by decide))
    rw [UInt64.le_iff_toNat_le, hlt]
    exact hmax.trans (by decide)
  obtain ⟨hcode, files, hw, hrep⟩ := Io.wp_iff_exec.mp
    (wp_clientGetFile_of_unfailing hs.client hremote hv hl hsize hf.small hsave (hs.toClient.trans hreply))
  exact ⟨hcode, (congrArg World.files hw).symm ▸ hrep⟩

-- A session that ends before anything is sent.
def refusedSession (srv : ServerOpt) (name : CStr) (w : World) : Session World.handle World.handle
    (clientGetFile ⟨.lit "", some name, some (.lit "o"), .lit "", msgTypeGetFile⟩) (handleProtocolConnection srv) where
  clientEnv   := .calm 1 []
  serverEnv   := .calm 1 []
  clientStart := .empty
  serverStart := w
  clientOut   := rfl
  serverOut   := rfl
  toServer    := List.nil_prefix
  toClient    := List.nil_prefix

-- Without a request, the server sends nothing.
theorem serverSent_refusedSession : (refusedSession srv name w).serverSent = [] := by
  have hrun : Io.wp World.handle (handleProtocolConnection srv) (fun _ e' _ => e'.out = []) (.calm 1 []) w := by
    rw [handleProtocolConnection, Io.wp_bind]
    apply wp_recvHeader
    case hok =>
      intro buf as hl _ hd
      cases (List.nil_eq_append_iff.mp hd).left
      cases hl
    case herr => exact fun _ _ _ => rfl
  exact hrun

theorem not_nativeFetches (hv : ¬fsValidateFileName name = true) :
    ¬NativeFetches srv name content w := by
  intro h
  have hend : Io.exec World.handle (clientGetFile ⟨.lit "", some name, some (.lit "o"), .lit "", msgTypeGetFile⟩)
      (.calm 1 []) World.empty = ((1, .calm 1 []), .empty) := by
    rw [clientGetFile]
    dsimp only
    rw [if_pos (by simpa using hv)]
    rfl
  have hcalm : (Env.calm 1 []).Unfailing := .calm 1 fun _ hf => absurd hf List.not_mem_nil
  have hundisturbed : (refusedSession srv name w).Undisturbed := by
    constructor
    case client   => exact hcalm
    case server   => exact hcalm
    case toServer => exact (congrArg (fun x => x.1.2.out) hend).symm
    case toClient => exact serverSent_refusedSession.symm
  have hsave : World.empty.files.CanSave 1 (.lit "o") content := by
    constructor
    case temp  => decide
    case noDir => decide
    case fits  => exact fun n hn => by cases hn
  have hres := (h _ _ hundisturbed rfl rfl hsave).left
  exact absurd ((congrArg (fun x => x.1.1) hend).symm.trans hres) (by decide)

end

theorem putEnv_uploaded : Uploaded putDeps ⟨.lit "d", 0⟩ (.lit "f") [7]
    (Io.exec World.handle (handleHttpConnection putDeps ⟨.lit "d", 0⟩) putEnv .empty).2 := by
  have hd : Percent.encode (CStr.lit "f").chars = (CStr.lit "f").chars := by decide
  have hin : bytes putEnv.inp = putBlock ++ ([7] ++ []) := by
    simp only [putEnv, Env.calm, Arrival.bytes_push, Arrival.bytes_nil, List.append_nil, ← List.append_assoc,
      List.take_append_drop]
  have hout : (Io.exec World.handle (handleHttpConnection putDeps ⟨.lit "d", 0⟩) putEnv .empty).1.2.out =
      putEnv.out ++ (Io.exec World.handle (handleHttpConnection putDeps ⟨.lit "d", 0⟩) putEnv .empty).1.2.out :=
    (List.nil_append _).symm
  exact .http putRequest (by decide) (hd ▸ Percent.decodes_encode _) (by decide) hin hout (by decide +kernel)

-- A request to store one byte under the name `a..b`.
def dotsBlock : Bytes :=
  ascii "PUT /api/files/a..b HTTP/1.1\r\nContent-Length: 1\r\nContent-Type: application/octet-stream\r\n\r\n"

def dotsDeps : HttpDeps where
  phrParseRequest block :=
    if block = dotsBlock then some ⟨ascii "PUT", ascii "/api/files/a..b", 1, putHeaders⟩ else none
  webuiAssets := []

def dotsRequest : PutRequest dotsDeps dotsBlock (.lit "a..b") 1 where
  phr         := ⟨ascii "PUT", ascii "/api/files/a..b", 1, putHeaders⟩
  pre         := putRequest.pre
  header      := putRequest.header
  post        := putRequest.post
  parsed      := by
    have hb : (CStr.ofBuf dotsBlock).chars = dotsBlock := by decide
    rw [hb]
    simp only [dotsDeps, if_true]
  method      := rfl
  target      := rfl
  header_list := putRequest.header_list
  named       := putRequest.named
  single      := putRequest.single
  digits      := putRequest.digits
  value       := putRequest.value
