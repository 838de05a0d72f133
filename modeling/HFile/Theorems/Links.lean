import HFile.Theorems.HttpRequest
import HFile.Theorems.Listing
import HFile.Theorems.Percent
import HFile.Theorems.Validators

-- The call that a process makes next.
def Io.next (m : Io α) (e : Env) : Option SysOp :=
  (m.run e).next

theorem Io.next_bind {m : Io α} {f : α → Io β} {e : Env} {o : SysOp} (h : m.next e = some o) :
    (m >>= f).next e = some o := by
  rw [next] at h
  rw [next, StateT.run_bind]
  cases hm : m.run e
  case ret  => rw [hm] at h; cases h
  case call => rw [hm] at h; exact h

-- A request for the file that is listed under `path`, as the web page makes it and the request
-- parser returns it.
structure LinkRequest (deps : HttpDeps) (block : Bytes) (phr : PhrRequest) (path : CStr) : Prop where
  parsed  : deps.phrParseRequest (CStr.ofBuf block).chars = some phr
  method  : phr.method = ascii "GET"
  target  : phr.path = ascii "/api/files/" ++ Percent.encode path.chars
  version : phr.minorVersion = 1
  headers : ∀ x ∈ phr.headers, x.Accepted

-- A request for a file whose name is percent-encoded, in one way or another.
structure GetRequest (deps : HttpDeps) (block : Bytes) (phr : PhrRequest) (encoded : Bytes) : Prop where
  parsed  : deps.phrParseRequest (CStr.ofBuf block).chars = some phr
  method  : phr.method = ascii "GET"
  target  : phr.path = ascii "/api/files/" ++ encoded
  plain   : ∀ b ∈ encoded, b ≠ 0 ∧ b ≠ questionMark
  version : phr.minorVersion = 1
  headers : ∀ x ∈ phr.headers, x.Accepted

-- The request is accepted, the name in it is the listed path, and the first thing that is done about
-- it is to open the file `full`.
def LinkOpens (deps : HttpDeps) (opt : ServerOpt) (block : Bytes) (path full : CStr) : Prop :=
  ∃ req, httpParseRequest deps block = .ok req ∧
    httpDecodeName httpPathMax (.ofBuf (req.path.chars.drop 11)) = some path ∧
    fsValidateRelativePath path = true ∧
    ∀ e, (httpDispatch deps opt req).next e = some (.openRead full true (e.faults.headD none))

-- The names whose links can be followed, in the listing of a directory.
structure Linkable (relativeDir name : CStr) : Prop where
  noBackslash : backslash ∉ name.chars
  noSlash     : relativeDir.chars.getLast? ≠ some slash
  short       : (ascii "/api/files/" ++ Percent.encode (childPath relativeDir name).chars).length < httpPathMax

-- What is known of an entry in a listing whose calls are recorded in `log`.
structure Looked (dir relativeDir : CStr) (names : List CStr) (log : List ((o : SysOp) × o.Res))
    (x : HttpFileEntry) (full : CStr) : Prop where
  mem    : x.name ∈ names
  notDot : ¬DotName x.name
  joined : fsJoinPath pathCap dir x.name = some full
  path   : httpBuildRelativeChildPath httpPathMax relativeDir x.name = some x.path
  lstat  : ∃ fault info, ⟨.lstat full fault, some info⟩ ∈ log ∧ info.kind = x.kind

section

variable {W : Type} {h : Program.Handler Sys W} {e : Env} {w : W} {dir relativeDir : CStr} {names : List CStr}

theorem Looked.mono {log log' : List ((o : SysOp) × o.Res)} {x : HttpFileEntry} {full : CStr}
    (hl : Looked dir relativeDir names log x full) (hn : names ⊆ names') (hsub : log <+: log') :
    Looked dir relativeDir names' log' x full := by
  obtain ⟨fault, info, hmem, hk⟩ := hl.lstat
  exact ⟨hn hl.mem, hl.notDot, hl.joined, hl.path, fault, info, hsub.subset hmem, hk⟩

theorem httpListFiles.wp_looked (l : List ((o : SysOp) × o.Res)) :
    Io.wp h.traced (entries dir relativeDir names) (fun r _ w' => l <+: w'.2 ∧
      ∀ xs, r = some xs → ∀ x ∈ xs, ∃ full, Looked dir relativeDir names w'.2 x full) e (w, l) := by
  induction names generalizing e w l
  case nil =>
    refine ⟨List.prefix_refl l, ?_⟩
    rintro xs ⟨⟩
    exact fun x hx => absurd hx List.not_mem_nil
  case cons name names hi =>
    have hrest : ∀ {e : Env} {w : W} (l' : List ((o : SysOp) × o.Res)), l <+: l' →
        Io.wp h.traced (entries dir relativeDir names) (fun r _ w' => l <+: w'.2 ∧ l' <+: w'.2 ∧
          ∀ xs, r = some xs → ∀ x ∈ xs, ∃ full, Looked dir relativeDir (name :: names) w'.2 x full) e (w, l') := by
      intro e w l' hl
      apply Io.wp_mono (hi l')
      rintro r _ w' ⟨hl', hr⟩
      refine ⟨hl.trans hl', hl', fun xs hxs x hx => ?_⟩
      obtain ⟨full, hfull⟩ := hr xs hxs x hx
      exact ⟨full, hfull.mono (List.subset_cons_self _ _) (List.prefix_refl _)⟩
    have hnone : ∀ {w' : W × List ((o : SysOp) × o.Res)}, l <+: w'.2 → l <+: w'.2 ∧
        ∀ xs, (none : Option (List HttpFileEntry)) = some xs → ∀ x ∈ xs,
          ∃ full, Looked dir relativeDir (name :: names) w'.2 x full := by
      intro w' hl
      exact ⟨hl, fun xs hxs => by cases hxs⟩
    rw [entries]
    split
    case isTrue =>
      apply Io.wp_mono (hrest l (List.prefix_refl l))
      rintro r _ w' ⟨hl, _, hr⟩
      exact ⟨hl, hr⟩
    case isFalse hd =>
      split
      case h_1 => exact hnone (List.prefix_refl l)
      case h_2 full hfull =>
        split
        case h_1 => exact hnone (List.prefix_refl l)
        case h_2 path hpath =>
          rw [fsStatPath, Io.wp_bind, Io.wp_bind]
          apply Io.wp_fault
          intro f fs
          rw [Io.wp_sys]
          cases hinfo : (Program.Handler.traced h (.lstat full f) (w, l)).1
          case none =>
            dsimp only
            apply Io.wp_mono (hrest _ (List.prefix_append ..))
            rintro r _ w' ⟨hl, _, hr⟩
            exact ⟨hl, hr⟩
          case some info =>
            dsimp only
            rw [Io.wp_bind]
            apply Io.wp_mono (hrest _ (List.prefix_append ..))
            rintro r _ w' ⟨hl, hl', hr⟩
            refine ⟨hl, ?_⟩
            intro xs hxs
            obtain ⟨rest, hrest, rfl⟩ := Option.map_eq_some_iff.mp hxs
            rw [List.forall_mem_cons]
            refine ⟨⟨full, List.mem_cons_self .., hd, hfull, hpath, f, info, ?_, rfl⟩, hr rest hrest⟩
            apply hl'.subset
            rw [← hinfo]
            exact List.mem_append_right _ (List.mem_singleton_self _)

theorem wp_httpListFiles_looked :
    Io.wp h.traced (httpListFiles dir relativeDir) (fun r _ w' => ∀ xs, r = some xs → ∀ x ∈ xs,
      ∃ names full fault, (h (.opendir dir fault) w).1 = some names ∧ Looked dir relativeDir names w'.2 x full)
      e (w, []) := by
  rw [httpListFiles, Io.wp_bind]
  apply Io.wp_fault
  intro f fs
  rw [Io.wp_bind, Io.wp_sys]
  cases hnames : (Program.Handler.traced h (.opendir dir f) (w, [])).1
  case none =>
    intro xs hxs
    cases hxs
  case some names =>
    dsimp only
    rw [Io.wp_bind]
    apply Io.wp_mono (httpListFiles.wp_looked _)
    rintro r _ w' ⟨_, hr⟩ xs hxs x hx
    obtain ⟨entries, rfl, rfl⟩ := Option.map_eq_some_iff.mp hxs
    obtain ⟨full, hfull⟩ := hr entries rfl x ((List.mergeSort_perm _ _).mem_iff.mp hx)
    exact ⟨names, full, f, hnames, hfull⟩

end

theorem goodSegment_of_name {name : CStr} (hne : name.chars ≠ []) (hd : ¬DotName name) : GoodSegment name.chars := by
  refine ⟨hne, fun he => hd (.inl ?_), fun he => hd (.inr ?_)⟩
  · exact CStr.ext (he.trans (by decide))
  · exact CStr.ext (he.trans (by decide))

-- The listed path of a name is valid unless the name has a backslash or the directory is named with a
-- slash at its end, which makes an empty segment.
theorem fsValidateRelativePath_childPath {relativeDir name : CStr}
    (hrel : relativeDir.chars = [] ∨ fsValidateRelativePath relativeDir = true) (hne : name.chars ≠ []) (hs : slash ∉ name.chars) (hd : ¬DotName name) :
    fsValidateRelativePath (childPath relativeDir name) = true ↔
      backslash ∉ name.chars ∧ relativeDir.chars.getLast? ≠ some slash := by
  have hgood := goodSegment_of_name hne hd
  rw [fsValidateRelativePath_iff, childPath]
  by_cases hnil : relativeDir.chars = []
  case pos =>
    rw [if_pos hnil, segments, List.splitOn_eq_singleton hs, hnil]
    simp [hne, GoodSegments, hgood]
  case neg =>
    have hv := hrel.resolve_left hnil
    have hchars : (relativeDir ++ .lit "/" ++ name).chars = relativeDir.chars ++ slash :: name.chars := by
      simp [show (CStr.lit "/").chars = [slash] by decide]
    have hseg : segments (relativeDir ++ .lit "/" ++ name) = segments relativeDir ++ [name.chars] := by
      rw [segments, hchars, List.splitOn_append_cons_self, List.splitOn_eq_singleton hs, segments]
    have hback := ((fsValidateRelativePath_iff relativeDir).mp hv).right.left
    have hsl : backslash ≠ slash := by decide
    rw [if_neg hnil, hseg, goodSegments_concat, hchars]
    by_cases hl : relativeDir.chars.getLast? = some slash
    case pos =>
      obtain ⟨init, hinit⟩ := List.getLast?_eq_some_iff.mp hl
      have hn : 0 ∉ init := fun h => relativeDir.nul_free (hinit ▸ List.mem_append_left _ h)
      have hbad := (@fsValidateRelativePath_slash relativeDir ⟨init, hn⟩ hinit).right
      simp only [hl, ne_eq, not_true_eq_false, and_false, iff_false]
      rintro ⟨_, _, hall, _⟩
      exact hbad ⟨hback, hall⟩
    case neg =>
      have hwell := (fsValidateRelativePath_noSlash hl).mp hv
      constructor
      case mp =>
        rintro ⟨_, hb, _⟩
        exact ⟨fun h => hb (List.mem_append_right _ (List.mem_cons_of_mem _ h)), hl⟩
      case mpr =>
        rintro ⟨hb, _⟩
        exact ⟨by simp, by simp [hback, hsl, hb], hwell.segments, .inr hgood⟩

-- The path under which an entry is looked up is the one that its listed path leads to.
theorem fsJoinRelativePath_childPath {baseDir dir relativeDir name full : CStr} (hl : relativeDir.chars.getLast? ≠ some slash)
    (hv : fsValidateRelativePath (childPath relativeDir name) = true)
    (hdir : fsJoinRelativePath pathCap baseDir relativeDir = some dir)
    (hfull : fsJoinPath pathCap dir name = some full) :
    fsJoinRelativePath pathCap baseDir (childPath relativeDir name) = some full := by
  have hlen : full.strlen < pathCap := by
    simp only [fsJoinPath, Option.ite_none_right_eq_some, Option.some.injEq] at hfull
    rw [← hfull.right, snprintf_fits hfull.left]
    exact of_decide_eq_true hfull.left
  have heq : full = baseDir ++ separator baseDir ++ childPath relativeDir name := by
    rw [fsJoinPath_eq hfull, childPath]
    rcases fsJoinRelativePath_eq hdir with ⟨hnil, rfl⟩ | ⟨hrel, rfl⟩
    case inl => rw [if_pos hnil]
    case inr =>
      have hnil := ((fsValidateRelativePath_iff relativeDir).mp hrel).left
      have hlast : (baseDir ++ separator baseDir ++ relativeDir).chars.getLast? ≠ some slash := by
        rwa [CStr.chars_append, List.getLast?_append_of_ne_nil _ hnil]
      have hsep : separator (baseDir ++ separator baseDir ++ relativeDir) = .lit "/" := if_neg hlast
      rw [if_neg hnil, hsep]
      ext1
      simp
  rw [heq] at hlen ⊢
  exact fsJoinRelativePath_eq_some hv hlen

theorem LinkRequest.get {deps : HttpDeps} {block : Bytes} {phr : PhrRequest} {path : CStr}
    (hp : LinkRequest deps block phr path) : GetRequest deps block phr (Percent.encode path.chars) where
  parsed  := hp.parsed
  method  := hp.method
  target  := hp.target
  version := hp.version
  headers := hp.headers
  plain b hb := by
    rcases Percent.of_mem_encode hb with rfl | hu
    · decide
    · constructor <;> rintro rfl <;> exact absurd hu (by decide)

namespace GetRequest

variable {deps : HttpDeps} {block encoded : Bytes} {phr : PhrRequest} (hp : GetRequest deps block phr encoded)
include hp

-- Neither a terminator nor a query is found in the path.
theorem path_plain : ∀ b ∈ phr.path, b ≠ 0 ∧ b ≠ questionMark := by
  have hroute : ∀ b ∈ ascii "/api/files/", b ≠ 0 ∧ b ≠ questionMark := by
    decide +kernel
  intro b hb
  rw [hp.target, List.mem_append] at hb
  exact hb.elim (hroute b) (hp.plain b)

-- What is read of the request.
theorem parsed_path {req : HttpRequest} (h : httpParseRequest deps block = .ok req) :
    phr.path.length < httpPathMax ∧ req.method = .lit "GET" ∧ req.path.chars = ascii "/api/files/" ++ encoded := by
  simp only [httpParseRequest, hp.parsed, hp.version, ne_eq, not_true_eq_false, if_false] at h
  split at h
  case isTrue => cases h
  case isFalse hlen =>
    split at h
    case h_1 => cases h
    case h_2 req₂ hreq =>
      cases h
      obtain ⟨req₁, hheaders, hsplit⟩ := Option.bind_eq_some_iff.mp hreq
      obtain ⟨hpath, hmethod, _⟩ := httpParseRequest.split_path hsplit
      obtain ⟨hm, ht⟩ := httpParseRequest.headers_line hheaders
      refine ⟨by omega, ?_, ?_⟩
      case refine_1 =>
        rw [hmethod, hm, hp.method]
        rfl
      case refine_2 =>
        have hn : 0 ∉ phr.path := fun hz => (hp.path_plain 0 hz).left rfl
        have hq : ∀ b ∈ phr.path, (b != questionMark) = true :=
          fun b hb => bne_iff_ne.mpr (hp.path_plain b hb).right
        rw [hpath, ht, chars_routeOf, CStr.ofBuf_eq_of_nul_free hn, List.takeWhile_eq_self_iff.mpr hq, hp.target]

theorem accepted (hlen : phr.path.length < httpPathMax) : ∃ req, httpParseRequest deps block = .ok req := by
  have hmethod : phr.method.length < 8 := by
    rw [hp.method]
    decide
  obtain ⟨_, req, _, _, hreq⟩ := httpParseRequest_ok hp.parsed hp.version hmethod hlen hp.headers
  exact ⟨req, hreq⟩

-- The name is read back.
theorem decoded {req : HttpRequest} {name : CStr} (hd : Percent.Decodes encoded name.chars)
    (hl : name.strlen < httpPathMax) (h : httpParseRequest deps block = .ok req) :
    httpDecodeName httpPathMax (.ofBuf (req.path.chars.drop 11)) = some name := by
  have hz : 0 ∉ encoded := fun hz => (hp.plain 0 hz).left rfl
  have hdrop : req.path.chars.drop 11 = encoded := by
    rw [(hp.parsed_path h).right.right]
    rfl
  rw [hdrop, httpDecodeName_of_decodes ((CStr.ofBuf_eq_of_nul_free hz).symm ▸ hd) hl, CStr.ofBuf_chars]

-- What is done about the request once it is read.
theorem dispatch {opt : ServerOpt} {req : HttpRequest} {name : CStr}
    (hassets : ∀ a ∈ deps.webuiAssets, ¬ascii "/api/files/" <+: a.path.chars)
    (h : httpParseRequest deps block = .ok req)
    (hd : httpDecodeName httpPathMax (.ofBuf (req.path.chars.drop 11)) = some name) :
    httpDispatch deps opt req = httpSendFile opt name := by
  obtain ⟨_, hm, hpath⟩ := hp.parsed_path h
  have hroute : ascii "/api/files/" <+: req.path.chars := ⟨_, hpath.symm⟩
  have hasset : webuiFindAsset deps req.path = none := by
    rw [webuiFindAsset, List.find?_eq_none]
    intro a ha he
    have hpath : a.path = req.path := by simpa using he
    exact hassets a ha (hpath ▸ hroute)
  rw [httpDispatch, if_pos hm, hasset]
  dsimp only
  rw [httpDispatchExactRoute, httpExactRoutes_find_none hroute, pure_bind]
  dsimp only
  rw [httpDispatchFileRoute, if_neg (not_not.mpr hroute), hd]
  dsimp only
  rw [if_pos hm, bind_assoc]
  simp only [pure_bind, bind_pure]

end GetRequest

-- A file is opened before anything else is done.
theorem httpSendFile_next {opt : ServerOpt} {path full : CStr} (hv : fsValidateRelativePath path = true)
    (hj : fsJoinRelativePath pathCap opt.path path = some full) (e : Env) :
    (httpSendFile opt path).next e = some (.openRead full true (e.faults.headD none)) := by
  have hprepare : (appPrepareDownload opt.path path).next e = some (.openRead full true (e.faults.headD none)) := by
    rw [appPrepareDownload, hj]
    rfl
  rw [httpSendFile, if_neg (by simp [hv])]
  exact Io.next_bind hprepare

theorem httpBuildRelativeChildPath_some {cap : Nat} {relativeDir name path : CStr}
    (h : httpBuildRelativeChildPath cap relativeDir name = some path) : path = childPath relativeDir name := by
  simp only [httpBuildRelativeChildPath, Option.ite_none_right_eq_some, Option.some.injEq] at h
  exact h.right.symm.trans (snprintf_fits h.left)

-- The directories that can be listed.
theorem httpHandleFilesList.relativeDir_some {req : HttpRequest} {dir : CStr}
    (h : httpHandleFilesList.relativeDir req = some dir) : dir.chars = [] ∨ fsValidateRelativePath dir = true := by
  rw [relativeDir] at h
  split at h
  case h_1 =>
    split at h
    case h_1 => cases h
    case h_2 =>
      split at h
      case isTrue     => cases h
      case isFalse hv =>
        cases h
        by_cases hnil : dir.chars = []
        case pos => exact .inl hnil
        case neg => exact .inr (by simpa [hnil] using hv)
  case h_2 =>
    cases h
    exact .inl (by decide)

-- The link of a listed file opens the file that was looked up for the listing, unless its name has a
-- backslash, its directory is named with a slash at the end, or its encoded path is too long.
theorem linkOpens_iff {W : Type} {h : Program.Handler Sys W} {e : Env} {w : W} {deps : HttpDeps} {opt : ServerOpt}
    {req : HttpRequest} {relativeDir dir : CStr} {entries : List HttpFileEntry} {x : HttpFileEntry} {block : Bytes}
    {phr : PhrRequest}
    (hnames : ∀ f names, (h (.opendir dir f) w).1 = some names → ∀ name ∈ names, name.chars ≠ [] ∧ slash ∉ name.chars)
    (hassets : ∀ a ∈ deps.webuiAssets, ¬ascii "/api/files/" <+: a.path.chars)
    (hrel : httpHandleFilesList.relativeDir req = some relativeDir)
    (hdir : fsJoinRelativePath pathCap opt.path relativeDir = some dir)
    (hlist : (Io.exec h.traced (httpListFiles dir relativeDir) e (w, [])).1.1 = some entries) (hx : x ∈ entries)
    (hk : x.kind = .file) (hlink : LinkRequest deps block phr x.path) :
    ∃ full fault info, ⟨.lstat full fault, some info⟩ ∈ (Io.exec h.traced (httpListFiles dir relativeDir) e (w, [])).2.2 ∧
      info.kind = .file ∧ (LinkOpens deps opt block x.path full ↔ Linkable relativeDir x.name) := by
  obtain ⟨names, full, fault, hopen, hlooked⟩ :=
    Io.wp_iff_exec.mp wp_httpListFiles_looked entries hlist x hx
  obtain ⟨f, info, hmem, hinfo⟩ := hlooked.lstat
  obtain ⟨hne, hs⟩ := hnames fault names hopen x.name hlooked.mem
  have hchild := httpBuildRelativeChildPath_some hlooked.path
  have hvalid := fsValidateRelativePath_childPath (httpHandleFilesList.relativeDir_some hrel) hne hs hlooked.notDot
  refine ⟨full, f, info, hmem, hinfo.trans hk, ?_⟩
  constructor
  case mp =>
    rintro ⟨req', hreq, _, hv, _⟩
    have hlen := (hlink.get.parsed_path hreq).left
    rw [hchild] at hv
    obtain ⟨hb, hl⟩ := hvalid.mp hv
    rw [hlink.target, hchild] at hlen
    exact ⟨hb, hl, hlen⟩
  case mpr =>
    intro hlinkable
    have hv := hvalid.mpr ⟨hlinkable.noBackslash, hlinkable.noSlash⟩
    have hj := fsJoinRelativePath_childPath hlinkable.noSlash hv hdir hlooked.joined
    rw [← hchild] at hv hj
    have hlen : phr.path.length < httpPathMax := by
      rw [hlink.target, hchild]
      exact hlinkable.short
    obtain ⟨req', hreq⟩ := hlink.get.accepted hlen
    have hname : x.path.strlen < httpPathMax := by
      have hle := Percent.length_le_encode x.path.chars
      rw [hlink.target, List.length_append] at hlen
      rw [CStr.strlen]
      omega
    have hd := hlink.get.decoded (Percent.decodes_encode x.path.chars) hname hreq
    refine ⟨req', hreq, hd, hv, fun e => ?_⟩
    rw [hlink.get.dispatch hassets hreq hd]
    exact httpSendFile_next hv hj e

-- What is opened under the path of an entry is what was looked up.
theorem World.openRead_of_lstat {w : World} {p : CStr} {fault : Option Errno} {info : FsPathInfo}
    (h : (World.handle (.lstat p fault) w).1 = some info) :
    ∃ fd, World.handle (.openRead p true none) w = (.ok fd, w) ∧ w.files.stat fd = some info := by
  simp only [handle] at h ⊢
  split at h
  case h_1 => cases h
  case h_2 =>
    obtain ⟨fd, hfd, hstat⟩ := Option.bind_eq_some_iff.mp h
    exact ⟨fd, by rw [hfd], hstat⟩

-- A request to fetch the file `f`.
def linkBlock : Bytes :=
  ascii "GET /api/files/f HTTP/1.1\r\n\r\n"

def linkDeps : HttpDeps where
  phrParseRequest block := if block = linkBlock then some ⟨ascii "GET", ascii "/api/files/f", 1, []⟩ else none
  webuiAssets := []

-- A directory `d` with an empty file.
def folder (path : CStr) : World where
  files := {
    Files.empty.create path with
    entries := (Files.empty.create path).entries.insert (.lit "d") .dir
    bounded := fun q i h => by
      by_cases hq : q = .lit "d"
      case pos =>
        subst hq
        simp at h
      case neg =>
        rw [AList.lookup_insert_ne hq] at h
        exact (Files.empty.create path).bounded q i h }
  board := ⟨none, 0⟩

theorem listed_folder {path name : CStr} (hd : ¬DotName name) (hl : name.strlen < httpPathMax)
    (hopen : (World.handle (.opendir (.lit "d") none) (folder path)).1 = some [name])
    (hj : fsJoinPath pathCap (.lit "d") name = some path)
    (hi : (World.handle (.lstat path none) (folder path)).1 = some ⟨.file, 0, 0⟩) :
    (Io.exec World.handle.traced (httpListFiles (.lit "d") (.lit "")) (.calm 1 []) (folder path, [])).1.1 =
      some [⟨name, name, .file, 0, 0⟩] := by
  have hs : Shows World.handle (folder path) (.lit "d") [name] fun _ => some ⟨.file, 0, 0⟩ := by
    constructor
    case opendir => exact Prod.ext hopen rfl
    case lstat =>
      intro n hn p hp
      rw [List.mem_singleton.mp hn, hj] at hp
      rw [← Option.some.inj hp]
      exact Prod.ext hi rfl
  have hfit : PathsFit (.lit "d") (.lit "") [name] := by
    intro n hn _
    rw [List.mem_singleton.mp hn, hj]
    exact ⟨rfl, hl⟩
  have hrun : Io.wp World.handle (httpListFiles (.lit "d") (.lit "")) (fun r _ _ =>
      r = some [⟨name, name, .file, 0, 0⟩]) (.calm 1 []) (folder path) := by
    apply Io.wp_mono (wp_httpListFiles hs hfit rfl)
    rintro r _ _ ⟨_, rfl⟩
    have hlisted : listed (.lit "") (fun _ => some ⟨.file, 0, 0⟩) name = some ⟨name, name, .file, 0, 0⟩ := by
      rw [listed, if_neg hd]
      rfl
    rw [List.filterMap_cons, hlisted, List.filterMap_nil, List.mergeSort_singleton]
  have htraced : Io.wp World.handle.traced (httpListFiles (.lit "d") (.lit "")) (fun r _ _ =>
      r = some [⟨name, name, .file, 0, 0⟩]) (.calm 1 []) (folder path, []) :=
    Io.wp_traced (Io.wp_mono hrun fun _ _ _ hr _ => hr) []
  exact htraced

-- `readdir` returns names without slashes.
theorem World.opendir_names {w : World} {dir : CStr} {fault : Option Errno} {names : List CStr}
    (h : (World.handle (.opendir dir fault) w).1 = some names) :
    ∀ name ∈ names, name.chars ≠ [] ∧ slash ∉ name.chars := by
  simp only [handle] at h
  split at h
  case h_1 => cases h
  case h_2 =>
    split at h
    case h_2 => cases h
    case h_1 =>
      cases h
      intro name hn
      obtain ⟨p, _, hp⟩ := List.mem_filterMap.mp hn
      simp only [Files.childName, Option.ite_none_right_eq_some, Option.some.injEq] at hp
      obtain ⟨⟨hlead, hne, hs⟩, rfl⟩ := hp
      refine ⟨fun hnil => hne ?_, hs⟩
      exact ((List.isPrefixOf_iff_prefix.mp hlead).eq_of_length_le (List.drop_eq_nil_iff.mp hnil)).symm

theorem linkOpens_iff_file :
    ∃ full fault info,
      ⟨.lstat full fault, some info⟩ ∈ (Io.exec World.handle.traced (httpListFiles (.lit "d") (.lit ""))
        (.calm 1 []) (folder (.lit "d/f"), [])).2.2 ∧
      info.kind = .file ∧
      (LinkOpens linkDeps ⟨.lit "d", 0⟩ linkBlock (.lit "f") full ↔ Linkable (.lit "") (.lit "f")) := by
  have hlist := @listed_folder (.lit "d/f") (.lit "f") (by decide) (by decide) (by decide) (by decide)
    (by decide)
  have hlink : LinkRequest linkDeps linkBlock ⟨ascii "GET", ascii "/api/files/f", 1, []⟩ (.lit "f") := by
    constructor
    case parsed =>
      have hb : (CStr.ofBuf linkBlock).chars = linkBlock := by decide
      rw [hb]
      simp only [linkDeps, if_true]
    case method  => rfl
    case target  => decide
    case version => rfl
    case headers => exact List.forall_mem_nil _
  let req : HttpRequest := ⟨.lit "GET", .lit "/api/files", .lit "", .lit "", 0, false, false⟩
  have hrel : httpHandleFilesList.relativeDir req = some (.lit "") := by decide +kernel
  exact linkOpens_iff (fun _ _ => World.opendir_names) (List.forall_mem_nil _) hrel (by decide) hlist (List.mem_singleton_self _)
    rfl hlink

-- A file whose name has a backslash is listed, but no request opens it.
theorem linkOpens_backslash :
    (Io.exec World.handle.traced (httpListFiles (.lit "d") (.lit "")) (.calm 1 []) (folder (.lit "d/a\\b"), [])).1.1 =
      some [⟨.lit "a\\b", .lit "a\\b", .file, 0, 0⟩] ∧
    ∀ deps block full, ¬LinkOpens deps ⟨.lit "d", 0⟩ block (.lit "a\\b") full := by
  refine ⟨listed_folder (by decide) (by decide) (by decide) (by decide) (by decide), ?_⟩
  rintro deps block full ⟨_, _, _, hv, _⟩
  exact absurd hv (by decide)
