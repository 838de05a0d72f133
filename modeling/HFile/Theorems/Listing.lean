import HFile.Library.JsonValue
import HFile.Theorems.JsonGrammar
import HFile.Theorems.Paths

-- What the listing says about an entry.
def HttpFileEntry.json (x : HttpFileEntry) : Json.Value :=
  .object [
    (ascii "name",  .string x.name.chars),
    (ascii "path",  .string x.path.chars),
    (ascii "kind",  .string (httpPathKindName x.kind)),
    (ascii "size",  .number x.size),
    (ascii "mtime", .number x.mtime)]

theorem spells_httpJsonEscape (text : CStr) : Json.Chars (httpJsonEscape text) text.chars := by
  obtain ⟨s, hs, hspells⟩ :=
    httpJsonParseString.loop_some (httpJsonParseString.loop_httpJsonEscape text.chars [])
  refine ⟨?_, fun c hc => le_of_mem_httpJsonEscape hc⟩
  rw [httpJsonEscape, List.append_cancel_right hs]
  exact hspells

-- The names of the members and of the kinds need no escapes.
theorem chars_plain {t : Bytes} (h : ∀ c ∈ t, 0x20 ≤ c ∧ c ≠ Json.quote ∧ c ≠ Json.backslash) : Json.Chars t t :=
  ⟨Json.Spells.bytes fun c hc => (h c hc).right, fun c hc => (h c hc).left⟩

theorem chars_httpPathKindName (kind : FsPathKind) : Json.Chars (httpPathKindName kind) (httpPathKindName kind) := by
  apply chars_plain
  cases kind <;> decide +kernel

theorem derives_entry (x : HttpFileEntry) : Json.Derives (httpBuildFilesJson.entry x) x.json := by
  have hkey : ∀ key ∈ ["name", "path", "kind", "size", "mtime"], Json.Chars (ascii key) (ascii key) := by
    intro key hk
    apply chars_plain
    revert key
    decide +kernel
  simp only [List.forall_mem_cons, List.not_mem_nil, false_implies, implies_true, and_true] at hkey
  obtain ⟨hname, hpath, hkind, hsize, hmtime⟩ := hkey
  have h := Json.Derives.object <|
    .cons (.plain hname (.string (spells_httpJsonEscape x.name))) <|
    .cons (.plain hpath (.string (spells_httpJsonEscape x.path))) <|
    .cons (.plain hkind (.string (chars_httpPathKindName x.kind))) <|
    .cons (.plain hsize (.number (.decimal x.size))) <|
    .one (.plain hmtime (.number (.decimal x.mtime)))
  have h₁ : ascii "\x7b\"name\":\"" = 123 :: Json.quote :: (ascii "name" ++ [Json.quote, 58, Json.quote]) := by
    decide
  have h₂ : ascii "\",\"path\":\"" = Json.quote :: 44 :: Json.quote :: (ascii "path" ++ [Json.quote, 58, Json.quote]) := by
    decide
  have h₃ : ascii "\",\"kind\":\"" = Json.quote :: 44 :: Json.quote :: (ascii "kind" ++ [Json.quote, 58, Json.quote]) := by
    decide
  have h₄ : ascii "\",\"size\":" = Json.quote :: 44 :: Json.quote :: (ascii "size" ++ [Json.quote, 58]) := by
    decide
  have h₅ : ascii ",\"mtime\":" = 44 :: Json.quote :: (ascii "mtime" ++ [Json.quote, 58]) := by decide
  have h₆ : ascii "\x7d" = [125] := by decide
  rw [HttpFileEntry.json]
  convert h using 1
  simp only [httpBuildFilesJson.entry, h₁, h₂, h₃, h₄, h₅, h₆, List.append_assoc, List.cons_append, List.nil_append]

-- The text of a listing is an array with an object for each of its entries.
theorem text_httpBuildFilesJson (entries : List HttpFileEntry) :
    Json.Text (httpBuildFilesJson.text entries) (.array (entries.map HttpFileEntry.json)) :=
  Json.Text.array fun x _ => derives_entry x

-- The order of a listing: the newest entry first, and entries of the same age by name.
def HttpFileEntry.Before (a b : HttpFileEntry) : Prop :=
  b.mtime < a.mtime ∨ a.mtime = b.mtime ∧ a.name.chars ≤ b.name.chars

theorem httpFileEntryLe_iff {a b : HttpFileEntry} : httpFileEntryLe a b = true ↔ a.Before b := by
  simp [httpFileEntryLe, HttpFileEntry.Before]

namespace HttpFileEntry.Before

variable {a b c : HttpFileEntry}

-- The comparison is a total preorder, so that the entries can be sorted by it.
theorem trans (h : a.Before b) (h' : b.Before c) : a.Before c := by
  rcases h with h | ⟨hm, hn⟩
  · rcases h' with h' | ⟨hm', _⟩
    · exact .inl (Nat.lt_trans h' h)
    · exact .inl (hm' ▸ h)
  · rcases h' with h' | ⟨hm', hn'⟩
    · exact .inl (hm ▸ h')
    · exact .inr ⟨hm.trans hm', List.le_trans hn hn'⟩

theorem total (a b : HttpFileEntry) : a.Before b ∨ b.Before a := by
  rcases Nat.lt_trichotomy a.mtime b.mtime with h | h | h
  · exact .inr (.inl h)
  · rcases List.le_total a.name.chars b.name.chars with hn | hn
    · exact .inl (.inr ⟨h, hn⟩)
    · exact .inr (.inr ⟨h.symm, hn⟩)
  · exact .inl (.inl h)

theorem antisymm (h : a.Before b) (h' : b.Before a) : a.name = b.name := by
  rcases h with h | ⟨hm, hn⟩
  · rcases h' with h' | ⟨hm', _⟩
    · omega
    · omega
  · rcases h' with h' | ⟨_, hn'⟩
    · omega
    · exact CStr.ext (List.le_antisymm hn hn')

end HttpFileEntry.Before

theorem pairwise_mergeSort (entries : List HttpFileEntry) :
    (entries.mergeSort httpFileEntryLe).Pairwise HttpFileEntry.Before := by
  have htrans : ∀ a b c, httpFileEntryLe a b = true → httpFileEntryLe b c = true → httpFileEntryLe a c = true := by
    intro a b c hab hbc
    exact httpFileEntryLe_iff.mpr ((httpFileEntryLe_iff.mp hab).trans (httpFileEntryLe_iff.mp hbc))
  have htotal : ∀ a b, (httpFileEntryLe a b || httpFileEntryLe b a) = true := by
    intro a b
    rw [Bool.or_eq_true, httpFileEntryLe_iff, httpFileEntryLe_iff]
    exact HttpFileEntry.Before.total a b
  exact (List.pairwise_mergeSort htrans htotal entries).imp httpFileEntryLe_iff.mp

-- The entries `.` and `..`, which every directory has.
def DotName (name : CStr) : Prop :=
  name = .lit "." ∨ name = .lit ".."

instance (name : CStr) : Decidable (DotName name) :=
  inferInstanceAs <| Decidable (_ ∨ _)

def childPath (relativeDir name : CStr) : CStr :=
  if relativeDir.chars = [] then name else relativeDir ++ .lit "/" ++ name

-- The entry of a name, unless it is left out.
def listed (relativeDir : CStr) (info : CStr → Option FsPathInfo) (name : CStr) : Option HttpFileEntry :=
  if DotName name then none
  else (info name).map fun i =>
    ⟨name, childPath relativeDir name, i.kind, if i.kind = .file then i.size else 0, i.mtime⟩

-- What a directory shows: the names that `readdir` returns, in this order, and what `lstat` says
-- about each of them, which is `none` if it fails.
structure Shows {W : Type} (h : Program.Handler Sys W) (w : W) (dir : CStr) (names : List CStr)
    (info : CStr → Option FsPathInfo) : Prop where
  opendir : h (.opendir dir none) w = (some names, w)
  lstat   : ∀ name ∈ names, ∀ path, fsJoinPath pathCap dir name = some path →
    h (.lstat path none) w = (info name, w)

-- The full and the relative path of every name fit into their buffers.
def PathsFit (dir relativeDir : CStr) (names : List CStr) : Prop :=
  ∀ name ∈ names, ¬DotName name →
    (fsJoinPath pathCap dir name).isSome = true ∧ (childPath relativeDir name).strlen < httpPathMax

section

variable {W : Type} {h : Program.Handler Sys W} {e : Env} {w : W} {dir relativeDir : CStr}
variable {names : List CStr} {info : CStr → Option FsPathInfo}

theorem httpBuildRelativeChildPath_eq {name : CStr} (hl : (childPath relativeDir name).strlen < httpPathMax) :
    httpBuildRelativeChildPath httpPathMax relativeDir name = some (childPath relativeDir name) := by
  have hfits : (snprintf httpPathMax (childPath relativeDir name)).2 = true := decide_eq_true hl
  have hout := snprintf_fits hfits
  rw [childPath] at hfits hout
  rw [httpBuildRelativeChildPath, childPath]
  dsimp only
  rw [if_pos hfits, hout]

theorem listed_name {name : CStr} {x : HttpFileEntry} (h : listed relativeDir info name = some x) : x.name = name := by
  rw [listed] at h
  split at h
  case isTrue => cases h
  case isFalse =>
    obtain ⟨i, _, rfl⟩ := Option.map_eq_some_iff.mp h
    rfl

-- There is only one way to put the entries in order.
theorem eq_of_ordered {l l' : List HttpFileEntry} (hl : l.Perm (names.filterMap (listed relativeDir info)))
    (hp : l'.Perm l) (ho : l.Pairwise HttpFileEntry.Before) (ho' : l'.Pairwise HttpFileEntry.Before) : l' = l := by
  apply List.Perm.eq_of_pairwise _ ho' ho hp
  intro a b ha hb hab hba
  obtain ⟨n, _, ha⟩ := List.mem_filterMap.mp ((hp.trans hl).mem_iff.mp ha)
  obtain ⟨m, _, hb⟩ := List.mem_filterMap.mp (hl.mem_iff.mp hb)
  have hnm : n = m := by
    calc n
      _ = a.name := (listed_name ha).symm
      _ = b.name := hab.antisymm hba
      _ = m      := listed_name hb
  rw [hnm] at ha
  exact Option.some.inj (ha.symm.trans hb)

-- Every name is dealt with on its own.
theorem httpListFiles.wp_entries (hl : ∀ name ∈ names, ∀ path, fsJoinPath pathCap dir name = some path →
      h (.lstat path none) w = (info name, w))
    (hp : PathsFit dir relativeDir names) (hf : e.faults = []) :
    Io.wp h (entries dir relativeDir names) (fun r _ w' =>
      r = some (names.filterMap (listed relativeDir info)) ∧ w' = w) e w := by
  induction names generalizing e
  case nil => exact ⟨rfl, rfl⟩
  case cons name names hi =>
    rw [List.forall_mem_cons] at hl
    have hp' : PathsFit dir relativeDir names := fun name hn => hp name (List.mem_cons_of_mem _ hn)
    rw [entries]
    split
    case isTrue hd =>
      have hnone : listed relativeDir info name = none := if_pos hd
      simp only [List.filterMap_cons, hnone]
      exact hi hl.right hp' hf
    case isFalse hd =>
      obtain ⟨hfull, hchild⟩ := hp name (List.mem_cons_self ..) hd
      obtain ⟨path, hpath⟩ := Option.isSome_iff_exists.mp hfull
      have hlisted : listed relativeDir info name = (info name).map fun i =>
          ⟨name, childPath relativeDir name, i.kind, if i.kind = .file then i.size else 0, i.mtime⟩ := if_neg hd
      simp only [hpath, httpBuildRelativeChildPath_eq hchild, fsStatPath]
      rw [Io.wp_bind, Io.wp_bind, Io.wp_fault_iff, Io.wp_sys, hf]
      simp only [List.headD_nil, List.tail_nil, hl.left path hpath]
      cases hinfo : info name
      case none =>
        simp only [List.filterMap_cons, hlisted, hinfo, Option.map_none]
        exact hi hl.right hp' rfl
      case some i =>
        rw [Io.wp_bind]
        simp only [List.filterMap_cons, hlisted, hinfo, Option.map_some]
        apply Io.wp_mono (hi hl.right hp' rfl)
        rintro r _ w' ⟨rfl, rfl⟩
        exact ⟨rfl, rfl⟩

-- The entries of a directory that shows `names`.
theorem wp_httpListFiles (hs : Shows h w dir names info) (hp : PathsFit dir relativeDir names)
    (hf : e.faults = []) :
    Io.wp h (httpListFiles dir relativeDir) (fun r _ w' => w' = w ∧
      r = some ((names.filterMap (listed relativeDir info)).mergeSort httpFileEntryLe)) e w := by
  rw [httpListFiles, Io.wp_bind, Io.wp_fault_iff, Io.wp_bind, Io.wp_sys, hf]
  simp only [List.headD_nil, List.tail_nil, hs.opendir]
  rw [Io.wp_bind]
  apply Io.wp_mono (httpListFiles.wp_entries hs.lstat hp rfl)
  rintro r _ w' ⟨rfl, rfl⟩
  exact ⟨rfl, rfl⟩

end

-- A directory with an empty file.
def listingWorld : World where
  files := {
    Files.empty.create (.lit "d/f") with
    entries := (Files.empty.create (.lit "d/f")).entries.insert (.lit "d") .dir
    bounded := fun q i h => by
      by_cases hq : q = .lit "d"
      case pos =>
        subst hq
        simp at h
      case neg =>
        rw [AList.lookup_insert_ne hq] at h
        exact (Files.empty.create (.lit "d/f")).bounded q i h }
  board := ⟨none, 0⟩
