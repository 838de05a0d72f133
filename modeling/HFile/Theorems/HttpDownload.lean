import HFile.Library.Decimal
import HFile.Library.Split
import HFile.Theorems.FileBody
import HFile.Theorems.Http
import HFile.Theorems.Validators

-- The bytes that would end a quoted string or a line.
def Harmless (name : Bytes) : Prop :=
  34 ∉ name ∧ 92 ∉ name ∧ 13 ∉ name ∧ 10 ∉ name

namespace httpSendFile

theorem safeName_harmless (relativePath : CStr) : Harmless (safeName relativePath) := by
  have hmem : ∀ {b}, b ∈ safeName relativePath → b ≠ 34 ∧ b ≠ 92 ∧ b ≠ 13 ∧ b ≠ 10 := by
    intro b hb
    obtain ⟨c, _, rfl⟩ := List.mem_map.mp hb
    split
    case isTrue    => decide
    case isFalse h => simpa only [not_or] using h
  exact ⟨fun h => (hmem h).left rfl, fun h => (hmem h).right.left rfl, fun h => (hmem h).right.right.left rfl,
    fun h => (hmem h).right.right.right rfl⟩

theorem length_safeName_le (relativePath : CStr) : (safeName relativePath).length ≤ 511 := by
  rw [safeName, List.length_map, List.length_take]
  exact Nat.min_le_left _ _

-- What the header is to say: its lines, up to the empty one.
def lines (size : Nat) (name : Bytes) : List Bytes :=
  [ascii "HTTP/1.1 200 OK",
   ascii "Content-Type: application/octet-stream",
   ascii "Content-Length: " ++ (CStr.decimal size).chars,
   ascii "Content-Disposition: attachment; filename=\"" ++ name ++ ascii "\"",
   ascii "Connection: close",
   []]

theorem header_eq (size : Nat) (name : Bytes) : header size name = (lines size name).flatMap (· ++ crlf) := by
  simp [header, lines]

theorem length_header_lt (size : UInt64) (relativePath : CStr) :
    (header size.toNat (safeName relativePath)).length < 1024 := by
  have hname := length_safeName_le relativePath
  have hsize : (CStr.decimal size.toNat).chars.length ≤ 20 :=
    CStr.length_decimal_le (by decide) (by have := size.toNat_lt; omega)
  have hfixed : (ascii "HTTP/1.1 200 OK").length + (ascii "Content-Type: application/octet-stream").length +
      (ascii "Content-Length: ").length + (ascii "Content-Disposition: attachment; filename=\"").length +
      (ascii "\"").length + (ascii "Connection: close").length < 400 := by
    decide
  simp only [header, crlf, List.length_append, List.length_cons, List.length_nil]
  omega

-- No line has a byte that ends a line.
theorem lines_unbroken (size : Nat) {name : Bytes} (hn : Harmless name) :
    ∀ line ∈ lines size name, 13 ∉ line ∧ 10 ∉ line := by
  have hd : 13 ∉ (CStr.decimal size).chars ∧ 10 ∉ (CStr.decimal size).chars :=
    ⟨fun h => absurd (CStr.digit_of_mem_decimal size _ h) (by decide),
     fun h => absurd (CStr.digit_of_mem_decimal size _ h) (by decide)⟩
  obtain ⟨_, _, hcr, hlf⟩ := hn
  simp only [lines, List.forall_mem_cons, List.mem_append, not_or, List.not_mem_nil, false_implies, implies_true,
    and_true, hd, hcr, hlf]
  decide

end httpSendFile

-- A receiver that splits a text at its line feeds gets the lines back.
theorem splitOn_lines {lines : List Bytes} (h : ∀ line ∈ lines, 10 ∉ line) :
    (lines.flatMap (· ++ crlf)).splitOn 10 = lines.map (· ++ [13]) ++ [[]] := by
  induction lines
  case nil => rfl
  case cons line lines hi =>
    rw [List.forall_mem_cons] at h
    have hl : 10 ∉ line ++ [13] := by simp [h.left]
    have hc : (line :: lines).flatMap (· ++ crlf) = (line ++ [13]) ++ 10 :: lines.flatMap (· ++ crlf) := by
      simp [crlf]
    rw [hc, List.splitOn_append_cons_self_of_not_mem hl, hi h.right, List.map_cons, List.cons_append]

-- What a successful run has sent: a header and as many bytes as it announces, or a reply about a
-- file that could not be opened.
inductive HttpSendFileRun (relativePath : CStr) : Bytes → Prop
  | served {size : Nat} {body : Bytes} (h : size < 2 ^ 64 → body.length = size) :
    HttpSendFileRun relativePath (httpSendFile.header size (httpSendFile.safeName relativePath) ++ body)
  | refused {body sent : Bytes} (h : sent <+: httpResponse 404 (.lit "Not Found") jsonContentType body) :
    HttpSendFileRun relativePath sent

section

variable {W : Type} {h : Program.Handler Sys W} {e : Env} {w : W}

theorem wp_fsClose_any {fd : Entry} {Q : Bool → Env → W → Prop}
    (hq : ∀ b fs w', Q b { e with faults := fs } w') : Io.wp h (fsClose fd) Q e w := by
  rw [fsClose, Io.wp_bind]
  apply Io.wp_fault
  intro f fs
  exact hq _ fs _

-- Nothing is sent before a download is prepared.
theorem wp_appPrepareDownload_any {baseDir path : CStr} {Q : Except ProtocolResult AppDownload → Env → W → Prop}
    (hq : ∀ r fs w', Q r { e with faults := fs } w') : Io.wp h (appPrepareDownload baseDir path) Q e w := by
  rw [appPrepareDownload]
  split
  case h_1 => exact hq _ e.faults w
  case h_2 fullPath _ =>
    rw [Io.wp_bind]
    apply Io.wp_fault
    intro f fs
    rw [Io.wp_bind, Io.wp_sys]
    split
    case h_1 => exact hq _ fs _
    case h_2 fd _ =>
      rw [Io.wp_bind]
      apply Io.wp_fault
      intro f' fs'
      rw [Io.wp_bind, Io.wp_sys]
      split
      case h_1 =>
        rw [Io.wp_bind, Io.wp_discard]
        exact wp_fsClose_any fun _ fs _ => hq _ fs _
      case h_2 info _ =>
        split
        case isTrue =>
          rw [Io.wp_bind, Io.wp_discard]
          exact wp_fsClose_any fun _ fs _ => hq _ fs _
        case isFalse => exact hq _ fs' _

variable (hr : ∀ fd off len w, (h (.pread fd off len) w).1.length ≤ len)

include hr in
theorem httpSendFile.wp_send {relativePath : CStr} {download : AppDownload} :
    Io.wp h (send relativePath download) (fun r e' _ => r = true →
      ∃ sent, e'.out = e.out ++ sent ∧ HttpSendFileRun relativePath sent) e w := by
  have hreads : Reads h download.fd (fun _ _ => True) := ⟨fun len _ => hr _ _ _ _, fun _ _ => trivial⟩
  rw [send]
  split
  case isTrue => exact nofun
  case isFalse =>
    rw [Io.wp_bind]
    apply wp_httpSendAll
    intro b sent ts _ _ hall _
    cases b
    case false => exact nofun
    case true =>
      cases hall rfl
      simp only [Bool.not_true, Bool.false_eq_true, if_false, Io.wp_bind]
      apply wp_netSendFileBestEffort hreads trivial
      intro r body src snd allocs w' hbody _ hok
      have hlen : download.info.size < 2 ^ 64 → body.length = download.info.size := by
        intro hlt
        rw [hbody.full (by simpa using hok)]
        simp only [Nat.toUInt64_eq, UInt64.toNat_ofNat']
        exact Nat.mod_eq_of_lt hlt
      exact ⟨_, List.append_assoc .., .served hlen⟩

-- The header of a download says what it is to say, whatever the name of the file is, and as many
-- bytes follow as it announces.
include hr in
theorem httpSendFile_unsplit {relativePath : CStr} (hv : fsValidateRelativePath relativePath = true)
    (opt : ServerOpt) :
    (∀ size : UInt64,
      let header := httpSendFile.header size.toNat (httpSendFile.safeName relativePath)
      let lines := httpSendFile.lines size.toNat (httpSendFile.safeName relativePath)
      header.length < 1024 ∧ header.splitOn 10 = lines.map (· ++ [13]) ++ [[]] ∧
      ∀ line ∈ lines, 13 ∉ line ∧ 10 ∉ line) ∧
    Harmless (httpSendFile.safeName relativePath) ∧
    Io.wp h (httpSendFile opt relativePath) (fun r e' _ => r = true →
      ∃ sent, e'.out = e.out ++ sent ∧ HttpSendFileRun relativePath sent) e w := by
  have hname := httpSendFile.safeName_harmless relativePath
  refine ⟨fun size => ?_, hname, ?_⟩
  case refine_1 =>
    have hlines := httpSendFile.lines_unbroken size.toNat hname
    refine ⟨httpSendFile.length_header_lt size relativePath, ?_, hlines⟩
    rw [httpSendFile.header_eq]
    exact splitOn_lines fun line hl => (hlines line hl).right
  case refine_2 =>
    rw [httpSendFile, if_neg (by simp [hv]), Io.wp_bind]
    apply wp_appPrepareDownload_any
    intro r fs w'
    cases r
    case error =>
      apply wp_httpSendResponse
      intro b sent ts hp _ _
      exact ⟨sent, rfl, .refused hp⟩
    case ok download =>
      rw [Io.wp_bind]
      apply Io.wp_mono (httpSendFile.wp_send hr)
      intro r e' w'' hsent
      rw [Io.wp_bind, appDownloadCleanup, Io.wp_discard]
      exact wp_fsClose_any fun _ _ _ => hsent

end

theorem httpSendFile_unsplit_quote :
    let path : CStr := .lit "a\"\r\nb"
    (∀ size : UInt64,
      let header := httpSendFile.header size.toNat (httpSendFile.safeName path)
      let lines := httpSendFile.lines size.toNat (httpSendFile.safeName path)
      header.length < 1024 ∧ header.splitOn 10 = lines.map (· ++ [13]) ++ [[]] ∧
      ∀ line ∈ lines, 13 ∉ line ∧ 10 ∉ line) ∧
    Harmless (httpSendFile.safeName path) ∧
    Io.wp World.handle (httpSendFile ⟨.lit "d", 0⟩ path) (fun r e' _ => r = true →
      ∃ sent, e'.out = (Env.calm 1 []).out ++ sent ∧ HttpSendFileRun path sent) (Env.calm 1 []) World.empty := by
  have hr : ∀ fd off len w, (World.handle (.pread fd off len) w).1.length ≤ len := by
    intro fd off len w
    cases fd
    case file => exact List.length_take_le _ _
    all_goals exact Nat.zero_le _
  have hv : fsValidateRelativePath (.lit "a\"\r\nb") = true :=
    fsValidateRelativePath_of_fileName (by decide) (by decide)
  exact httpSendFile_unsplit hr hv ⟨.lit "d", 0⟩
