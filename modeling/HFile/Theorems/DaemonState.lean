import HFile.Library.Split
import HFile.Theorems.Numerals
import HFile.Theorems.Paths

-- A text that stays on one line.
def Unbroken (s : Bytes) : Prop :=
  13 ∉ s ∧ 10 ∉ s

instance (s : Bytes) : Decidable (Unbroken s) :=
  inferInstanceAs <| Decidable (_ ∧ _)

-- The fields of a state that is written, with the capacities of their buffers and types.
structure DaemonState.Fits (state : DaemonState) : Prop where
  pid        : state.pid < 2 ^ 63
  receiveDir : state.receiveDir.strlen < 4096
  webUrl     : state.webUrl.strlen < 256
  logPath    : state.logPath.strlen < 4096

-- No text of a state is broken over several lines.
structure DaemonState.OneLine (state : DaemonState) : Prop where
  receiveDir : Unbroken state.receiveDir.chars
  webUrl     : Unbroken state.webUrl.chars
  logPath    : Unbroken state.logPath.chars

-- Printed numbers are read back.
theorem denotes_decimal (n : Nat) : Denotes (CStr.decimal n).chars n := by
  have h : Denotes _ _ := .intro .absent (List.forall_mem_nil _) (CStr.decimal_ne_nil n) (CStr.digit_of_mem_decimal n)
  rwa [CStr.decimalValue_decimal] at h

theorem daemonStateParseLong_decimal {n : Nat} (hn : n < 2 ^ 63) :
    daemonStateParseLong (.decimal n) = some (n : Int) :=
  daemonStateParseLong_some_iff.mpr ⟨denotes_decimal n, by omega⟩

theorem daemonStateParseU16_decimal (port : UInt16) :
    daemonStateParseU16 (.decimal port.toNat) = some port := by
  have hp := port.toNat_lt
  have hval : ((port.toNat : Int) % 2 ^ 64).toNat = port.toNat := by omega
  rw [daemonStateParseU16_denotes (denotes_decimal port.toNat), if_pos (by omega), hval]
  simp

namespace DaemonStateRead

variable {r : DaemonStateRead} {key value : CStr}

-- A line that has been written is read as its key and its value.
theorem line_eq (hk : equalsSign ∉ key.chars) (hv : Unbroken value.chars) :
    r.line (.ofBuf (key.chars ++ equalsSign :: (value.chars ++ [10]))) = r.set key value := by
  have hline : (CStr.ofBuf (key.chars ++ equalsSign :: (value.chars ++ [10]))).chars =
      key.chars ++ equalsSign :: (value.chars ++ [10]) := by
    apply CStr.ofBuf_eq_of_nul_free
    have : (0 : UInt8) ≠ equalsSign := by decide
    simp [key.nul_free, value.nul_free, this]
  have hvalue : (value.chars ++ [10]).takeWhile (fun c => c ≠ 13 ∧ c ≠ 10) = value.chars := by
    rw [List.takeWhile_append_of_pos]
    · simp
    · intro c hc
      simpa using ⟨fun h => hv.left (h ▸ hc), fun h => hv.right (h ▸ hc)⟩
  obtain ⟨htake, hdrop⟩ := Split.takeWhile_append hk (value.chars ++ [10])
  rw [line, hline, htake, hdrop]
  dsimp only
  rw [hvalue, CStr.ofBuf_chars, CStr.ofBuf_chars]

end DaemonStateRead

-- The line `key=value` of a state file.
def stateLine (key value : CStr) : Bytes :=
  key.chars ++ equalsSign :: (value.chars ++ [10])

-- A line that fits into the buffer is read in one go.
theorem daemonStateRead.loop_line {r : DaemonStateRead} {key value : CStr} (rest : Bytes)
    (hk : equalsSign ∉ key.chars) (hl : 10 ∉ key.chars) (hv : Unbroken value.chars)
    (hlen : key.strlen + value.strlen < 4606) :
    loop r (stateLine key value ++ rest) = loop (r.set key value) rest := by
  have hnl : 10 ∉ key.chars ++ equalsSign :: value.chars := by
    have : (10 : UInt8) ≠ equalsSign := by decide
    simp [hl, hv.right, this]
  have hcut : stateLine key value ++ rest = (key.chars ++ equalsSign :: value.chars) ++ 10 :: rest := by
    simp [stateLine]
  have hfgets : fgetsLength 4608 (stateLine key value ++ rest) = (stateLine key value).length := by
    simp only [CStr.strlen] at hlen
    rw [fgetsLength, hcut, (Split.takeWhile_append hnl rest).left]
    simp only [stateLine, List.length_append, List.length_cons, List.length_nil]
    omega
  have hne : stateLine key value ++ rest ≠ [] := by simp [stateLine]
  rw [loop.eq_def, dif_neg hne, hfgets, List.take_left, List.drop_left, stateLine,
    DaemonStateRead.line_eq hk hv]

theorem daemonStateText_eq (state : DaemonState) : daemonStateText state =
    stateLine (.lit "pid") (.decimal state.pid) ++ (stateLine (.lit "receive_dir") state.receiveDir ++
    (stateLine (.lit "port") (.decimal state.port.toNat) ++ (stateLine (.lit "web_url") state.webUrl ++
    (stateLine (.lit "log_path") state.logPath ++
    (stateLine (.lit "daemon_mode") (.lit (if state.daemonMode then "1" else "0")) ++ []))))) := by
  have h₁ : ascii "pid=" = (CStr.lit "pid").chars ++ [equalsSign] := by decide
  have h₂ : ascii "receive_dir=" = (CStr.lit "receive_dir").chars ++ [equalsSign] := by decide
  have h₃ : ascii "port=" = (CStr.lit "port").chars ++ [equalsSign] := by decide
  have h₄ : ascii "web_url=" = (CStr.lit "web_url").chars ++ [equalsSign] := by decide
  have h₅ : ascii "log_path=" = (CStr.lit "log_path").chars ++ [equalsSign] := by decide
  have h₆ : ascii "daemon_mode=" = (CStr.lit "daemon_mode").chars ++ [equalsSign] := by decide
  have hmode : ascii (if state.daemonMode then "1" else "0") =
      (CStr.lit (if state.daemonMode then "1" else "0")).chars := by
    cases state.daemonMode <;> decide
  delta daemonStateText
  simp only [stateLine, h₁, h₂, h₃, h₄, h₅, h₆, hmode, List.append_assoc, List.cons_append, List.nil_append,
    List.append_nil]

namespace DaemonStateRead

variable {r : DaemonStateRead} {value : CStr}

theorem set_pid {n : Nat} (h₀ : 0 < n) (h : n < 2 ^ 63) :
    r.set (.lit "pid") (.decimal n) = { r with state := { r.state with pid := n }, havePid := true } := by
  obtain ⟨n, rfl⟩ := Nat.exists_eq_add_one_of_ne_zero (Nat.pos_iff_ne_zero.mp h₀)
  rw [set, if_pos rfl, daemonStateParseLong_decimal h]

theorem set_receiveDir (h : value.chars ≠ []) (hl : value.strlen < 4096) :
    r.set (.lit "receive_dir") value =
      { r with state := { r.state with receiveDir := value }, haveReceiveDir := true } := by
  have hfits : (snprintf 4096 value).2 = true := decide_eq_true hl
  rw [set, if_neg (by decide), if_pos rfl, if_neg h]
  dsimp only
  rw [snprintf_fits hfits, hfits]

theorem set_port {port : UInt16} (h : port ≠ 0) :
    r.set (.lit "port") (.decimal port.toNat) =
      { r with state := { r.state with port := port }, havePort := true } := by
  rw [set, if_neg (by decide), if_neg (by decide), if_pos rfl, daemonStateParseU16_decimal]
  simp [h]

theorem set_webUrl (hl : value.strlen < 256) :
    r.set (.lit "web_url") value = { r with state := { r.state with webUrl := value } } := by
  rw [set, if_neg (by decide), if_neg (by decide), if_neg (by decide), if_pos rfl,
    snprintf_fits (decide_eq_true hl)]

theorem set_logPath (hl : value.strlen < 4096) :
    r.set (.lit "log_path") value = { r with state := { r.state with logPath := value } } := by
  rw [set, if_neg (by decide), if_neg (by decide), if_neg (by decide),
    if_neg (by decide), if_pos rfl, snprintf_fits (decide_eq_true hl)]

theorem set_daemonMode (b : Bool) :
    r.set (.lit "daemon_mode") (.lit (if b then "1" else "0")) =
      { r with state := { r.state with daemonMode := b } } := by
  have hparse : daemonStateParseLong (.lit (if b then "1" else "0")) = some (if b then 1 else 0) := by
    cases b <;> decide
  rw [set, if_neg (by decide), if_neg (by decide), if_neg (by decide),
    if_neg (by decide), if_neg (by decide), if_pos rfl, hparse]
  cases b <;> rfl

end DaemonStateRead

theorem Unbroken.snprintf {value : CStr} (h : Unbroken value.chars) (cap : Nat) :
    Unbroken (snprintf cap value).1.chars :=
  ⟨fun hc => h.left (List.mem_of_mem_take hc), fun hc => h.right (List.mem_of_mem_take hc)⟩

namespace DaemonStateRead

variable {r : DaemonStateRead}

-- What is read is never broken over lines, whatever the file says.
theorem set_oneLine {value : CStr} (h : r.state.OneLine) (hv : Unbroken value.chars) (key : CStr) :
    (r.set key value).state.OneLine := by
  have hcut : ∀ cap, Unbroken (snprintf cap value).1.chars := hv.snprintf
  rw [set]
  split
  case isTrue => split <;> exact ⟨h.receiveDir, h.webUrl, h.logPath⟩
  case isFalse =>
  split
  case isTrue =>
    split
    case isTrue  => exact h
    case isFalse => exact ⟨hcut _, h.webUrl, h.logPath⟩
  case isFalse =>
  split
  case isTrue => split <;> exact ⟨h.receiveDir, h.webUrl, h.logPath⟩
  case isFalse =>
  split
  case isTrue => exact ⟨h.receiveDir, hcut _, h.logPath⟩
  case isFalse =>
  split
  case isTrue => exact ⟨h.receiveDir, h.webUrl, hcut _⟩
  case isFalse =>
  split
  case isTrue => split <;> exact ⟨h.receiveDir, h.webUrl, h.logPath⟩
  case isFalse => exact h

theorem line_oneLine (h : r.state.OneLine) (line : CStr) : (r.line line).state.OneLine := by
  rw [DaemonStateRead.line]
  split
  case h_1 => exact h
  case h_2 value _ =>
    have hcut : ∀ c ∈ (CStr.ofBuf (value.takeWhile fun c => c ≠ 13 ∧ c ≠ 10)).chars, c ≠ 13 ∧ c ≠ 10 := by
      intro c hc
      have := List.mem_takeWhile_imp ((List.takeWhile_sublist _).mem hc)
      simpa using this
    exact set_oneLine h ⟨fun hc => (hcut _ hc).left rfl, fun hc => (hcut _ hc).right rfl⟩ _

end DaemonStateRead

theorem daemonStateRead.loop_oneLine {r : DaemonStateRead} (h : r.state.OneLine) (text : Bytes) :
    (loop r text).state.OneLine := by
  fun_induction loop r text
  case case1      => exact h
  case case2 _ hi => exact hi (DaemonStateRead.line_oneLine h _)

theorem daemonStateRead_oneLine {text : Bytes} {state : DaemonState} (h : daemonStateRead text = some state) :
    state.OneLine := by
  rw [daemonStateRead] at h
  split at h
  case isFalse => cases h
  case isTrue =>
    cases h
    apply daemonStateRead.loop_oneLine
    constructor <;> simp [Unbroken, CStr.lit, CStr.ofBuf, ascii]

-- A state whose texts stay on their lines is read back.
theorem daemonStateRead_text {state : DaemonState} (hf : state.Fits) (hl : state.OneLine) (hp : 0 < state.pid)
    (hd : state.receiveDir.chars ≠ []) (ht : state.port ≠ 0) :
    daemonStateRead (daemonStateText state) = some state := by
  have hkey : ∀ key ∈ ["pid", "receive_dir", "port", "web_url", "log_path", "daemon_mode"],
      equalsSign ∉ (CStr.lit key).chars ∧ 10 ∉ (CStr.lit key).chars ∧ (CStr.lit key).strlen ≤ 11 := by
    decide
  have hstep : ∀ {key : String} {value : CStr} {r : DaemonStateRead} (rest : Bytes),
      key ∈ ["pid", "receive_dir", "port", "web_url", "log_path", "daemon_mode"] →
      Unbroken value.chars → value.strlen < 4096 →
      daemonStateRead.loop r (stateLine (.lit key) value ++ rest) = daemonStateRead.loop (r.set (.lit key) value) rest := by
    intro key value r rest hk hv hlen
    obtain ⟨he, hl, hkl⟩ := hkey key hk
    exact daemonStateRead.loop_line rest he hl hv (by omega)
  have hdecimal : ∀ n < 2 ^ 63, Unbroken (CStr.decimal n).chars ∧ (CStr.decimal n).strlen < 4096 := by
    intro n hn
    refine ⟨⟨fun h => ?_, fun h => ?_⟩, ?_⟩
    · exact absurd (CStr.digit_of_mem_decimal n _ h) (by decide)
    · exact absurd (CStr.digit_of_mem_decimal n _ h) (by decide)
    · exact Nat.lt_of_le_of_lt (CStr.length_decimal_le (k := 19) (by decide) (by omega)) (by decide)
  have hport : state.port.toNat < 2 ^ 63 := by
    have := state.port.toNat_lt
    omega
  have hmode : ∀ b : Bool, Unbroken (CStr.lit (if b then "1" else "0")).chars ∧
      (CStr.lit (if b then "1" else "0")).strlen < 4096 := by
    decide
  have hurl := Nat.lt_trans hf.webUrl (show 256 < 4096 by decide)
  rw [daemonStateRead, daemonStateText_eq]
  rw [hstep _ (by simp) (hdecimal _ hf.pid).left (hdecimal _ hf.pid).right, DaemonStateRead.set_pid hp hf.pid]
  rw [hstep _ (by simp) hl.receiveDir hf.receiveDir, DaemonStateRead.set_receiveDir hd hf.receiveDir]
  rw [hstep _ (by simp) (hdecimal _ hport).left (hdecimal _ hport).right, DaemonStateRead.set_port ht]
  rw [hstep _ (by simp) hl.webUrl hurl, DaemonStateRead.set_webUrl hf.webUrl]
  rw [hstep _ (by simp) hl.logPath hf.logPath, DaemonStateRead.set_logPath hf.logPath]
  rw [hstep _ (by simp) (hmode _).left (hmode _).right, DaemonStateRead.set_daemonMode]
  rw [daemonStateRead.loop.eq_def, dif_pos rfl]
  rfl

-- The states that are read back from what is written of them.
theorem daemonStateRead_write_iff {state : DaemonState} (hf : state.Fits) {text : Bytes}
    (h : daemonStateWrite state = some text) : daemonStateRead text = some state ↔ state.OneLine := by
  constructor
  case mp  => exact daemonStateRead_oneLine
  case mpr =>
    intro hl
    rw [daemonStateWrite] at h
    split at h
    case isTrue => cases h
    case isFalse hn =>
      split at h
      case isTrue => cases h
      case isFalse =>
        obtain rfl := Option.some.inj h
        simp only [not_or] at hn
        exact daemonStateRead_text hf hl (Nat.pos_of_ne_zero hn.left) hn.right.left hn.right.right

theorem daemonStateRead_write_iff_plain :
    daemonStateRead (daemonStateText ⟨7, .lit "d", .lit "", .lit "", 80, true⟩) =
      some ⟨7, .lit "d", .lit "", .lit "", 80, true⟩ ↔
    DaemonState.OneLine ⟨7, .lit "d", .lit "", .lit "", 80, true⟩ :=
  daemonStateRead_write_iff ⟨by decide, by decide, by decide, by decide⟩ (by decide)

-- The name of a directory can stand for another process.
theorem daemonStateRead_other_pid :
    let state : DaemonState := ⟨7, .lit "d\npid=1", .lit "", .lit "", 80, true⟩
    state.Fits ∧ daemonStateWrite state = some (daemonStateText state) ∧
    daemonStateRead (daemonStateText state) = some { state with pid := 1, receiveDir := .lit "d" } ∧
    daemonStateRead (daemonStateText state) ≠ some state := by
  intro state
  exact ⟨⟨by decide, by decide, by decide, by decide⟩, by decide, by decide +kernel, by decide +kernel⟩
