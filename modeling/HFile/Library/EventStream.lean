import HFile.Library.CString

-- The interpretation of event streams by their receivers, as sequences of bytes.
namespace EventStream

def lf : UInt8 := 10
def cr : UInt8 := 13
def colon : UInt8 := 58
def space : UInt8 := 32

structure Event where
  type : Bytes
  data : Bytes
  deriving DecidableEq

-- What is kept between two bytes: the unfinished line, whether a line feed would belong to the line
-- end before it, the buffers of the unfinished event, and the settings that outlive events.
structure State where
  line    : Bytes
  afterCr : Bool
  data    : Bytes
  type    : Bytes
  lastId  : Bytes
  retry   : Option Bytes
  deriving DecidableEq

def State.initial : State :=
  { line := [], afterCr := false, data := [], type := [], lastId := [], retry := none }

def State.field (s : State) (name value : Bytes) : State :=
  if name = ascii "event" then { s with type := value }
  else if name = ascii "data" then { s with data := s.data ++ value ++ [lf] }
  else if name = ascii "id" then if 0 ∈ value then s else { s with lastId := value }
  else if name = ascii "retry" then
    if value ≠ [] ∧ ∀ c ∈ value, 48 ≤ c ∧ c ≤ 57 then { s with retry := some value } else s
  else s

-- A single space after the colon does not belong to the value.
def value (rest : Bytes) : Bytes :=
  match rest with
  | []     => []
  | c :: v => if c = space then v else c :: v

-- The event of the buffers, without the last line feed of its data.
def State.dispatch (s : State) : State × List Event :=
  ({ s with data := [], type := [] },
   if s.data = [] then [] else
   [⟨if s.type = [] then ascii "message" else s.type, s.data.dropLast⟩])

-- Interprets a complete line.
def State.endLine (s : State) : State × List Event :=
  let line := s.line
  let s := { s with line := [] }
  if line = [] then s.dispatch
  else if line.head? = some colon then (s, [])
  else
    (s.field (line.takeWhile (· != colon)) (value ((line.dropWhile (· != colon)).drop 1)), [])

-- Lines end at a line feed, at a carriage return, or at both in a row.
def State.step (s : State) (c : UInt8) : State × List Event :=
  if c = lf then if s.afterCr then ({ s with afterCr := false }, []) else s.endLine
  else if c = cr then ({ s.endLine.1 with afterCr := true }, s.endLine.2)
  else ({ s with line := s.line ++ [c], afterCr := false }, [])

-- The state after some bytes, and the events that they dispatch.
def decode (s : State) : Bytes → State × List Event
  | []      => (s, [])
  | c :: bs => ((decode (s.step c).1 bs).1, (s.step c).2 ++ (decode (s.step c).1 bs).2)

theorem decode_append (s : State) (bs cs : Bytes) : decode s (bs ++ cs) =
    ((decode (decode s bs).1 cs).1, (decode s bs).2 ++ (decode (decode s bs).1 cs).2) := by
  induction bs generalizing s
  case nil          => rfl
  case cons c bs hi => simp [decode, hi]

-- What has not arrived does not change the events before it.
theorem decode_isPrefix (s : State) {bs cs : Bytes} (h : bs <+: cs) :
    (decode s bs).2 <+: (decode s cs).2 := by
  obtain ⟨ds, hds⟩ := h
  rw [← hds, decode_append]
  exact List.prefix_append _ _

-- Texts that leave nothing behind are interpreted one by one.
theorem decode_flatMap {α : Type} {s : State} {text : α → Bytes} {events : α → List Event} {xs : List α}
    (h : ∀ x ∈ xs, decode s (text x) = (s, events x)) :
    decode s (xs.flatMap text) = (s, xs.flatMap events) := by
  induction xs
  case nil          => rfl
  case cons x xs hi =>
    rw [List.flatMap_cons, decode_append, h x List.mem_cons_self, hi fun y hy => h y (List.mem_cons_of_mem _ hy)]
    rfl

-- The bytes of a line are collected.
theorem decode_text {s : State} {bs : Bytes} (hs : s.afterCr = false) (h : ∀ c ∈ bs, c ≠ lf ∧ c ≠ cr) :
    decode s bs = ({ s with line := s.line ++ bs }, []) := by
  induction bs generalizing s
  case nil => simp [decode]
  case cons c bs hi =>
    have ⟨hl, hc⟩ := h c List.mem_cons_self
    rw [decode, State.step, if_neg hl, if_neg hc]
    dsimp only
    rw [hi rfl fun c hc => h c (List.mem_cons_of_mem _ hc)]
    simp [hs]

-- A line without a carriage return.
theorem decode_line {s : State} {bs : Bytes} (hs : s.afterCr = false) (h : ∀ c ∈ bs, c ≠ lf ∧ c ≠ cr) :
    decode s (bs ++ [lf]) = { s with line := s.line ++ bs }.endLine := by
  rw [decode_append, decode_text hs h]
  simp [decode, State.step, hs]

-- No carriage return gets into the data of an event.
structure State.Clean (s : State) : Prop where
  line : cr ∉ s.line
  data : cr ∉ s.data

theorem State.Clean.field {s : State} {name v : Bytes} (h : s.Clean) (hv : cr ∉ v) :
    (s.field name v).Clean := by
  rw [State.field]
  split_ifs
  all_goals first | exact h | exact ⟨h.line, h.data⟩ | skip
  exact ⟨h.line, List.not_mem_append (List.not_mem_append h.data hv) (by decide)⟩

theorem value_subset (rest : Bytes) : value rest ⊆ rest := by
  cases rest
  case nil => exact fun _ h => h
  case cons c v =>
    rw [value]
    split
    case isTrue  => exact List.subset_cons_self _ _
    case isFalse => exact fun _ h => h

theorem State.Clean.endLine {s : State} (h : s.Clean) :
    s.endLine.1.Clean ∧ ∀ ev ∈ s.endLine.2, cr ∉ ev.data := by
  rw [State.endLine]
  split_ifs
  case pos =>
    refine ⟨⟨nofun, nofun⟩, ?_⟩
    intro ev hev
    simp only [State.dispatch] at hev
    split at hev
    case isTrue  => exact nomatch hev
    case isFalse =>
      rw [List.mem_singleton.mp hev]
      exact fun hm => h.data (List.dropLast_subset _ hm)
  case pos => exact ⟨⟨nofun, h.data⟩, nofun⟩
  case neg =>
    have hs : State.Clean { s with line := [] } := ⟨nofun, h.data⟩
    refine ⟨hs.field ?_, nofun⟩
    intro hm
    exact h.line ((List.dropWhile_suffix _).subset (List.mem_of_mem_drop (value_subset _ hm)))

theorem State.Clean.step {s : State} (h : s.Clean) (c : UInt8) :
    (s.step c).1.Clean ∧ ∀ ev ∈ (s.step c).2, cr ∉ ev.data := by
  rw [State.step]
  split_ifs
  · exact ⟨⟨h.line, h.data⟩, nofun⟩
  · exact h.endLine
  · exact ⟨⟨h.endLine.left.line, h.endLine.left.data⟩, h.endLine.right⟩
  case neg hc => 
    refine ⟨⟨?_, h.data⟩, nofun⟩
    intro hm
    rcases List.mem_append.mp hm with hm | hm
    case inl => exact h.line hm
    case inr => exact hc (List.mem_singleton.mp hm).symm

theorem decode_clean {s : State} (h : s.Clean) (bs : Bytes) : ∀ ev ∈ (decode s bs).2, cr ∉ ev.data := by
  induction bs generalizing s
  case nil          => exact nofun
  case cons c bs hi =>
    have ⟨hc, hev⟩ := h.step c
    intro ev hm
    rcases List.mem_append.mp hm with hm | hm
    case inl => exact hev ev hm
    case inr => exact hi hc ev hm

end EventStream
