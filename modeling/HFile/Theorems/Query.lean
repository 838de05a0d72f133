import HFile.Library.Split
import HFile.Source.HttpText

-- A part of a query: a name, and a value after the first equals sign, which is empty if there is
-- no such sign.
def QueryEntry (entry name value : Bytes) : Prop :=
  equalsSign ∉ name ∧ (entry = name ++ equalsSign :: value ∨ entry = name ∧ value = [])

theorem queryEntry_iff {entry name value : Bytes} :
    QueryEntry entry name value ↔
    entry.takeWhile (· != equalsSign) = name ∧ (entry.dropWhile (· != equalsSign)).drop 1 = value := by
  constructor
  case mp =>
    rintro ⟨hn, rfl | ⟨rfl, rfl⟩⟩
    · simp [Split.takeWhile_append hn value]
    · simp [Split.takeWhile_of_notMem hn]
  case mpr =>
    rintro ⟨rfl, rfl⟩
    refine ⟨Split.notMem_takeWhile _ _, ?_⟩
    cases h : entry.dropWhile (· != equalsSign)
    case nil         => exact .inr ⟨(Split.splitOn_of_dropWhile_nil h).right.symm, by simp⟩
    case cons c rest => exact .inl (Split.append_of_dropWhile h)

theorem QueryEntry.unique {entry name v w : Bytes} (hv : QueryEntry entry name v) (hw : QueryEntry entry name w) :
    v = w :=
  (queryEntry_iff.mp hv).right.symm.trans (queryEntry_iff.mp hw).right

-- The first of some entries whose name is the key.
inductive FirstEntry (key : Bytes) : List Bytes → Bytes → Prop
  | here  {entry rest v} (h : QueryEntry entry key v) : FirstEntry key (entry :: rest) v
  | later {entry rest v} (hn : ∀ w, ¬QueryEntry entry key w) (h : FirstEntry key rest v) :
    FirstEntry key (entry :: rest) v

-- No entry has the key as its name.
def NoEntry (key : Bytes) (entries : List Bytes) : Prop :=
  ∀ entry ∈ entries, ∀ v, ¬QueryEntry entry key v

theorem FirstEntry.unique {key v w : Bytes} {entries : List Bytes}
    (hv : FirstEntry key entries v) (hw : FirstEntry key entries w) : v = w := by
  induction hv
  case here h =>
    cases hw
    case here h'     => exact h.unique h'
    case later hn _  => exact absurd h (hn _)
  case later hn _ hi =>
    cases hw
    case here h'    => exact absurd h' (hn _)
    case later _ h' => exact hi h'

theorem FirstEntry.not_noEntry {key v : Bytes} {entries : List Bytes} (h : FirstEntry key entries v) :
    ¬NoEntry key entries := by
  induction h
  case here h       => exact fun hn => hn _ (List.mem_cons_self ..) _ h
  case later _ _ hi => exact fun hn => hi fun entry he => hn entry (List.mem_cons_of_mem _ he)

-- What an answer says about the entries of a query.
def HttpQueryValue.Answers (key : Bytes) (cap : Nat) (entries : List Bytes) : HttpQueryValue → Prop
  | .missing => NoEntry key entries
  | .found v => FirstEntry key entries v ∧ v.length < cap
  | .tooLong => ∃ v, FirstEntry key entries v ∧ cap ≤ v.length

theorem HttpQueryValue.Answers.cons {key entry : Bytes} {cap : Nat} {entries : List Bytes}
    (hn : ∀ w, ¬QueryEntry entry key w) {r : HttpQueryValue} (h : r.Answers key cap entries) :
    r.Answers key cap (entry :: entries) := by
  cases r
  case missing => exact List.forall_mem_cons.mpr ⟨hn, h⟩
  case found   => exact ⟨.later hn h.left, h.right⟩
  case tooLong =>
    obtain ⟨v, hv, hlen⟩ := h
    exact ⟨v, .later hn hv, hlen⟩

theorem not_queryEntry_of_ne {entry key : Bytes} (h : entry.takeWhile (· != equalsSign) ≠ key) (w : Bytes) :
    ¬QueryEntry entry key w :=
  fun he => h (queryEntry_iff.mp he).left

-- Every round of the loop deals with the first entry of what is left.
theorem httpQueryGetValue.loop_answers {key : Bytes} (hk : key ≠ []) (cap : Nat) (query : Bytes) :
    (loop key cap query).Answers key cap (query.splitOn ampersand) := by
  have hfirst : ∀ {query : Bytes}, ∃ rest, query.splitOn ampersand = query.takeWhile (· != ampersand) :: rest := by
    intro query
    cases h : query.dropWhile (· != ampersand)
    case cons => exact ⟨_, Split.splitOn_of_dropWhile h⟩
    case nil =>
      obtain ⟨hs, ht⟩ := Split.splitOn_of_dropWhile_nil h
      exact ⟨[], by rw [hs, ht]⟩
  fun_induction loop key cap query
  case case1 =>
    simp only [HttpQueryValue.Answers, NoEntry, List.splitOn_nil, List.mem_singleton, forall_eq]
    exact not_queryEntry_of_ne hk.symm
  case case2 query _ entry name value hname hlen =>
    obtain ⟨rest, hrest⟩ := @hfirst query
    rw [hrest]
    exact ⟨value, .here (queryEntry_iff.mpr ⟨hname, rfl⟩), hlen⟩
  case case3 query _ entry name value hname hlen =>
    obtain ⟨rest, hrest⟩ := @hfirst query
    rw [hrest]
    exact ⟨.here (queryEntry_iff.mpr ⟨hname, rfl⟩), Nat.not_le.mp hlen⟩
  case case4 query _ entry name hname hd =>
    obtain ⟨hs, ht⟩ := Split.splitOn_of_dropWhile_nil hd
    simp only [hs, HttpQueryValue.Answers, NoEntry, List.mem_singleton, forall_eq]
    exact ht ▸ not_queryEntry_of_ne hname
  case case5 query _ entry name hname c rest hd hi =>
    rw [Split.splitOn_of_dropWhile hd]
    exact hi.cons (not_queryEntry_of_ne hname)

-- The lookup finds the first entry with the key.
theorem httpQueryGetValue_iff (query key : CStr) (cap : Nat) (hk : key.chars ≠ []) (hc : 0 < cap) :
    (∀ v, httpQueryGetValue query key cap = .found v ↔
      FirstEntry key.chars (query.chars.splitOn ampersand) v ∧ v.length < cap) ∧
    (httpQueryGetValue query key cap = .tooLong ↔
      ∃ v, FirstEntry key.chars (query.chars.splitOn ampersand) v ∧ cap ≤ v.length) ∧
    (httpQueryGetValue query key cap = .missing ↔ NoEntry key.chars (query.chars.splitOn ampersand)) := by
  have hl : httpQueryGetValue query key cap = httpQueryGetValue.loop key.chars cap query.chars := by
    rw [httpQueryGetValue, if_neg (Nat.pos_iff_ne_zero.mp hc)]
  rw [hl]
  have ha := httpQueryGetValue.loop_answers hk cap query.chars
  generalize httpQueryGetValue.loop key.chars cap query.chars = r at ha
  refine ⟨fun v => ⟨fun h => by rwa [h] at ha, fun ⟨hv, hlen⟩ => ?_⟩,
    ⟨fun h => by rwa [h] at ha, fun ⟨v, hv, hlen⟩ => ?_⟩, ⟨fun h => by rwa [h] at ha, fun hn => ?_⟩⟩
  · cases r
    case missing => exact absurd ha hv.not_noEntry
    case found w => rw [hv.unique ha.left]
    case tooLong =>
      obtain ⟨w, hw, hwlen⟩ := ha
      rw [hv.unique hw] at hlen
      omega
  · cases r
    case missing => exact absurd ha hv.not_noEntry
    case tooLong => rfl
    case found w =>
      have := ha.right
      rw [hv.unique ha.left] at hlen
      omega
  · cases r
    case missing => rfl
    case found w => exact absurd hn ha.left.not_noEntry
    case tooLong =>
      obtain ⟨w, hw, _⟩ := ha
      exact absurd hn hw.not_noEntry

theorem httpQueryGetValue_iff_two :
    (∀ v, httpQueryGetValue (.lit "a=1&b=2") (.lit "b") 4 = .found v ↔
      FirstEntry (.lit "b" : CStr).chars ((.lit "a=1&b=2" : CStr).chars.splitOn ampersand) v ∧ v.length < 4) ∧
    (httpQueryGetValue (.lit "a=1&b=2") (.lit "b") 4 = .tooLong ↔
      ∃ v, FirstEntry (.lit "b" : CStr).chars ((.lit "a=1&b=2" : CStr).chars.splitOn ampersand) v ∧ 4 ≤ v.length) ∧
    (httpQueryGetValue (.lit "a=1&b=2") (.lit "b") 4 = .missing ↔
      NoEntry (.lit "b" : CStr).chars ((.lit "a=1&b=2" : CStr).chars.splitOn ampersand)) :=
  httpQueryGetValue_iff _ _ _ (by decide) (by decide)
