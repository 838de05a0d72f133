import HFile.Source.Cli

section

variable {σ α : Type} {f : σ → α → Option σ} {l : List α}

-- It does not matter which of two steps is taken first.
def Commutes (f : σ → α → Option σ) (a b : α) : Prop :=
  ∀ s, (f s a).bind (f · b) = (f s b).bind (f · a)

theorem foldlM_comm {a : α} (h : ∀ b ∈ l, Commutes f a b) (s : σ) :
    (f s a).bind (l.foldlM f ·) = (l.foldlM f s).bind (f · a) := by
  induction l generalizing s
  case nil => simp
  case cons b l hi =>
    rw [List.forall_mem_cons] at h
    calc
      _ = ((f s a).bind (f · b)).bind (l.foldlM f ·) := by rw [Option.bind_assoc]; rfl
      _ = (f s b).bind fun s => (f s a).bind (l.foldlM f ·) := by rw [h.left s, Option.bind_assoc]
      _ = (f s b).bind fun s => (l.foldlM f s).bind (f · a) := by simp only [hi h.right]
      _ = _ := by rw [← Option.bind_assoc]; rfl

-- Steps of one kind can be taken before all others.
theorem foldlM_filter (c : α → Bool)
    (h : ∀ a ∈ l, ∀ b ∈ l, c a = false → c b = true → Commutes f a b) (s : σ) :
    l.foldlM f s = ((l.filter c).foldlM f s).bind ((l.filter (!c ·)).foldlM f ·) := by
  induction l generalizing s
  case nil => rfl
  case cons a l hi =>
    have hstep : (a :: l).foldlM f s = (f s a).bind (l.foldlM f ·) := rfl
    have hl : ∀ a ∈ l, ∀ b ∈ l, c a = false → c b = true → Commutes f a b :=
      fun a ha b hb => h a (.tail _ ha) b (.tail _ hb)
    cases hc : c a
    case true =>
      rw [hstep, List.filter_cons_of_pos hc, List.filter_cons_of_neg (by simp [hc])]
      simp only [hi hl, List.foldlM_cons, Option.bind_eq_bind, Option.bind_assoc]
    case false =>
      have hcomm : ∀ b ∈ l.filter c, Commutes f a b :=
        fun b hb => h a (.head _) b (.tail _ (List.mem_filter.mp hb).left) hc (List.mem_filter.mp hb).right
      rw [hstep, List.filter_cons_of_neg (by simp [hc]), List.filter_cons_of_pos (by simp [hc])]
      simp only [hi hl, List.foldlM_cons, Option.bind_eq_bind]
      rw [← Option.bind_assoc, foldlM_comm hcomm, Option.bind_assoc]

end

def CliFlag.text (f : CliFlag) : CStr :=
  ⟨[minus, f.char], by cases f <;> decide⟩

-- Pairs of flags and values, as they are written on the command line.
def spell (ps : List (CliFlag × CStr)) : List CStr :=
  ps.flatMap fun p => [p.1.text, p.2]

-- The values that are given for a flag.
def values (f : CliFlag) (ps : List (CliFlag × CStr)) : List CStr :=
  (ps.filter (·.1 = f)).map Prod.snd

structure Grammatical (ps : List (CliFlag × CStr)) : Prop where
  action     : (values .d ps ++ values .c ps ++ values .g ps ++ values .m ps).length = 1
  output     : (values .o ps).length ≤ 1
  output_get : values .o ps ≠ [] → values .g ps ≠ []
  ip         : values .i ps ≠ [] → values .c ps ≠ [] ∨ values .g ps ≠ [] ∨ values .m ps ≠ []
  port       : ∀ v ∈ values .p ps, parsePort v ≠ none

-- What the pairs select.
def selected (ps : List (CliFlag × CStr)) : Opt where
  mode       := if values .d ps ≠ [] then .server else .client
  path       := (values .d ps ++ values .c ps).head?
  remotePath := (values .g ps).head?
  outputPath := (values .o ps).head?
  message    := (values .m ps).head?
  ip         := (values .i ps).getLast?.getD (.lit "127.0.0.1")
  port       := ((values .p ps).getLast?.bind parsePort).getD 8888
  msgType    :=
    if values .c ps ≠ [] then msgTypeSendFile
    else if values .g ps ≠ [] then msgTypeGetFile
    else if values .m ps ≠ [] then msgTypeTextMessage
    else 0

def ParseState.feed (st : ParseState) (p : CliFlag × CStr) : Option ParseState :=
  if st.duplicate p.1 then none else st.take p.2 p.1

theorem parseArgs.flag_eq_iff {a : CStr} {f : CliFlag} :
    parseArgs.flag a = .ok (some f) ↔ a = f.text := by
  constructor
  · intro h
    rw [flag] at h
    split at h
    case h_2 => cases h
    case h_1 a₀ a₁ ha =>
      split at h
      case isTrue => cases h
      case isFalse hm =>
        split at h
        case isTrue => cases h
        case isFalse =>
          split at h
          case h_1 => cases h
          case h_2 f hg =>
            cases h
            have hchar := List.find?_some hg
            simp only [ne_eq, not_or, not_not] at hm
            exact CStr.ext (by simpa [CliFlag.text, ha, hm.left] using (of_decide_eq_true hchar).symm)
  · rintro rfl
    cases f <;> rfl

-- Outside of control mode, the loop goes through a sequence of pairs.
theorem parseArgs.loop_ok_iff {st st' : ParseState} {args : List CStr} :
    parseArgs.loop false st args = .ok st' ↔
    ∃ ps, args = spell ps ∧ ps.foldlM ParseState.feed st = some st' := by
  constructor
  · intro h
    fun_induction parseArgs.loop false st args
    case case1 => exact ⟨[], rfl, by simpa using h⟩
    case case8 st a f hf _ hd v args st₁ ht hi =>
      have ⟨ps, hargs, hps⟩ := hi h
      refine ⟨(f, v) :: ps, ?_, ?_⟩
      · simp [spell, hargs, parseArgs.flag_eq_iff.mp hf]
      · simpa [ParseState.feed, hd, ht] using hps
    all_goals cases h
  · rintro ⟨ps, rfl, h⟩
    induction ps generalizing st
    case nil => simpa [loop, spell] using h
    case cons p ps hi =>
      have ⟨f, v⟩ := p
      simp only [List.foldlM_cons, Option.bind_eq_bind, Option.bind_eq_some_iff] at h
      have ⟨st₁, hfeed, hrest⟩ := h
      rw [ParseState.feed] at hfeed
      split at hfeed
      case isTrue => cases hfeed
      case isFalse hd =>
        have hflag : parseArgs.flag f.text = .ok (some f) := parseArgs.flag_eq_iff.mpr rfl
        simp only [spell, List.flatMap_cons, List.cons_append, List.nil_append]
        rw [loop, hflag]
        simp only [Bool.false_eq_true, false_and, if_false, hd, hfeed]
        exact hi hrest

def CliFlag.isAction : CliFlag → Bool
  | .d | .c | .g | .m => true
  | .o | .i | .p      => false

@[simp] theorem CliFlag.isAction_d : CliFlag.d.isAction = true  := rfl
@[simp] theorem CliFlag.isAction_c : CliFlag.c.isAction = true  := rfl
@[simp] theorem CliFlag.isAction_g : CliFlag.g.isAction = true  := rfl
@[simp] theorem CliFlag.isAction_m : CliFlag.m.isAction = true  := rfl
@[simp] theorem CliFlag.isAction_o : CliFlag.o.isAction = false := rfl
@[simp] theorem CliFlag.isAction_i : CliFlag.i.isAction = false := rfl
@[simp] theorem CliFlag.isAction_p : CliFlag.p.isAction = false := rfl

namespace ParseState

theorem duplicate_take {st st' : ParseState} {f f' : CliFlag} {v : CStr} (hne : f ≠ f')
    (ha : f.isAction = false ∨ f'.isAction = false) (h : st.take v f = some st') :
    st'.duplicate f' = st.duplicate f' := by
  have hport : f = .p → st'.duplicate f' = st.duplicate f' := by
    rintro rfl
    have ⟨port, _, hst⟩ := Option.map_eq_some_iff.mp h
    rw [← hst]
    cases f' <;> rfl
  cases f
  case p => exact hport rfl
  all_goals
    cases h
    cases f' <;> first | rfl | exact absurd rfl hne | (cases ha <;> contradiction)

theorem take_comm {f f' : CliFlag} (hne : f ≠ f') (ha : f.isAction = false) (v w : CStr)
    (st : ParseState) : (st.take v f).bind (take · w f') = (st.take w f').bind (take · v f) := by
  cases f
  case d | c | g | m => cases ha
  case p => cases f' <;> simp only [take] <;> cases parsePort v <;> first | rfl | contradiction
  all_goals
    cases f' <;> simp only [take] <;> first | rfl | contradiction | (cases parsePort w <;> rfl)

theorem feed_bind {st : ParseState} {p q : CliFlag × CStr}
    (h : ∀ {st'}, st.take p.2 p.1 = some st' → st'.duplicate q.1 = st.duplicate q.1) :
    (st.feed p).bind (feed · q) = if st.duplicate p.1 || st.duplicate q.1 then none
      else (st.take p.2 p.1).bind (take · q.2 q.1) := by
  cases ht : st.take p.2 p.1
  case none => simp [feed, ht]
  case some st' => by_cases hp : st.duplicate p.1 <;> simp [feed, ht, hp, h ht]

-- Only the flags that select what to do get in each other's way.
theorem feed_comm {p q : CliFlag × CStr} (hne : p.1 ≠ q.1) (ha : p.1.isAction = false) :
    Commutes feed p q := by
  intro st
  rw [feed_bind (duplicate_take hne (.inl ha)), feed_bind (duplicate_take hne.symm (.inr ha)),
    take_comm hne ha, Bool.or_comm]

theorem map_values (f : CliFlag) (ps : List (CliFlag × CStr)) :
    (values f ps).map (f, ·) = ps.filter (·.1 = f) := by
  rw [values, List.map_map]
  apply List.map_congr_left (g := id) _ |>.trans (List.map_id _)
  intro p hp
  have hf := (List.mem_filter.mp hp).right
  rw [decide_eq_true_eq] at hf
  simp [← hf]

-- The flags can be taken by kind.
theorem foldlM_feed (st : ParseState) (ps : List (CliFlag × CStr)) :
    ps.foldlM feed st = ((ps.filter (·.1.isAction)).foldlM feed st).bind fun st =>
      (((values .o ps).map (.o, ·)).foldlM feed st).bind fun st =>
      (((values .i ps).map (.i, ·)).foldlM feed st).bind
      (((values .p ps).map (.p, ·)).foldlM feed ·) := by
  simp only [map_values]
  have hne : ∀ {a b : CliFlag × CStr} {c : CliFlag → Bool}, c a.1 = false → c b.1 = true → a.1 ≠ b.1 :=
    fun ha hb h => by simp [h, hb] at ha
  have hrest : ∀ {l : List (CliFlag × CStr)} (c : CliFlag → Bool), (∀ a ∈ l, a.1.isAction = false) →
      ∀ st, l.foldlM feed st = ((l.filter (c ·.1)).foldlM feed st).bind
        ((l.filter (!c ·.1)).foldlM feed ·) :=
    fun c hl => foldlM_filter (c ·.1) fun a ha b _ hca hcb => feed_comm (hne hca hcb) (hl a ha)
  rw [foldlM_filter (·.1.isAction) (fun a _ b _ ha hb => feed_comm (hne ha hb) ha)]
  congr 1
  funext st
  rw [hrest (· = .o) (by simp), List.filter_filter, List.filter_filter]
  have ho : ∀ p : CliFlag × CStr, (decide (p.1 = .o) && !p.1.isAction) = decide (p.1 = .o) := by
    rintro ⟨f, -⟩
    cases f <;> rfl
  have hi : ∀ p : CliFlag × CStr,
      (decide (p.1 = .i) && (!decide (p.1 = .o) && !p.1.isAction)) = decide (p.1 = .i) := by
    rintro ⟨f, -⟩
    cases f <;> rfl
  have hp : ∀ p : CliFlag × CStr,
      (!decide (p.1 = .i) && (!decide (p.1 = .o) && !p.1.isAction)) = decide (p.1 = .p) := by
    rintro ⟨f, -⟩
    cases f <;> rfl
  simp only [ho]
  congr 1
  funext st
  rw [hrest (· = .i) (by simp), List.filter_filter, List.filter_filter]
  simp only [hi, hp]

theorem foldlM_feed_ip (st : ParseState) (vs : List CStr) :
    (vs.map (CliFlag.i, ·)).foldlM feed st = some { st with
      opt := { st.opt with ip := vs.getLast?.getD st.opt.ip }, ipSeen := st.ipSeen || vs ≠ [] } := by
  induction vs generalizing st
  case nil => simp
  case cons v vs hi =>
    simp only [List.map_cons, List.foldlM_cons, feed, duplicate, take, Bool.false_eq_true, if_false,
      Option.bind_eq_bind, Option.bind_some, hi]
    simp [List.getLast?_cons]

theorem foldlM_feed_port (st : ParseState) (vs : List CStr) :
    (vs.map (CliFlag.p, ·)).foldlM feed st = if ∀ v ∈ vs, parsePort v ≠ none then some { st with
      opt := { st.opt with port := (vs.getLast?.bind parsePort).getD st.opt.port } } else none := by
  induction vs generalizing st
  case nil => simp
  case cons v vs hi =>
    simp only [List.map_cons, List.foldlM_cons, feed, duplicate, take, Bool.false_eq_true, if_false,
      Option.bind_eq_bind, List.forall_mem_cons]
    cases hp : parsePort v
    case none => simp
    case some port =>
      simp only [Option.map_some, Option.bind_some, hi]
      cases hl : vs.getLast?
      case none =>
        have hv : vs = [] := by simpa using hl
        simp [hv, hp]
      case some w =>
        have hw : w ∈ vs := List.mem_of_getLast? hl
        by_cases hall : ∀ v ∈ vs, parsePort v ≠ none
        case pos =>
          have ⟨port', hport'⟩ := Option.ne_none_iff_exists'.mp (hall w hw)
          simp [List.getLast?_cons, hl, hport']
        case neg => simp [hall]

theorem foldlM_feed_output {st : ParseState} (hs : st.outputSeen = false) (vs : List CStr) :
    (vs.map (CliFlag.o, ·)).foldlM feed st = if vs.length ≤ 1 then some { st with
      opt := { st.opt with outputPath := vs.head?.or st.opt.outputPath }, outputSeen := vs ≠ [] }
      else none := by
  match vs with
  | []          => simp [← hs]
  | [v]         => simp [feed, duplicate, take, hs]
  | v :: w :: _ => simp [feed, duplicate, take, hs]

-- Every flag that selects what to do is counted.
theorem count_of_foldlM_feed {st st' : ParseState} {ps : List (CliFlag × CStr)}
    (ha : ∀ p ∈ ps, p.1.isAction) (h : ps.foldlM feed st = some st') :
    st'.serverSelected.toNat + st'.clientActions =
      st.serverSelected.toNat + st.clientActions + ps.length ∧ st'.outputSeen = st.outputSeen := by
  induction ps generalizing st
  case nil =>
    cases h
    simp
  case cons p ps hi =>
    have ⟨f, v⟩ := p
    simp only [List.foldlM_cons, Option.bind_eq_bind, Option.bind_eq_some_iff] at h
    rw [List.forall_mem_cons] at ha
    have ⟨st₁, hfeed, hrest⟩ := h
    have ⟨hc, ho⟩ := hi ha.right hrest
    have hstep : st₁.serverSelected.toNat + st₁.clientActions =
        st.serverSelected.toNat + st.clientActions + 1 ∧ st₁.outputSeen = st.outputSeen := by
      rw [feed] at hfeed
      split at hfeed
      case isTrue => cases hfeed
      case isFalse hd =>
        cases f
        case o | i | p => cases ha.left
        all_goals
          cases hfeed
          simp_all [duplicate]
          try omega
    rw [List.length_cons, hc, ho]
    exact ⟨by omega, hstep.right⟩

end ParseState

theorem length_filter_isAction (ps : List (CliFlag × CStr)) :
    (ps.filter (·.1.isAction)).length =
      (values .d ps ++ values .c ps ++ values .g ps ++ values .m ps).length := by
  induction ps
  case nil => rfl
  case cons p ps hi =>
    have ⟨f, v⟩ := p
    simp only [List.length_append, values, List.length_map] at hi ⊢
    rw [List.filter_cons]
    cases f <;> simp <;> omega

theorem values_filter_isAction {f : CliFlag} (hf : f.isAction) (ps : List (CliFlag × CStr)) :
    values f (ps.filter (·.1.isAction)) = values f ps := by
  rw [values, values, List.filter_filter]
  congr 1
  apply List.filter_congr
  intro p _
  by_cases hp : p.1 = f
  case pos => simp [hp, hf]
  case neg => simp [hp]

-- What the flags that do not select anything leave of a state.
def ParseState.refine (st : ParseState) (ps : List (CliFlag × CStr)) : ParseState :=
  { st with
    opt := { st.opt with
      outputPath := (values .o ps).head?.or st.opt.outputPath
      ip         := (values .i ps).getLast?.getD st.opt.ip
      port       := ((values .p ps).getLast?.bind parsePort).getD st.opt.port }
    outputSeen := values .o ps ≠ []
    ipSeen     := st.ipSeen || values .i ps ≠ [] }

theorem ParseState.foldlM_feed_eq_some_iff {st st' : ParseState} (hs : st.outputSeen = false)
    {ps : List (CliFlag × CStr)} : ps.foldlM feed st = some st' ↔
    (values .o ps).length ≤ 1 ∧ (∀ v ∈ values .p ps, parsePort v ≠ none) ∧
    ∃ st₁, (ps.filter (·.1.isAction)).foldlM feed st = some st₁ ∧ st' = st₁.refine ps := by
  have hseen : ∀ {st₁}, (ps.filter (·.1.isAction)).foldlM feed st = some st₁ →
      st₁.outputSeen = false :=
    fun h => (count_of_foldlM_feed (fun p hp => (List.mem_filter.mp hp).right) h).right.trans hs
  rw [foldlM_feed]
  simp only [Option.bind_eq_some_iff]
  constructor
  · rintro ⟨st₁, h₁, st₂, h₂, st₃, h₃, h₄⟩
    rw [foldlM_feed_output (hseen h₁), Option.ite_none_right_eq_some, Option.some.injEq] at h₂
    rw [foldlM_feed_ip, Option.some.injEq] at h₃
    rw [foldlM_feed_port, Option.ite_none_right_eq_some, Option.some.injEq] at h₄
    refine ⟨h₂.left, h₄.left, st₁, h₁, ?_⟩
    rw [← h₄.right, ← h₃, ← h₂.right]
    rfl
  · rintro ⟨ho, hp, st₁, h₁, rfl⟩
    have h₂ := foldlM_feed_output (hseen h₁) (values .o ps)
    rw [if_pos ho] at h₂
    refine ⟨st₁, h₁, _, h₂, _, foldlM_feed_ip .., ?_⟩
    rw [foldlM_feed_port, if_pos hp]
    rfl

theorem spell_injective : Function.Injective spell := by
  intro ps qs h
  induction ps generalizing qs
  case nil =>
    cases qs
    case nil  => rfl
    case cons => simp [spell] at h
  case cons p ps hi =>
    cases qs
    case nil => simp [spell] at h
    case cons q qs =>
      simp only [spell, List.flatMap_cons, List.cons_append, List.nil_append, List.cons.injEq] at h
      have hf : parseArgs.flag q.1.text = .ok (some p.1) := parseArgs.flag_eq_iff.mpr h.left.symm
      rw [parseArgs.flag_eq_iff.mpr rfl] at hf
      rw [hi h.right.right, Prod.ext (by simpa using hf.symm) h.right.left]

namespace parseArgs

theorem loop_error {control : Bool} {st : ParseState} {args : List CStr} {r : ParseResult}
    (h : loop control st args = .error r) (opt : Opt) : r ≠ .ok opt := by
  fun_induction loop control st args
  case case8 hi => exact hi h
  all_goals
    cases h
    try simp

theorem run_ok_iff {control : Bool} {mode : Mode} {args : List CStr} {opt : Opt} :
    run control mode args = .ok opt ↔
    ∃ st, loop control (init mode) args = .ok st ∧ finish control st = .ok opt := by
  rw [run]
  split
  case h_1 r hr => simp [hr, loop_error hr opt]
  case h_2 st hst => simp [hst]

-- Exactly one selection passes the checks after the loop.
theorem count_of_finish {st : ParseState} {opt : Opt} (h : finish false st = .ok opt) :
    st.serverSelected.toNat + st.clientActions = 1 := by
  rw [finish] at h
  split at h <;> try cases h
  split at h <;> try cases h
  split at h <;> try cases h
  split at h <;> try cases h
  cases hs : st.serverSelected <;> simp_all
  omega

-- The loop and the checks after it, for a sequence of pairs.
theorem run_spell_ok_iff {mode : Mode} {ps : List (CliFlag × CStr)} {opt : Opt} :
    run false mode (spell ps) = .ok opt ↔ Grammatical ps ∧ opt = selected ps := by
  rw [run_ok_iff]
  have hloop : ∀ st, loop false (init mode) (spell ps) = .ok st ↔
      (values .o ps).length ≤ 1 ∧ (∀ v ∈ values .p ps, parsePort v ≠ none) ∧
      ∃ st₁, (ps.filter (·.1.isAction)).foldlM ParseState.feed (init mode) = some st₁ ∧
        st = st₁.refine ps := by
    intro st
    rw [← ParseState.foldlM_feed_eq_some_iff (rfl : (init mode).outputSeen = false), loop_ok_iff]
    exact ⟨fun ⟨_, hs, h⟩ => spell_injective hs ▸ h, fun h => ⟨ps, rfl, h⟩⟩
  simp only [hloop]
  by_cases hlen : (ps.filter (·.1.isAction)).length = 1
  case neg =>
    constructor
    · rintro ⟨_, ⟨_, _, st₁, h₁, rfl⟩, hf⟩
      have hcount := (ParseState.count_of_foldlM_feed (fun p hp => (List.mem_filter.mp hp).right) h₁).left
      have hone := count_of_finish hf
      simp only [ParseState.refine, init, Bool.toNat_false, Nat.zero_add] at hone hcount
      exact absurd (hcount.symm.trans hone) hlen
    · exact fun h => absurd ((length_filter_isAction ps).trans h.left.action) hlen
  case pos =>
    have ⟨⟨f, v⟩, hfv⟩ := List.length_eq_one_iff.mp hlen
    have hv : ∀ f', f'.isAction → values f' ps = if f = f' then [v] else [] := by
      intro f' hf'
      rw [← values_filter_isAction hf', hfv]
      by_cases h : f = f' <;> simp [values, h]
    have hd := hv .d rfl
    have hc := hv .c rfl
    have hg := hv .g rfl
    have hm := hv .m rfl
    have hmem : (f, v) ∈ ps.filter (·.1.isAction) := hfv ▸ List.mem_singleton_self _
    have hf : f.isAction := (List.mem_filter.mp hmem).right
    have ⟨st₁, hst₁⟩ : ∃ st₁, ParseState.feed (init mode) (f, v) = some st₁ := by
      cases f <;> first | exact ⟨_, rfl⟩ | cases hf
    have hfin : finish false (st₁.refine ps) =
        if (values .o ps ≠ [] → f = .g) ∧ (values .i ps ≠ [] → f ≠ .d) then .ok (selected ps)
        else .err := by
      cases f
      case o | i | p => cases hf
      all_goals
        cases hst₁
        simp only [if_true, reduceCtorEq, if_false] at hd hc hg hm
        by_cases ho : values .o ps = [] <;> by_cases hi : values .i ps = [] <;>
          simp [finish, ParseState.refine, init, selected, ho, hi, hd, hc, hg, hm]
    have hgram : Grammatical ps ↔ (values .o ps).length ≤ 1 ∧
        (∀ v ∈ values .p ps, parsePort v ≠ none) ∧
        (values .o ps ≠ [] → f = .g) ∧ (values .i ps ≠ [] → f ≠ .d) := by
      have haction := (length_filter_isAction ps).symm.trans hlen
      have hget : values .g ps ≠ [] ↔ f = .g := by simp [hg]
      have hclient : values .c ps ≠ [] ∨ values .g ps ≠ [] ∨ values .m ps ≠ [] ↔ f ≠ .d := by
        rw [hc, hg, hm]
        cases f <;> simp at hf ⊢
      constructor
      · exact fun h => ⟨h.output, h.port, fun ho => hget.mp (h.output_get ho),
          fun hi => hclient.mp (h.ip hi)⟩
      · exact fun h => ⟨haction, h.left, fun ho => hget.mpr (h.right.right.left ho),
          fun hi => hclient.mpr (h.right.right.right hi), h.right.left⟩
    have hfold : ([(f, v)] : List _).foldlM ParseState.feed (init mode) = some st₁ := by
      simp [hst₁]
    simp only [hfv, hfold, Option.some.injEq, exists_eq_left', hgram]
    constructor
    · rintro ⟨_, ⟨ho, hp, rfl⟩, hok⟩
      rw [hfin] at hok
      split at hok
      case isTrue h  => exact ⟨⟨ho, hp, h⟩, by simpa using hok.symm⟩
      case isFalse h => cases hok
    · rintro ⟨⟨ho, hp, h⟩, rfl⟩
      exact ⟨_, ⟨ho, hp, rfl⟩, by rw [hfin, if_pos h]⟩

-- In control mode, the loop only takes addresses.
theorem loop_control {st st' : ParseState} {args : List CStr} (h : loop true st args = .ok st') :
    st'.opt.mode = st.opt.mode ∧ (st' = st ∧ args = [] ∨ st'.ipSeen) := by
  fun_induction loop true st args
  case case1 =>
    cases h
    simp
  case case8 st a f hf hc hd v args st₁ ht hi =>
    simp only [true_and, ne_eq, not_not] at hc
    subst hc
    cases ht
    have ⟨hmode, hrest⟩ := hi h
    refine ⟨hmode, .inr ?_⟩
    cases hrest
    case inl hrest => rw [hrest.left]
    case inr hrest => exact hrest
  all_goals cases h

theorem run_control_ok_iff {mode : Mode} (hm : mode = .status ∨ mode = .stop) {args : List CStr}
    {opt : Opt} : run true mode args = .ok opt ↔ args = [] ∧ opt = (init mode).opt := by
  rw [run_ok_iff]
  constructor
  · rintro ⟨st, hst, hf⟩
    have ⟨hmode, hrest⟩ := loop_control hst
    have hne : st.opt.mode ≠ .client := by cases hm <;> simp_all [init]
    cases hrest
    case inl h =>
      rw [h.left] at hf
      refine ⟨h.right, ?_⟩
      cases hm <;> simp_all [finish, init]
    case inr h => simp [finish, h, hne] at hf
  · rintro ⟨rfl, rfl⟩
    refine ⟨init mode, rfl, ?_⟩
    cases hm <;> simp_all [finish, init]

end parseArgs

-- What a command without flags leaves in `Opt`.
def controlOpt (mode : Mode) : Opt :=
  { mode, path := none, remotePath := none, outputPath := none, message := none,
    ip := .lit "127.0.0.1", port := 8888, msgType := 0 }

theorem spell_head_ne {ps : List (CliFlag × CStr)} {s : CStr} (h : s.chars.head? ≠ some minus) :
    (spell ps).head? ≠ some s := by
  cases ps
  case nil => simp [spell]
  case cons p ps =>
    intro hs
    simp only [spell, List.flatMap_cons, List.cons_append, List.head?_cons, Option.some.injEq] at hs
    rw [← hs] at h
    exact h rfl

theorem parseArgs_ok_iff {mode : Mode} {args : List CStr} {opt : Opt} :
    parseArgs mode args = .ok opt ↔
    (args = [.lit "status"] ∧ opt = controlOpt .status) ∨
    (args = [.lit "stop"] ∧ opt = controlOpt .stop) ∨
    ∃ ps, args = spell ps ∧ Grammatical ps ∧ opt = selected ps := by
  have hspell : ∀ {s : CStr} {rest ps}, s.chars.head? ≠ some minus → s :: rest ≠ spell ps :=
    fun h he => spell_head_ne h (by rw [← he]; rfl)
  have hne : (CStr.lit "stop") ≠ .lit "status" := by decide
  have hstatus : (CStr.lit "status").chars.head? ≠ some minus := by decide
  have hstop : (CStr.lit "stop").chars.head? ≠ some minus := by decide
  rw [parseArgs]
  split
  case isTrue h =>
    have ⟨rest, hargs⟩ := List.head?_eq_some_iff.mp h
    rw [parseArgs.run_control_ok_iff (.inl rfl)]
    simp [hargs, hspell hstatus, hne.symm, controlOpt, parseArgs.init]
  case isFalse h₁ =>
    split
    case isTrue h =>
      have ⟨rest, hargs⟩ := List.head?_eq_some_iff.mp h
      rw [parseArgs.run_control_ok_iff (.inr rfl)]
      simp [hargs, hspell hstop, hne, controlOpt, parseArgs.init]
    case isFalse h₂ =>
      have hno : ∀ {s : CStr}, args.head? ≠ some s → args ≠ [s] := fun hs he => hs (he ▸ rfl)
      simp only [hno h₁, hno h₂, false_and, false_or]
      constructor
      · intro h
        have ⟨st, hst, _⟩ := parseArgs.run_ok_iff.mp h
        have ⟨ps, hargs, _⟩ := parseArgs.loop_ok_iff.mp hst
        rw [hargs] at h
        exact ⟨ps, hargs, parseArgs.run_spell_ok_iff.mp h⟩
      · rintro ⟨ps, rfl, h⟩
        exact parseArgs.run_spell_ok_iff.mpr h

theorem Grammatical.reorder {ps qs : List (CliFlag × CStr)} (hv : ∀ f, values f ps = values f qs)
    (h : Grammatical ps) : Grammatical qs where
  action     := by simpa only [hv] using h.action
  output     := by simpa only [hv] using h.output
  output_get := by simpa only [hv] using h.output_get
  ip         := by simpa only [hv] using h.ip
  port       := by simpa only [hv] using h.port

-- The command lines that are accepted are those of the grammar. Pairs can be reordered as long as
-- those with the same flag keep their order.
theorem parseArgs_accepts_grammar (mode : Mode) :
    (∀ args opt, parseArgs mode args = .ok opt ↔
      (args = [.lit "status"] ∧ opt = controlOpt .status) ∨
      (args = [.lit "stop"] ∧ opt = controlOpt .stop) ∨
      ∃ ps, args = spell ps ∧ Grammatical ps ∧ opt = selected ps) ∧
    (∀ ps qs opt, (∀ f, values f ps = values f qs) →
      parseArgs mode (spell ps) = .ok opt → parseArgs mode (spell qs) = .ok opt) := by
  refine ⟨fun args opt => parseArgs_ok_iff, ?_⟩
  intro ps qs opt hv h
  have hhead : ∀ {s : CStr}, s.chars.head? ≠ some minus → spell ps ≠ [s] :=
    fun hs he => spell_head_ne hs (by rw [he]; rfl)
  rw [parseArgs_ok_iff] at h ⊢
  obtain ⟨hs, _⟩ | ⟨hs, _⟩ | ⟨ps', hs, hg, ho⟩ := h
  · exact absurd hs (hhead (by decide))
  · exact absurd hs (hhead (by decide))
  · cases spell_injective hs
    exact .inr (.inr ⟨qs, rfl, hg.reorder hv, by rw [ho]; simp only [selected, hv]⟩)

theorem parseArgs_accepts_fetch :
    parseArgs .stop (spell [(.o, .lit "x"), (.p, .lit "80"), (.g, .lit "f")]) = .ok
      { mode := .client, path := none, remotePath := some (.lit "f"),
        outputPath := some (.lit "x"), message := none, ip := .lit "127.0.0.1", port := 80,
        msgType := msgTypeGetFile } :=
  (parseArgs_accepts_grammar .stop).right
    [(.g, .lit "f"), (.o, .lit "x"), (.p, .lit "80")] _ _ (by intro f; cases f <;> rfl) (by decide)
