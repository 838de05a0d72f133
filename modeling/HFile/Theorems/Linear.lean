import HFile.Theorems.Ownership

section

variable {ι : Type} [DecidableEq ι]

-- The server, when the connections take turns as given by a schedule.
def serverRun (conns : ι → Connection) (baseDir : CStr) (w : World) (sched : List ι) :
    Pool Sys World ι Outcome :=
  (Pool.start w (fun i => (conns i).serve baseDir)).run World.handle sched

-- `i` stands before `j` in a list.
def Precedes (order : List ι) (i j : ι) : Prop :=
  ∃ pre post, order = pre ++ i :: post ∧ j ∈ post

-- The run is equivalent to serving the requests in `order` one after the other. An upload that has
-- failed is not among them, and downloads have sent what the store held at their turn. The order
-- is one in which a request that was finished before another one began comes first, and all names
-- have the contents that they have after serving the requests one after the other, apart from those
-- that are in use by unfinished uploads, which do not exist then.
structure Linearizes (conns : ι → Connection) (baseDir : CStr) (w : World) (sched : List ι)
    (order : List ι) : Prop where
  nodup : order.Nodup
  uploaded : ∀ i path, (serverRun conns baseDir w sched).result i = some (.upload (.ok path)) →
    i ∈ order
  failed : ∀ i r, (serverRun conns baseDir w sched).result i = some (.upload (.error r)) → i ∉ order
  downloaded : ∀ i bs, (serverRun conns baseDir w sched).result i = some (.download (some bs)) →
    ∃ pre post path, order = pre ++ i :: post ∧ (conns i).fullPath baseDir = some path ∧
      replay conns baseDir w.files.view pre path = some (.file bs)
  opened : ∀ i bs, (serverRun conns baseDir w sched).result i = some (.download (some bs)) →
    ∃ s₁ s₂ path b f, sched = s₁ ++ i :: s₂ ∧
      ((serverRun conns baseDir w s₁).procs i).next = some (.openRead path b f) ∧
      (conns i).fullPath baseDir = some path ∧
      (serverRun conns baseDir w s₁).world.files.view path = some (.file bs)
  realtime : ∀ s₁ s₂ i j, sched = s₁ ++ s₂ → (serverRun conns baseDir w s₁).result i ≠ none →
    j ∉ s₁ → i ∈ order → j ∈ order → Precedes order i j
  store : ∀ p, (∀ i, (serverRun conns baseDir w sched).result i = none →
      held (serverRun conns baseDir w sched).log i ≠ some p) →
    (serverRun conns baseDir w sched).world.files.view p =
      replay conns baseDir w.files.view order p
  temps : ∀ p i, held (serverRun conns baseDir w sched).log i = some p →
    replay conns baseDir w.files.view order p = none

section

variable {conns : ι → Connection} {baseDir : CStr} {w : World} {sched : List ι} {i : ι}

theorem serverRun_append (conns : ι → Connection) (baseDir : CStr) (w : World) (s₁ s₂ : List ι) :
    serverRun conns baseDir w (s₁ ++ s₂) = (serverRun conns baseDir w s₁).run World.handle s₂ :=
  Pool.run_append ..

theorem serverRun_kept (hd : ∀ i, (conns i).env.direct = [])
    (hg : Pool.Guarded World.handle Clear (.start w (fun i => (conns i).serve baseDir)) sched) :
    (serverRun conns baseDir w sched).Kept (fun i => (conns i).contract baseDir)
      (fun i => (conns i).Ends) (Consistent conns baseDir w.files.view) := by
  apply Pool.Kept.run (fun h hc hp ha => h.progress hc hp ha) _ hg
  exact ⟨_, .start conns baseDir w, fun i => Connection.serve_follows (hd i)⟩

-- A connection that has finished holds no temporary file.
theorem Connection.Ends.tmp {c : Connection} {a : Outcome} {x : Phase} (h : c.Ends a x) :
    x.tmp = none := by
  cases a
  case upload r =>
    cases r <;> cases (h : _ = _) <;> rfl
  case download content =>
    cases content
    case none =>
      cases h
      case inl h => cases h; rfl
      case inr h =>
        have ⟨_, _, h⟩ := h
        cases h
        rfl
    case some =>
      have ⟨_, _, h⟩ := h
      cases h
      rfl

-- A request that is finished before another one begins takes effect first.
theorem precedes_of_finished {s₁ s₂ : List ι} {j : ι} (hs : sched = s₁ ++ s₂)
    (hr : (serverRun conns baseDir w s₁).result i ≠ none) (hj : j ∉ s₁)
    (hi' : i ∈ effectOrder (serverRun conns baseDir w sched).log)
    (hj' : j ∈ effectOrder (serverRun conns baseDir w sched).log) :
    Precedes (effectOrder (serverRun conns baseDir w sched).log) i j := by
  subst hs
  rw [serverRun_append] at hi' hj' ⊢
  have hi : i ∈ effectOrder (serverRun conns baseDir w s₁).log := by
    have ⟨x, hx, he⟩ := mem_effectOrder.mp hi'
    exact mem_effectOrder.mpr ⟨x, Pool.mem_log_of_result hr hx, he⟩
  have hn : j ∉ effectOrder (serverRun conns baseDir w s₁).log := by
    intro hm
    have ⟨x, hx, _⟩ := mem_effectOrder.mp hm
    cases Pool.mem_of_log_run hx
    case inl h => cases h
    case inr h => exact hj h
  have ⟨rest, hrest⟩ := effectOrder_isPrefix
    (Pool.log_run_isPrefix (h := World.handle) (serverRun conns baseDir w s₁) s₂)
  have ⟨pre, mid, hpre⟩ := List.append_of_mem hi
  rw [← hrest, List.mem_append] at hj'
  refine ⟨pre, mid ++ rest, ?_, List.mem_append_right _ (hj'.resolve_left hn)⟩
  rw [← hrest, hpre, List.append_assoc, List.cons_append]

-- A download has sent what its target held when it was opened.
theorem opened_of_downloaded (hd : ∀ i, (conns i).env.direct = [])
    (hg : Pool.Guarded World.handle Clear (.start w (fun i => (conns i).serve baseDir)) sched)
    {bs : Bytes} {pre post : List ι} {path : CStr} (hr : (conns i).request = .download (conns i).target)
    (ho : effectOrder (serverRun conns baseDir w sched).log = pre ++ i :: post)
    (hp : (conns i).fullPath baseDir = some path)
    (hc : replay conns baseDir w.files.view pre path = some (.file bs)) :
    ∃ s₁ s₂ b f, sched = s₁ ++ i :: s₂ ∧
      ((serverRun conns baseDir w s₁).procs i).next = some (.openRead path b f) ∧
      (serverRun conns baseDir w s₁).world.files.view path = some (.file bs) := by
  have ⟨l, o, r, l', hl, hpre, he⟩ := effectOrder_split ho
  have ⟨s₁, s₂, k, hs, hlog, hk⟩ := Pool.turn_of_log (P := .start w (fun i => (conns i).serve baseDir)) hl
  have ⟨hg, hclear⟩ := (hs ▸ hg).turn
  have ⟨ls, hcons, hf⟩ := serverRun_kept hd hg
  have hfi := hf i
  rw [← serverRun] at hk hlog hclear
  rw [hk] at hfi
  have ha := hfi.left
  generalize hli : ls i = x at ha
  cases ha <;> try cases he
  case openRead path' b f hr' hp' =>
    cases hp.symm.trans hp'
    refine ⟨s₁, s₂, b, f, hs, by rw [hk]; rfl, ?_⟩
    have hord : effectOrder (serverRun conns baseDir w s₁).log = pre := by rw [hlog, ← hpre]; rfl
    rw [hcons.fits.view, hord, hc]
    intro j hj
    by_cases hji : j = i
    case pos => simp [hji, hli, Phase.tmp] at hj
    case neg => exact hclear _ (by rw [hk]; rfl) path rfl j hji (by rw [hcons.held, hj])
  case rename hr' _ _ => simp [hr] at hr'

theorem linearizes_effectOrder (hd : ∀ i, (conns i).env.direct = [])
    (hg : Pool.Guarded World.handle Clear (.start w (fun i => (conns i).serve baseDir)) sched) :
    Linearizes conns baseDir w sched (effectOrder (serverRun conns baseDir w sched).log) := by
  obtain ⟨ls, hc, hf⟩ := serverRun_kept hd hg
  constructor
  case nodup => exact hc.fits.nodup
  case uploaded =>
    intro i path hr
    have he := Pool.ends_of_result (hf i) hr
    have hl : ls i = .stored := he
    simp [hc.fits.mem, hl, Phase.effective]
  case failed =>
    intro i r hr
    have he := Pool.ends_of_result (hf i) hr
    have hl : ls i = .idle := he
    simp [hc.fits.mem, hl, Phase.effective]
  case downloaded =>
    intro i bs hr
    obtain ⟨_, n, he⟩ := Pool.ends_of_result (hf i) hr
    have hfi := hc.fits.each i
    rw [he] at hfi
    exact hfi.right.right
  case opened =>
    intro i bs hr
    obtain ⟨hr, n, he⟩ := Pool.ends_of_result (hf i) hr
    have hfi := hc.fits.each i
    rw [he] at hfi
    obtain ⟨pre, post, path, ho, hp, hb⟩ := hfi.right.right
    obtain ⟨s₁, s₂, b, f, hs, hn, hv⟩ := opened_of_downloaded hd hg hr ho hp hb
    exact ⟨s₁, s₂, path, b, f, hs, hn, hp, hv⟩
  case realtime => exact fun s₁ s₂ i j => precedes_of_finished
  case store =>
    intro p hp
    apply hc.fits.view
    intro i ht
    cases hr : (serverRun conns baseDir w sched).result i
    case none => exact hp i hr (by rw [hc.held, ht])
    case some => simp [(Pool.ends_of_result (hf i) hr).tmp] at ht
  case temps =>
    intro p i hp
    rw [hc.held] at hp
    exact hc.fits.absent hp

-- As long as no connection reaches for the temporary file of another one, every run is equivalent to
-- serving the requests one after the other.
theorem fileStore_linearizable (hd : ∀ i, (conns i).env.direct = [])
    (hg : Pool.Guarded World.handle Clear (.start w (fun i => (conns i).serve baseDir)) sched) :
    ∃ order, Linearizes conns baseDir w sched order :=
  ⟨_, linearizes_effectOrder hd hg⟩

end

-- Two clients that upload one byte each.
def twoUploads (target : Bool → CStr) (i : Bool) : Connection where
  request := .upload (if i then .protocol else .http) (target i) 1
  env     := .calm 1 [.data (if i then 1 else 2) []]

theorem uploads_to_one_target_linearizable :
    Pool.Guarded World.handle Clear
      (.start .empty (fun i => (twoUploads (fun _ => .lit "f") i).serve (.lit "d")))
      [true, false, true, false, true, false, true, false] ∧
    ∃ order, Linearizes (twoUploads (fun _ => .lit "f")) (.lit "d") .empty
      [true, false, true, false, true, false, true, false] order := by
  have hg : Pool.Guarded World.handle Clear
      (.start .empty (fun i => (twoUploads (fun _ => .lit "f") i).serve (.lit "d")))
      [true, false, true, false, true, false, true, false] := by
    decide +kernel
  exact ⟨hg, fileStore_linearizable (fun _ => rfl) hg⟩

-- One client uploads to the name under which the server keeps the upload of the other one.
def ontoTemp (i : Bool) : CStr :=
  if i then .lit "f" else .lit "f.tmp.1.0"

theorem upload_onto_temp_not_linearizable :
    ¬∃ order, Linearizes (twoUploads ontoTemp) (.lit "d") .empty
      [true, true, true, false, false, false, false, true] order := by
  rintro ⟨order, h⟩
  have hstored : ∀ i, i ∈ order := by
    intro i
    apply h.uploaded i (.lit "d" ++ .lit "/" ++ ontoTemp i)
    revert i
    decide +kernel
  have hlen : order.length ≤ 2 := h.nodup.length_le_card
  have hview := h.store (.lit "d/f") (by decide +kernel)
  have horder : order = [true, false] ∨ order = [false, true] := by
    have ht := hstored true
    have hf := hstored false
    match order, hlen with
    | [], _     => cases ht
    | [a], _    => cases List.mem_singleton.mp ht; cases List.mem_singleton.mp hf
    | [a, b], _ => cases a <;> cases b <;> simp_all
  cases horder
  case inl ho =>
    subst ho
    revert hview
    decide +kernel
  case inr ho =>
    subst ho
    revert hview
    decide +kernel

end
