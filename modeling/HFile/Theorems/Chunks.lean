import HFile.Theorems.Closed
import HFile.Theorems.Net

open Arrival (bytes)

-- Nothing but interruptions keeps the arrivals apart.
def Arrival.OnlyInterrupted (as : List Arrival) : Prop :=
  ∀ f, .fail f ∈ as → f = .EINTR

theorem Arrival.onlyInterrupted_push {bs : Bytes} {as : List Arrival} (h : OnlyInterrupted as) :
    OnlyInterrupted (push bs as) := by
  cases bs
  case nil  => exact h
  case cons =>
    intro f hf
    exact h f ((List.mem_cons.mp hf).resolve_left (by simp))

theorem Arrival.onlyInterrupted_recv (want : Nat) {as : List Arrival} (h : OnlyInterrupted as) :
    OnlyInterrupted (recv want as).2 := by
  cases as
  case nil => exact h
  case cons a as =>
    have htail : OnlyInterrupted as := fun f hf => h f (List.mem_cons_of_mem _ hf)
    cases a
    case data => exact onlyInterrupted_push htail
    case fail => exact htail

section Appended

variable {w : World} {i : Nat} {a b : Bytes}

-- The files after a `write` of some bytes to the file `i`.
def World.appended (w : World) (i : Nat) (bs : Bytes) : World :=
  (World.handle (.write i bs) w).2

-- All of the bytes fit into the file `i`.
def World.Takes (w : World) (i : Nat) (bs : Bytes) : Prop :=
  w.files.room i bs.length = bs.length

instance (w : World) (i : Nat) (bs : Bytes) : Decidable (w.Takes i bs) :=
  inferInstanceAs <| Decidable (_ = _)

namespace World

theorem appended_eq : w.appended i a =
    { w with files := w.files.setData i (w.files.data i ++ a.take (w.files.room i a.length)) } :=
  rfl

@[simp]
theorem data_appended : (w.appended i a).files.data i = w.files.data i ++ a.take (w.files.room i a.length) := by
  simp [appended_eq, Files.setData]

theorem room_le (fs : Files) (n : Nat) : fs.room i n ≤ n := by
  rw [Files.room]
  split
  · exact Nat.le_refl n
  · exact Nat.min_le_left ..

theorem room_le_of_limit {n : Nat} (hl : w.files.limit = some n) (k : Nat) :
    w.files.room i k = min k (n - (w.files.data i).length) := by
  rw [Files.room, hl]

theorem takes_of_no_limit (hl : w.files.limit = none) (bs : Bytes) : w.Takes i bs := by
  rw [Takes, Files.room, hl]

theorem takes_nil : w.Takes i [] :=
  Nat.le_zero.mp (room_le w.files 0)

theorem Takes.take (h : w.Takes i a) : a.take (w.files.room i a.length) = a := by
  rw [h, List.take_length]

theorem appended_nil : w.appended i [] = w := by
  rw [appended_eq, List.take_nil, List.append_nil, Files.setData, Function.update_eq_self]

-- Bytes are taken one after another.
theorem takes_append : w.Takes i (a ++ b) ↔ w.Takes i a ∧ (w.appended i a).Takes i b := by
  cases hl : w.files.limit
  case none =>
    have hl' : (w.appended i a).files.limit = none := hl
    exact iff_of_true (takes_of_no_limit hl _) ⟨takes_of_no_limit hl _, takes_of_no_limit hl' _⟩
  case some n =>
    have hl' : (w.appended i a).files.limit = some n := hl
    simp only [Takes, room_le_of_limit hl, room_le_of_limit hl', data_appended, List.length_append,
      List.length_take]
    omega

theorem appended_append (h : w.Takes i a) : w.appended i (a ++ b) = (w.appended i a).appended i b := by
  have hroom : w.files.room i (a ++ b).length = a.length + (w.appended i a).files.room i b.length := by
    cases hl : w.files.limit
    case none => 
      have hl' : (w.appended i a).files.limit = none := hl
      rw [Files.room, hl, Files.room, hl', List.length_append]
    case some n =>
      have hl' : (w.appended i a).files.limit = some n := hl
      rw [Takes, room_le_of_limit hl] at h
      simp only [room_le_of_limit hl, room_le_of_limit hl', data_appended, List.length_append, List.length_take]
      omega
  rw [appended_eq, hroom, List.take_length_add_append, appended_eq (w := w.appended i a), data_appended, h.take,
    appended_eq, h.take]
  simp [Files.setData]

-- What comes after bytes that do not fit is lost.
theorem appended_of_not_takes (h : ¬w.Takes i a) : w.appended i (a ++ b) = w.appended i a := by
  cases hl : w.files.limit
  case none => exact absurd (takes_of_no_limit hl a) h
  case some n =>
    rw [Takes, room_le_of_limit hl] at h
    have hle : (a ++ b).length = a.length + b.length := List.length_append
    rw [appended_eq, appended_eq, room_le_of_limit hl, room_le_of_limit hl]
    rw [show min (a ++ b).length (n - (w.files.data i).length) = min a.length (n - (w.files.data i).length) by omega,
      List.take_append_of_le_length (Nat.min_le_left ..)]

theorem takes_room (n : Nat) : w.Takes i (a.take (w.files.room i n)) := by
  cases hl : w.files.limit
  case none => exact takes_of_no_limit hl _
  case some m =>
    simp only [Takes, room_le_of_limit hl, List.length_take]
    omega

end World

end Appended

section Received

variable {w : World} {i : Nat} {ts : List Transfer}

-- With outcomes that make progress, all of the bytes are written unless they do not fit.
theorem fsWriteAll.run (i : Nat) (bs : Bytes) (ht : ∀ t ∈ ts, t.Benign) :
    ∃ r ts', (fsWriteAll.loop i ts bs).run World.handle w = ((r, ts'), w.appended i bs) ∧
      (r = some bs.length ↔ w.Takes i bs) ∧ ts' ⊆ ts := by
  fun_induction fsWriteAll.loop i ts bs generalizing w
  case case1 ts => exact ⟨_, _, by rw [World.appended_nil]; rfl, iff_of_true rfl World.takes_nil, List.Subset.refl _⟩
  case case2 ts bs hb ts' hn hi =>
    have hsub := Transfer.next_subset hn
    obtain ⟨r, ts'', he, hr, hs⟩ := hi fun t h => ht t (hsub h)
    exact ⟨r, ts'', he, hr, List.Subset.trans hs hsub⟩
  case case3 ts bs hb f ts' hn hf =>
    have hmem : .fail f ∈ ts := by rw [Transfer.next_fail hn]; exact List.mem_cons_self
    exact absurd (ht _ hmem) hf
  case case4 ts bs hb ts' hn =>
    cases ts
    case nil =>
      have hlen : bs.length = 0 := Transfer.moves.inj (Prod.mk.inj hn).left
      exact absurd (List.length_eq_zero_iff.mp hlen) hb
    case cons t ts =>
      cases hn
      exact absurd (ht _ List.mem_cons_self) (by simp [Transfer.Benign])
  case case5 ts bs hb n ts' hn hpos hi =>
    have hsub := Transfer.next_subset hn
    have hwrite : World.handle (.write i (bs.take n)) w =
        (w.files.room i (bs.take n).length, w.appended i (bs.take n)) := rfl
    have hsplit := List.take_append_drop (w.files.room i (bs.take n).length) bs
    have hroom := World.room_le (i := i) w.files (bs.take n).length
    rw [Program.run_bind, Program.perform, Program.run_call, Program.run_ret, hwrite]
    dsimp only
    by_cases hm : w.files.room i (bs.take n).length = 0
    case pos =>
      have hlost : ¬w.Takes i (bs.take n) := by
        have hb := List.length_pos_iff.mpr hb
        rw [World.Takes, hm, List.length_take]
        omega
      have hbs : ¬w.Takes i bs := by
        intro h
        rw [← List.take_append_drop n bs] at h
        exact hlost (World.takes_append.mp h).left
      have happ : w.appended i (bs.take n) = w.appended i bs := by
        rw [← World.appended_of_not_takes (b := bs.drop n) hlost, List.take_append_drop]
      rw [dif_pos hm, happ]
      exact ⟨none, ts', rfl, iff_of_false (by simp) hbs, hsub⟩
    case neg =>
      generalize hk : w.files.room i (bs.take n).length = k at *
      have hle : k ≤ (bs.take n).length := hroom
      have htake : w.Takes i (bs.take k) := by
        have h := World.takes_room (w := w) (i := i) (a := bs.take n) (bs.take n).length
        rw [hk, List.take_take, Nat.min_eq_left (by rw [List.length_take] at hle; omega)] at h
        exact h
      have happ : w.appended i (bs.take n) = w.appended i (bs.take k) := by
        have hkk : w.files.room i (bs.take k).length = (bs.take k).length := htake
        rw [World.appended_eq, World.appended_eq, hk, hkk, List.take_length, List.take_take,
          Nat.min_eq_left (by rw [List.length_take] at hle; omega)]
      obtain ⟨r, ts'', he, hr, hs⟩ := hi k hm (w := w.appended i (bs.take k)) fun t h => ht t (hsub h)
      rw [dif_neg hm, happ, Program.run_bind, he]
      refine ⟨r.map (k + ·), ts'', ?_, ?_, List.Subset.trans hs hsub⟩
      case refine_1 => rw [← World.appended_append htake, hsplit]; rfl
      case refine_2 =>
        have htakes : w.Takes i bs ↔ (w.appended i (bs.take k)).Takes i (bs.drop k) := by
          rw [← hsplit, World.takes_append, hsplit]
          exact and_iff_right htake
        rw [htakes, ← hr]
        have hlen : k ≤ bs.length := hle.trans (by simp)
        cases r <;> simp
        omega

-- The result of receiving `n` bytes of the stream `s` into the file `i`.
def World.received (w : World) (i : Nat) (s : Bytes) (n : Nat) : NetRecvFileResult :=
  if w.Takes i (s.take n) then if s.length < n then .eof else .ok else .io

namespace World

variable {s got : Bytes} {n : Nat}

theorem received_zero : w.received i s 0 = .ok := by
  rw [received, if_pos (by rw [List.take_zero]; exact takes_nil), if_neg (Nat.not_lt_zero _)]

theorem received_nil (hn : 0 < n) : w.received i [] n = .eof := by
  rw [received, if_pos (by rw [List.take_nil]; exact takes_nil), if_pos (by simpa using hn)]

-- Receiving goes on after what has been taken.
theorem received_append (rest : Bytes) (hg : got.length ≤ n) (ht : w.Takes i got) :
    w.received i (got ++ rest) n = (w.appended i got).received i rest (n - got.length) ∧
    w.appended i ((got ++ rest).take n) = (w.appended i got).appended i (rest.take (n - got.length)) := by
  have htake : (got ++ rest).take n = got ++ rest.take (n - got.length) := by
    rw [List.take_append, List.take_of_length_le hg]
  constructor
  case left =>
    have hiff := takes_append (w := w) (i := i) (a := got) (b := rest.take (n - got.length))
    rw [and_iff_right ht] at hiff
    have hlt : (got ++ rest).length < n ↔ rest.length < n - got.length := by
      rw [List.length_append]
      omega
    simp only [received, htake, hlt, hiff]
  case right => rw [htake, appended_append ht]

theorem received_stop (rest : Bytes) (hg : got.length ≤ n) (ht : ¬w.Takes i got) :
    w.received i (got ++ rest) n = .io ∧ w.appended i ((got ++ rest).take n) = w.appended i got := by
  have htake : (got ++ rest).take n = got ++ rest.take (n - got.length) := by
    rw [List.take_append, List.take_of_length_le hg]
  rw [received, htake]
  exact ⟨if_neg fun h => ht (takes_append.mp h).left, appended_of_not_takes ht⟩

end World

-- What is left of the arrivals and of the outcomes when `n` bytes were to be received with the result `r`.
structure LeftOver (as : List Arrival) (ts : List Transfer) (n : Nat) (r : NetRecvFileResult) (as' : List Arrival)
    (ts' : List Transfer) : Prop where
  interrupted : Arrival.OnlyInterrupted as'
  outcomes    : ts' ⊆ ts
  rest        : r = .ok → bytes as' = (bytes as).drop n

theorem LeftOver.prepend {as as' as'' : List Arrival} {ts ts' ts'' : List Transfer} {got : Bytes} {n : Nat}
    {r : NetRecvFileResult} (hb : bytes as = got ++ bytes as') (hg : got.length ≤ n) (hs : ts' ⊆ ts)
    (h : LeftOver as' ts' (n - got.length) r as'' ts'') : LeftOver as ts n r as'' ts'' where
  interrupted := h.interrupted
  outcomes    := List.Subset.trans h.outcomes hs
  rest hr     := by rw [h.rest hr, hb, List.drop_append, List.drop_eq_nil_of_le hg, List.nil_append]

theorem netRecvFileAll.pipe_run {as : List Arrival} (ha : Arrival.OnlyInterrupted as) (ht : ∀ t ∈ ts, t.Benign)
    (remaining moved : Nat) :
    ∃ as' ts', (netRecvFileAll.pipe i as ts remaining moved).run World.handle w =
      ((w.received i (bytes as) remaining, as', ts'), w.appended i ((bytes as).take remaining)) ∧
      LeftOver as ts remaining (w.received i (bytes as) remaining) as' ts' := by
  fun_induction netRecvFileAll.pipe i as ts remaining moved generalizing w
  case case1 as ts moved =>
    refine ⟨as, ts, ?_, ha, List.Subset.refl _, fun _ => rfl⟩
    rw [World.received_zero, List.take_zero, World.appended_nil]
    rfl
  case case2 as ts remaining moved hn f as' hrecv hc =>
    cases Arrival.recv_error hrecv
    have hf := ha f List.mem_cons_self
    rw [hf] at hc
    exact absurd hc.left (by decide)
  case case3 as ts remaining moved hn as' hrecv hc hi =>
    have ha' := Arrival.onlyInterrupted_recv (min chunkSize remaining) ha
    rw [hrecv] at ha'
    cases Arrival.recv_error hrecv
    obtain ⟨as'', ts'', he, hl⟩ := hi ha' ht
    exact ⟨as'', ts'', he, hl.interrupted, hl.outcomes, hl.rest⟩
  case case4 as ts remaining moved hn f as' hrecv hc hf =>
    cases Arrival.recv_error hrecv
    exact absurd (ha f List.mem_cons_self) hf
  case case5 as ts remaining moved hn as' hrecv =>
    have hpos : 0 < min chunkSize remaining := by
      have hc : 0 < chunkSize := by decide
      omega
    obtain ⟨rfl, rfl⟩ := Arrival.recv_ok_nil hpos hrecv
    rw [Arrival.bytes_nil, World.received_nil (Nat.pos_of_ne_zero hn), List.take_nil, World.appended_nil]
    exact ⟨[], ts, rfl, ha, List.Subset.refl _, fun hr => absurd hr (by decide)⟩
  case case6 as ts remaining moved hn got as' hrecv hg hi =>
    have ha' := Arrival.onlyInterrupted_recv (min chunkSize remaining) ha
    rw [hrecv] at ha'
    have hle : got.length ≤ remaining := (Arrival.recv_ok_length_le hrecv).trans (Nat.min_le_right ..)
    have hb := Arrival.recv_ok_bytes hrecv
    obtain ⟨r, ts', he, hr, hs⟩ := fsWriteAll.run (w := w) i got ht
    rw [Program.run_bind, he, hb]
    dsimp only
    by_cases htakes : w.Takes i got
    case pos =>
      obtain ⟨h₁, h₂⟩ := World.received_append (bytes as') hle htakes
      rw [if_neg (not_not.mpr (hr.mpr htakes)), h₁, h₂]
      obtain ⟨as'', ts'', hrun, hl⟩ := hi ts' ha' fun t h => ht t (hs h)
      exact ⟨as'', ts'', hrun, hl.prepend hb hle hs⟩
    case neg =>
      obtain ⟨h₁, h₂⟩ := World.received_stop (bytes as') hle htakes
      rw [if_pos fun h => htakes (hr.mp h), h₁, h₂]
      exact ⟨as', ts', rfl, ha', hs, fun hr => absurd hr (by decide)⟩

theorem netRecvFileBuffered.run {as : List Arrival} (ha : Arrival.OnlyInterrupted as) (ht : ∀ t ∈ ts, t.Benign)
    {cap : Nat} (hcap : 0 < cap) (remaining : Nat) :
    ∃ as' ts', (netRecvFileBuffered.loop i cap as ts remaining).run World.handle w =
      ((w.received i (bytes as) remaining, as', ts'), w.appended i ((bytes as).take remaining)) := by
  fun_induction netRecvFileBuffered.loop i cap as ts remaining generalizing w
  case case1 as ts =>
    exact ⟨as, ts, by rw [World.received_zero, List.take_zero, World.appended_nil]; rfl⟩
  case case2 as ts remaining hn as' hrecv hi =>
    have ha' := Arrival.onlyInterrupted_recv (min cap remaining) ha
    rw [hrecv] at ha'
    cases Arrival.recv_error hrecv
    exact hi ha' ht
  case case3 as ts remaining hn f as' hrecv hf =>
    cases Arrival.recv_error hrecv
    exact absurd (ha f List.mem_cons_self) hf
  case case4 as ts remaining hn as' hrecv =>
    obtain ⟨rfl, rfl⟩ := Arrival.recv_ok_nil (by omega) hrecv
    refine ⟨[], ts, ?_⟩
    rw [Arrival.bytes_nil, World.received_nil (Nat.pos_of_ne_zero hn), List.take_nil, World.appended_nil]
    rfl
  case case5 as ts remaining hn got as' hrecv hg hi =>
    have ha' := Arrival.onlyInterrupted_recv (min cap remaining) ha
    rw [hrecv] at ha'
    have hle : got.length ≤ remaining := (Arrival.recv_ok_length_le hrecv).trans (Nat.min_le_right ..)
    obtain ⟨r, ts', he, hr, hs⟩ := fsWriteAll.run (w := w) i got ht
    rw [Program.run_bind, he, Arrival.recv_ok_bytes hrecv]
    dsimp only
    by_cases htakes : w.Takes i got
    case pos =>
      obtain ⟨h₁, h₂⟩ := World.received_append (bytes as') hle htakes
      rw [if_neg (not_not.mpr (hr.mpr htakes)), h₁, h₂]
      exact hi ts' ha' fun t h => ht t (hs h)
    case neg =>
      obtain ⟨h₁, h₂⟩ := World.received_stop (bytes as') hle htakes
      rw [if_pos fun h => htakes (hr.mp h), h₁, h₂]
      exact ⟨as', ts', rfl⟩

end Received
