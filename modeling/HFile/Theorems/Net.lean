import HFile.System.Wp
import HFile.Source.Net

open Arrival (bytes delivered)

section Recv

-- What `recv_all` returns is decided by the bytes that are delivered alone: it is complete if there
-- are enough of them, whatever pieces they arrive in.
theorem recvAll.loop_spec (len : Nat) (as : List Arrival) :
    (∃ bs as', recvAll.loop len as = (some bs, as') ∧ bs.length = len ∧
      bytes as = bs ++ bytes as' ∧ delivered as = bs ++ delivered as') ∨
    (∃ r as' lost, recvAll.loop len as = (r, as') ∧ (delivered as).length < len ∧
      (∀ bs, r = some bs → bs.length < len) ∧ bytes as = lost ++ bytes as') := by
  fun_induction recvAll.loop len as
  case case1 as =>
    exact .inl ⟨[], as, rfl, rfl, rfl, rfl⟩
  case case2 len as hl as' h hi =>
    cases Arrival.recv_error h
    simpa [delivered] using hi
  case case3 len as hl e as' h he =>
    cases Arrival.recv_error h
    refine .inr ⟨none, as', [], rfl, ?_, by simp, rfl⟩
    simp only [delivered, he, if_false, List.length_nil]
    omega
  case case4 len as hl as' h =>
    obtain ⟨h₁, h₂⟩ := Arrival.recv_ok_nil (by omega) h
    subst h₁ h₂
    refine .inr ⟨some [], [], [], rfl, ?_, ?_, rfl⟩ <;> simp <;> omega
  case case5 len as hl got as' h hg r as'' hr hi =>
    have hb := Arrival.recv_ok_bytes h
    have hd := Arrival.recv_ok_delivered h
    have hle := Arrival.recv_ok_length_le h
    rcases hi with ⟨bs, _, he, hlen, hbs, hds⟩ | ⟨r', _, lost, he, hlen, hr', hbs⟩
    case inl =>
      obtain ⟨rfl, rfl⟩ := Prod.mk.inj (hr.symm.trans he)
      refine .inl ⟨got ++ bs, _, rfl, ?_, ?_, ?_⟩
      · simp only [List.length_append]
        omega
      · rw [hb, hbs, List.append_assoc]
      · rw [hd, hds, List.append_assoc]
    case inr =>
      obtain ⟨rfl, rfl⟩ := Prod.mk.inj (hr.symm.trans he)
      refine .inr ⟨_, _, got ++ lost, rfl, ?_, ?_, ?_⟩
      · rw [hd, List.length_append]
        omega
      · intro bs hbs
        obtain ⟨bs', hbs', rfl⟩ := Option.map_eq_some_iff.mp hbs
        have := hr' _ hbs'
        simp only [List.length_append]
        omega
      · rw [hb, hbs, List.append_assoc]

variable {W : Type} {h : Program.Handler Sys W} {e : Env} {w : W}

theorem wp_recvAll {len : Nat} {Q : Option Bytes → Env → W → Prop}
    (hfull : ∀ bs as, bs.length = len → bytes e.inp = bs ++ bytes as →
      delivered e.inp = bs ++ delivered as → Q (some bs) { e with inp := as } w)
    (hshort : ∀ r as lost, (delivered e.inp).length < len → (∀ bs, r = some bs → bs.length < len) →
      bytes e.inp = lost ++ bytes as → Q r { e with inp := as } w) :
    Io.wp h (recvAll len) Q e w := by
  have hw : Io.wp h (recvAll len) Q e w ↔
      Q (recvAll.loop len e.inp).1 { e with inp := (recvAll.loop len e.inp).2 } w := Iff.rfl
  rw [hw]
  rcases recvAll.loop_spec len e.inp with ⟨bs, as, he, hl, hb, hd⟩ | ⟨r, as, lost, he, hl, hr, hb⟩
  · rw [he]
    exact hfull bs as hl hb hd
  · rw [he]
    exact hshort r as lost hl hr hb

end Recv

section Send

-- What was sent is a prefix of what was to be sent, and all of it unless a `send` fails.
theorem sendAll.loop_spec (ts : List Transfer) (bs : Bytes) :
    (∃ ts', sendAll.loop ts bs = (some bs.length, bs, ts') ∧ ts' ⊆ ts) ∨
    (∃ r sent ts', sendAll.loop ts bs = (r, sent, ts') ∧ ts' ⊆ ts ∧ sent <+: bs ∧
      sent.length < bs.length ∧ (∀ n, r = some n → n < bs.length) ∧ ∃ t ∈ ts, ¬t.Benign) := by
  fun_induction sendAll.loop ts bs
  case case1 ts =>
    exact .inl ⟨ts, rfl, List.Subset.refl _⟩
  case case2 bs _ =>
    exact .inl ⟨[], rfl, List.Subset.refl _⟩
  case case3 ts bs _ hi =>
    rcases hi with ⟨ts', he, hs⟩ | ⟨r, sent, ts', he, hs, hp, hl, hr, t, ht, hb⟩
    · exact .inl ⟨ts', he, List.subset_cons_of_subset _ hs⟩
    · exact .inr ⟨r, sent, ts', he, List.subset_cons_of_subset _ hs, hp, hl, hr,
        t, List.mem_cons_of_mem _ ht, hb⟩
  case case4 e ts bs hbs he =>
    refine .inr ⟨none, [], ts, rfl, List.subset_cons_self _ _, List.nil_prefix, ?_, by simp,
      .fail e, by simp, he⟩
    exact List.length_pos_iff.mpr hbs
  case case5 ts bs hbs =>
    have hpos := List.length_pos_iff.mpr hbs
    exact .inr ⟨some 0, [], ts, rfl, List.subset_cons_self _ _, List.nil_prefix, hpos,
      by simpa using hpos, .moves 0, by simp, by simp [Transfer.Benign]⟩
  case case6 n ts bs hbs hn r sent ts' heq hi =>
    have hpos := List.length_pos_iff.mpr hbs
    rcases hi with ⟨ts'', he, hs⟩ | ⟨r', sent', ts'', he, hs, hp, hl, hr, t, ht, hb⟩
    · obtain ⟨rfl, rfl, rfl⟩ := by simpa using heq.symm.trans he
      refine .inl ⟨ts', ?_, List.subset_cons_of_subset _ hs⟩
      simp only [Option.map_some, List.take_append_drop, Prod.mk.injEq, and_true, Option.some.injEq]
      omega
    · obtain ⟨rfl, rfl, rfl⟩ := by simpa using heq.symm.trans he
      refine .inr ⟨_, _, ts', rfl, List.subset_cons_of_subset _ hs, ?_, ?_, ?_,
        t, List.mem_cons_of_mem _ ht, hb⟩
      · conv => rhs; rw [← List.take_append_drop n bs]
        exact (List.prefix_append_right_inj _).mpr hp
      · simp only [List.length_append, List.length_take, List.length_drop] at hl ⊢
        omega
      · intro m hm
        obtain ⟨m', hm', rfl⟩ := Option.map_eq_some_iff.mp hm
        have := hr _ hm'
        simp only [List.length_drop] at this
        omega

theorem sendAll.loop_ok_iff (ts : List Transfer) (bs : Bytes) :
    (sendAll.loop ts bs).1 = some bs.length ↔ Transfer.Completes ts bs.length := by
  fun_induction sendAll.loop ts bs
  case case1 ts => simp [Transfer.completes_zero]
  case case2 bs hbs =>
    obtain ⟨b, bs, rfl⟩ := List.exists_cons_of_ne_nil hbs
    simp [Transfer.Completes]
  case case3 ts bs hbs hi =>
    obtain ⟨b, bs, rfl⟩ := List.exists_cons_of_ne_nil hbs
    rw [hi]
    simp [Transfer.Completes]
  case case4 e ts bs hbs he =>
    obtain ⟨b, bs, rfl⟩ := List.exists_cons_of_ne_nil hbs
    simp [Transfer.Completes, he]
  case case5 ts bs hbs =>
    obtain ⟨b, bs, rfl⟩ := List.exists_cons_of_ne_nil hbs
    simp [Transfer.Completes]
  case case6 n ts bs hbs hn r sent ts' heq hi =>
    rw [heq, List.length_drop] at hi
    have hmap : r.map (min n bs.length + ·) = some bs.length ↔ r = some (bs.length - n) := by
      cases r <;> simp
      omega
    rw [hmap, hi]
    obtain ⟨b, bs, rfl⟩ := List.exists_cons_of_ne_nil hbs
    simp [Transfer.Completes, Nat.pos_of_ne_zero hn]

variable {W : Type} {h : Program.Handler Sys W} {e : Env} {w : W}

theorem wp_sendAll {bs : Bytes} {Q : Option Nat → Env → W → Prop}
    (hall : ∀ ts, ts ⊆ e.snd → Transfer.Completes e.snd bs.length →
      Q (some bs.length) { e with snd := ts, out := e.out ++ bs } w)
    (hpart : ∀ r sent ts, ts ⊆ e.snd → sent <+: bs → sent.length < bs.length →
      (∀ n, r = some n → n < bs.length) → (∃ t ∈ e.snd, ¬t.Benign) →
      ¬Transfer.Completes e.snd bs.length → Q r { e with snd := ts, out := e.out ++ sent } w) :
    Io.wp h (sendAll bs) Q e w := by
  have hw : Io.wp h (sendAll bs) Q e w ↔ Q (sendAll.loop e.snd bs).1
      { e with snd := (sendAll.loop e.snd bs).2.2, out := e.out ++ (sendAll.loop e.snd bs).2.1 } w :=
    Iff.rfl
  have hiff := sendAll.loop_ok_iff e.snd bs
  rw [hw]
  rcases sendAll.loop_spec e.snd bs with ⟨ts, he, hs⟩ | ⟨r, sent, ts, he, hs, hp, hl, hr, hb⟩
  · rw [he] at hiff ⊢
    exact hall ts hs (hiff.mp rfl)
  · rw [he] at hiff ⊢
    exact hpart r sent ts hs hp hl hr hb fun hc => Nat.lt_irrefl _ (hr _ (hiff.mpr hc))

end Send
