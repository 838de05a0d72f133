import HFile.Theorems.EventStream

open EventStream (decode cr)
open scoped List

-- What a message looks like to a browser that follows a stream.
def messageEvent (message : CStr) : EventStream.Event :=
  ⟨ascii "message", message.chars⟩

namespace StreamItem

def message? : StreamItem → Option CStr
  | message _ text => some text
  | keepalive _    => none

theorem decode_keepalive (version : Nat) :
    decode .initial (keepalive version).bytes = (.initial, []) := by
  rw [bytes]
  decide

-- An item is an event or nothing to a browser, and has no effect on the items after it.
theorem decode_bytes {item : StreamItem} (h : ∀ m, item.message? = some m → cr ∉ m.chars) :
    decode .initial item.bytes = (.initial, (item.message?.map messageEvent).toList) := by
  cases item
  case message version m => exact decode_event (h m rfl)
  case keepalive version => exact decode_keepalive version

theorem decode_items {items : List StreamItem} (h : ∀ m ∈ items.filterMap message?, cr ∉ m.chars) :
    decode .initial (items.flatMap bytes) = (.initial, (items.filterMap message?).map messageEvent) := by
  have hitem : ∀ item ∈ items, decode .initial item.bytes =
      (.initial, (item.message?.map messageEvent).toList) :=
    fun item hi => decode_bytes fun m hm => h m (List.mem_filterMap.mpr ⟨item, hi, hm⟩)
  rw [EventStream.decode_flatMap hitem, List.map_filterMap, List.filterMap_eq_flatMap_toList]

-- Increasing versions select messages in the order in which they have been stored. The induction is
-- on the items from the last one on, which have come from the messages up to the version `n`.
theorem messages_sublist {ms : List CStr} {items : List StreamItem} {n : Nat}
    (hinc : (items.filterMap version?).Pairwise (· < ·))
    (hexact : ∀ v m, .message v m ∈ items → 0 < v ∧ ms[v - 1]? = some m)
    (hn : ∀ v ∈ items.filterMap version?, v ≤ n) : items.filterMap message? <+ ms.take n := by
  induction items using List.reverseRecOn generalizing n
  case nil => exact List.nil_sublist _
  case append_singleton items item hi =>
    rw [List.filterMap_append] at hinc hn ⊢
    obtain ⟨hbefore, -, hlt⟩ := List.pairwise_append.mp hinc
    have hearlier : ∀ v m, .message v m ∈ items → 0 < v ∧ ms[v - 1]? = some m :=
      fun v m hm => hexact v m (List.mem_append_left _ hm)
    cases item
    case keepalive v =>
      have hrest := hi hbefore hearlier fun u hu => hn u (List.mem_append_left _ hu)
      exact (List.append_nil _).symm ▸ hrest
    case message v m =>
      obtain ⟨hpos, hget⟩ := hexact v m (List.mem_append_right _ List.mem_cons_self)
      have hv : v ∈ [message v m].filterMap version? := List.mem_cons_self
      have htake : ms.take v = ms.take (v - 1) ++ [m] := by
        rw [show v = v - 1 + 1 by omega, List.take_add_one, Nat.add_sub_cancel, hget]
        rfl
      calc items.filterMap message? ++ [m]
        _ <+ ms.take (v - 1) ++ [m] :=
          (hi hbefore hearlier fun u hu => Nat.le_sub_one_of_lt (hlt u hu v hv)).append_right _
        _ = ms.take v := htake.symm
        _ <+ ms.take n := List.take_sublist_take_left (hn v (List.mem_append_right _ hv))

end StreamItem

section

open StreamItem (message? messages_sublist decode_items)

variable {ι : Type} [DecidableEq ι] {threads : ι → MessageThread} {w : World} {sched : List ι} {i : ι}

theorem sent_sublist (hw : w.board = ⟨none, 0⟩) (ha : ∀ i, (threads i).env.Allocates) :
    (streamAfter threads w sched i).sent.filterMap message? <+ sets (streamRun threads w sched).log := by
  obtain ⟨ls, hd, _⟩ : (streamRun threads w sched).Kept _ _ _ := streamRun_kept hw ha
  have ht : (streamAfter threads w sched i).Tracks (sets (streamRun threads w sched).log) := by
    rw [streamAfter, ← hd.state]
    exact hd.tracks i
  have hlast : ∀ v ∈ (streamAfter threads w sched i).sent.filterMap StreamItem.version?,
      v ≤ (sets (streamRun threads w sched).log).length := by
    intro v hv
    obtain ⟨item, hi, hiv⟩ := List.mem_filterMap.mp hv
    cases item
    case keepalive => cases hiv
    case message m =>
      cases hiv
      obtain ⟨_, hget⟩ := ht.exact v m hi
      have hlt := (List.getElem?_eq_some_iff.mp hget).choose
      omega
  have hsub := messages_sublist ht.increasing ht.exact hlast
  rwa [List.take_length] at hsub

-- In every run, a browser that follows a stream sees messages that have been stored, in their order
-- and each of them once at most, wherever the connection is cut. A stream that the server ends is cut
-- between two events.
theorem events_received (hw : w.board = ⟨none, 0⟩) (ha : ∀ i, (threads i).env.Allocates)
    (hcr : ∀ m ∈ sets (streamRun threads w sched).log, cr ∉ m.chars) {env e : Env} {b : Bool}
    (hi : threads i = .subscribe env) (hr : (streamRun threads w sched).result i = some (b, e)) :
    (∀ body, e.out = env.out ++ sseHeaders ++ body →
      (decode .initial body).2 <+ (sets (streamRun threads w sched).log).map messageEvent) ∧
    (b = true → ∃ body, e.out = env.out ++ sseHeaders ++ body ∧ (decode .initial body).1 = .initial) := by
  have hsub : (streamAfter threads w sched i).sent.filterMap message? <+ _ := sent_sublist hw ha
  have hends : (threads i).Ends (b, e) (streamAfter threads w sched i) := by
    obtain ⟨ls, hd, hf⟩ : (streamRun threads w sched).Kept _ _ _ := streamRun_kept hw ha
    rw [streamAfter, ← hd.state]
    exact Pool.ends_of_result (hf i) hr
  rw [hi] at hends
  obtain ⟨hcut, hwhole⟩ := hends
  constructor
  case left =>
    intro body hbody
    rw [hbody, List.prefix_append_right_inj] at hcut
    have hev := EventStream.decode_isPrefix .initial hcut
    rw [decode_items fun m hm => hcr m (hsub.subset hm)] at hev
    exact hev.sublist.trans (hsub.map messageEvent)
  case right =>
    intro hb
    refine ⟨_, hwhole hb, ?_⟩
    rw [decode_items]
    intro m hm
    exact hcr m (hsub.subset (((List.dropLast_sublist _).filterMap _).subset hm))

end

theorem events_received_from_two_setters : ∃ b e,
    (streamRun twoSetters .empty [2, 0, 2, 2, 1, 2]).result 2 = some (b, e) ∧
    (∀ body, e.out = [] ++ sseHeaders ++ body → (decode .initial body).2 <+
      (sets (streamRun twoSetters .empty [2, 0, 2, 2, 1, 2]).log).map messageEvent) ∧
    (b = true → ∃ body, e.out = [] ++ sseHeaders ++ body ∧ (decode .initial body).1 = .initial) := by
  have hends : ((streamRun twoSetters .empty [2, 0, 2, 2, 1, 2]).result 2).isSome = true ∧
      ∀ m ∈ sets (streamRun twoSetters .empty [2, 0, 2, 2, 1, 2]).log, cr ∉ m.chars := by
    decide +kernel
  obtain ⟨⟨b, e⟩, hr⟩ := Option.isSome_iff_exists.mp hends.left
  refine ⟨b, e, hr, events_received rfl ?_ hends.right rfl hr⟩
  intro i
  match i with
  | 0 | 1 | 2 => exact fun b hb => absurd hb List.not_mem_nil
