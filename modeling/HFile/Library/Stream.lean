import HFile.Library.CString

inductive Errno
  | EINTR | EINVAL | ENOSYS | ENOTSUP | EEXIST | ENOENT | ENOTDIR | EISDIR | ELOOP | EMFILE | ENFILE
  | other (code : Nat)
  deriving DecidableEq

-- What the next read of a socket finds: a non-empty run of bytes that have arrived together, or a
-- failure. A finished list of arrivals means that the peer has closed its side.
inductive Arrival
  | data (b : UInt8) (bs : Bytes)
  | fail (e : Errno)
  deriving DecidableEq

-- What a call that moves bytes out of a buffer (or out of a file) does: it takes at most `n` bytes,
-- or it fails.
inductive Transfer
  | moves (n : Nat)
  | fail (e : Errno)
  deriving DecidableEq

-- A transfer that makes progress, or is only interrupted.
def Transfer.Benign : Transfer → Prop
  | moves n => 0 < n
  | fail e  => e = .EINTR

instance : DecidablePred Transfer.Benign
  | .moves n => inferInstanceAs <| Decidable (0 < n)
  | .fail e  => inferInstanceAs <| Decidable (e = .EINTR)

-- The next outcome of a list, where a call moves all of the `full` bytes that it is given once the
-- list is used up.
def Transfer.next (full : Nat) : List Transfer → Transfer × List Transfer
  | []      => (moves full, [])
  | t :: ts => (t, ts)

theorem Transfer.next_fail {full : Nat} {ts ts' : List Transfer} {e : Errno}
    (h : next full ts = (fail e, ts')) : ts = fail e :: ts' := by
  cases ts <;> simp_all [next]

theorem Transfer.next_length_le {full : Nat} {ts ts' : List Transfer} {t : Transfer}
    (h : next full ts = (t, ts')) : ts'.length ≤ ts.length := by
  cases ts <;> simp_all [next]

theorem Transfer.next_subset {full : Nat} {ts ts' : List Transfer} {t : Transfer}
    (h : next full ts = (t, ts')) : ts' ⊆ ts := by
  cases ts <;> simp_all [next]

-- The outcomes let `n` bytes through.
def Transfer.Completes : List Transfer → Nat → Prop
  | _, 0               => True
  | [], _              => True
  | fail e :: ts, n    => e = .EINTR ∧ Completes ts n
  | moves m :: ts, n   => 0 < m ∧ Completes ts (n - m)

theorem Transfer.completes_zero (ts : List Transfer) : Completes ts 0 := by
  cases ts <;> trivial

namespace Arrival

-- The bytes of a list of arrivals, without the boundaries between them.
def bytes : List Arrival → Bytes
  | []              => []
  | data b bs :: as => b :: (bs ++ bytes as)
  | fail _ :: as    => bytes as

-- The bytes that arrive before the first failure other than an interruption.
def delivered : List Arrival → Bytes
  | []              => []
  | data b bs :: as => b :: (bs ++ delivered as)
  | fail e :: as    => if e = .EINTR then delivered as else []

-- The bytes that arrive before the first failure of any kind.
def prompt : List Arrival → Bytes
  | []              => []
  | data b bs :: as => b :: (bs ++ prompt as)
  | fail _ :: _     => []

-- Puts the unread part of an arrival back.
def push : Bytes → List Arrival → List Arrival
  | [], as      => as
  | b :: bs, as => data b bs :: as

-- A single `recv` for at most `want` bytes. An empty result means the end of the stream.
def recv (want : Nat) : List Arrival → Except Errno Bytes × List Arrival
  | []              => (.ok [], [])
  | data b bs :: as => (.ok ((b :: bs).take want), push ((b :: bs).drop want) as)
  | fail e :: as    => (.error e, as)

-- The number of bytes and failures that are still to come, which each `recv` lowers.
def weight : List Arrival → Nat
  | []              => 0
  | data _ bs :: as => bs.length + 1 + weight as
  | fail _ :: as    => weight as + 1

@[simp]
theorem bytes_nil : bytes [] = [] :=
  rfl

@[simp]
theorem bytes_fail (e : Errno) (as : List Arrival) : bytes (fail e :: as) = bytes as :=
  rfl

@[simp]
theorem bytes_data (b : UInt8) (bs : Bytes) (as : List Arrival) :
    bytes (data b bs :: as) = b :: (bs ++ bytes as) :=
  rfl

@[simp]
theorem bytes_push (bs : Bytes) (as : List Arrival) : bytes (push bs as) = bs ++ bytes as := by
  cases bs <;> simp [push]

@[simp]
theorem delivered_nil : delivered [] = [] :=
  rfl

@[simp]
theorem delivered_push (bs : Bytes) (as : List Arrival) :
    delivered (push bs as) = bs ++ delivered as := by
  cases bs <;> simp [push, delivered]

theorem prompt_isPrefix_delivered (as : List Arrival) : prompt as <+: delivered as := by
  induction as
  case nil => exact List.prefix_rfl
  case cons a as hi =>
    cases a
    case data b bs =>
      rw [prompt, delivered]
      exact List.cons_prefix_cons.mpr ⟨rfl, (List.prefix_append_right_inj _).mpr hi⟩
    case fail => exact List.nil_prefix

theorem delivered_isPrefix_bytes (as : List Arrival) : delivered as <+: bytes as := by
  induction as
  case nil => exact List.prefix_rfl
  case cons a as hi =>
    cases a
    case data b bs =>
      rw [delivered, bytes]
      exact List.cons_prefix_cons.mpr ⟨rfl, (List.prefix_append_right_inj _).mpr hi⟩
    case fail e =>
      rw [delivered]
      split
      · exact hi
      · exact List.nil_prefix

@[simp]
theorem prompt_push (bs : Bytes) (as : List Arrival) : prompt (push bs as) = bs ++ prompt as := by
  cases bs <;> simp [push, prompt]

@[simp]
theorem weight_push (bs : Bytes) (as : List Arrival) :
    weight (push bs as) = bs.length + weight as := by
  cases bs <;> simp [push, weight]

section Recv

variable {want : Nat} {as as' : List Arrival} {got : Bytes} {e : Errno}

-- A failing `recv` loses no bytes.
theorem recv_error (h : recv want as = (.error e, as')) : as = fail e :: as' := by
  cases as
  case nil => simp [recv] at h
  case cons a as =>
    cases a <;> simp only [recv, Prod.mk.injEq, Except.error.injEq, reduceCtorEq, false_and] at h
    obtain ⟨rfl, rfl⟩ := h
    rfl

theorem recv_ok_bytes (h : recv want as = (.ok got, as')) : bytes as = got ++ bytes as' := by
  cases as
  case nil => simp_all [recv]
  case cons a as =>
    cases a <;> simp only [recv, Prod.mk.injEq, Except.ok.injEq, reduceCtorEq, false_and] at h
    obtain ⟨rfl, rfl⟩ := h
    rw [bytes_push, ← List.append_assoc, List.take_append_drop]
    simp

theorem recv_ok_delivered (h : recv want as = (.ok got, as')) :
    delivered as = got ++ delivered as' := by
  cases as
  case nil => simp_all [recv]
  case cons a as =>
    cases a <;> simp only [recv, Prod.mk.injEq, Except.ok.injEq, reduceCtorEq, false_and] at h
    obtain ⟨rfl, rfl⟩ := h
    rw [delivered_push, ← List.append_assoc, List.take_append_drop]
    simp [delivered]

theorem recv_ok_prompt (h : recv want as = (.ok got, as')) : prompt as = got ++ prompt as' := by
  cases as
  case nil => simp_all [recv, prompt]
  case cons a as =>
    cases a <;> simp only [recv, Prod.mk.injEq, Except.ok.injEq, reduceCtorEq, false_and] at h
    obtain ⟨rfl, rfl⟩ := h
    rw [prompt_push, ← List.append_assoc, List.take_append_drop]
    simp [prompt]

theorem recv_ok_length_le (h : recv want as = (.ok got, as')) : got.length ≤ want := by
  cases as
  case nil => simp_all [recv]
  case cons a as =>
    cases a <;> simp only [recv, Prod.mk.injEq, Except.ok.injEq, reduceCtorEq, false_and] at h
    obtain ⟨rfl, rfl⟩ := h
    simp

theorem recv_ok_weight (h : recv want as = (.ok got, as')) : got.length + weight as' = weight as := by
  cases as
  case nil => simp_all [recv, weight]
  case cons a as =>
    cases a <;> simp only [recv, Prod.mk.injEq, Except.ok.injEq, reduceCtorEq, false_and] at h
    obtain ⟨rfl, rfl⟩ := h
    simp [weight]
    omega

-- Only the end of the stream gives an empty result.
theorem recv_ok_nil (hw : 0 < want) (h : recv want as = (.ok [], as')) : as = [] ∧ as' = [] := by
  cases as
  case nil => simp_all [recv]
  case cons a as =>
    cases a <;> simp only [recv, Prod.mk.injEq, Except.ok.injEq, reduceCtorEq, false_and] at h
    simp [hw.ne'] at h

end Recv
end Arrival
