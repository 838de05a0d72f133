import Mathlib

-- src/server_conn_tracker.c. Each function is the part that it runs under the tracker's mutex. The
-- result is `none` where the code would use a block that is not allocated or run in a circle.

abbrev Ptr := Nat

structure ServerConnEntry where
  conn    : Nat
  closing : Bool
  next    : Option Ptr

-- The tracker, and the blocks that are allocated for its entries. `shutdowns` counts the calls of
-- `shutdown` for an entry since it was allocated.
structure ServerConnTracker where
  shuttingDown : Bool
  activeCount  : UInt32
  head         : Option Ptr
  blocks       : AList (fun _ : Ptr => ServerConnEntry)
  shutdowns    : Ptr → Nat

def ServerConnTracker.init : ServerConnTracker where
  shuttingDown := false
  activeCount  := 0
  head         := none
  blocks       := ∅
  shutdowns    := fun _ => 0

-- The result of `malloc` is an argument.
def serverConnTrackerBegin (t : ServerConnTracker) (conn : Nat) :
    Option Ptr → Option Ptr × ServerConnTracker
  | none       => (none, t)
  | some entry =>
    if t.shuttingDown then (none, t)
    else (some entry, { t with
      head        := some entry
      activeCount := t.activeCount + 1
      blocks      := t.blocks.insert entry ⟨conn, false, t.head⟩
      shutdowns   := Function.update t.shutdowns entry 0 })

-- What the variable `link` points to: the head of the list or the field `next` of an entry.
inductive Link
  | head
  | next (entry : Ptr)

def ServerConnTracker.setLink (t : ServerConnTracker) (value : Option Ptr) :
    Link → Option ServerConnTracker
  | .head       => some { t with head := value }
  | .next entry =>
    (t.blocks.lookup entry).map fun x =>
      { t with blocks := t.blocks.insert entry { x with next := value } }

-- The loop that takes an entry out of the list, where `*link` is `current`.
def serverConnTrackerEnd.loop (t : ServerConnTracker) (entry : Ptr) :
    Nat → Link → Option Ptr → Option ServerConnTracker
  | _, _, none                   => some t
  | 0, _, some _                 => none
  | fuel + 1, link, some current =>
    match t.blocks.lookup current with
    | none   => none
    | some x =>
      if current = entry then t.setLink x.next link
      else serverConnTrackerEnd.loop t entry fuel (.next current) x.next

def ServerConnTracker.countDown (t : ServerConnTracker) : ServerConnTracker :=
  if t.activeCount > 0 then { t with activeCount := t.activeCount - 1 } else t

def ServerConnTracker.free (t : ServerConnTracker) (entry : Ptr) : ServerConnTracker :=
  { t with blocks := t.blocks.erase entry }

-- The loop visits no more entries than there are. The entry is freed after the mutex has been
-- released.
def serverConnTrackerEnd (t : ServerConnTracker) : Option Ptr → Option ServerConnTracker
  | none       => some t
  | some entry =>
    (serverConnTrackerEnd.loop t entry t.blocks.keys.length .head t.head).map fun t =>
      t.countDown.free entry

def serverConnTrackerAbortEntry (t : ServerConnTracker) (entry : Ptr) (x : ServerConnEntry) :
    ServerConnTracker :=
  if x.closing then t
  else { t with
    blocks    := t.blocks.insert entry { x with closing := true }
    shutdowns := Function.update t.shutdowns entry (t.shutdowns entry + 1) }

def serverConnTrackerShutdownAll.loop :
    Nat → Option Ptr → ServerConnTracker → Option ServerConnTracker
  | _, none, t               => some t
  | 0, some _, _             => none
  | fuel + 1, some entry, t =>
    match t.blocks.lookup entry with
    | none   => none
    | some x =>
      serverConnTrackerShutdownAll.loop fuel x.next (serverConnTrackerAbortEntry t entry x)

def serverConnTrackerShutdownAll (t : ServerConnTracker) : Option ServerConnTracker :=
  serverConnTrackerShutdownAll.loop t.blocks.keys.length t.head { t with shuttingDown := true }

-- Whether `server_conn_tracker_wait_idle` returns. Otherwise it goes on waiting.
def serverConnTrackerWaitIdle (t : ServerConnTracker) : Bool :=
  t.activeCount = 0
