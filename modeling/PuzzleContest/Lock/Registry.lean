/-!
# Keyed locks

The keyed locks are a registry that keeps one lock per key in use.  An entry is made when the first
task asks for its key and dropped when the last task that holds or awaits it is gone.  A lock is handed
over in the order in which it was asked for.

Main definitions:

- `Entry`: one lock, the number of its users, its holder and those who wait.
- `Registry.enter`, `Registry.leave`, `Registry.withdraw`: the three operations.
-/

namespace PuzzleContest.Lock

variable {κ τ : Type}

/-- One lock: its serial number, how many tasks use it, who holds it, and who waits, in order. -/
structure Entry (τ : Type) where
  serial : Nat
  users : Nat
  holder : Option τ
  waiters : List τ
deriving DecidableEq, Repr

/-- The locks in use, and the serial number of the next one. -/
structure Registry (κ τ : Type) where
  entries : List (κ × Entry τ) := []
  issued : Nat := 0
deriving DecidableEq, Repr

namespace Entry

/-- The entry of a lock that its first user holds at once. -/
def fresh (serial : Nat) (task : τ) : Entry τ := ⟨serial, 1, some task, []⟩

/-- One more user, who gets a lock that nobody holds or awaits and otherwise waits last. -/
def join (e : Entry τ) (task : τ) : Entry τ :=
  if e.holder.isNone && e.waiters.isEmpty then
    { e with users := e.users + 1, holder := some task }
  else { e with users := e.users + 1, waiters := e.waiters ++ [task] }

/-- The holder is gone, and the first who waits is the next holder. -/
def handOver (e : Entry τ) : Entry τ :=
  { e with users := e.users - 1, holder := e.waiters.head?, waiters := e.waiters.tail }

/-- One who waits is gone. -/
def forget [DecidableEq τ] (e : Entry τ) (task : τ) : Entry τ :=
  { e with users := e.users - 1, waiters := e.waiters.erase task }

end Entry

namespace Registry

variable [DecidableEq κ] [DecidableEq τ]

/-- The number of keys in use. -/
def size (r : Registry κ τ) : Nat := r.entries.length

/-- The entry of a key. -/
def find? (r : Registry κ τ) (key : κ) : Option (Entry τ) :=
  (r.entries.find? fun p => p.1 = key).map (·.2)

/-- Who holds a key. -/
def holder? (r : Registry κ τ) (key : κ) : Option τ := (r.find? key).bind (·.holder)

/-- Whether a task holds a key. -/
def holds (r : Registry κ τ) (key : κ) (task : τ) : Bool := r.holder? key = some task

/-- Put an entry in the place of the one of its key. -/
def replace (r : Registry κ τ) (key : κ) (e : Entry τ) : Registry κ τ :=
  { r with entries := r.entries.map fun p => if p.1 = key then (key, e) else p }

/-- Drop the entry of a key. -/
def drop (r : Registry κ τ) (key : κ) : Registry κ τ :=
  { r with entries := r.entries.filter fun p => p.1 ≠ key }

/-- Keep an entry that still has users, and drop one that has none. -/
def keep (r : Registry κ τ) (key : κ) (e : Entry τ) : Registry κ τ :=
  if e.users = 0 then r.drop key else r.replace key e

/-- A task asks for a key. -/
def enter (r : Registry κ τ) (key : κ) (task : τ) : Registry κ τ :=
  match r.find? key with
  | some e => r.replace key (e.join task)
  | none => { entries := r.entries ++ [(key, .fresh r.issued task)], issued := r.issued + 1 }

/-- The holder of a key leaves. -/
def leave (r : Registry κ τ) (key : κ) : Registry κ τ :=
  match r.find? key with
  | some e => r.keep key e.handOver
  | none => r

/-- A task stops waiting for a key. -/
def withdraw (r : Registry κ τ) (key : κ) (task : τ) : Registry κ τ :=
  match r.find? key with
  | some e => r.keep key (e.forget task)
  | none => r

/-- The serial number of the lock that a key has at the moment. -/
def serial? (r : Registry κ τ) (key : κ) : Option Nat := (r.find? key).map (·.serial)

end Registry

end PuzzleContest.Lock
