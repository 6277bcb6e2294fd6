/-!
# Listeners

A listener is a sink of the broadcast hub: it receives messages and is told to close when it is
dropped.  How it behaves is data: it takes a message at once, after some time, never, or refuses it,
and likewise for closing.

Main definitions:

- `Listener.send`: how sending a message to a listener ends, and when.
- `Listener.Refuses`, `Listener.closeEnding`: whether that is the listener's doing.
- `Listener.dismiss`, `Listener.close`: what a dropped listener is told, and how long that takes.
-/

namespace PuzzleContest.Relay

/-- A message for the listeners of a competition. -/
structure Message (μ : Type) where
  competition : String
  body : μ
deriving DecidableEq, Repr

/-- What a listener does with a message.  To fail is to raise an ordinary error; a listener that is given
up, for want of time or because its dispatcher goes, ends at once. -/
inductive Manner where
  | prompt
  | failing
  | stuck
  /-- The message arrives after so many nanoseconds. -/
  | slow (delay : Int)
deriving DecidableEq, Repr

/-- What a listener does when it is told to close. -/
inductive Farewell where
  | prompt
  | failing
  | stuck
  /-- The listener cannot be told to close. -/
  | absent
deriving DecidableEq, Repr

/-- A listener, with what has become of it so far. -/
structure Listener (μ : Type) where
  name : String
  manner : Manner := .prompt
  /-- So many messages are taken at once, whatever the manner. -/
  grace : Int := 0
  farewell : Farewell := .prompt
  received : List (Message μ) := []
  /-- How often the listener was told to close. -/
  dismissals : Nat := 0
deriving DecidableEq, Repr

/-- How something that takes time ends: well or not, and after how many nanoseconds. -/
structure Course where
  success : Bool
  after : Nat
deriving DecidableEq, Repr

/-- How a send or a close ends. -/
inductive Ending where
  /-- The listener takes the message, or has closed. -/
  | well
  /-- The listener refuses the message, or fails to close. -/
  | badly
  /-- The time for it is up. -/
  | late
deriving DecidableEq, Repr

/-- Whether the message arrives. -/
def Ending.success (e : Ending) : Bool := e = .well

/-- Whether it is the listener that ends it. -/
def Ending.ofItself (e : Ending) : Bool := e ≠ .late

/-- The nanoseconds after which closing is abandoned. -/
def closePatience : Nat := 1000000000

namespace Listener

variable {μ : Type}

/-- How sending to a listener ends, given the time it has; without any time nothing is sent. -/
def send (patience : Option Nat) (l : Listener μ) : Course :=
  match patience with
  | none => ⟨false, 0⟩
  | some limit =>
    if l.received.length < l.grace then ⟨true, 0⟩
    else
      match l.manner with
      | .prompt => ⟨true, 0⟩
      | .failing => ⟨false, 0⟩
      | .stuck => ⟨false, limit⟩
      | .slow delay => if delay < limit then ⟨true, delay.toNat⟩ else ⟨false, limit⟩

/-- Whether a send that does not succeed fails of itself; without any time it is not begun. -/
def Refuses (patience : Option Nat) (l : Listener μ) : Prop := l.manner = .failing ∧ patience ≠ none

instance (patience : Option Nat) (l : Listener μ) : Decidable (l.Refuses patience) :=
  inferInstanceAs (Decidable (_ ∧ _))

/-- A message arrives. -/
def receive (l : Listener μ) (m : Message μ) : Listener μ :=
  { l with received := l.received ++ [m] }

/-- The listener is told to close, if it can be. -/
def dismiss (l : Listener μ) : Listener μ :=
  match l.farewell with
  | .absent => l
  | _ => { l with dismissals := l.dismissals + 1 }

/-- How closing ends. -/
def close (l : Listener μ) : Course :=
  match l.farewell with
  | .prompt => ⟨true, 0⟩
  | .failing | .absent => ⟨false, 0⟩
  | .stuck => ⟨false, closePatience⟩

/-- Whether closing ends well, badly, or because the time is up. -/
def closeEnding (l : Listener μ) : Ending :=
  match l.farewell with
  | .prompt => .well
  | .failing | .absent => .badly
  | .stuck => .late

/-- How often the listener has closed to the end. -/
def closed (l : Listener μ) : Nat :=
  match l.farewell with
  | .prompt => l.dismissals
  | _ => 0

end Listener

end PuzzleContest.Relay
