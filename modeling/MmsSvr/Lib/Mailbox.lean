import Mathlib.Data.List.Basic
import Mathlib.Tactic.Simps.Basic

/-!
A queue with wake-ups: who puts an element in sends a wake-up afterwards, and who takes
an element out has taken a wake-up before.
-/

namespace MmsSvr.Lib

/-- The elements, the wake-ups that have been sent, those that are still owed, and those
that have been taken without an element; and all that has entered and left. -/
structure Mailbox (α : Type) where
  queue : List α
  wakeups : Nat
  owed : Nat
  taken : Nat
  entered : List α
  left : List α
  balanced : queue.length = wakeups + owed + taken
  ordered : left ++ queue = entered

namespace Mailbox

variable {α : Type}

def empty : Mailbox α := ⟨[], 0, 0, 0, [], [], rfl, rfl⟩

@[simps]
def put (m : Mailbox α) (a : α) : Mailbox α where
  queue := m.queue ++ [a]
  wakeups := m.wakeups
  owed := m.owed + 1
  taken := m.taken
  entered := m.entered ++ [a]
  left := m.left
  balanced := by
    have hbalanced := m.balanced
    rw [List.length_append, List.length_singleton]
    omega
  ordered := by rw [← m.ordered, List.append_assoc]

@[simps]
def send (m : Mailbox α) (h : 0 < m.owed) : Mailbox α where
  queue := m.queue
  wakeups := m.wakeups + 1
  owed := m.owed - 1
  taken := m.taken
  entered := m.entered
  left := m.left
  balanced := by
    have hbalanced := m.balanced
    omega
  ordered := m.ordered

@[simps]
def take (m : Mailbox α) (h : 0 < m.wakeups) : Mailbox α where
  queue := m.queue
  wakeups := m.wakeups - 1
  owed := m.owed
  taken := m.taken + 1
  entered := m.entered
  left := m.left
  balanced := by
    have hbalanced := m.balanced
    omega
  ordered := m.ordered

@[simps]
def get (m : Mailbox α) {a : α} {rest : List α} (hqueue : m.queue = a :: rest)
    (h : 0 < m.taken) : Mailbox α where
  queue := rest
  wakeups := m.wakeups
  owed := m.owed
  taken := m.taken - 1
  entered := m.entered
  left := m.left ++ [a]
  balanced := by
    have hbalanced := m.balanced
    rw [hqueue, List.length_cons] at hbalanced
    omega
  ordered := by rw [← m.ordered, hqueue, List.append_assoc, List.singleton_append]

variable (m : Mailbox α)

theorem exists_of_taken (h : 0 < m.taken) : ∃ a rest, m.queue = a :: rest := by
  have hbalanced := m.balanced
  cases hqueue : m.queue with
  | nil =>
      rw [hqueue, List.length_nil] at hbalanced
      omega
  | cons a rest => exact ⟨a, rest, rfl⟩

theorem filter_entered (kind : α → Bool) :
    m.left.filter kind ++ m.queue.filter kind = m.entered.filter kind := by
  rw [← List.filter_append, m.ordered]

end Mailbox

end MmsSvr.Lib
