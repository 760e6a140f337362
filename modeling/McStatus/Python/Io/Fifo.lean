import McStatus.Library.Machine
import McStatus.Python.Io.Buffer

/-!
This module contains the calls of a `Buffer` as a machine, which it refines to a queue of the bytes
that have not been read.
-/

namespace McStatus

open Reader Machine

namespace Python

inductive Answer where
  | none
  | bytes (data : List UInt8)
  | int (n : Nat)
  | raised (e : Exception)
  deriving DecidableEq, Repr

inductive BufferOp where
  | write (data : List UInt8)
  | read (length : Int)
  /-- `clear(only_already_read=True)` -/
  | clear
  /-- A view is let go of before the next call. -/
  | unreadView
  | remaining
  | flush
  deriving DecidableEq, Repr

namespace BufferOp

def call (op : BufferOp) : Py Buffer Answer :=
  match op with
  | write data => do
    Buffer.write data
    return .none
  | read length => return .bytes (← Buffer.read length)
  | clear => do
    Buffer.clear true
    return .none
  | unreadView => return .bytes (← get).unreadView
  | remaining => return .int (← get).remaining
  | flush => return .bytes (← Buffer.flush)

def perform (op : BufferOp) (b : Buffer) : Answer × Buffer :=
  match op.call b with
  | .ok answer b' => (answer, b')
  | .error e b' => (.raised e, b')

def written (op : BufferOp) : List UInt8 :=
  match op with
  | write data => data
  | _ => []

/-- The bytes that a call returns or, where it reads too much, puts into its message. -/
def took (op : BufferOp) (answer : Answer) : List UInt8 :=
  match op, answer with
  | read _, .bytes data => data
  | read _, .raised (.osError (.notAvailable _ data _)) => data
  | flush, .bytes data => data
  | _, _ => []

def readQueue (length : Int) (queue : List UInt8) : Answer × List UInt8 :=
  if length < 0 then
    (.raised (.osError (.negativeRead length)), queue)
  else if length ≤ queue.length then
    (.bytes (queue.take length.toNat), queue.drop length.toNat)
  else
    (.raised (.osError (.notAvailable queue.length queue length)), [])

def onQueue (op : BufferOp) (queue : List UInt8) : Answer × List UInt8 :=
  match op with
  | write data => (.none, queue ++ data)
  | read length => readQueue length queue
  | clear => (.none, queue)
  | unreadView => (.bytes queue, queue)
  | remaining => (.int queue.length, queue)
  | flush => (.bytes queue, [])

theorem onQueue_conserves (op : BufferOp) (queue : List UInt8)
    : queue ++ op.written = op.took (op.onQueue queue).1 ++ (op.onQueue queue).2 := by
  cases op with
  | write data => rfl
  | read length =>
    rw [onQueue, readQueue]
    split
    . exact List.append_nil _
    . split
      . have hsplit := List.take_append_drop length.toNat queue
        exact (List.append_nil queue).trans hsplit.symm
      . rfl
  | clear => exact List.append_nil _
  | unreadView => exact List.append_nil _
  | remaining => exact List.append_nil _
  | flush => rfl

theorem perform_read_of_le {n : Nat} {b : Buffer} (h : n ≤ b.unreadView.length)
    : ∃ b', perform (.read n) b = (.bytes (b.unreadView.take n), b')
        ∧ b'.unreadView = b.unreadView.drop n := by
  rcases Buffer.read_of_le h with ⟨b', hread, hview⟩
  refine ⟨b', ?_, hview⟩
  rw [perform, call, bind_of_ok hread]
  rfl

theorem perform_read_of_lt {n : Nat} {b : Buffer} (h : b.unreadView.length < n)
    : ∃ b', perform (.read n) b
          = (.raised (.osError (.notAvailable b.remaining b.unreadView n)), b')
        ∧ b'.unreadView = [] := by
  rcases Buffer.read_of_lt h with ⟨b', hread, hview⟩
  refine ⟨b', ?_, hview⟩
  rw [perform, call, bind_of_error hread]

theorem perform_read_of_neg {length : Int} (h : length < 0) (b : Buffer)
    : perform (.read length) b = (.raised (.osError (.negativeRead length)), b) := by
  rw [perform, call, bind_of_error (Buffer.read_neg h b)]

theorem refines : Refines perform onQueue Buffer.unreadView := by
  intro op b
  cases op with
  | write data =>
    refine ⟨rfl, ?_⟩
    have hview : (b.append data).unreadView = b.unreadView ++ data :=
      List.drop_append_of_le_length b.pos_le
    exact hview
  | read length =>
    by_cases hneg : length < 0
    . rw [perform_read_of_neg hneg, onQueue, readQueue, if_pos hneg]
      exact ⟨rfl, rfl⟩
    . rcases Int.eq_ofNat_of_zero_le (Int.not_lt.mp hneg) with ⟨n, rfl⟩
      rw [onQueue, readQueue, if_neg hneg]
      by_cases hle : n ≤ b.unreadView.length
      . rcases perform_read_of_le hle with ⟨b', hperform, hview⟩
        rw [hperform, if_pos (Int.ofNat_le.mpr hle)]
        exact ⟨rfl, hview⟩
      . rcases perform_read_of_lt (Nat.lt_of_not_le hle) with ⟨b', hperform, hview⟩
        rw [hperform, if_neg (mt Int.ofNat_le.mp hle), Buffer.length_unreadView]
        exact ⟨rfl, hview⟩
  | clear => exact ⟨rfl, rfl⟩
  | unreadView => exact ⟨rfl, rfl⟩
  | remaining => exact ⟨congrArg Answer.int b.length_unreadView.symm, rfl⟩
  | flush => exact ⟨rfl, rfl⟩

theorem perform_conserves (op : BufferOp) (b : Buffer)
    : b.unreadView ++ op.written
        = op.took (op.perform b).1 ++ (op.perform b).2.unreadView := by
  rcases refines op b with ⟨hanswer, hview⟩
  rw [hanswer, hview, onQueue_conserves]

theorem run_onQueue_clear (before after : List BufferOp) (queue : List UInt8)
    : ∃ first rest, first.length = before.length
        ∧ (run onQueue (before ++ after) queue).1 = first ++ rest
        ∧ (run onQueue (before ++ .clear :: after) queue).1 = first ++ .none :: rest := by
  let first := run onQueue before queue
  refine ⟨first.1, (run onQueue after first.2).1, length_run before queue, ?_, ?_⟩
  . rw [run_append]
  . rw [run_append, run_cons]
    rfl

end BufferOp

theorem buffer_fifo (ops : List BufferOp)
    : let answers := (run BufferOp.perform ops (Buffer.ofBytes [])).1
      let b := (run BufferOp.perform ops (Buffer.ofBytes [])).2
      (b.pos ≤ b.data.length ∧ (b.remaining : Int) = b.data.length - b.pos)
        ∧ ops.flatMap BufferOp.written = taken BufferOp.took ops answers ++ b.unreadView
        ∧ (∀ n : Nat, b.remaining < n →
          ∃ b', BufferOp.perform (.read n) b
              = (.raised (.osError (.notAvailable b.remaining b.unreadView n)), b')
            ∧ b'.unreadView = [])
        ∧ (∀ length < 0,
          BufferOp.perform (.read length) b = (.raised (.osError (.negativeRead length)), b))
        ∧ ∀ before after, ops = before ++ after →
          ∃ first rest, first.length = before.length ∧ answers = first ++ rest
            ∧ (run BufferOp.perform (before ++ .clear :: after) (Buffer.ofBytes [])).1
              = first ++ .none :: rest := by
  dsimp only
  refine ⟨⟨Buffer.pos_le _, ?_⟩, ?_, ?_, fun length h => BufferOp.perform_read_of_neg h _, ?_⟩
  . exact Int.ofNat_sub (Buffer.pos_le _)
  . exact run_conserves BufferOp.perform_conserves ops (Buffer.ofBytes [])
  . intro n h
    rw [← Buffer.length_unreadView] at h
    exact BufferOp.perform_read_of_lt h
  . rintro before after rfl
    rw [(BufferOp.refines.run (before ++ after) _).1,
      (BufferOp.refines.run (before ++ .clear :: after) _).1]
    exact BufferOp.run_onQueue_clear before after _

end Python

end McStatus
