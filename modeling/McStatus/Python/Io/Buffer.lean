import McStatus.Python.Io.BaseIo

/-!
This module contains the `Buffer` of `mcstatus/_protocol/io/buffer.py`.
-/

namespace McStatus

open Reader

namespace Python

/-- `Buffer`: a bytearray, and how much of it has been read. -/
structure Buffer where
  data : List UInt8
  pos : Nat
  pos_le : pos ≤ data.length
  deriving DecidableEq, Repr

namespace Buffer

def ofBytes (data : List UInt8) : Buffer where
  data := data
  pos := 0
  pos_le := Nat.zero_le _

def unreadView (b : Buffer) : List UInt8 :=
  b.data.drop b.pos

def remaining (b : Buffer) : Nat :=
  b.data.length - b.pos

def append (b : Buffer) (data : List UInt8) : Buffer where
  data := b.data ++ data
  pos := b.pos
  pos_le := by
    have := b.pos_le
    rw [List.length_append]
    omega

def write (data : List UInt8) : Py Buffer Unit :=
  modify fun b => b.append data

def read (length : Int) : Py Buffer (List UInt8) := fun b =>
  if length < 0 then
    .error (.osError (.negativeRead length)) b
  else
    let stop := b.pos + length.toNat
    if h : stop > b.data.length then
      .error (.osError (.notAvailable (b.data.length - b.pos) b.unreadView length))
        { data := b.data, pos := b.data.length, pos_le := Nat.le_refl _ }
    else
      .ok (b.unreadView.take length.toNat)
        { data := b.data, pos := stop, pos_le := Nat.le_of_not_lt h }

def clear (only_already_read : Bool) : Py Buffer Unit :=
  modify fun b => if only_already_read then ofBytes (b.data.drop b.pos) else ofBytes []

def flush : Py Buffer (List UInt8) := do
  let data := (← get).unreadView
  clear false
  return data

theorem length_unreadView (b : Buffer) : b.unreadView.length = b.remaining := by
  simp [unreadView, remaining]

@[simp]
theorem unreadView_ofBytes (data : List UInt8) : (ofBytes data).unreadView = data := rfl

theorem read_neg {length : Int} (h : length < 0) (b : Buffer)
    : read length b = .error (.osError (.negativeRead length)) b := by
  simp [read, h]

theorem read_of_le {n : Nat} {b : Buffer} (h : n ≤ b.unreadView.length)
    : ∃ b', read n b = .ok (b.unreadView.take n) b' ∧ b'.unreadView = b.unreadView.drop n := by
  have hle := b.pos_le
  rw [length_unreadView, remaining] at h
  have hfit : ¬ (b.pos + n > b.data.length) := by omega
  refine ⟨{ data := b.data, pos := b.pos + n, pos_le := Nat.le_of_not_lt hfit }, ?_, ?_⟩
  . have hnot : ¬ ((n : Int) < 0) := by omega
    simp [read, hnot, hfit]
  . simp [unreadView]

theorem read_of_lt {n : Nat} {b : Buffer} (h : b.unreadView.length < n)
    : ∃ b', read n b = .error (.osError (.notAvailable b.remaining b.unreadView n)) b'
        ∧ b'.unreadView = [] := by
  have hle := b.pos_le
  rw [length_unreadView, remaining] at h
  have hcut : b.pos + n > b.data.length := by omega
  refine ⟨{ data := b.data, pos := b.data.length, pos_le := Nat.le_refl _ }, ?_, ?_⟩
  . have hnot : ¬ ((n : Int) < 0) := by omega
    simp [read, hnot, hcut, remaining]
  . simp [unreadView]

theorem remaining_le_of_read {b b' : Buffer} {n : Int} {data : List UInt8}
    (h : read n b = .ok data b') : b'.remaining ≤ b.remaining := by
  unfold read at h
  split at h
  . simp at h
  . dsimp only at h
    split at h
    . simp at h
    . rw [EStateM.Result.ok.injEq] at h
      rw [← h.2, remaining, remaining]
      dsimp only
      omega

theorem remaining_lt_of_read {b b' : Buffer} {data : List UInt8} (h : read 1 b = .ok data b')
    : b'.remaining < b.remaining := by
  cases Nat.lt_or_ge b.unreadView.length 1 with
  | inl hlt =>
    rcases read_of_lt hlt with ⟨c, hread, -⟩
    have : read ((1 : Nat) : Int) b = read 1 b := rfl
    rw [this, h] at hread
    simp at hread
  | inr hge =>
    rcases read_of_le hge with ⟨c, hread, hview⟩
    have : read ((1 : Nat) : Int) b = read 1 b := rfl
    rw [this, h, EStateM.Result.ok.injEq] at hread
    rw [hread.2, ← length_unreadView, ← length_unreadView, hview, List.length_drop]
    omega

end Buffer

instance : BaseSyncReader Buffer where
  read := Buffer.read
  available := Buffer.remaining
  available_lt := Buffer.remaining_lt_of_read

instance : BaseSyncWriter Buffer where
  write := Buffer.write

end Python

end McStatus
