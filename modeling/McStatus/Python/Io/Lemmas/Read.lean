import McStatus.Python.Io.Buffer

/-!
This module contains what a read of each kind takes from its source. The results are stated for
every source that hands out its bytes in order, of which `Buffer` is one.
-/

namespace McStatus

open Reader

namespace Python

/-- A source whose reads hand out the bytes of `view` in order, and raise `OSError` at its end. -/
class LawfulReader (σ : Type) extends BaseSyncReader σ where
  view : σ → List UInt8
  IsEnd : Exception → Prop
  isOSError_of_isEnd {e : Exception} : IsEnd e → e.IsOSError
  consumes_read (input : List UInt8) : Consumes view (read input.length) input input
  runsOut_read (input : List UInt8) : RunsOut view IsEnd (read input.length) input
  length_of_read {s s' : σ} {n : Int} {data : List UInt8} :
    read n s = .ok data s' → n = data.length ∧ view s = data ++ view s'

instance : LawfulReader Buffer where
  view := Buffer.unreadView
  IsEnd := Exception.IsOSError
  isOSError_of_isEnd h := h
  consumes_read input := by
    intro b rest h
    have hle : input.length ≤ b.unreadView.length := by
      rw [h, List.length_append]
      omega
    rcases Buffer.read_of_le hle with ⟨b', hread, hview⟩
    rw [h, List.take_left] at hread
    rw [h, List.drop_left] at hview
    exact ⟨b', hread, hview⟩
  runsOut_read input := by
    intro b hpart hne
    have hlt : b.unreadView.length < input.length := by
      have hle := hpart.length_le
      have : b.unreadView.length ≠ input.length := fun heq => hne (hpart.eq_of_length heq)
      omega
    rcases Buffer.read_of_lt hlt with ⟨b', hread, -⟩
    exact ⟨_, b', hread, _, rfl⟩
  length_of_read := by
    intro b b' n data h
    cases Int.lt_or_le n 0 with
    | inl hneg =>
      have := Buffer.read_neg hneg b
      simp [BaseSyncReader.read, this] at h
    | inr hge =>
      rcases Int.eq_ofNat_of_zero_le hge with ⟨k, rfl⟩
      cases Nat.lt_or_ge b.unreadView.length k with
      | inl hlt =>
        rcases Buffer.read_of_lt hlt with ⟨c, hread, -⟩
        simp [BaseSyncReader.read, hread] at h
      | inr hle =>
        rcases Buffer.read_of_le hle with ⟨c, hread, hview⟩
        simp only [BaseSyncReader.read, hread, EStateM.Result.ok.injEq] at h
        rcases h with ⟨rfl, rfl⟩
        constructor
        . simp [Nat.min_eq_left hle]
        . rw [hview, List.take_append_drop]

namespace BaseSyncReader

open LawfulReader

variable {σ : Type} [LawfulReader σ]

theorem delimited_read (n : Int)
    : Delimited view (IsEnd σ) (read n : Py σ (List UInt8)) := by
  intro s data s' h
  rcases length_of_read h with ⟨rfl, hview⟩
  exact ⟨data, hview, consumes_read data, runsOut_read data⟩

theorem delimited_ofExcept {α : Type} (x : Except Exception α)
    : Delimited view (IsEnd σ) (ofExcept x : Py σ α) := by
  cases x with
  | ok a => exact Delimited.pure a
  | error e => exact Delimited.throw e

theorem delimited_readValue (fmt : StructFormat)
    : Delimited view (IsEnd σ) (readValue fmt : Py σ fmt.Value) :=
  Delimited.bind (delimited_read _) fun _ => delimited_ofExcept _

theorem delimited_readVaruint (max_bits : Nat)
    : Delimited view (IsEnd σ) (readVaruint max_bits : Py σ Nat) := by
  have hgo : ∀ left i result,
      Delimited view (IsEnd σ) (readVaruint.go max_bits left i result : Py σ Nat) := by
    intro left
    induction left with
    | zero =>
      intro i result
      exact Delimited.throw _
    | succ left ih =>
      intro i result
      refine Delimited.bind (delimited_readValue .ubyte) fun byte => ?_
      apply Delimited.ite
      . exact Delimited.throw _
      . apply Delimited.ite
        . exact Delimited.pure _
        . exact ih _ _
  exact hgo _ _ _

theorem delimited_readVarint
    : Delimited view (IsEnd σ) (readVarint : Py σ Int) :=
  Delimited.bind (delimited_readVaruint 32) fun _ => delimited_ofExcept _

theorem delimited_readVarlong
    : Delimited view (IsEnd σ) (readVarlong : Py σ Int) :=
  Delimited.bind (delimited_readVaruint 64) fun _ => delimited_ofExcept _

theorem delimited_readBytearray
    : Delimited view (IsEnd σ) (readBytearray : Py σ (List UInt8)) := by
  refine Delimited.bind delimited_readVarint fun length => ?_
  apply Delimited.ite
  . exact Delimited.throw _
  . exact delimited_read length

theorem delimited_readAscii
    : Delimited view (IsEnd σ) (readAscii : Py σ (List Char)) := by
  refine Delimited.bind (Delimited.loop (fun result => ?_) _) fun _ => Delimited.pure _
  apply Delimited.ite
  . exact Delimited.bind (delimited_read 1) fun _ => Delimited.pure _
  . exact Delimited.pure _

theorem delimited_readOptional {α : Type} {reader : Py σ α}
    (h : Delimited view (IsEnd σ) reader)
    : Delimited view (IsEnd σ) (readOptional reader) := by
  refine Delimited.bind (delimited_readValue .bool) fun present => ?_
  apply Delimited.ite
  . exact Delimited.pure _
  . exact Delimited.bind h fun _ => Delimited.pure _

theorem delimited_readUtf
    : Delimited view (IsEnd σ) (readUtf : Py σ (List Char)) := by
  refine Delimited.bind delimited_readVarint fun length => ?_
  apply Delimited.ite
  . exact Delimited.throw _
  . apply Delimited.ite
    . exact Delimited.throw _
    . refine Delimited.bind (delimited_read length) fun data => ?_
      refine Delimited.bind (delimited_ofExcept _) fun chars => ?_
      apply Delimited.ite
      . exact Delimited.throw _
      . exact Delimited.pure chars

theorem consumes_ofExcept {α : Type} {x : Except Exception α} {a : α} (h : x = .ok a)
    : Consumes view (ofExcept x : Py σ α) [] a := by
  subst h
  exact Consumes.pure a

theorem consumes_readValue {fmt : StructFormat} {input : List UInt8} {value : fmt.Value}
    (hlen : input.length = fmt.calcsize) (h : unpack fmt input = .ok value)
    : Consumes view (readValue fmt : Py σ fmt.Value) input value := by
  have hread : Consumes view (read (fmt.calcsize : Nat) : Py σ (List UInt8)) input input := by
    rw [← hlen]
    exact consumes_read input
  exact hread.bind_done (consumes_ofExcept h)

theorem consumes_readAsciiStep {result : List UInt8} (h : 0 ∉ result) (b : UInt8)
    : Consumes view (readAsciiStep result : Py σ _) [b] (.inl (result ++ [b])) := by
  have hmore : result.length = 0 ∨ result.getLast? ≠ some 0 :=
    Or.inr fun hlast => h (List.mem_of_getLast? hlast)
  rw [readAsciiStep, if_pos hmore]
  exact (consumes_read [b]).bind_done (Consumes.pure _)

theorem consumes_readAscii {text : List UInt8} (h : 0 ∉ text)
    : Consumes view (readAscii : Py σ (List Char)) (text ++ [0]) (Latin1.decode text) := by
  have hloop : ∀ result : List UInt8, 0 ∉ result →
      Consumes view (loop (σ := σ) available readAsciiStep (fun _ _ _ _ h => readAsciiStep_lt h)
        result) (text ++ [0]) (result ++ (text ++ [0])) := by
    induction text with
    | nil =>
      intro result hresult
      have hlast : Consumes view
          (readAsciiStep (result ++ [0]) : Py σ (List UInt8 ⊕ List UInt8)) []
          (.inr (result ++ [0])) := by
        have hdone : ¬ ((result ++ [0]).length = 0 ∨ (result ++ [0]).getLast? ≠ some 0) := by simp
        rw [readAsciiStep, if_neg hdone]
        exact Consumes.pure _
      exact (consumes_readAsciiStep hresult 0).loop_continue hlast.loop_break
    | cons b text ih =>
      intro result hresult
      rw [List.mem_cons, not_or] at h
      have hnext := ih h.2 (result ++ [b]) (by simp [hresult, h.1])
      have := (consumes_readAsciiStep hresult b).loop_continue hnext
      simpa using this
  refine (hloop [] (by simp)).bind_done ?_
  rw [List.nil_append, List.dropLast_concat]
  exact Consumes.pure _

end BaseSyncReader

end Python

end McStatus
