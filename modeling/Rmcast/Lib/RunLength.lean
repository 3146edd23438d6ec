import Mathlib.Tactic

/-!
# Run-length codes

A run writes symbols out or gives a number of copies of one symbol, and is
announced by a control symbol. `decode` reads any list of symbols, also one
that ends within a run, and undoes `serialise`.
-/

namespace RunLength

variable {β : Type*}

/-- What a control symbol announces. -/
inductive Control where
  | literal (n : ℕ)
  | copies (n : ℕ)
deriving DecidableEq, Repr

def Control.count : Control → ℕ
  | .literal n | .copies n => n

/-- The control symbols of a code. -/
structure Code (β : Type*) where
  read : β → Control
  write : Control → β
  Writable : Control → Prop
  read_write : ∀ {c}, Writable c → read (write c) = c
  count_pos : ∀ {c}, Writable c → 0 < c.count

variable {C : Code β}

inductive Run (C : Code β) where
  | literal (bs : List β) (h : C.Writable (.literal bs.length))
  | copies (n : ℕ) (b : β) (h : C.Writable (.copies n))

def Run.expand : Run C → List β
  | .literal bs _ => bs
  | .copies n b _ => List.replicate n b

def Run.serialise : Run C → List β
  | .literal bs _ => C.write (.literal bs.length) :: bs
  | .copies n b _ => [C.write (.copies n), b]

/-- What a list of runs stands for. -/
def expand (runs : List (Run C)) : List β := runs.flatMap Run.expand

def serialise (runs : List (Run C)) : List β := runs.flatMap Run.serialise

/-- A run that the end cuts off gives what is there of it. -/
def decode (C : Code β) : List β → List β
  | [] => []
  | c :: bs =>
      match C.read c with
      | .literal n => bs.take n ++ decode C (bs.drop n)
      | .copies n =>
          match bs with
          | [] => []
          | b :: bs => List.replicate n b ++ decode C bs
termination_by bs => bs.length

@[simp] theorem decode_nil (C : Code β) : decode C [] = [] := by
  rw [decode]

theorem decode_literal {c : β} {n : ℕ} (h : C.read c = .literal n)
    (bs : List β) : decode C (c :: bs) = bs.take n ++ decode C (bs.drop n) := by
  rw [decode, h]

theorem decode_copies {c : β} {n : ℕ} (h : C.read c = .copies n) (b : β)
    (bs : List β) :
    decode C (c :: b :: bs) = List.replicate n b ++ decode C bs := by
  rw [decode, h]

theorem decode_copies_cut {c : β} {n : ℕ} (h : C.read c = .copies n) :
    decode C [c] = [] := by
  rw [decode, h]

/-- Reading a run that is complete. -/
theorem decode_run (r : Run C) (bs : List β) :
    decode C (r.serialise ++ bs) = r.expand ++ decode C bs := by
  cases r with
  | literal ls h =>
      show decode C (_ :: (ls ++ bs)) = _
      rw [decode_literal (C.read_write h), List.take_left' rfl,
        List.drop_left' rfl]
      rfl
  | copies n b h =>
      show decode C (_ :: b :: bs) = _
      rw [decode_copies (C.read_write h)]
      rfl

/-- **Round trip.** -/
theorem decode_serialise (runs : List (Run C)) :
    decode C (serialise runs) = expand runs := by
  induction runs with
  | nil => exact decode_nil C
  | cons r runs ih =>
      show decode C (r.serialise ++ serialise runs) = r.expand ++ expand runs
      rw [decode_run, ih]

/-- A code at worst doubles the length. -/
theorem serialise_length_le (runs : List (Run C)) :
    (serialise runs).length ≤ 2 * (expand runs).length := by
  induction runs with
  | nil => exact le_refl 0
  | cons r runs ih =>
      have hr : r.serialise.length ≤ 2 * r.expand.length := by
        cases r with
        | literal bs h =>
            have hpos : 0 < bs.length := C.count_pos h
            show bs.length + 1 ≤ 2 * bs.length
            omega
        | copies n b h =>
            have hpos : 0 < n := C.count_pos h
            show 2 ≤ 2 * (List.replicate n b).length
            rw [List.length_replicate]
            omega
      show (r.serialise ++ serialise runs).length
        ≤ 2 * (r.expand ++ expand runs).length
      rw [List.length_append, List.length_append]
      omega

end RunLength
