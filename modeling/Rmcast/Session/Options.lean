import Mathlib.Data.List.TakeWhile
import Mathlib.Tactic

/-!
# The command line

`options::parse` (`src/options.hpp`): options with the arguments given to
them, and operands. An argument is a C string, so it holds no NUL.
-/

namespace Rmcast.Session

/-- What is left of a string that becomes a C string. -/
def cString (s : List Char) : List Char := s.takeWhile (· ≠ '\x00')

theorem cString_eq_self_iff {s : List Char} :
    cString s = s ↔ '\x00' ∉ s := by
  unfold cString
  rw [List.takeWhile_eq_self_iff]
  constructor
  · intro h hmem
    exact absurd (h _ hmem) (by decide)
  · intro h c hc
    apply decide_eq_true
    rintro rfl
    exact h hc

/-- `options::Dictionary`: a map, kept in the order of its keys. -/
abbrev Dictionary := List (List Char × List (List Char))

namespace Dictionary

def count (d : Dictionary) (k : List Char) : ℕ :=
  (d.filter (·.1 = k)).length

/-- `emplace` of a key without values, unless the key is there. -/
def emplace (d : Dictionary) (k : List Char) : Dictionary :=
  if d.count k ≥ 1 then d
  else d.takeWhile (fun e => e.1 < k) ++ (k, []) :: d.dropWhile (fun e => e.1 < k)

/-- The values of a key. -/
def values (d : Dictionary) (k : List Char) : List (List Char) :=
  (d.lookup k).getD []

/-- `emplace_back` on the values of a key. -/
def push (d : Dictionary) (k v : List Char) : Dictionary :=
  d.map fun e => if e.1 = k then (e.1, e.2 ++ [v]) else e

def erase (d : Dictionary) (k : List Char) : Dictionary :=
  d.filter (·.1 ≠ k)

end Dictionary

/-- The variables of the loop. -/
structure Parse where
  opts : Dictionary := []
  operands : List (List Char) := []
  operandsOnly : Bool := false
  /-- `value_collector`: the values of an option, or the operands. -/
  collector : Option (List Char) := none

/-- An option-argument or an operand. -/
def Parse.collect (s : Parse) (current : List Char) : Parse :=
  match s.collector with
  | some key => { s with opts := s.opts.push key current, collector := none }
  | none => { s with operands := s.operands ++ [current] }

/-- The grouped single-character options of an argument. -/
def Parse.letters (s : Parse) (current : List Char) : Parse :=
  current.foldl (fun s letter =>
    { s with opts := s.opts.emplace [letter], collector := some [letter] }) s

/-- A long option, with or without `=`. -/
def Parse.long (s : Parse) (current : List Char) : Parse :=
  let key := current.takeWhile (· ≠ '=')
  let opts := s.opts.emplace key
  match current.dropWhile (· ≠ '=') with
  | [] => { s with opts := opts, collector := some key }
  | _ :: value => { s with opts := opts.push key value, collector := none }

def Parse.step (s : Parse) (current : List Char) : Parse :=
  if s.operandsOnly then s.collect current
  else match current with
  | ['-', '-'] => { s with operandsOnly := true, collector := none }
  | '-' :: '-' :: rest => s.long rest
  | '-' :: c :: rest => s.letters (c :: rest)
  | _ => s.collect current

/-- `options::parse`. -/
def parse (args : List (List Char)) : Dictionary × List (List Char) :=
  let s := args.foldl Parse.step {}
  (s.opts, s.operands)

/-- An argument adds at most one operand. -/
theorem Parse.step_operands (s : Parse) (current : List Char) :
    (s.step current).operands = s.operands ∨
      (s.step current).operands = s.operands ++ [current] := by
  have hcollect : (s.collect current).operands = s.operands ∨
      (s.collect current).operands = s.operands ++ [current] := by
    unfold Parse.collect
    cases s.collector with
    | some key => exact Or.inl rfl
    | none => exact Or.inr rfl
  have hletters : ∀ (l : List Char) (s : Parse),
      (s.letters l).operands = s.operands := by
    intro l
    induction l with
    | nil => exact fun s => rfl
    | cons c l ih => exact fun s => ih _
  unfold Parse.step
  split
  · exact hcollect
  · split
    · exact Or.inl rfl
    · left
      unfold Parse.long
      simp only
      split
      · rfl
      · rfl
    · exact Or.inl (hletters _ s)
    · exact hcollect

/-- There are no more operands than arguments. -/
theorem parse_operands_length (args : List (List Char)) :
    (parse args).2.length ≤ args.length := by
  have key : ∀ (args : List (List Char)) (s : Parse),
      (args.foldl Parse.step s).operands.length
        ≤ s.operands.length + args.length := by
    intro args
    induction args with
    | nil => exact fun s => le_refl _
    | cons a args ih =>
        intro s
        have h1 := ih (s.step a)
        rw [List.foldl_cons, List.length_cons]
        rcases s.step_operands a with h | h
        · rw [h] at h1
          omega
        · rw [h, List.length_append, List.length_singleton] at h1
          omega
  have h := key args {}
  simp only [List.length_nil] at h
  exact h.trans (by omega)

/-- A single argument that does not begin with a dash is an operand. -/
theorem parse_operand {a : List Char} (h : a.head? ≠ some '-') :
    parse [a] = ([], [a]) := by
  cases a with
  | nil => rfl
  | cons c a =>
      have hc : c ≠ '-' := fun he => h (by rw [he]; rfl)
      show (Prod.mk (Parse.step {} (c :: a)).opts
        (Parse.step {} (c :: a)).operands) = _
      unfold Parse.step
      rw [if_neg Bool.false_ne_true]
      split
      · rename_i he
        exact absurd (List.cons.inj he).1 hc
      · rename_i he
        exact absurd (List.cons.inj he).1 hc
      · rename_i he
        exact absurd (List.cons.inj he).1 hc
      · rfl

end Rmcast.Session
