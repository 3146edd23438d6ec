import Mathlib.Data.List.DropRight
import Mathlib.Data.List.TakeWhile
import Mathlib.Tactic

/-!
# Strings of ECMAScript

The string methods that scripts parse input with, on the characters of a
string: `trim`, `indexOf` and `lastIndexOf`, and the global `parseInt`, which
reads a number off the front of its argument and is content with anything
behind it. A number is its mathematical value here.
-/

namespace Ecma

/-! ## §1  White space -/

/-- `WhiteSpace` and `LineTerminator`. -/
def isSpace (c : Char) : Bool :=
  c.toNat ∈ [0x9, 0xA, 0xB, 0xC, 0xD, 0x20, 0xA0, 0x1680, 0x2000, 0x2001, 0x2002, 0x2003,
    0x2004, 0x2005, 0x2006, 0x2007, 0x2008, 0x2009, 0x200A, 0x2028, 0x2029, 0x202F, 0x205F,
    0x3000, 0xFEFF]

def trim (s : List Char) : List Char := (s.dropWhile isSpace).rdropWhile isSpace

theorem trim_eq_self_iff {s : List Char} :
    trim s = s ↔ s.dropWhile isSpace = s ∧ s.rdropWhile isSpace = s := by
  constructor
  · intro h
    have hle : (trim s).length ≤ (s.dropWhile isSpace).length :=
      (List.rdropWhile_prefix isSpace (s.dropWhile isSpace)).length_le
    rw [h] at hle
    have hdrop : s.dropWhile isSpace = s :=
      (List.dropWhile_suffix isSpace).eq_of_length_le hle
    refine ⟨hdrop, ?_⟩
    unfold trim at h
    rw [hdrop] at h
    exact h
  · rintro ⟨h1, h2⟩
    unfold trim
    rw [h1, h2]

/-- Nothing is dropped in front of a character that is no space. -/
theorem dropWhile_eq_self {s : List Char} (h : ∀ c, s.head? = some c → isSpace c = false) :
    s.dropWhile isSpace = s := by
  cases s with
  | nil => rfl
  | cons c s => rw [List.dropWhile_cons_of_neg (by rw [h c rfl]; decide)]

theorem head?_of_dropWhile_eq_self {s : List Char} (h : s.dropWhile isSpace = s) {c : Char}
    (hc : s.head? = some c) : isSpace c = false := by
  cases s with
  | nil => cases hc
  | cons a s =>
      cases hc
      by_contra hspace
      rw [List.dropWhile_cons_of_pos (by simpa using hspace)] at h
      have hle := (List.dropWhile_suffix (l := s) isSpace).length_le
      rw [h, List.length_cons] at hle
      exact absurd hle (Nat.not_succ_le_self _)

/-- The front of a string that does not begin with a space does not either. -/
theorem dropWhile_eq_self_of_prefix {s t : List Char} (hne : s ≠ []) (hpre : s <+: t)
    (h : t.dropWhile isSpace = t) : s.dropWhile isSpace = s := by
  refine dropWhile_eq_self fun c hc => head?_of_dropWhile_eq_self h ?_
  obtain ⟨u, rfl⟩ := hpre
  rw [List.head?_append_of_ne_nil _ hne]
  exact hc

theorem dropWhile_trim (s : List Char) : (trim s).dropWhile isSpace = trim s := by
  by_cases hne : trim s = []
  · rw [hne]
    rfl
  · exact dropWhile_eq_self_of_prefix hne (List.rdropWhile_prefix isSpace _)
      (List.dropWhile_idempotent isSpace s)

@[simp] theorem trim_trim (s : List Char) : trim (trim s) = trim s :=
  trim_eq_self_iff.mpr ⟨dropWhile_trim s, List.rdropWhile_idempotent isSpace _⟩

/-! ## §2  Positions -/

/-- `s.indexOf(c)`; `none` is -1. -/
def indexOf (c : Char) (s : List Char) : Option ℕ := s.findIdx? (· = c)

/-- `s.lastIndexOf(c)`. -/
def lastIndexOf (c : Char) (s : List Char) : Option ℕ :=
  (indexOf c s.reverse).map (s.length - 1 - ·)

theorem indexOf_eq_none {c : Char} {s : List Char} : indexOf c s = none ↔ c ∉ s := by
  unfold indexOf
  rw [List.findIdx?_eq_none_iff]
  constructor
  · intro h hc
    exact absurd (h c hc) (by simp)
  · rintro h a ha
    rw [decide_eq_false_iff_not]
    rintro rfl
    exact h ha

theorem indexOf_append {c : Char} {a : List Char} (h : c ∉ a) (b : List Char) :
    indexOf c (a ++ c :: b) = some a.length := by
  induction a with
  | nil =>
      unfold indexOf
      rw [List.nil_append, List.findIdx?_cons]
      simp
  | cons x a ih =>
      obtain ⟨hx, ha⟩ := List.ne_and_not_mem_of_not_mem_cons h
      have hrest := ih ha
      unfold indexOf at hrest ⊢
      rw [List.cons_append, List.findIdx?_cons, hrest]
      simp [Ne.symm hx]

theorem lastIndexOf_append {c : Char} (a : List Char) {b : List Char} (h : c ∉ b) :
    lastIndexOf c (a ++ c :: b) = some a.length := by
  have hrev : (a ++ c :: b).reverse = b.reverse ++ c :: a.reverse := by
    rw [List.reverse_append, List.reverse_cons, List.append_assoc]
    rfl
  unfold lastIndexOf
  rw [hrev, indexOf_append (fun hc => h (List.mem_reverse.mp hc)), Option.map_some,
    List.length_append, List.length_reverse, List.length_cons]
  congr 1
  omega

/-- The first occurrence splits a string. -/
theorem exists_first {c : Char} {s : List Char} (h : c ∈ s) :
    ∃ a b, s = a ++ c :: b ∧ c ∉ a :=
  List.eq_append_cons_of_mem h

theorem exists_last {c : Char} {s : List Char} (h : c ∈ s) :
    ∃ a b, s = a ++ c :: b ∧ c ∉ b := by
  obtain ⟨b, a, hs, hb⟩ := exists_first (List.mem_reverse.mpr h)
  refine ⟨a.reverse, b.reverse, ?_, fun hc => hb (List.mem_reverse.mp hc)⟩
  rw [← List.reverse_reverse s, hs, List.reverse_append, List.reverse_cons, List.append_assoc]
  rfl

/-- There is one way to split a string at its first occurrence. -/
theorem first_unique {c : Char} {a a' b b' : List Char} (h : c ∉ a) (h' : c ∉ a')
    (he : a ++ c :: b = a' ++ c :: b') : a = a' ∧ b = b' := by
  have hlen : a.length = a'.length := by
    have hi := indexOf_append h b
    rw [he, indexOf_append h' b'] at hi
    exact (Option.some.inj hi).symm
  obtain ⟨ha, hb⟩ := List.append_inj he hlen
  exact ⟨ha, (List.cons.inj hb).2⟩

/-! ## §3  Numbers -/

/-- The value of a digit, in the radixes up to 36. -/
def digitValue (c : Char) : ℕ :=
  if c.isDigit then c.toNat - '0'.toNat
  else if c.isLower then c.toNat - 'a'.toNat + 10
  else if c.isUpper then c.toNat - 'A'.toNat + 10
  else 36

/-- The value of a list of digits. -/
def numeral (radix : ℕ) (ds : List Char) : ℕ :=
  ds.foldl (fun n c => radix * n + digitValue c) 0

/-- The optional sign. -/
def signOf : List Char → Bool × List Char
  | '-' :: s => (true, s)
  | '+' :: s => (false, s)
  | s => (false, s)

/-- The radix, where none is given. -/
def radixOf : List Char → ℕ × List Char
  | '0' :: 'x' :: s => (16, s)
  | '0' :: 'X' :: s => (16, s)
  | s => (10, s)

/-- `parseInt(s)`; `none` is `NaN`. -/
def parseInt (s : List Char) : Option ℤ :=
  let sign := signOf (s.dropWhile isSpace)
  let radix := radixOf sign.2
  -- what follows the digits is ignored
  let ds := radix.2.takeWhile (digitValue · < radix.1)
  if ds = [] then none
  else some (if sign.1 then -numeral radix.1 ds else numeral radix.1 ds)

theorem isSpace_of_isDigit {c : Char} (h : c.isDigit) : isSpace c = false := by
  unfold Char.isDigit at h
  rw [Bool.and_eq_true, decide_eq_true_iff, decide_eq_true_iff] at h
  obtain ⟨h1, h2⟩ := h
  have h1' : 48 ≤ c.toNat := h1
  have h2' : c.toNat ≤ 57 := h2
  unfold isSpace
  rw [decide_eq_false_iff_not]
  simp only [List.mem_cons, List.not_mem_nil, or_false]
  omega

theorem digitValue_lt {c : Char} (h : c.isDigit) : digitValue c < 10 := by
  unfold digitValue
  rw [if_pos h]
  unfold Char.isDigit at h
  rw [Bool.and_eq_true, decide_eq_true_iff, decide_eq_true_iff] at h
  have h2 : c.toNat ≤ 57 := h.2
  have h0 : '0'.toNat = 48 := rfl
  omega

theorem signOf_digit {c : Char} (h : c.isDigit) (s : List Char) :
    signOf (c :: s) = (false, c :: s) := by
  unfold signOf
  split
  · next heq =>
      cases heq
      exact absurd h (by decide)
  · next heq =>
      cases heq
      exact absurd h (by decide)
  · rfl

theorem radixOf_digits {s : List Char} (h : ∀ c ∈ s, c.isDigit) : radixOf s = (10, s) := by
  unfold radixOf
  split
  · exact absurd (h 'x' (by simp)) (by decide)
  · exact absurd (h 'X' (by simp)) (by decide)
  · rfl

/-- A string of decimal digits is read to its end. -/
theorem parseInt_digits {s : List Char} (hne : s ≠ []) (h : ∀ c ∈ s, c.isDigit) :
    parseInt s = some ((numeral 10 s : ℕ) : ℤ) := by
  obtain ⟨c, s, rfl⟩ := List.exists_cons_of_ne_nil hne
  have hc := h c (List.mem_cons_self ..)
  have hdrop : (c :: s).dropWhile isSpace = c :: s :=
    dropWhile_eq_self fun a ha => by cases ha; exact isSpace_of_isDigit hc
  have htake : (c :: s).takeWhile (digitValue · < 10) = c :: s :=
    List.takeWhile_eq_self_iff.mpr fun a ha => decide_eq_true (digitValue_lt (h a ha))
  have hradix := radixOf_digits h
  unfold parseInt
  simp only [hdrop, signOf_digit hc, hradix, htake]
  rw [if_neg hne]
  rfl

/-- The text of a number. -/
def text (n : ℤ) : List Char := (toString n).toList

theorem text_eq {n : ℤ} (h : 0 ≤ n) : text n = Nat.toDigits 10 n.toNat := by
  obtain ⟨k, rfl⟩ := Int.eq_ofNat_of_zero_le h
  show (toString k).toList = _
  rw [Nat.toString_eq_ofList_toDigits, String.toList_ofList]
  rfl

theorem isDigit_of_mem_text {n : ℤ} (h : 0 ≤ n) {c : Char} (hc : c ∈ text n) : c.isDigit := by
  rw [text_eq h] at hc
  exact Nat.isDigit_of_mem_toDigits (by decide) (by decide) hc

theorem text_ne_nil {n : ℤ} (h : 0 ≤ n) : text n ≠ [] := by
  rw [text_eq h]
  exact Nat.toDigits_ne_nil

theorem numeral_digits {s : List Char} (h : ∀ c ∈ s, c.isDigit) :
    numeral 10 s = Nat.ofDigitChars 10 s 0 := by
  unfold numeral
  rw [Nat.ofDigitChars_eq_foldl]
  apply List.foldl_ext
  intro n c hc
  unfold digitValue
  rw [if_pos (h c hc)]

/-- **`parseInt` undoes the text** of a number that is not negative. -/
theorem parseInt_text {n : ℤ} (h : 0 ≤ n) : parseInt (text n) = some n := by
  have hdigits : ∀ c ∈ text n, c.isDigit := fun c => isDigit_of_mem_text h
  rw [parseInt_digits (text_ne_nil h) hdigits, numeral_digits hdigits, text_eq h,
    Nat.ofDigitChars_ten_toDigits, Int.toNat_of_nonneg h]

end Ecma
