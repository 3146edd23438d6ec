import Mathlib.Tactic

/-!
# Machine words

`int32` is the value a 32-bit signed variable ends up with, and `le32` lays
an unsigned word out in memory, least significant byte first (`be32` the
other way round). A packed record of words is the concatenation of its words
(`words`); `readWords` reads one back, and the two are inverse to each other.
-/

namespace Word

/-! ## Signed values -/

def int32 (i : ℤ) : ℤ := (BitVec.ofInt 32 i).toInt

theorem int32_eq_bmod (i : ℤ) : int32 i = Int.bmod i (2 ^ 32) := by
  unfold int32
  rw [BitVec.toInt_ofInt]

theorem int32_eq {i : ℤ} (h : -2 ^ 31 ≤ i) (h' : i < 2 ^ 31) : int32 i = i := by
  rw [int32_eq_bmod]
  exact Int.bmod_eq_of_le (by omega) (by omega)

/-- `static_cast<int>` of an unsigned word. -/
def toInt (u : UInt32) : ℤ := int32 u.toNat

/-- A number that is not negative does not grow. -/
theorem int32_le {i : ℤ} (h : 0 ≤ i) : int32 i ≤ i := by
  rw [int32_eq_bmod, Int.bmod_def]
  split <;> omega

/-- `static_cast<uint32_t>` of an int. -/
def ofInt (i : ℤ) : UInt32 := UInt32.ofNat (i % 2 ^ 32).toNat

theorem toInt_ofInt (i : ℤ) : toInt (ofInt i) = int32 i := by
  have hlt : (i % 2 ^ 32).toNat < 2 ^ 32 := by omega
  have e : (((i % 2 ^ 32).toNat : ℕ) : ℤ) = i % 2 ^ 32 := by omega
  unfold toInt ofInt
  rw [UInt32.toNat_ofNat', Nat.mod_eq_of_lt hlt, e, int32_eq_bmod,
    int32_eq_bmod]
  exact Int.emod_bmod i (2 ^ 32)

theorem toNat_ofInt (i : ℤ) : (ofInt i).toNat = (i % 2 ^ 32).toNat := by
  have hlt : (i % 2 ^ 32).toNat < 2 ^ 32 := by omega
  unfold ofInt
  rw [UInt32.toNat_ofNat', Nat.mod_eq_of_lt hlt]

theorem toNat_ofInt_of_nonneg {i : ℤ} (h0 : 0 ≤ i) (h : i < 2 ^ 32) :
    (ofInt i).toNat = i.toNat := by
  rw [toNat_ofInt, Int.emod_eq_of_lt h0 h]

theorem toNat_ofInt_of_neg {i : ℤ} (h0 : -2 ^ 31 ≤ i) (h : i < 0) :
    2 ^ 31 ≤ (ofInt i).toNat := by
  rw [toNat_ofInt]
  omega

/-- The product of two ints, before it is cut to a word. -/
theorem mul_bounds {a b : ℤ} (ha : -2 ^ 31 ≤ a ∧ a < 2 ^ 31)
    (hb : -2 ^ 31 ≤ b ∧ b < 2 ^ 31) : -2 ^ 62 ≤ a * b ∧ a * b ≤ 2 ^ 62 := by
  have h1 : |a| ≤ 2 ^ 31 := abs_le.mpr ⟨ha.1, ha.2.le⟩
  have h2 : |b| ≤ 2 ^ 31 := abs_le.mpr ⟨hb.1, hb.2.le⟩
  have habs : |a * b| ≤ 2 ^ 62 := by
    calc |a * b| = |a| * |b| := abs_mul a b
      _ ≤ 2 ^ 31 * 2 ^ 31 := mul_le_mul h1 h2 (abs_nonneg b) (by norm_num)
      _ = 2 ^ 62 := by norm_num
  exact abs_le.mp habs

/-! ## Bytes of words -/

def le32 (u : UInt32) : List UInt8 :=
  [.ofNat u.toNat, .ofNat (u.toNat / 2 ^ 8), .ofNat (u.toNat / 2 ^ 16),
    .ofNat (u.toNat / 2 ^ 24)]

def ofLe32 (b0 b1 b2 b3 : UInt8) : UInt32 :=
  .ofNat (b0.toNat + b1.toNat * 2 ^ 8 + b2.toNat * 2 ^ 16 + b3.toNat * 2 ^ 24)

/-- A packed record of words. -/
def words (ws : List UInt32) : List UInt8 := ws.flatMap le32

theorem words_length (ws : List UInt32) : (words ws).length = 4 * ws.length := by
  unfold words
  induction ws with
  | nil => rfl
  | cons a ws ih =>
      rw [List.flatMap_cons, List.length_append, ih]
      simp [le32]
      omega

def readWords : List UInt8 → List UInt32
  | b0 :: b1 :: b2 :: b3 :: bs => ofLe32 b0 b1 b2 b3 :: readWords bs
  | _ => []

@[simp] theorem words_nil : words [] = [] := rfl

@[simp] theorem words_cons (u : UInt32) (us : List UInt32) :
    words (u :: us) = le32 u ++ words us := rfl

@[simp] theorem le32_length (u : UInt32) : (le32 u).length = 4 := rfl

theorem words_take (k : ℕ) (us : List UInt32) :
    (words us).take (4 * k) = words (us.take k) := by
  induction k generalizing us with
  | zero => rfl
  | succ k ih =>
      cases us with
      | nil => simp
      | cons u us =>
          have e : 4 * (k + 1) = (le32 u).length + 4 * k := by
            rw [le32_length]
            omega
          rw [words_cons, e, List.take_length_add_append, ih,
            List.take_succ_cons, words_cons]

theorem ofLe32_bytes (u : UInt32) :
    ofLe32 (.ofNat u.toNat) (.ofNat (u.toNat / 2 ^ 8))
      (.ofNat (u.toNat / 2 ^ 16)) (.ofNat (u.toNat / 2 ^ 24)) = u := by
  have hlt := u.toNat_lt
  apply UInt32.toNat_inj.mp
  unfold ofLe32
  rw [UInt32.toNat_ofNat']
  simp only [UInt8.toNat_ofNat']
  omega

theorem le32_ofLe32 (b0 b1 b2 b3 : UInt8) :
    le32 (ofLe32 b0 b1 b2 b3) = [b0, b1, b2, b3] := by
  have h0 := b0.toNat_lt
  have h1 := b1.toNat_lt
  have h2 := b2.toNat_lt
  have h3 := b3.toNat_lt
  unfold le32 ofLe32
  rw [UInt32.toNat_ofNat']
  simp only [List.cons.injEq, and_true]
  refine ⟨?_, ?_, ?_, ?_⟩ <;>
    · apply UInt8.toNat_inj.mp
      rw [UInt8.toNat_ofNat']
      omega

theorem readWords_le32_append (u : UInt32) (bs : List UInt8) :
    readWords (le32 u ++ bs) = u :: readWords bs := by
  show ofLe32 _ _ _ _ :: readWords bs = _
  rw [ofLe32_bytes]

/-- Reading a packed record gives its words back. -/
theorem readWords_words (us : List UInt32) : readWords (words us) = us := by
  induction us with
  | nil => rfl
  | cons u us ih => rw [words_cons, readWords_le32_append, ih]

/-- Every block of `4 * n` bytes is the packed record of the words read. -/
theorem words_readWords {n : ℕ} {bs : List UInt8} (h : bs.length = 4 * n) :
    words (readWords bs) = bs ∧ (readWords bs).length = n := by
  induction n generalizing bs with
  | zero =>
      obtain rfl := List.eq_nil_of_length_eq_zero h
      exact ⟨rfl, rfl⟩
  | succ n ih =>
      match bs, h with
      | b0 :: b1 :: b2 :: b3 :: bs, h =>
          simp only [List.length_cons] at h
          have hlen : bs.length = 4 * n := by omega
          obtain ⟨hw, hn⟩ := ih hlen
          refine ⟨?_, by rw [readWords, List.length_cons, hn]⟩
          rw [readWords, words_cons, le32_ofLe32, hw]
          rfl

/-! ## Network order -/

/-- A word most significant byte first. -/
def be32 (u : UInt32) : List UInt8 := (le32 u).reverse

def ofBe32 (b0 b1 b2 b3 : UInt8) : UInt32 := ofLe32 b3 b2 b1 b0

theorem be32_eq (u : UInt32) : ∃ b0 b1 b2 b3, be32 u = [b0, b1, b2, b3] ∧
    ofBe32 b0 b1 b2 b3 = u :=
  ⟨_, _, _, _, rfl, ofLe32_bytes u⟩

theorem be32_ofBe32 (b0 b1 b2 b3 : UInt8) :
    be32 (ofBe32 b0 b1 b2 b3) = [b0, b1, b2, b3] := by
  unfold be32 ofBe32
  rw [le32_ofLe32]
  rfl

end Word
