import Mathlib.Tactic

/-!
# Flat memory blocks with checked accesses

A block is the list of its cells. `load` and `store` fail when an access
leaves the block, so a computation over blocks that returns `some` has made
every one of its accesses in bounds; the offset is an integer because the
code that computes it may go below zero.

`overlay` is a block filled from the front, as far as a writer got. The
second half views a block as rows of fixed-size cells (`cell`): a row
has a stride, and the cell in column `x` of row `y` starts at
`y * stride + x * k`. `cell_store_run` is the one fact picture code needs:
a store of a horizontal run of cells changes exactly the cells of the run.
A picture without padding is determined by its cells (`ext_cell`).
-/

namespace Mem

variable {α : Type*}

/-! ## Loads and stores -/

/-- The `n` entries at offset `off`. -/
def load (b : List α) (off : ℤ) (n : ℕ) : Option (List α) :=
  if 0 ≤ off ∧ off + n ≤ b.length then
    some ((b.drop off.toNat).take n)
  else none

/-- Overwrite the entries at offset `off` by `xs`. -/
def store (b : List α) (off : ℤ) (xs : List α) : Option (List α) :=
  if 0 ≤ off ∧ off + xs.length ≤ b.length then
    some (b.take off.toNat ++ xs ++ b.drop (off.toNat + xs.length))
  else none

/-- Copy `n` entries from offset `s` of `src` to offset `d` of `dst`. -/
def memcpy (dst : List α) (d : ℤ) (src : List α) (s : ℤ) (n : ℕ) :
    Option (List α) := do
  let xs ← load src s n
  store dst d xs

/-- Set `n` entries at offset `off` to `v`. -/
def memset (b : List α) (off : ℤ) (v : α) (n : ℕ) : Option (List α) :=
  store b off (List.replicate n v)

theorem load_isSome {b : List α} {off : ℤ} {n : ℕ}
    (h0 : 0 ≤ off) (hn : off + n ≤ b.length) :
    ∃ xs, load b off n = some xs := by
  exact ⟨_, if_pos ⟨h0, hn⟩⟩

theorem store_isSome {b : List α} {off : ℤ} {xs : List α}
    (h0 : 0 ≤ off) (hn : off + xs.length ≤ b.length) :
    ∃ b', store b off xs = some b' := by
  exact ⟨_, if_pos ⟨h0, hn⟩⟩

theorem load_eq_some {b : List α} {off : ℤ} {n : ℕ} {xs : List α} :
    load b off n = some xs ↔
      (0 ≤ off ∧ off + n ≤ b.length) ∧ (b.drop off.toNat).take n = xs := by
  unfold load
  split <;> simp_all

theorem store_eq_some {b b' : List α} {off : ℤ} {xs : List α} :
    store b off xs = some b' ↔
      (0 ≤ off ∧ off + xs.length ≤ b.length) ∧
        b.take off.toNat ++ xs ++ b.drop (off.toNat + xs.length) = b' := by
  unfold store
  split <;> simp_all

theorem load_length {b : List α} {off : ℤ} {n : ℕ} {xs : List α}
    (h : load b off n = some xs) : xs.length = n := by
  obtain ⟨⟨h0, hn⟩, rfl⟩ := load_eq_some.mp h
  rw [List.length_take, List.length_drop]
  omega

theorem store_length {b b' : List α} {off : ℤ} {xs : List α}
    (h : store b off xs = some b') : b'.length = b.length := by
  obtain ⟨⟨h0, hn⟩, rfl⟩ := store_eq_some.mp h
  simp only [List.length_append, List.length_take, List.length_drop]
  omega

theorem getElem?_window (b : List α) (o n i : ℕ) :
    ((b.drop o).take n)[i]? = if i < n then b[o + i]? else none := by
  rw [List.getElem?_take, List.getElem?_drop]

/-- What a stored block holds, entry by entry. -/
theorem getElem?_store {b b' : List α} {off : ℤ} {xs : List α}
    (h : store b off xs = some b') (i : ℕ) :
    b'[i]? = if off ≤ i ∧ (i : ℤ) < off + xs.length then
      xs[i - off.toNat]? else b[i]? := by
  obtain ⟨⟨h0, hn⟩, rfl⟩ := store_eq_some.mp h
  have hlen : (b.take off.toNat).length = off.toNat := by
    rw [List.length_take]
    omega
  rw [List.append_assoc]
  by_cases hlt : i < off.toNat
  · rw [List.getElem?_append_left (by omega), List.getElem?_take_of_lt hlt,
      if_neg (by omega)]
  · rw [List.getElem?_append_right (by omega), hlen]
    by_cases hin : i - off.toNat < xs.length
    · rw [List.getElem?_append_left hin, if_pos (by omega)]
    · rw [List.getElem?_append_right (by omega), List.getElem?_drop,
        if_neg (by omega)]
      congr 1
      omega

/-- Two loads agree when the blocks agree on the range that is read. -/
theorem load_congr {b d : List α} {off : ℤ} {n : ℕ}
    (hlen : b.length = d.length)
    (h : ∀ i : ℕ, off ≤ i → (i : ℤ) < off + n → b[i]? = d[i]?) :
    load b off n = load d off n := by
  unfold load
  rw [hlen]
  split
  · next hb =>
      congr 1
      apply List.ext_getElem?
      intro i
      rw [getElem?_window, getElem?_window]
      split
      · exact h _ (by omega) (by omega)
      · rfl
  · rfl

/-- A store leaves every range outside it as it was. -/
theorem load_store_other {b b' : List α} {off off' : ℤ} {n : ℕ} {xs : List α}
    (h : store b off xs = some b')
    (hdisj : off' + n ≤ off ∨ off + xs.length ≤ off') :
    load b' off' n = load b off' n := by
  apply load_congr (store_length h)
  intro i h1 h2
  rw [getElem?_store h, if_neg (by omega)]

/-- Reading inside the stored range reads the stored entries. -/
theorem load_store_within {b b' : List α} {off : ℤ} {i : ℤ} {n : ℕ}
    {xs : List α} (h : store b off xs = some b')
    (hi : 0 ≤ i) (hn : i + n ≤ xs.length) :
    load b' (off + i) n = load xs i n := by
  have hlen := store_length h
  obtain ⟨⟨h0, hb⟩, -⟩ := store_eq_some.mp h
  rw [load, if_pos (by omega), load, if_pos ⟨hi, hn⟩]
  congr 1
  apply List.ext_getElem?
  intro j
  rw [getElem?_window, getElem?_window]
  by_cases hj : j < n
  · rw [if_pos hj, if_pos hj, getElem?_store h, if_pos (by omega)]
    congr 1
    omega
  · rw [if_neg hj, if_neg hj]

theorem load_store_same {b b' : List α} {off : ℤ} {xs : List α}
    (h : store b off xs = some b') :
    load b' off xs.length = some xs := by
  have := load_store_within h (i := 0) (n := xs.length) le_rfl (by omega)
  rw [add_zero] at this
  rw [this, load, if_pos (by omega)]
  simp

/-- A load inside a loaded range. -/
theorem load_load {b : List α} {off i : ℤ} {n m : ℕ} {xs : List α}
    (h : load b off n = some xs) (hi : 0 ≤ i) (hm : i + m ≤ n) :
    load xs i m = load b (off + i) m := by
  have hlen := load_length h
  obtain ⟨⟨h0, hn⟩, rfl⟩ := load_eq_some.mp h
  rw [load, if_pos (by omega), load, if_pos (by omega)]
  congr 1
  apply List.ext_getElem?
  intro j
  rw [getElem?_window, getElem?_window, getElem?_window]
  by_cases hj : j < m
  · rw [if_pos hj, if_pos hj, if_pos (by omega)]
    congr 1
    omega
  · rw [if_neg hj, if_neg hj]

theorem memcpy_eq_some {dst src dst' : List α} {d s : ℤ} {n : ℕ} :
    memcpy dst d src s n = some dst' ↔
      ∃ xs, load src s n = some xs ∧ store dst d xs = some dst' := by
  unfold memcpy
  cases h : load src s n <;> simp

theorem memcpy_isSome {dst src : List α} {d s : ℤ} {n : ℕ}
    (hs : 0 ≤ s) (hsn : s + n ≤ src.length)
    (hd : 0 ≤ d) (hdn : d + n ≤ dst.length) :
    ∃ dst', memcpy dst d src s n = some dst' := by
  obtain ⟨xs, hxs⟩ := load_isSome hs hsn
  have hlen := load_length hxs
  have hend : d + xs.length ≤ dst.length := by omega
  obtain ⟨dst', hdst⟩ := store_isSome hd hend
  exact ⟨dst', memcpy_eq_some.mpr ⟨xs, hxs, hdst⟩⟩

/-! ## Filling a block from the front -/

/-- The block with its first cells overwritten by `xs`, as far as it goes. -/
def overlay (xs b : List α) : List α := xs.take b.length ++ b.drop xs.length

theorem overlay_nil (b : List α) : overlay [] b = b := by
  unfold overlay
  rw [List.take_nil]
  rfl

theorem overlay_length (xs b : List α) : (overlay xs b).length = b.length := by
  unfold overlay
  rw [List.length_append, List.length_take, List.length_drop]
  omega

theorem overlay_take (xs b : List α) :
    overlay (xs.take b.length) b = overlay xs b := by
  unfold overlay
  rw [List.take_take, min_self, List.length_take]
  congr 1
  by_cases h : xs.length ≤ b.length
  · rw [min_eq_right h]
  · rw [min_eq_left (by omega), List.drop_of_length_le le_rfl,
      List.drop_of_length_le (by omega)]

/-- A block that is overwritten as a whole. -/
theorem overlay_full {xs b : List α} (h : b.length ≤ xs.length) :
    overlay xs b = xs.take b.length := by
  unfold overlay
  rw [List.drop_of_length_le h, List.append_nil]

/-- Past `xs` the block is as it was. -/
theorem getElem?_overlay_right {xs : List α} {i : ℕ} (h : xs.length ≤ i)
    (b : List α) : (overlay xs b)[i]? = b[i]? := by
  unfold overlay
  rw [List.getElem?_append_right (by rw [List.length_take]; omega),
    List.getElem?_drop, List.length_take]
  by_cases hb : xs.length ≤ b.length
  · rw [min_eq_right hb]
    congr 1
    omega
  · rw [List.getElem?_eq_none (by omega), List.getElem?_eq_none (by omega)]

/-- The next cells are written. -/
theorem store_overlay {xs ys b : List α} (h : xs.length + ys.length ≤ b.length) :
    store (overlay xs b) xs.length ys = some (overlay (xs ++ ys) b) := by
  have hlen := overlay_length xs b
  refine store_eq_some.mpr ⟨⟨by omega, by rw [hlen]; omega⟩, ?_⟩
  unfold overlay
  rw [Int.toNat_natCast, List.take_of_length_le (l := xs) (by omega),
    List.take_left' rfl, List.drop_append, List.drop_drop,
    List.take_of_length_le (by rw [List.length_append]; omega),
    List.length_append, List.drop_of_length_le (by omega), List.nil_append]
  congr 2
  omega

/-! ## Rows of cells -/

/-- The cell of `k` entries in column `x` of row `y`. -/
def cell (b : List α) (stride : ℤ) (k : ℕ) (x y : ℤ) : Option (List α) :=
  load b (y * stride + x * k) k

/-- Rows do not overlap: a cell of another row starts at least a stride
away from where this row's cells end. -/
theorem row_disjoint {stride a a' n n' y y' : ℤ} (hne : y ≠ y')
    (ha : 0 ≤ a) (han : a + n ≤ stride)
    (ha' : 0 ≤ a') (han' : a' + n' ≤ stride) (hn' : 0 ≤ n') :
    y * stride + a + n ≤ y' * stride + a' ∨
      y' * stride + a' + n' ≤ y * stride + a := by
  rcases lt_or_gt_of_ne hne with h | h
  · left
    have : (y + 1) * stride ≤ y' * stride :=
      mul_le_mul_of_nonneg_right (by omega) (by omega)
    have e : (y + 1) * stride = y * stride + stride := by ring
    omega
  · right
    have : (y' + 1) * stride ≤ y * stride :=
      mul_le_mul_of_nonneg_right (by omega) (by omega)
    have e : (y' + 1) * stride = y' * stride + stride := by ring
    omega

/-- A cell outside a run of `n` cells does not meet it. -/
theorem cell_disjoint {stride x y x' y' : ℤ} {k n : ℕ} (hx : 0 ≤ x)
    (hxn : (x + n) * k ≤ stride) (hx' : 0 ≤ x') (hxk' : (x' + 1) * k ≤ stride)
    (hout : ¬ (y' = y ∧ x ≤ x' ∧ x' < x + n)) :
    y' * stride + x' * k + k ≤ y * stride + x * k ∨
      y * stride + x * k + n * k ≤ y' * stride + x' * k := by
  have e1 : (x + n) * k = x * k + n * k := by ring
  have e2 : (x' + 1) * (k : ℤ) = x' * k + k := by ring
  have hk : (0 : ℤ) ≤ k := by omega
  have hnk : (0 : ℤ) ≤ n * k := by positivity
  by_cases hy : y' = y
  · subst hy
    rcases lt_or_ge x' x with hlt | hge
    · left
      have : (x' + 1) * (k : ℤ) ≤ x * k :=
        mul_le_mul_of_nonneg_right (by omega) hk
      omega
    · right
      have : (x + n) * (k : ℤ) ≤ x' * k :=
        mul_le_mul_of_nonneg_right (by omega) hk
      omega
  · have h0 : 0 ≤ x * (k : ℤ) := mul_nonneg hx hk
    have h0' : 0 ≤ x' * (k : ℤ) := mul_nonneg hx' hk
    have hend : x * (k : ℤ) + n * k ≤ stride := by omega
    have hend' : x' * (k : ℤ) + k ≤ stride := by omega
    exact row_disjoint hy h0' hend' h0 hend hnk

section Run

variable {b b' xs : List α} {stride : ℤ} {k n : ℕ} {x y x' y' : ℤ}

/-- A cell outside the stored run keeps its entries. -/
theorem cell_store_other
    (h : store b (y * stride + x * k) xs = some b')
    (hxs : xs.length = n * k) (hx : 0 ≤ x) (hxn : (x + n) * k ≤ stride)
    (hx' : 0 ≤ x') (hxk' : (x' + 1) * k ≤ stride)
    (hout : ¬ (y' = y ∧ x ≤ x' ∧ x' < x + n)) :
    cell b' stride k x' y' = cell b stride k x' y' := by
  apply load_store_other h
  rw [hxs]
  push_cast
  exact cell_disjoint hx hxn hx' hxk' hout

/-- A cell of the stored run holds its part of the run. -/
theorem cell_store_run
    (h : store b (y * stride + x * k) xs = some b')
    (hxs : xs.length = n * k) (hx' : x ≤ x') (hn : x' < x + n) :
    cell b' stride k x' y = load xs ((x' - x) * k) k := by
  have hk : (0 : ℤ) ≤ k := by omega
  have hlen : (xs.length : ℤ) = n * k := by rw [hxs]; push_cast; ring
  have h0 : 0 ≤ (x' - x) * (k : ℤ) := mul_nonneg (by omega) hk
  have h1 : (x' - x) * (k : ℤ) + k ≤ n * k := by
    have : (x' - x + 1) * (k : ℤ) ≤ n * k :=
      mul_le_mul_of_nonneg_right (by omega) hk
    have e : (x' - x + 1) * (k : ℤ) = (x' - x) * k + k := by ring
    omega
  rw [← load_store_within h h0 (by omega), cell]
  congr 1
  ring

end Run

/-- A run of `n` cells inside a picture of `w` columns and `h` rows is inside
its block. -/
theorem run_isSome {b : List α} {stride : ℤ} {k n : ℕ} {w h x y : ℤ}
    (hlen : (b.length : ℤ) = stride * h) (hw : w * k ≤ stride)
    (hx : 0 ≤ x) (hxw : x + n ≤ w) (hy : 0 ≤ y) (hyh : y < h) :
    0 ≤ y * stride + x * k ∧
      y * stride + x * k + (n * k : ℕ) ≤ b.length := by
  have hk : (0 : ℤ) ≤ k := by omega
  have h1 : (x + n) * (k : ℤ) ≤ w * k := mul_le_mul_of_nonneg_right hxw hk
  have e1 : (x + n) * (k : ℤ) = x * k + (n * k : ℕ) := by push_cast; ring
  have h2 : 0 ≤ x * (k : ℤ) := mul_nonneg hx hk
  have hs : 0 ≤ stride := by omega
  have h3 : (y + 1) * stride ≤ h * stride :=
    mul_le_mul_of_nonneg_right (by omega) hs
  have e3 : (y + 1) * stride = y * stride + stride := by ring
  have h4 : 0 ≤ y * stride := mul_nonneg hy hs
  rw [hlen, mul_comm stride h]
  omega

theorem cell_isSome {b : List α} {stride : ℤ} {k : ℕ} {w h x y : ℤ}
    (hlen : (b.length : ℤ) = stride * h) (hw : w * k ≤ stride)
    (hx : 0 ≤ x) (hxw : x < w) (hy : 0 ≤ y) (hyh : y < h) :
    0 ≤ y * stride + x * k ∧ y * stride + x * k + k ≤ b.length := by
  simpa using run_isSome (n := 1) hlen hw hx (by push_cast; omega) hy hyh

/-- An entry of a range that is loaded. -/
theorem getElem?_of_load {b xs : List α} {off n i : ℕ} (h : load b off n = some xs)
    (h0 : off ≤ i) (hn : i < off + n) : b[i]? = xs[i - off]? := by
  obtain ⟨-, rfl⟩ := load_eq_some.mp h
  rw [Int.toNat_natCast, getElem?_window, if_pos (Nat.sub_lt_left_of_lt_add h0 hn),
    Nat.add_sub_cancel' h0]

/-- Every entry of a picture is in one of its cells. -/
theorem exists_cell {w k h i : ℕ} (hi : i < w * k * h) :
    ∃ x y, x < w ∧ y < h ∧ y * (w * k) + x * k ≤ i ∧ i < y * (w * k) + x * k + k := by
  have hstride : 0 < w * k := Nat.pos_of_mul_pos_right (Nat.zero_lt_of_lt hi)
  have hk : 0 < k := Nat.pos_of_mul_pos_left hstride
  have hmod : i % (w * k) < k * w := by
    rw [Nat.mul_comm k w]
    exact Nat.mod_lt i hstride
  have hrow : i / (w * k) * (w * k) + i % (w * k) = i := by
    rw [Nat.mul_comm]
    exact Nat.div_add_mod i (w * k)
  have hcol : i % (w * k) / k * k ≤ i % (w * k) := Nat.div_mul_le_self _ k
  have hcol' : i % (w * k) < i % (w * k) / k * k + k := Nat.lt_div_mul_add hk
  refine ⟨i % (w * k) / k, i / (w * k), Nat.div_lt_of_lt_mul hmod,
    Nat.div_lt_of_lt_mul hi, ?_, ?_⟩
  · omega
  · omega

/-- Two pictures with the same cells are the same. -/
theorem ext_cell {b b' : List α} {w h : ℤ} {k : ℕ} (hw : 0 ≤ w)
    (hlen : (b.length : ℤ) = w * k * h) (hlen' : b'.length = b.length)
    (heq : ∀ x y, 0 ≤ x → x < w → 0 ≤ y → y < h →
      cell b (w * k) k x y = cell b' (w * k) k x y) : b = b' := by
  lift w to ℕ using hw
  apply List.ext_getElem?
  intro i
  by_cases hi : i < b.length
  · have hh : 0 ≤ h := by
      by_contra hneg
      have hprod : ((w : ℤ) * k) * h ≤ 0 :=
        mul_nonpos_of_nonneg_of_nonpos (by positivity) (not_le.mp hneg).le
      omega
    lift h to ℕ using hh
    have hlen₀ : b.length = w * k * h := by exact_mod_cast hlen
    obtain ⟨x, y, hx, hy, h0, hn⟩ := exists_cell (hlen₀ ▸ hi)
    have hcell := heq x y (Int.natCast_nonneg _) (by exact_mod_cast hx)
      (Int.natCast_nonneg _) (by exact_mod_cast hy)
    have hin := cell_isSome (k := k) hlen le_rfl (Int.natCast_nonneg x)
      (by exact_mod_cast hx) (Int.natCast_nonneg y) (by exact_mod_cast hy)
    obtain ⟨xs, hxs⟩ := load_isSome hin.1 hin.2
    have hoff : ((y : ℤ) * (w * k) + x * k) = ((y * (w * k) + x * k : ℕ) : ℤ) := by
      push_cast
      rfl
    unfold cell at hcell
    rw [hxs] at hcell
    rw [hoff] at hxs hcell
    rw [getElem?_of_load hxs h0 hn, getElem?_of_load hcell.symm h0 hn]
  · rw [List.getElem?_eq_none (not_lt.mp hi),
      List.getElem?_eq_none (by rw [hlen']; exact not_lt.mp hi)]
end Mem
