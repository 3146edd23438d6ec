import Mathlib.Data.Char
import Mathlib.Data.List.AList
import Mathlib.Data.List.Lex
import Mathlib.Data.List.Sort
import Rmcast.Lib.Loop

/-!
# Installing and uninstalling one file

`install_one` (`installer/install.sh`) keeps the file it replaces under a name
with the time of the install, and `remove_or_restore`
(`installer/uninstall.sh`) looks for the newest of these backups. Newest is by
`ls -t`, that is by the time of the content, since `cp -a` keeps the mtime; the
time of the install is in the name only. So an older backup with newer content
is restored in place of the last one.
-/

namespace Rmcast.Installer

open Loop

/-! ## §1  Files -/

/-- A file name. `ls -1` prints it on one line. -/
@[ext] structure Name where
  chars : List Char
  oneLine : '\n' ∉ chars
deriving DecidableEq

/-- Names are listed in the order of their characters. -/
instance : LinearOrder Name :=
  LinearOrder.lift' Name.chars fun _ _ => Name.ext

structure File where
  content : List UInt8
  mtime : ℤ
deriving DecidableEq, Repr

abbrev Directory := AList fun _ : Name => File

abbrev Entry := Sigma fun _ : Name => File

theorem oneLine_append {l l' : List Char} (h : '\n' ∉ l) (h' : '\n' ∉ l') :
    '\n' ∉ l ++ l' := by
  rw [List.mem_append, not_or]
  exact ⟨h, h'⟩

/-- `$dst.new`. -/
def Name.temporary (dst : Name) : Name where
  chars := dst.chars ++ ".new".toList
  oneLine := oneLine_append dst.oneLine (by decide)

/-- `$dst.$TS.bak`. -/
def Name.backup (dst ts : Name) : Name where
  chars := dst.chars ++ (".".toList ++ (ts.chars ++ ".bak".toList))
  oneLine := oneLine_append dst.oneLine
    (oneLine_append (by decide) (oneLine_append ts.oneLine (by decide)))

/-- The pattern `"$target".*.bak`. -/
def Name.isBackup (target n : Name) : Bool :=
  (target.chars ++ ".".toList).isPrefixOf n.chars &&
    ".bak".toList.isSuffixOf (n.chars.drop (target.chars.length + 1))

/-- `cp -a` keeps the mtime. -/
def cp (d : Directory) (a b : Name) : Option Directory :=
  (d.lookup a).map fun f => d.insert b f

def mv (d : Directory) (a b : Name) : Option Directory :=
  (d.lookup a).map fun f => (d.erase a).insert b f

/-! ## §2  The scripts -/

/-- A run of the installer for one file: the value of `$TS`, and the
artifact. -/
structure Install where
  ts : Name
  src : File
deriving DecidableEq

/-- The backup, if there is something to back up. -/
def keepBackup (d : Directory) (dst ts : Name) : Option Directory :=
  if (d.lookup dst).isSome then cp d dst (dst.backup ts) else some d

/-- `install_one`. -/
def installOne (d : Directory) (dst : Name) (i : Install) : Option Directory := do
  let d ← keepBackup d dst i.ts
  -- the `chmod` in between changes neither content nor mtime
  mv (d.insert dst.temporary i.src) dst.temporary dst

/-- `ls -t`: the newest first, and by name where the mtimes are the same. -/
def ListedBefore (a b : Entry) : Prop :=
  b.2.mtime < a.2.mtime ∨ a.2.mtime = b.2.mtime ∧ a.1 ≤ b.1

instance : DecidableRel ListedBefore := fun _ _ => inferInstanceAs (Decidable (_ ∨ _ ∧ _))

/-- `ls -1t "$target".*.bak`. -/
def listing (d : Directory) (target : Name) : List Entry :=
  (d.entries.filter fun e => target.isBackup e.1).insertionSort ListedBefore

/-- `remove_or_restore`. -/
def removeOrRestore (d : Directory) (target : Name) : Option Directory :=
  if (d.lookup target).isNone then some d
  else match (listing d target).head? with
    | some newest => cp d newest.1 target
    | none => some (d.erase target)

/-- The content of a file that is there. -/
def contentOf (d : Directory) (n : Name) : Option (List UInt8) :=
  (d.lookup n).map File.content

/-- **Uninstall undoes the last install** `i`: the target has the content it
had before, or is absent if it was. -/
def Undone (d : Directory) (target : Name) (i : Install) : Prop :=
  ∃ d', (installOne d target i >>= fun d => removeOrRestore d target) = some d' ∧
    contentOf d' target = contentOf d target

/-- Before the install, the directory holds no backup that is listed before
the one to come, unless it has the same content; and none at all where there
is nothing to back up. -/
def Undoable (d : Directory) (target ts : Name) : Prop :=
  (d.lookup target = none → listing d target = []) ∧
  ∀ f ∈ d.lookup target, ∀ b ∈ (listing d target).head?,
    ListedBefore b ⟨target.backup ts, f⟩ → b.2.content = f.content

instance (d : Directory) (target ts : Name) : Decidable (Undoable d target ts) :=
  inferInstanceAs (Decidable (_ ∧ ∀ f ∈ d.lookup target, _))

/-! ## §3  Names and listings -/

section Names

variable {target ts ts' n : Name}

theorem isBackup_backup : target.isBackup (target.backup ts) = true := by
  unfold Name.isBackup Name.backup
  rw [Bool.and_eq_true, List.isPrefixOf_iff_prefix, List.isSuffixOf_iff_suffix]
  dsimp only
  constructor
  · rw [← List.append_assoc]
    exact List.prefix_append _ _
  · rw [← List.append_assoc, List.drop_left' (by rw [List.length_append]; rfl)]
    exact List.suffix_append _ _

theorem isBackup_self : target.isBackup target = false := by
  rw [Bool.eq_false_iff]
  intro h
  unfold Name.isBackup at h
  rw [Bool.and_eq_true, List.isPrefixOf_iff_prefix] at h
  have hlen := h.1.length_le
  rw [List.length_append] at hlen
  exact absurd hlen (Nat.not_succ_le_self _)

theorem isBackup_temporary : target.isBackup target.temporary = false := by
  rw [Bool.eq_false_iff]
  intro h
  unfold Name.isBackup Name.temporary at h
  rw [Bool.and_eq_true, List.isSuffixOf_iff_suffix] at h
  have hlen := h.2.length_le
  dsimp only at hlen
  rw [List.length_drop, List.length_append, Nat.add_sub_add_left] at hlen
  exact absurd hlen (by decide)

theorem backup_injective (h : target.backup ts = target.backup ts') : ts = ts' := by
  have hchars := congrArg Name.chars h
  unfold Name.backup at hchars
  dsimp only at hchars
  exact Name.ext (List.append_cancel_right (List.append_cancel_left
    (List.append_cancel_left hchars)))

end Names

instance : IsTrans Entry ListedBefore where
  trans := by
    rintro a b c (hab | ⟨hab, hn⟩) (hbc | ⟨hbc, hn'⟩)
    · exact Or.inl (hbc.trans hab)
    · exact Or.inl (hbc ▸ hab)
    · exact Or.inl (hab ▸ hbc)
    · exact Or.inr ⟨hab.trans hbc, hn.trans hn'⟩

instance : Std.Total ListedBefore where
  total := by
    intro a b
    rcases lt_trichotomy a.2.mtime b.2.mtime with h | h | h
    · exact Or.inr (Or.inl h)
    · rcases le_total a.1 b.1 with hn | hn
      · exact Or.inl (Or.inr ⟨h, hn⟩)
      · exact Or.inr (Or.inr ⟨h.symm, hn⟩)
    · exact Or.inl (Or.inl h)

/-- Two files that are listed before each other have one name. -/
theorem ListedBefore.antisymm {a b : Entry} (hab : ListedBefore a b) (hba : ListedBefore b a) :
    a.1 = b.1 := by
  rcases hab with hab | ⟨hab, hn⟩
  · rcases hba with hba | ⟨hba, -⟩
    · exact absurd hba hab.not_gt
    · exact absurd hba hab.ne
  · rcases hba with hba | ⟨-, hn'⟩
    · exact absurd hab hba.ne
    · exact le_antisymm hn hn'

section Listings

variable {d : Directory} {target : Name} {e : Entry}

theorem mem_listing : e ∈ listing d target ↔
    d.lookup e.1 = some e.2 ∧ target.isBackup e.1 = true := by
  unfold listing
  rw [List.mem_insertionSort, List.mem_filter]
  exact and_congr_left fun _ => AList.mem_lookup_iff.symm

/-- The first of the listing is listed before all. -/
theorem listing_head (he : e ∈ (listing d target).head?) :
    e ∈ listing d target ∧ ∀ b ∈ listing d target, b ≠ e → ListedBefore e b := by
  have hsorted : (listing d target).Pairwise ListedBefore := List.pairwise_insertionSort _ _
  generalize listing d target = l at he hsorted ⊢
  cases l with
  | nil => cases he
  | cons a l =>
      obtain rfl : a = e := Option.some.inj he
      refine ⟨List.mem_cons_self .., fun b hb hne => ?_⟩
      rcases List.mem_cons.mp hb with rfl | hb
      · exact absurd rfl hne
      · exact (List.pairwise_cons.mp hsorted).1 b hb

theorem listing_head_ne_none {b : Entry} (hb : b ∈ listing d target) :
    ∃ e, (listing d target).head? = some e := by
  cases hl : listing d target with
  | nil =>
      rw [hl] at hb
      cases hb
  | cons e l => exact ⟨e, rfl⟩

/-- Two files that are listed before each other are one. -/
theorem listing_antisymm {a b : Entry} (ha : a ∈ listing d target) (hb : b ∈ listing d target)
    (hab : ListedBefore a b) (hba : ListedBefore b a) : a = b := by
  have hname := hab.antisymm hba
  obtain ⟨n, f⟩ := a
  obtain ⟨m, g⟩ := b
  obtain rfl : n = m := hname
  obtain rfl : f = g := Option.some.inj ((mem_listing.mp ha).1.symm.trans (mem_listing.mp hb).1)
  rfl

end Listings

/-! ## §4  One install, and back -/

section Install

variable {d d' : Directory} {target n : Name} {i : Install}

theorem backup_ne (target ts : Name) : target.backup ts ≠ target := by
  intro h
  have hglob : target.isBackup (target.backup ts) = true := isBackup_backup
  rw [h, isBackup_self] at hglob
  cases hglob

theorem backup_ne_temporary (target ts : Name) : target.backup ts ≠ target.temporary := by
  intro h
  have hglob : target.isBackup (target.backup ts) = true := isBackup_backup
  rw [h, isBackup_temporary] at hglob
  cases hglob

theorem keepBackup_spec (d : Directory) (target ts : Name) :
    ∃ d', keepBackup d target ts = some d' ∧
      (∀ n, n ≠ target.backup ts → d'.lookup n = d.lookup n) ∧
      (∀ f, d.lookup target = some f → d'.lookup (target.backup ts) = some f) ∧
      (d.lookup target = none → d' = d) := by
  unfold keepBackup
  cases hf : d.lookup target with
  | none =>
      refine ⟨d, if_neg Bool.false_ne_true, fun n _ => rfl, fun f h => ?_, fun _ => rfl⟩
      cases h
  | some f =>
      refine ⟨d.insert (target.backup ts) f, ?_, fun n hn => AList.lookup_insert_ne hn, ?_, ?_⟩
      · unfold cp
        rw [if_pos (show (some f).isSome = true from rfl), hf]
        rfl
      · intro f' h
        cases h
        exact AList.lookup_insert d
      · intro h
        cases h

/-- **What an install leaves**: the artifact, and a backup of what was there. -/
structure Installed (d : Directory) (target : Name) (i : Install) (d' : Directory) : Prop where
  artifact : d'.lookup target = some i.src
  saved : ∀ f, d.lookup target = some f → d'.lookup (target.backup i.ts) = some f
  kept : ∀ n, target.isBackup n = true → n ≠ target.backup i.ts → d'.lookup n = d.lookup n
  /-- Without anything to keep there is no backup. -/
  absent : d.lookup target = none →
    d'.lookup (target.backup i.ts) = d.lookup (target.backup i.ts)

theorem installOne_spec (d : Directory) (target : Name) (i : Install) :
    ∃ d', installOne d target i = some d' ∧ Installed d target i d' := by
  obtain ⟨d₁, hkeep, hkept, hbackup, hnothing⟩ := keepBackup_spec d target i.ts
  have hmove : mv (d₁.insert target.temporary i.src) target.temporary target =
      some (((d₁.insert target.temporary i.src).erase target.temporary).insert target i.src) := by
    unfold mv
    rw [AList.lookup_insert]
    rfl
  have hother : ∀ n, n ≠ target → n ≠ target.temporary →
      AList.lookup n (((d₁.insert target.temporary i.src).erase target.temporary).insert
        target i.src) = d₁.lookup n := by
    intro n hn hn'
    rw [AList.lookup_insert_ne hn, AList.lookup_erase_ne hn', AList.lookup_insert_ne hn']
  have hb := hother _ (backup_ne target i.ts) (backup_ne_temporary target i.ts)
  have hrun : installOne d target i =
      some (((d₁.insert target.temporary i.src).erase target.temporary).insert target i.src) := by
    unfold installOne
    rw [hkeep]
    exact hmove
  refine ⟨_, hrun, ⟨AList.lookup_insert _, ?_, ?_, ?_⟩⟩
  · intro f hf
    rw [hb]
    exact hbackup f hf
  · intro n hglob hn
    rw [hother n, hkept n hn]
    · rintro rfl
      rw [isBackup_self] at hglob
      cases hglob
    · rintro rfl
      rw [isBackup_temporary] at hglob
      cases hglob
  · intro hnone
    rw [hb, hnothing hnone]

/-- An install adds at most one backup. -/
theorem Installed.listing_cases (h : Installed d target i d') {e : Entry}
    (he : e ∈ listing d' target) : e ∈ listing d target ∨
      ∃ f, d.lookup target = some f ∧ e = ⟨target.backup i.ts, f⟩ := by
  obtain ⟨hf, hglob⟩ := mem_listing.mp he
  by_cases hn : e.1 = target.backup i.ts
  · cases ht : d.lookup target with
    | none =>
        left
        rw [hn, h.absent ht, ← hn] at hf
        exact mem_listing.mpr ⟨hf, hglob⟩
    | some g =>
        right
        obtain ⟨n, f⟩ := e
        obtain rfl : n = target.backup i.ts := hn
        cases (h.saved g ht).symm.trans hf
        exact ⟨f, rfl, rfl⟩
  · left
    rw [h.kept e.1 hglob hn] at hf
    exact mem_listing.mpr ⟨hf, hglob⟩

/-- Where the new backup has a name of its own, it is added and none is
lost. -/
theorem Installed.mem_listing (h : Installed d target i d') (hfresh : target.backup i.ts ∉ d)
    (e : Entry) : e ∈ listing d' target ↔ e ∈ listing d target ∨
      ∃ f, d.lookup target = some f ∧ e = ⟨target.backup i.ts, f⟩ := by
  refine ⟨h.listing_cases, ?_⟩
  rintro (he | ⟨f, hf, rfl⟩)
  · obtain ⟨hf, hglob⟩ := Installer.mem_listing.mp he
    refine Installer.mem_listing.mpr ⟨?_, hglob⟩
    rw [h.kept e.1 hglob]
    · exact hf
    · intro hn
      rw [hn, AList.lookup_eq_none.mpr hfresh] at hf
      cases hf
  · exact Installer.mem_listing.mpr ⟨h.saved f hf, isBackup_backup⟩

/-- What the uninstaller does to an installed target. -/
theorem removeOrRestore_installed (h : Installed d target i d') :
    ∃ d'', removeOrRestore d' target = some d'' ∧
      contentOf d'' target = ((listing d' target).head?).map fun e => e.2.content := by
  unfold removeOrRestore
  rw [h.artifact, if_neg (show ¬ (some i.src).isNone = true from Bool.false_ne_true)]
  cases hl : (listing d' target).head? with
  | none =>
      refine ⟨_, rfl, ?_⟩
      unfold contentOf
      rw [AList.lookup_erase]
      rfl
  | some e =>
      have he := (Installer.mem_listing.mp (listing_head hl).1).1
      refine ⟨d'.insert target e.2, ?_, ?_⟩
      · show cp d' e.1 target = _
        unfold cp
        rw [he]
        rfl
      · unfold contentOf
        rw [AList.lookup_insert]
        rfl

theorem undone_iff (h : Installed d target i d') (hrun : installOne d target i = some d') :
    Undone d target i ↔
      ((listing d' target).head?).map (fun e => e.2.content) = contentOf d target := by
  obtain ⟨d'', hback, hcontent⟩ := removeOrRestore_installed h
  unfold Undone
  rw [hrun]
  show (∃ x, removeOrRestore d' target = some x ∧ _) ↔ _
  rw [hback, ← hcontent]
  constructor
  · rintro ⟨x, hx, hcx⟩
    cases hx
    exact hcx
  · intro hcx
    exact ⟨d'', rfl, hcx⟩

theorem listing_ne_backup (hfresh : target.backup i.ts ∉ d) {e : Entry} {f : File}
    (he : e ∈ listing d target) : e ≠ ⟨target.backup i.ts, f⟩ := by
  rintro rfl
  have hf := (mem_listing.mp he).1
  rw [AList.lookup_eq_none.mpr hfresh] at hf
  cases hf

/-- **The newest backup behind an install** is the new one, or the newest
before it where that is listed before the new one. -/
theorem Installed.newest (h : Installed d target i d') (hfresh : target.backup i.ts ∉ d)
    {f : File} (hf : d.lookup target = some f) {e : Entry}
    (he : e ∈ (listing d' target).head?) :
    (e = ⟨target.backup i.ts, f⟩ ∧
      ∀ b ∈ (listing d target).head?, ¬ ListedBefore b ⟨target.backup i.ts, f⟩) ∨
    (e ∈ (listing d target).head? ∧ ListedBefore e ⟨target.backup i.ts, f⟩) := by
  have hmem := h.mem_listing hfresh
  have hnew : (⟨target.backup i.ts, f⟩ : Entry) ∈ listing d' target :=
    (hmem _).mpr (Or.inr ⟨f, hf, rfl⟩)
  obtain ⟨hein, hfirst⟩ := listing_head he
  rcases (hmem e).mp hein with hed | ⟨g, hg, rfl⟩
  · right
    obtain ⟨b, hb⟩ := listing_head_ne_none hed
    obtain ⟨hbin, hbfirst⟩ := listing_head hb
    have hbe : b = e := by
      by_contra hne
      exact hne (listing_antisymm hbin hed (hbfirst e hed fun h => hne h.symm)
        (hfirst b ((hmem b).mpr (Or.inl hbin)) hne))
    exact ⟨hbe ▸ hb, hfirst _ hnew fun h => listing_ne_backup hfresh hed h.symm⟩
  · left
    obtain rfl : f = g := Option.some.inj (hf.symm.trans hg)
    refine ⟨rfl, fun b hb hbefore => ?_⟩
    obtain ⟨hbin, -⟩ := listing_head hb
    have hne := listing_ne_backup (f := f) hfresh hbin
    have hbin' := (hmem b).mpr (Or.inl hbin)
    exact hne (listing_antisymm hbin' hein hbefore (hfirst b hbin' hne))

/-- Without a file to keep, only older backups are listed. -/
theorem Installed.listing_nil_iff (h : Installed d target i d')
    (hfresh : target.backup i.ts ∉ d) (hf : d.lookup target = none) :
    listing d' target = [] ↔ listing d target = [] := by
  have hmem : ∀ e, e ∈ listing d' target ↔ e ∈ listing d target := by
    intro e
    refine (h.mem_listing hfresh e).trans (or_iff_left ?_)
    rintro ⟨f, hf', -⟩
    cases hf.symm.trans hf'
  rw [List.eq_nil_iff_forall_not_mem, List.eq_nil_iff_forall_not_mem]
  exact forall_congr' fun e => not_congr (hmem e)

/-- **One install and back**, exactly. -/
theorem undone_iff_undoable (d : Directory) (target : Name) (i : Install)
    (hfresh : target.backup i.ts ∉ d) :
    Undone d target i ↔ Undoable d target i.ts := by
  obtain ⟨d', hrun, h⟩ := installOne_spec d target i
  rw [undone_iff h hrun]
  unfold Undoable contentOf
  cases hf : d.lookup target with
  | none =>
      -- nothing new is listed
      rw [Option.map_none, Option.map_eq_none_iff, List.head?_eq_none_iff,
        h.listing_nil_iff hfresh hf]
      constructor
      · intro hnil
        refine ⟨fun _ => hnil, fun f hf' => ?_⟩
        cases hf'
      · rintro ⟨hnil, -⟩
        exact hnil rfl
  | some f =>
      obtain ⟨e, he⟩ := listing_head_ne_none
        ((h.mem_listing hfresh _).mpr (Or.inr ⟨f, hf, rfl⟩))
      rw [he, Option.map_some, Option.map_some, Option.some_inj]
      rcases h.newest hfresh hf he with ⟨rfl, hnone⟩ | ⟨hold, hbefore⟩
      · refine iff_of_true rfl ⟨fun h => absurd h (Option.some_ne_none f), ?_⟩
        intro g hg b hb hbefore
        obtain rfl : f = g := Option.some.inj hg
        exact absurd hbefore (hnone b hb)
      · constructor
        · intro hcontent
          refine ⟨fun h => absurd h (Option.some_ne_none f), fun g hg b hb _ => ?_⟩
          obtain rfl : f = g := Option.some.inj hg
          obtain rfl : e = b := Option.mem_unique hold hb
          exact hcontent
        · rintro ⟨-, h⟩
          exact h f rfl e hold hbefore

end Install

/-! ## §5  Histories -/

/-- The installs of a history, one after the other. -/
def installs (d : Directory) (target : Name) (is : List Install) : Option Directory :=
  run (fun d i => installOne d target i) d is

/-- No install fails, and a name that none of them uses is not taken. -/
theorem installs_spec (target : Name) (is : List Install) (d : Directory) :
    ∃ d', installs d target is = some d' ∧ ∀ ts, (∀ i ∈ is, i.ts ≠ ts) →
      target.backup ts ∉ d → target.backup ts ∉ d' := by
  induction is generalizing d with
  | nil => exact ⟨d, rfl, fun ts _ h => h⟩
  | cons i is ih =>
      obtain ⟨d₁, hrun, h⟩ := installOne_spec d target i
      obtain ⟨d', hrest, hfree⟩ := ih d₁
      refine ⟨d', ?_, fun ts hts hfresh =>
        hfree ts (fun j hj => hts j (List.mem_cons_of_mem _ hj)) ?_⟩
      · unfold installs
        rw [run_cons, hrun]
        exact hrest
      · rw [← AList.lookup_eq_none] at hfresh ⊢
        rw [h.kept _ isBackup_backup fun hb =>
          hts i (List.mem_cons_self ..) (backup_injective hb).symm]
        exact hfresh

/-- **Uninstall undoes the last install** of a history. -/
def UninstallUndoes (d₀ : Directory) (target : Name) (is : List Install) (i : Install) : Prop :=
  ∃ d, installs d₀ target is = some d ∧ Undone d target i

/-- **Uninstall undoes the last install** of a history with increasing install
times and no clash of names exactly if the directory before it holds no backup
that is listed before the new one and differs from it. -/
theorem uninstall_undoes_iff (d₀ : Directory) (target : Name) (is : List Install) (i : Install)
    (hts : (is ++ [i]).Pairwise fun a b => a.ts < b.ts)
    (hfresh : ∀ j ∈ is ++ [i], target.backup j.ts ∉ d₀) :
    UninstallUndoes d₀ target is i ↔
      ∀ d ∈ installs d₀ target is, Undoable d target i.ts := by
  obtain ⟨d, hrun, hfree⟩ := installs_spec target is d₀
  have hlast : target.backup i.ts ∉ d := by
    apply hfree
    · intro j hj
      exact ((List.pairwise_append.mp hts).2.2 j hj i (List.mem_singleton_self i)).ne
    · exact hfresh i (List.mem_append_right _ (List.mem_singleton_self i))
  have hiff := undone_iff_undoable d target i hlast
  constructor
  · rintro ⟨d', hrun', hundone⟩ d'' hd''
    cases hrun.symm.trans hrun'
    cases hrun.symm.trans hd''
    exact hiff.mp hundone
  · intro h
    exact ⟨d, hrun, hiff.mpr (h d hrun)⟩

def so : Name := ⟨"vncast.so".toList, by decide⟩

def at8 : Name := ⟨"20260509-080000".toList, by decide⟩

def at9 : Name := ⟨"20260509-090000".toList, by decide⟩

/-- Two upgrades, each with an artifact newer than the one it replaces. -/
theorem uninstall_undoes_upgrade :
    UninstallUndoes (AList.singleton so ⟨[1], 10⟩) so [⟨at8, ⟨[2], 20⟩⟩] ⟨at9, ⟨[3], 30⟩⟩ :=
  (uninstall_undoes_iff _ _ _ _ (by decide) (by decide)).mpr (by decide)

/-- A downgrade, and a reinstall: the backup of the downgrade is newer than
that of the reinstall, and it is the first version that comes back. -/
theorem uninstall_restores_older :
    ¬ ∀ (d₀ : Directory) (target : Name) (is : List Install) (i : Install),
      ((is ++ [i]).Pairwise fun a b => a.ts < b.ts) →
      (∀ j ∈ is ++ [i], target.backup j.ts ∉ d₀) → UninstallUndoes d₀ target is i := by
  intro H
  obtain ⟨d, hrun, d', hback, hcontent⟩ := H (AList.singleton so ⟨[1], 10⟩) so
    [⟨at8, ⟨[2], 5⟩⟩] ⟨at9, ⟨[3], 20⟩⟩ (by decide) (by decide)
  have hend : ∀ d ∈ installs (AList.singleton so ⟨[1], 10⟩) so [⟨at8, ⟨[2], 5⟩⟩],
      ∀ d' ∈ installOne d so ⟨at9, ⟨[3], 20⟩⟩ >>= fun d => removeOrRestore d so,
      contentOf d so = some [2] ∧ contentOf d' so = some [1] := by
    decide +kernel
  obtain ⟨hbefore, hafter⟩ := hend d hrun d' hback
  rw [hbefore, hafter] at hcontent
  cases hcontent

/-! ## §6  Upgrades -/

/-- The installed file is newer than every backup of it. -/
def Ahead (d : Directory) (target : Name) : Prop :=
  ∀ b ∈ listing d target, ∃ f, d.lookup target = some f ∧ b.2.mtime < f.mtime

/-- The artifact is newer than what it replaces. -/
def Upgrade (target : Name) (d : Directory) (i : Install) : Prop :=
  ∀ f, d.lookup target = some f → f.mtime < i.src.mtime

theorem Ahead.undoable {d : Directory} {target : Name} (h : Ahead d target) (ts : Name) :
    Undoable d target ts := by
  constructor
  · intro hnone
    refine List.eq_nil_iff_forall_not_mem.mpr fun b hb => ?_
    obtain ⟨f, hf, -⟩ := h b hb
    cases hnone.symm.trans hf
  · intro f hf b hb hbefore
    obtain ⟨g, hg, hlt⟩ := h b (listing_head hb).1
    cases hg.symm.trans hf
    rcases hbefore with hgt | ⟨heq, -⟩
    · exact absurd hlt (not_lt.mpr hgt.le)
    · exact absurd heq hlt.ne

/-- **Step lemma.** -/
theorem Ahead.install {d : Directory} {target : Name} {i : Install} (h : Ahead d target)
    (hup : Upgrade target d i) :
    ∃ d', installOne d target i = some d' ∧ Ahead d' target := by
  obtain ⟨d', hrun, hinst⟩ := installOne_spec d target i
  refine ⟨d', hrun, fun b hb => ⟨i.src, hinst.artifact, ?_⟩⟩
  rcases hinst.listing_cases hb with hb | ⟨f, hf, rfl⟩
  · obtain ⟨f, hf, hlt⟩ := h b hb
    exact hlt.trans (hup f hf)
  · exact hup f hf

/-- **Upgrades are undone**: from a directory without backups, and whatever is
installed last. -/
theorem upgrades_undone {d₀ : Directory} {target : Name} {is : List Install} {i : Install}
    (hclean : listing d₀ target = [])
    (hup : EveryStep (fun d i => installOne d target i) (Upgrade target) d₀ is)
    (hts : (is ++ [i]).Pairwise fun a b => a.ts < b.ts) : UninstallUndoes d₀ target is i := by
  have hahead : Ahead d₀ target := by
    intro b hb
    rw [hclean] at hb
    cases hb
  have hfresh : ∀ ts, target.backup ts ∉ d₀ := by
    intro ts hmem
    obtain ⟨f, hf⟩ := Option.isSome_iff_exists.mp (AList.lookup_isSome.mpr hmem)
    have hlisted : (⟨target.backup ts, f⟩ : Entry) ∈ listing d₀ target :=
      mem_listing.mpr ⟨hf, isBackup_backup⟩
    rw [hclean] at hlisted
    cases hlisted
  obtain ⟨d, hrun, hd⟩ := run_inv (fun d => Ahead d target) (fun d i h hup => h.install hup)
    hahead hup
  obtain ⟨d', hrun', hfree⟩ := installs_spec target is d₀
  cases hrun.symm.trans hrun'
  refine ⟨d, hrun, (undone_iff_undoable d target i (hfree i.ts ?_ (hfresh i.ts))).mpr
    (hd.undoable i.ts)⟩
  intro j hj
  exact ((List.pairwise_append.mp hts).2.2 j hj i (List.mem_singleton_self i)).ne

end Rmcast.Installer
