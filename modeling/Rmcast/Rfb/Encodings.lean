import Rmcast.Rfb.Mono

/-!
# The advertised encodings

`SetFormatAndEncodings` of libvncclient runs every token of
`appData.encodingsString` through a chain of `strncasecmp` tests, to which
the patch adds the two mono encodings. Only the token's length is compared,
so a token is taken for the first name that begins with it, and
`rcastmono1` is the beginning of `rcastmono1z`.

The chain before the patch is libvncclient's: its names and their order are
given, the ids they append are a parameter.
-/

namespace Rmcast.Rfb

/-! ## §1  The chain -/

/-- The names libvncclient tests, in its order. -/
inductive Standard where
  | raw | copyrect | tight | hextile | zlib | zlibhex | trle | zrle | zywrle
  | ultra | ultrazip | corre | rre
deriving DecidableEq, Repr

inductive Encoding where
  | standard (s : Standard)
  | mono (m : Mono)
deriving DecidableEq, Repr

def Mono.name : Mono → List Char
  | .rcastmono1z => "rcastmono1z".toList
  | .rcastmono1 => "rcastmono1".toList

/-- The branches of the chain. -/
def chain : List (List Char × Encoding) :=
  [("raw".toList, .standard .raw),
   ("copyrect".toList, .standard .copyrect),
   ("tight".toList, .standard .tight),
   ("hextile".toList, .standard .hextile),
   ("zlib".toList, .standard .zlib),
   ("zlibhex".toList, .standard .zlibhex),
   ("trle".toList, .standard .trle),
   ("zrle".toList, .standard .zrle),
   ("zywrle".toList, .standard .zywrle),
   ("ultra".toList, .standard .ultra),
   ("ultrazip".toList, .standard .ultrazip),
   ("corre".toList, .standard .corre),
   ("rre".toList, .standard .rre),
   -- the branches of the patch, the longer name first
   (Mono.name .rcastmono1z, .mono .rcastmono1z),
   (Mono.name .rcastmono1, .mono .rcastmono1)]

/-- `strncasecmp(a, b, n) == 0`. -/
def strncasecmpEq : List Char → List Char → ℕ → Bool
  | _, _, 0 => true
  | [], [], _ + 1 => true
  | a :: as, b :: bs, n + 1 => a.toLower == b.toLower && strncasecmpEq as bs n
  | [], _ :: _, _ + 1 | _ :: _, [], _ + 1 => false

/-- The branch taken for a token. -/
def branch (token : List Char) : Option Encoding :=
  (chain.find? fun e => strncasecmpEq token e.1 token.length).map Prod.snd

def Encoding.id (ids : Standard → ℤ) : Encoding → ℤ
  | .standard s => ids s
  | .mono m => m.id

/-- The ids sent for `appData.encodingsString`. -/
def setFormatAndEncodings (ids : Standard → ℤ) (encodingsString : List Char) :
    List ℤ :=
  (encodingsString.splitOn ' ').filterMap fun token =>
    (branch token).map (Encoding.id ids)

/-- The values of `$VNSEE_ENCODING` and the list each selects. -/
def envEncodings : List (List Char × List Char) :=
  [("RAW".toList, "raw".toList),
   ("COPYRECT".toList, "copyrect".toList),
   ("TIGHT".toList, "tight".toList),
   ("HEXTILE".toList, "hextile".toList),
   ("ZLIB".toList, "zlib".toList),
   ("ZLIBHEX".toList, "zlibhex".toList),
   ("TRLE".toList, "trle".toList),
   ("ZRLE".toList, "zrle".toList),
   ("ZYWRLE".toList, "zywrle".toList),
   ("ULTRA".toList, "ultra".toList),
   ("ULTRAZIP".toList, "ultrazip".toList),
   ("CORRE".toList, "corre".toList),
   ("RRE".toList, "rre".toList)]

/-- `encodingsString` as the constructor of `screen` sets it, under
`$VNSEE_ENCODING` and `$VNCAST_PREFER_MONO1`; `none` leaves it unset. -/
def encodingsString (encoding preferMono : Option (List Char)) :
    Option (List Char) :=
  match encoding with
  | some e => envEncodings.lookup e
  | none =>
      let advertiseMono := (preferMono.bind List.head?) = some '1'
      some (if advertiseMono then
        "rcastmono1z rcastmono1 copyrect tight zrle hextile raw".toList
        else "copyrect tight zrle hextile raw".toList)

/-! ## §2  Tokens and names -/

/-- Case is ignored. -/
def lower (s : List Char) : List Char := s.map Char.toLower

/-- A token of at least two characters that `rcastmono1z` begins with, but
not all of it. -/
def Abbreviates (token : List Char) : Prop :=
  2 ≤ token.length ∧ lower token <+: Mono.name .rcastmono1z ∧
    lower token ≠ Mono.name .rcastmono1z

/-- The chain appends the id of a mono encoding for its name alone. -/
def TakenRight (ids : Standard → ℤ) (token : List Char) : Prop :=
  ∀ m : Mono, (branch token).map (Encoding.id ids) = some m.id ↔
    lower token = m.name

/-- The mono encoding a token names. -/
def named (token : List Char) : Option Mono :=
  if lower token = Mono.name .rcastmono1z then some .rcastmono1z
  else if lower token = Mono.name .rcastmono1 then some .rcastmono1
  else none

/-- The ids sent contain those of the mono encodings as the names stand. -/
def ListedRight (ids : Standard → ℤ) (encodingsString : List Char) : Prop :=
  (setFormatAndEncodings ids encodingsString).filter
      (fun i => i = Mono.rcastmono1z.id ∨ i = Mono.rcastmono1.id) =
    ((encodingsString.splitOn ' ').filterMap named).map Mono.id

/-- Comparing the length of the token is comparing it as a beginning. -/
theorem strncasecmpEq_iff (token name : List Char) :
    strncasecmpEq token name token.length = true ↔ lower token <+: lower name := by
  induction token generalizing name with
  | nil => exact ⟨fun _ => List.nil_prefix, fun _ => by cases name <;> rfl⟩
  | cons a token ih =>
      cases name with
      | nil =>
          constructor
          · intro h
            cases h
          · intro h
            cases List.prefix_nil.mp h
      | cons b name =>
          show (a.toLower == b.toLower && strncasecmpEq token name token.length)
            = true ↔ a.toLower :: lower token <+: b.toLower :: lower name
          rw [Bool.and_eq_true, beq_iff_eq, ih, List.cons_prefix_cons]

/-- The names are in lower case. -/
theorem lower_chain : ∀ e ∈ chain, lower e.1 = e.1 := by
  decide +kernel

theorem branch_eq (token : List Char) :
    branch token
      = (chain.find? fun e => (lower token).isPrefixOf e.1).map Prod.snd := by
  unfold branch
  congr 1
  apply List.find?_congr
  intro e he
  rw [Bool.eq_iff_iff, strncasecmpEq_iff, lower_chain e he,
    List.isPrefixOf_iff_prefix]

/-- Both mono names are beginnings of `rcastmono1z`. -/
theorem chain_mono (name : List Char) (m : Mono)
    (h : (name, .mono m) ∈ chain) : name <+: Mono.name .rcastmono1z := by
  simp only [chain, List.mem_cons, Prod.mk.injEq, reduceCtorEq, and_false,
    Encoding.mono.injEq, List.not_mem_nil, or_false, false_or] at h
  rcases h with ⟨rfl, -⟩ | ⟨rfl, -⟩
  · exact List.prefix_refl _
  · decide

/-- What the beginnings of `rcastmono1z` are taken for. -/
theorem branch_beginnings : ∀ n < 12,
    (chain.find? fun e =>
      ((Mono.name .rcastmono1z).take n).isPrefixOf e.1).map Prod.snd
      = if 2 ≤ n then some (.mono .rcastmono1z) else some (.standard .raw) := by
  decide +kernel

/-- **The mono branches**: the second is never taken. -/
theorem branch_mono_iff (token : List Char) (m : Mono) :
    branch token = some (.mono m) ↔
      m = .rcastmono1z ∧ 2 ≤ token.length ∧
        lower token <+: Mono.name .rcastmono1z := by
  have hlen : (lower token).length = token.length := List.length_map _
  have hbegin : lower token <+: Mono.name .rcastmono1z →
      branch token = if 2 ≤ token.length then some (.mono .rcastmono1z)
        else some (.standard .raw) := by
    intro hp
    have hle : token.length < 12 := by
      have := hp.length_le
      rw [hlen] at this
      exact Nat.lt_succ_of_le this
    rw [branch_eq, List.prefix_iff_eq_take.mp hp, hlen]
    exact branch_beginnings token.length hle
  constructor
  · intro h
    have hp : lower token <+: Mono.name .rcastmono1z := by
      rw [branch_eq] at h
      obtain ⟨⟨name, enc⟩, hfind, rfl⟩ := Option.map_eq_some_iff.mp h
      have hmem := List.mem_of_find?_eq_some hfind
      have hpre := List.find?_some hfind
      rw [List.isPrefixOf_iff_prefix] at hpre
      exact hpre.trans (chain_mono name m hmem)
    rw [hbegin hp] at h
    split_ifs at h with h2
    · cases h
      exact ⟨rfl, h2, hp⟩
    · cases h
  · rintro ⟨rfl, h2, hp⟩
    rw [hbegin hp, if_pos h2]

/-! ## §3  When the list is right -/

section Lists

variable {ids : Standard → ℤ}

theorem Mono.id_inj {m m' : Mono} (h : m.id = m'.id) : m = m' := by
  revert h
  cases m <;> cases m' <;> decide

theorem map_id_eq_mono_iff (hids : ∀ s (m : Mono), ids s ≠ m.id)
    (e : Option Encoding) (m : Mono) :
    e.map (Encoding.id ids) = some m.id ↔ e = some (.mono m) := by
  constructor
  · intro h
    obtain ⟨e, rfl, he⟩ := Option.map_eq_some_iff.mp h
    cases e with
    | standard s => exact absurd he (hids s m)
    | mono m' => rw [Mono.id_inj he]
  · rintro rfl
    rfl

/-- The name of the raw encoding abbreviates that of the compressed one. -/
theorem abbreviates_rcastmono1 {token : List Char}
    (h : lower token = Mono.name .rcastmono1) : Abbreviates token := by
  have hlen : (lower token).length = token.length := List.length_map _
  refine ⟨?_, ?_, ?_⟩
  · rw [← hlen, h]
    decide
  · rw [h]
    decide
  · rw [h]
    decide

theorem begins_rcastmono1z {token : List Char}
    (h : lower token = Mono.name .rcastmono1z) :
    2 ≤ token.length ∧ lower token <+: Mono.name .rcastmono1z := by
  have hlen : (lower token).length = token.length := List.length_map _
  refine ⟨?_, by rw [h]⟩
  rw [← hlen, h]
  decide

/-- A token that names a mono encoding begins `rcastmono1z`. -/
theorem begins_of_named {token : List Char} {m : Mono}
    (h : named token = some m) :
    2 ≤ token.length ∧ lower token <+: Mono.name .rcastmono1z := by
  unfold named at h
  split_ifs at h with hz h1
  · exact begins_rcastmono1z hz
  · obtain ⟨h2, hp, -⟩ := abbreviates_rcastmono1 h1
    exact ⟨h2, hp⟩

theorem takenRight_iff (hids : ∀ s (m : Mono), ids s ≠ m.id)
    (token : List Char) : TakenRight ids token ↔ ¬ Abbreviates token := by
  constructor
  · rintro h ⟨h2, hp, hne⟩
    apply hne
    apply (h .rcastmono1z).mp
    rw [map_id_eq_mono_iff hids, branch_mono_iff]
    exact ⟨rfl, h2, hp⟩
  · intro h m
    rw [map_id_eq_mono_iff hids, branch_mono_iff]
    constructor
    · rintro ⟨rfl, h2, hp⟩
      by_contra hne
      exact h ⟨h2, hp, hne⟩
    · intro hl
      cases m with
      | rcastmono1 => exact absurd (abbreviates_rcastmono1 hl) h
      | rcastmono1z =>
          exact ⟨rfl, begins_rcastmono1z hl⟩

/-- The id of a mono encoding that a token makes the chain append. -/
def monoId (ids : Standard → ℤ) (token : List Char) : Option ℤ :=
  ((branch token).map (Encoding.id ids)).filter
    fun i => i = Mono.rcastmono1z.id ∨ i = Mono.rcastmono1.id

theorem monoId_eq (hids : ∀ s (m : Mono), ids s ≠ m.id) (token : List Char) :
    monoId ids token
      = if 2 ≤ token.length ∧ lower token <+: Mono.name .rcastmono1z then
          some Mono.rcastmono1z.id else none := by
  by_cases hc : 2 ≤ token.length ∧ lower token <+: Mono.name .rcastmono1z
  · rw [if_pos hc, monoId, (branch_mono_iff token .rcastmono1z).mpr ⟨rfl, hc⟩]
    rfl
  · rw [if_neg hc, monoId]
    cases hb : branch token with
    | none => rfl
    | some e =>
        cases e with
        | mono m => exact absurd ((branch_mono_iff token m).mp hb).2 hc
        | standard s =>
            rw [Option.map_some, Option.filter_some_neg]
            exact decide_eq_false fun h => h.elim (hids s _) (hids s _)

theorem filterMap_length_lt {α β : Type*} {f g : α → Option β} {ts : List α}
    (hsub : ∀ t, (g t).isSome → (f t).isSome) {t : α} (ht : t ∈ ts)
    (hf : (f t).isSome) (hg : g t = none) :
    (ts.filterMap g).length < (ts.filterMap f).length := by
  have hle : ∀ l : List α, (l.filterMap g).length ≤ (l.filterMap f).length := by
    intro l
    rw [List.length_filterMap_eq_countP, List.length_filterMap_eq_countP]
    exact List.countP_mono_left fun t _ => hsub t
  obtain ⟨b, hb⟩ := Option.isSome_iff_exists.mp hf
  obtain ⟨l, l', rfl⟩ := List.append_of_mem ht
  rw [List.filterMap_append, List.filterMap_append, List.filterMap_cons_none hg,
    List.filterMap_cons_some hb, List.length_append, List.length_append,
    List.length_cons]
  have h1 := hle l
  have h2 := hle l'
  omega

/-- An abbreviated token spoils the list: the id it names is never sent, or the
one sent for it is named by nothing. -/
theorem listed_ne_of_abbreviates (hids : ∀ s (m : Mono), ids s ≠ m.id)
    {tokens : List (List Char)} {token : List Char} (ht : token ∈ tokens)
    (ha : Abbreviates token) :
    tokens.filterMap (monoId ids) ≠ tokens.filterMap fun t => (named t).map Mono.id := by
  intro h
  obtain ⟨h2, hp, hne⟩ := ha
  by_cases h1 : lower token = Mono.name .rcastmono1
  · have hnamed : (named token).map Mono.id = some Mono.rcastmono1.id := by
      unfold named
      rw [if_neg hne, if_pos h1]
      rfl
    -- no token can send this id
    have hmem : Mono.rcastmono1.id
        ∈ tokens.filterMap fun t => (named t).map Mono.id :=
      List.mem_filterMap.mpr ⟨token, ht, hnamed⟩
    rw [← h] at hmem
    obtain ⟨t, -, hid⟩ := List.mem_filterMap.mp hmem
    rw [monoId_eq hids] at hid
    split_ifs at hid
    revert hid
    decide
  · have hsent : monoId ids token = some Mono.rcastmono1z.id := by
      rw [monoId_eq hids, if_pos ⟨h2, hp⟩]
    have hnone : (named token).map Mono.id = none := by
      unfold named
      rw [if_neg hne, if_neg h1]
      rfl
    have hsub : ∀ t, ((named t).map Mono.id).isSome → (monoId ids t).isSome := by
      intro t hs
      rw [Option.isSome_map] at hs
      obtain ⟨m, hm⟩ := Option.isSome_iff_exists.mp hs
      rw [monoId_eq hids, if_pos (begins_of_named hm)]
      rfl
    -- more ids are sent than named
    have hlt := filterMap_length_lt hsub ht (by rw [hsent]; rfl) hnone
    rw [h] at hlt
    exact absurd hlt (lt_irrefl _)

/-- Any other token sends what it names. -/
theorem monoId_eq_named (hids : ∀ s (m : Mono), ids s ≠ m.id) {token : List Char}
    (h : ¬ Abbreviates token) : monoId ids token = (named token).map Mono.id := by
  rw [monoId_eq hids]
  by_cases hc : 2 ≤ token.length ∧ lower token <+: Mono.name .rcastmono1z
  · have hz : lower token = Mono.name .rcastmono1z := by
      by_contra hne
      exact h ⟨hc.1, hc.2, hne⟩
    rw [if_pos hc, named, if_pos hz]
    rfl
  · cases hn : named token with
    | none => rw [if_neg hc]; rfl
    | some m => exact absurd (begins_of_named hn) hc

theorem listedRight_iff (hids : ∀ s (m : Mono), ids s ≠ m.id)
    (encodingsString : List Char) :
    ListedRight ids encodingsString ↔
      ∀ token ∈ encodingsString.splitOn ' ', ¬ Abbreviates token := by
  unfold ListedRight setFormatAndEncodings
  rw [List.filter_filterMap, List.map_filterMap]
  show List.filterMap (monoId ids) _ = List.filterMap (fun t => (named t).map Mono.id) _ ↔ _
  constructor
  · intro h token ht ha
    exact listed_ne_of_abbreviates hids ht ha h
  · intro h
    apply List.filterMap_congr
    intro token ht
    exact monoId_eq_named hids (h token ht)

end Lists

/-- **The advertised list is the requested one** exactly for tokens, and for
lists of tokens, that do not abbreviate `rcastmono1z`. -/
theorem advertised_iff {ids : Standard → ℤ}
    (hids : ∀ s (m : Mono), ids s ≠ m.id) :
    (∀ token, TakenRight ids token ↔ ¬ Abbreviates token) ∧
    ∀ encodingsString, ListedRight ids encodingsString ↔
      ∀ token ∈ encodingsString.splitOn ' ', ¬ Abbreviates token :=
  ⟨takenRight_iff hids, listedRight_iff hids⟩

/-- The ids of the RFB protocol. -/
def standardId : Standard → ℤ
  | .raw => 0
  | .copyrect => 1
  | .rre => 2
  | .corre => 4
  | .hextile => 5
  | .zlib => 6
  | .tight => 7
  | .zlibhex => 8
  | .ultra => 9
  | .trle => 15
  | .zrle => 16
  | .zywrle => 17
  | .ultrazip => -65527

theorem advertised_iff_standardId :
    (∀ token, TakenRight standardId token ↔ ¬ Abbreviates token) ∧
    ∀ encodingsString, ListedRight standardId encodingsString ↔
      ∀ token ∈ encodingsString.splitOn ' ', ¬ Abbreviates token :=
  advertised_iff fun s m => by cases s <;> cases m <;> decide

/-- The list of the constructor sends -791 twice, and -789 not at all. -/
theorem fallback_not_advertised :
    ¬ (TakenRight standardId (Mono.name .rcastmono1) ∧
      ∀ s ∈ encodingsString none (some ['1']), ListedRight standardId s) := by
  rintro ⟨-, h⟩
  have hlist := h _ rfl
  revert hlist
  unfold ListedRight
  decide +kernel

end Rmcast.Rfb
