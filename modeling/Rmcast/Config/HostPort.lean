import Rmcast.Lib.Ecma

/-!
# The host field of the settings page

`config.qml` shows host and port in one field (`hostInput`) and takes the field
apart again with `parseHostPort`. The forms that come apart are those of `Form`;
what is read off the segment behind the colon is left to `parseInt`, so more is
accepted than the comment on the function says (`parseHostPort_documented_iff`),
and the field is put together without the brackets an address may need
(`hostInput_roundtrip_iff`).
-/

namespace Rmcast.Config

open Ecma

/-! ## §1  The page -/

/-- `hostInput`, from `Settings.host` and `Settings.port`. -/
def hostInput (settings : List Char × ℤ) : List Char :=
  if settings.2 = 5900 then settings.1 else settings.1 ++ ':' :: text settings.2

/-- The port that is read off a segment: `NaN` and what is out of range are no
ports. -/
def parsePort (segment : List Char) : Option ℤ :=
  match parseInt segment with
  | none => none
  | some p => if p < 1 ∨ p > 65535 then none else some p

/-- `parseHostPort`. -/
def parseHostPort (s : List Char) : List Char × ℤ :=
  let t := trim s
  if t = [] then ([], 5900)
  else if t.head? = some '[' then
    match indexOf ']' t with
    | none => (t, 5900)
    | some rb =>
        if rb > 0 then
          let ipv6 := (t.take rb).drop 1
          let rest := t.drop (rb + 1)
          if rest.length = 0 then (ipv6, 5900)
          else if rest.head? = some ':' then
            match parsePort (rest.drop 1) with
            | some pp => (ipv6, pp)
            | none => (t, 5900)
          else (t, 5900)
        else (t, 5900)
  else
    match indexOf ':' t, lastIndexOf ':' t with
    | some first, some last =>
        if first ≠ last then (t, 5900)
        else
          match parsePort (t.drop (last + 1)) with
          | none => (t, 5900)
          | some p => (t.take last, p)
    | _, _ => (t, 5900)

/-! ## §2  The forms that come apart -/

/-- The host and, where there is one, the segment behind the colon. -/
inductive Form : List Char → List Char → Option (List Char) → Prop where
  | plain {h d : List Char} : ':' ∉ h → ':' ∉ d → h.head? ≠ some '[' →
      Form (h ++ ':' :: d) h (some d)
  | alone {h : List Char} : ']' ∉ h → Form ('[' :: (h ++ [']'])) h none
  | bracketed {h d : List Char} : ']' ∉ h →
      Form ('[' :: (h ++ ']' :: ':' :: d)) h (some d)

/-- What is answered for a form: without a segment the default port, with one
the port read off it, if it is one. -/
def answer (t h : List Char) : Option (List Char) → List Char × ℤ
  | none => (h, 5900)
  | some d =>
    match parsePort d with
    | none => (t, 5900)
    | some p => (h, p)

theorem answer_port {t h d : List Char} {p : ℤ} (hp : parsePort d = some p) :
    answer t h (some d) = (h, p) := by
  unfold answer
  simp only [hp]

theorem answer_none {t h d : List Char} (hp : parsePort d = none) :
    answer t h (some d) = (t, 5900) := by
  unfold answer
  simp only [hp]

theorem plain_head?_ne {h d : List Char} (hh : h.head? ≠ some '[') :
    (h ++ ':' :: d).head? ≠ some '[' := by
  cases h with
  | nil =>
      intro h
      cases h
  | cons c h => exact hh

/-- A string has one form at most. -/
theorem Form.unique {t h h' : List Char} {d d' : Option (List Char)} (hf : Form t h d)
    (hf' : Form t h' d') : h = h' ∧ d = d' := by
  cases hf with
  | @plain h d hh hd hhead =>
      generalize ht : h ++ ':' :: d = t at hf'
      cases hf' with
      | plain hh' hd' hhead' =>
          obtain ⟨rfl, rfl⟩ := first_unique hh hh' ht
          exact ⟨rfl, rfl⟩
      | alone hh' =>
          exact absurd (congrArg List.head? ht) (plain_head?_ne hhead)
      | bracketed hh' =>
          exact absurd (congrArg List.head? ht) (plain_head?_ne hhead)
  | @alone h hh =>
      generalize ht : '[' :: (h ++ [']']) = t at hf'
      cases hf' with
      | plain hh' hd' hhead' =>
          exact absurd (congrArg List.head? ht.symm) (plain_head?_ne hhead')
      | alone hh' =>
          obtain ⟨rfl, -⟩ := first_unique hh hh' (List.cons.inj ht).2
          exact ⟨rfl, rfl⟩
      | bracketed hh' =>
          obtain ⟨-, hd⟩ := first_unique hh hh' (List.cons.inj ht).2
          cases hd
  | @bracketed h d hh =>
      generalize ht : '[' :: (h ++ ']' :: ':' :: d) = t at hf'
      cases hf' with
      | plain hh' hd' hhead' =>
          exact absurd (congrArg List.head? ht.symm) (plain_head?_ne hhead')
      | alone hh' =>
          obtain ⟨-, hd⟩ := first_unique hh hh' (List.cons.inj ht).2
          cases hd
      | bracketed hh' =>
          obtain ⟨rfl, hd⟩ := first_unique hh hh' (List.cons.inj ht).2
          cases hd
          exact ⟨rfl, rfl⟩

/-- The host is shorter than the string. -/
theorem Form.length_lt {t h : List Char} {d : Option (List Char)} (hf : Form t h d) :
    h.length < t.length := by
  cases hf with
  | plain =>
      rw [List.length_append, List.length_cons]
      exact Nat.lt_add_of_pos_right (Nat.succ_pos _)
  | alone =>
      rw [List.length_cons, List.length_append]
      exact Nat.lt_succ_of_le (Nat.le_add_right _ _)
  | bracketed =>
      rw [List.length_cons, List.length_append]
      exact Nat.lt_succ_of_le (Nat.le_add_right _ _)

/-! ## §3  What `parseHostPort` answers -/

/-- The answer by the form of the trimmed input, or the input as it is. -/
def Answers (t : List Char) (r : List Char × ℤ) : Prop :=
  (∃ h d, Form t h d ∧ r = answer t h d) ∨ (∀ h d, ¬ Form t h d) ∧ r = (t, 5900)

/-- The forms of a string with a bracket in front. -/
theorem form_bracket {u h : List Char} {d : Option (List Char)} (hf : Form ('[' :: u) h d) :
    ']' ∉ h ∧ (u = h ++ [']'] ∨ ∃ e, u = h ++ ']' :: ':' :: e) := by
  generalize ht : '[' :: u = t at hf
  cases hf with
  | plain hh hd hhead => exact absurd (congrArg List.head? ht.symm) (plain_head?_ne hhead)
  | alone hh => exact ⟨hh, Or.inl (List.cons.inj ht).2⟩
  | bracketed hh => exact ⟨hh, Or.inr ⟨_, (List.cons.inj ht).2⟩⟩

/-- The form of any other string. -/
theorem form_plain {t h : List Char} {d : Option (List Char)} (hf : Form t h d)
    (hhead : t.head? ≠ some '[') :
    ∃ e, d = some e ∧ t = h ++ ':' :: e ∧ ':' ∉ h ∧ ':' ∉ e := by
  cases hf with
  | plain hh hd _ => exact ⟨_, rfl, rfl, hh, hd⟩
  | alone => exact absurd rfl hhead
  | bracketed => exact absurd rfl hhead

/-- What is behind the character that ends the front `h`. -/
theorem drop_behind (h : List Char) (c : Char) (b : List Char) :
    (h ++ c :: b).drop (h.length + 1) = b := by
  rw [List.drop_append, List.drop_of_length_le (Nat.le_succ _), List.nil_append,
    Nat.add_sub_cancel_left, List.drop_succ_cons, List.drop_zero]

/-- The branch of an opening bracket. -/
theorem answers_bracket {s u : List Char} (ht : trim s = '[' :: u) :
    Answers (trim s) (parseHostPort s) := by
  unfold parseHostPort
  simp only [ht]
  rw [if_neg (List.cons_ne_nil _ _), if_pos List.head?_cons]
  by_cases hmem : ']' ∈ u
  · obtain ⟨h, b, rfl, hh⟩ := exists_first hmem
    have hh' : ']' ∉ '[' :: h := by
      intro hc
      rcases List.mem_cons.mp hc with hc | hc
      · cases hc
      · exact hh hc
    have hindex : indexOf ']' ('[' :: (h ++ ']' :: b)) = some (h.length + 1) :=
      indexOf_append hh' b
    have htake : (('[' :: (h ++ ']' :: b)).take (h.length + 1)).drop 1 = h := by
      rw [List.take_succ_cons, List.drop_succ_cons, List.drop_zero, List.take_left]
    have hdrop : ('[' :: (h ++ ']' :: b)).drop (h.length + 1 + 1) = b := by
      rw [List.drop_succ_cons, drop_behind]
    simp only [hindex, htake, hdrop]
    rw [if_pos (Nat.succ_pos _)]
    cases b with
    | nil => exact Or.inl ⟨h, none, .alone hh, rfl⟩
    | cons c b =>
        have hlen : (c :: b).length ≠ 0 := Nat.succ_ne_zero b.length
        rw [if_neg hlen]
        by_cases hc : c = ':'
        · rw [if_pos (by rw [hc]; rfl), hc]
          refine Or.inl ⟨h, some b, .bracketed hh, ?_⟩
          rw [List.drop_succ_cons, List.drop_zero]
          cases hp : parsePort b with
          | none => rw [answer_none hp]
          | some p => rw [answer_port hp]
        · have hhead : (c :: b).head? ≠ some ':' := fun he => hc (Option.some.inj he)
          rw [if_neg hhead]
          refine Or.inr ⟨fun h' d hf => ?_, rfl⟩
          -- behind the first bracket there is neither the end nor a colon
          obtain ⟨hh'', he | ⟨e, he⟩⟩ := form_bracket hf
          · cases (first_unique hh hh'' he).2
          · exact hc (List.cons.inj (first_unique hh hh'' he).2).1
  · have hindex : indexOf ']' ('[' :: u) = none := by
      rw [indexOf_eq_none]
      intro hc
      rcases List.mem_cons.mp hc with hc | hc
      · cases hc
      · exact hmem hc
    rw [hindex]
    refine Or.inr ⟨fun h d hf => hmem ?_, rfl⟩
    obtain ⟨-, rfl | ⟨e, rfl⟩⟩ := form_bracket hf
    · exact List.mem_append_right h (List.mem_singleton_self _)
    · exact List.mem_append_right h (List.mem_cons_self ..)

/-- The other branch. -/
theorem answers_plain {s : List Char} (hne : trim s ≠ []) (hhead : (trim s).head? ≠ some '[') :
    Answers (trim s) (parseHostPort s) := by
  unfold parseHostPort
  generalize trim s = t at hne hhead
  dsimp only
  rw [if_neg hne, if_neg hhead]
  by_cases hmem : ':' ∈ t
  · obtain ⟨h, b, ht, hh⟩ := exists_first hmem
    obtain ⟨a, e, ht', he⟩ := exists_last hmem
    have hfirst : indexOf ':' t = some h.length := ht ▸ indexOf_append hh b
    have hlast : lastIndexOf ':' t = some a.length := ht' ▸ lastIndexOf_append a he
    rw [hfirst, hlast]
    dsimp only
    by_cases heq : h.length = a.length
    · obtain ⟨rfl, hcons⟩ := List.append_inj (ht.symm.trans ht') heq
      obtain rfl := (List.cons.inj hcons).2
      have hdrop : t.drop (h.length + 1) = b := by
        rw [ht, drop_behind]
      have htake : t.take h.length = h := by
        rw [ht, List.take_left]
      rw [if_neg (not_not.mpr rfl), hdrop, htake]
      refine Or.inl ⟨h, some b, ?_, ?_⟩
      · rw [ht] at hhead ⊢
        refine .plain hh he ?_
        intro hbracket
        obtain ⟨h', rfl⟩ := List.head?_eq_some_iff.mp hbracket
        exact hhead rfl
      · cases hp : parsePort b with
        | none => rw [answer_none hp]
        | some p => rw [answer_port hp]
    · rw [if_pos heq]
      refine Or.inr ⟨fun h' d hf => heq ?_, rfl⟩
      -- with one colon, the first is the last
      obtain ⟨e', -, he', hh', hd'⟩ := form_plain hf hhead
      have h1 : indexOf ':' t = some h'.length := he' ▸ indexOf_append hh' e'
      have h2 : lastIndexOf ':' t = some h'.length := he' ▸ lastIndexOf_append h' hd'
      exact (Option.some.inj (hfirst.symm.trans h1)).trans
        (Option.some.inj (hlast.symm.trans h2)).symm
  · rw [indexOf_eq_none.mpr hmem]
    refine Or.inr ⟨fun h d hf => hmem ?_, rfl⟩
    obtain ⟨e, -, rfl, -⟩ := form_plain hf hhead
    exact List.mem_append_right h (List.mem_cons_self ..)

/-- **What `parseHostPort` answers.** -/
theorem parseHostPort_answers (s : List Char) : Answers (trim s) (parseHostPort s) := by
  cases ht : trim s with
  | nil =>
      have hp : parseHostPort s = ([], 5900) := by
        unfold parseHostPort
        simp only [ht, if_true]
      refine Or.inr ⟨fun h d hf => ?_, hp⟩
      exact absurd hf.length_lt (Nat.not_lt_zero _)
  | cons c u =>
      rw [← ht]
      by_cases hc : c = '['
      · rw [hc] at ht
        exact answers_bracket ht
      · refine answers_plain (by rw [ht]; exact List.cons_ne_nil c u) ?_
        rw [ht]
        exact fun he => hc (Option.some.inj he)

/-- Nothing is taken off the string. -/
def Whole (t : List Char) : Prop := ∀ h d, Form t h d → ∃ e, d = some e ∧ parsePort e = none

theorem Whole.not_alone {t h : List Char} (hw : Whole t) : ¬ Form t h none := by
  intro hf
  obtain ⟨e, he, -⟩ := hw h none hf
  cases he

theorem Whole.not_port {t h d : List Char} {p : ℤ} (hw : Whole t) (hf : Form t h (some d)) :
    parsePort d ≠ some p := by
  intro hp
  obtain ⟨e, he, hnone⟩ := hw h (some d) hf
  cases he
  cases hp.symm.trans hnone

/-- The three kinds of answers. -/
theorem Answers.cases {t : List Char} {r : List Char × ℤ} (hans : Answers t r) :
    (∃ h, Form t h none ∧ r = (h, 5900)) ∨
    (∃ h d p, Form t h (some d) ∧ parsePort d = some p ∧ r = (h, p)) ∨
    Whole t ∧ r = (t, 5900) := by
  rcases hans with ⟨h, d, hf, rfl⟩ | ⟨hnone, rfl⟩
  · cases d with
    | none => exact Or.inl ⟨h, hf, rfl⟩
    | some d =>
        cases hp : parsePort d with
        | none =>
            refine Or.inr (Or.inr ⟨fun h' d' hf' => ⟨d, ?_, hp⟩, answer_none hp⟩)
            exact (hf.unique hf').2.symm
        | some p => exact Or.inr (Or.inl ⟨h, d, p, hf, hp, answer_port hp⟩)
  · exact Or.inr (Or.inr ⟨fun h d hf => absurd hf (hnone h d), rfl⟩)

/-! ## §4  The documented grammar -/

/-- Decimal digits that denote the port `p`. -/
def IsPort (segment : List Char) (p : ℤ) : Prop :=
  segment ≠ [] ∧ (∀ c ∈ segment, c.isDigit) ∧ (numeral 10 segment : ℤ) = p ∧ 1 ≤ p ∧ p ≤ 65535

/-- What comes apart according to the comment. -/
inductive Grammar : List Char → List Char → ℤ → Prop where
  | plain {h d : List Char} {p : ℤ} : ':' ∉ h → h.head? ≠ some '[' → IsPort d p →
      Grammar (h ++ ':' :: d) h p
  | alone {h : List Char} : ']' ∉ h → Grammar ('[' :: (h ++ [']'])) h 5900
  | bracketed {h d : List Char} {p : ℤ} : ']' ∉ h → IsPort d p →
      Grammar ('[' :: (h ++ ']' :: ':' :: d)) h p

/-- The answer according to the comment: by the grammar, or the input as it
is. -/
def Documented (t : List Char) (r : List Char × ℤ) : Prop :=
  Grammar t r.1 r.2 ∨ (∀ h p, ¬ Grammar t h p) ∧ r = (t, 5900)

theorem parsePort_eq_some {d : List Char} {p : ℤ} :
    parsePort d = some p ↔ parseInt d = some p ∧ 1 ≤ p ∧ p ≤ 65535 := by
  unfold parsePort
  cases parseInt d with
  | none =>
      constructor
      · intro h
        cases h
      · rintro ⟨h, -⟩
        cases h
  | some q =>
      dsimp only
      split
      · next hq =>
          constructor
          · intro h
            cases h
          · rintro ⟨h, h1, h2⟩
            cases h
            rcases hq with hq | hq
            · exact absurd h1 hq.not_ge
            · exact absurd h2 hq.not_ge
      · next hq =>
          rw [not_or, not_lt, not_lt] at hq
          constructor
          · intro h
            cases h
            exact ⟨rfl, hq⟩
          · rintro ⟨h, -⟩
            exact h

theorem IsPort.parsePort {d : List Char} {p : ℤ} (h : IsPort d p) : parsePort d = some p := by
  obtain ⟨hne, hdigits, hp, hrange⟩ := h
  rw [parsePort_eq_some, parseInt_digits hne hdigits, hp]
  exact ⟨rfl, hrange⟩

theorem isPort_of_digits {d : List Char} {p : ℤ} (h : parsePort d = some p)
    (hdigits : ∀ c ∈ d, c.isDigit) : IsPort d p := by
  obtain ⟨hint, hrange⟩ := parsePort_eq_some.mp h
  have hne : d ≠ [] := by
    rintro rfl
    cases hint
  rw [parseInt_digits hne hdigits] at hint
  exact ⟨hne, hdigits, Option.some.inj hint, hrange⟩

theorem colon_not_digits {d : List Char} (h : ∀ c ∈ d, c.isDigit) : ':' ∉ d :=
  fun hc => absurd (h ':' hc) (by decide)

/-- What the grammar takes apart comes apart. -/
theorem Grammar.form {t h : List Char} {p : ℤ} (hg : Grammar t h p) :
    ∃ d, Form t h d ∧ (d = none ∧ p = 5900 ∨ ∃ e, d = some e ∧ IsPort e p) := by
  cases hg with
  | plain hh hhead hp =>
      exact ⟨_, .plain hh (colon_not_digits hp.2.1) hhead, Or.inr ⟨_, rfl, hp⟩⟩
  | alone hh => exact ⟨none, .alone hh, Or.inl ⟨rfl, rfl⟩⟩
  | bracketed hh hp => exact ⟨_, .bracketed hh, Or.inr ⟨_, rfl, hp⟩⟩

theorem Form.grammar {t h e : List Char} {p : ℤ} (hf : Form t h (some e)) (hp : IsPort e p) :
    Grammar t h p := by
  generalize hd : some e = d at hf
  cases hf with
  | plain hh _ hhead =>
      cases hd
      exact .plain hh hhead hp
  | alone => cases hd
  | bracketed hh =>
      cases hd
      exact .bracketed hh hp

/-- The segment behind the colon, if a port is read off it, is nothing but
digits. -/
def DigitsOnly (t : List Char) : Prop :=
  ∀ h d p, Form t h (some d) → parsePort d = some p → ∀ c ∈ d, c.isDigit

theorem Whole.not_grammar {t h : List Char} {p : ℤ} (hw : Whole t) : ¬ Grammar t h p := by
  intro hg
  obtain ⟨d, hf, ⟨rfl, -⟩ | ⟨e, rfl, hport⟩⟩ := hg.form
  · exact hw.not_alone hf
  · exact hw.not_port hf hport.parsePort

/-- **When the comment is right** about what comes apart. -/
theorem parseHostPort_documented_iff (s : List Char) :
    Documented (trim s) (parseHostPort s) ↔ DigitsOnly (trim s) := by
  have hans := parseHostPort_answers s
  generalize trim s = t at hans
  generalize parseHostPort s = r at hans
  rcases hans.cases with ⟨h, hf, rfl⟩ | ⟨h, d, p, hf, hp, rfl⟩ | ⟨hw, rfl⟩
  · constructor
    · intro _ h' d p hf'
      cases (hf.unique hf').2
    · intro _
      left
      generalize hd : (none : Option (List Char)) = d at hf
      cases hf with
      | plain => cases hd
      | alone hh => exact .alone hh
      | bracketed => cases hd
  · constructor
    · rintro (hg | ⟨-, he⟩) h' d' p' hf' hp'
      · cases (hf.unique hf').2
        obtain ⟨d', hf'', ⟨rfl, -⟩ | ⟨e, rfl, hport⟩⟩ := hg.form
        · cases (hf.unique hf'').2
        · cases (hf.unique hf'').2
          exact hport.2.1
      · have hlt := hf.length_lt
        rw [(Prod.mk.inj he).1] at hlt
        exact absurd hlt (lt_irrefl _)
    · intro hdigits
      exact Or.inl (hf.grammar (isPort_of_digits hp (hdigits h d p hf hp)))
  · constructor
    · intro _ h d p hf hp
      exact absurd hp (hw.not_port hf)
    · intro _
      exact Or.inr ⟨fun h p => hw.not_grammar, rfl⟩

/-- A segment that is digits in part. -/
theorem parseHostPort_trailing :
    ¬ ∀ s : List Char, Documented (trim s) (parseHostPort s) := by
  intro h
  have hp : parseHostPort "host:80abc".toList = ("host".toList, 80) := by decide
  have ht : trim "host:80abc".toList = "host".toList ++ ':' :: "80abc".toList := by decide
  have hdoc := h "host:80abc".toList
  rw [hp, ht] at hdoc
  have hf : Form ("host".toList ++ ':' :: "80abc".toList) "host".toList
      (some "80abc".toList) := .plain (by decide) (by decide) (by decide)
  rcases hdoc with hg | ⟨-, he⟩
  · obtain ⟨d, hf', ⟨rfl, -⟩ | ⟨e, rfl, hport⟩⟩ := hg.form
    · cases (hf.unique hf').2
    · cases (hf.unique hf').2
      exact absurd (hport.2.1 'a' (by decide)) (by decide)
  · exact absurd he (by decide)

/-! ## §5  The round trip -/

/-- A host that is given back when the field shows it on its own. -/
def Bare (h : List Char) : Prop :=
  trim h = h ∧ ∀ x d, Form h x d → ∃ e, d = some e ∧ parsePort e = none

/-- A host that is given back when the field shows a port behind it. -/
def Direct (h : List Char) : Prop :=
  ':' ∉ h ∧ h.head? ≠ some '[' ∧ h.dropWhile isSpace = h

theorem trim_length_le (s : List Char) : (trim s).length ≤ s.length :=
  (List.rdropWhile_prefix isSpace _).length_le.trans (List.dropWhile_suffix isSpace).length_le

theorem parseHostPort_bare_iff (h : List Char) : parseHostPort h = (h, 5900) ↔ Bare h := by
  have hle := trim_length_le h
  rcases (parseHostPort_answers h).cases with ⟨x, hf, hr⟩ | ⟨x, d, p, hf, hp, hr⟩ | ⟨hw, hr⟩
  · rw [hr]
    constructor
    · intro he
      obtain rfl := (Prod.mk.inj he).1
      exact absurd (hf.length_lt.trans_le hle) (lt_irrefl _)
    · rintro ⟨htrim, hw⟩
      rw [htrim] at hf
      exact absurd hf (Whole.not_alone hw)
  · rw [hr]
    constructor
    · intro he
      obtain rfl := (Prod.mk.inj he).1
      exact absurd (hf.length_lt.trans_le hle) (lt_irrefl _)
    · rintro ⟨htrim, hw⟩
      rw [htrim] at hf
      exact absurd hp (Whole.not_port hw hf)
  · rw [hr]
    constructor
    · intro he
      have htrim : trim h = h := (Prod.mk.inj he).1
      rw [htrim] at hw
      exact ⟨htrim, hw⟩
    · rintro ⟨htrim, -⟩
      rw [htrim]

theorem trim_append_digits {d : List Char} (hne : d ≠ []) (hd : ∀ c ∈ d, c.isDigit)
    (h : List Char) : trim (h ++ ':' :: d) = h.dropWhile isSpace ++ ':' :: d := by
  have hdrop : (h ++ ':' :: d).dropWhile isSpace = h.dropWhile isSpace ++ ':' :: d := by
    rw [List.dropWhile_append]
    split
    · next hnil =>
        rw [List.isEmpty_iff.mp hnil, List.nil_append]
        exact dropWhile_eq_self fun c hc => by cases hc; rfl
    · rfl
  unfold trim
  rw [hdrop, List.rdropWhile_eq_self_iff]
  intro hl
  have hlast : (h.dropWhile isSpace ++ ':' :: d).getLast hl = d.getLast hne := by
    rw [List.getLast_append_of_ne_nil _ (List.cons_ne_nil _ _), List.getLast_cons hne]
  rw [hlast, isSpace_of_isDigit (hd _ (List.getLast_mem hne))]
  exact Bool.false_ne_true

theorem parsePort_text {p : ℤ} (h : 1 ≤ p ∧ p ≤ 65535) : parsePort (text p) = some p :=
  parsePort_eq_some.mpr ⟨parseInt_text (zero_le_one.trans h.1), h⟩

/-- A form of host, colon and digits: the host is the one in front. -/
theorem Form.direct {h d e : List Char} (hd : ∀ c ∈ d, c.isDigit)
    (hf : Form (h.dropWhile isSpace ++ ':' :: d) h (some e)) : Direct h := by
  generalize ht : h.dropWhile isSpace ++ ':' :: d = t at hf
  generalize hseg : some e = x at hf
  cases hf with
  | plain hh _ hhead =>
      have hcolon : ':' ∉ h.dropWhile isSpace := fun hc =>
        hh ((List.dropWhile_suffix isSpace).subset hc)
      exact ⟨hh, hhead, (first_unique hcolon hh ht).1⟩
  | alone => cases hseg
  | bracketed hh =>
      -- the closing bracket would have to come from the host
      have hmem : ']' ∈ h.dropWhile isSpace ++ ':' :: d := by
        rw [ht]
        exact List.mem_cons_of_mem _ (List.mem_append_right h (List.mem_cons_self ..))
      rcases List.mem_append.mp hmem with hm | hm
      · exact absurd ((List.dropWhile_suffix isSpace).subset hm) hh
      · rcases List.mem_cons.mp hm with hm | hm
        · cases hm
        · exact absurd (hd ']' hm) (by decide)

theorem parseHostPort_direct_iff (h : List Char) {p : ℤ} (hrange : 1 ≤ p ∧ p ≤ 65535)
    (hp : p ≠ 5900) : parseHostPort (h ++ ':' :: text p) = (h, p) ↔ Direct h := by
  have hpos : 0 ≤ p := zero_le_one.trans hrange.1
  have hdigits : ∀ c ∈ text p, c.isDigit := fun c => isDigit_of_mem_text hpos
  have hans := parseHostPort_answers (h ++ ':' :: text p)
  rw [trim_append_digits (text_ne_nil hpos) hdigits] at hans
  constructor
  · intro he
    rw [he] at hans
    rcases hans.cases with ⟨x, -, hr⟩ | ⟨x, d, q, hf, -, hr⟩ | ⟨-, hr⟩
    · exact absurd (Prod.mk.inj hr).2 hp
    · obtain rfl := (Prod.mk.inj hr).1
      exact hf.direct hdigits
    · exact absurd (Prod.mk.inj hr).2 hp
  · rintro ⟨hh, hhead, hdrop⟩
    rw [hdrop] at hans
    have hf : Form (h ++ ':' :: text p) h (some (text p)) :=
      .plain hh (colon_not_digits hdigits) hhead
    rcases hans with ⟨x, d, hf', hr⟩ | ⟨hnone, -⟩
    · obtain ⟨rfl, rfl⟩ := hf.unique hf'
      rw [hr, answer_port (parsePort_text hrange)]
    · exact absurd hf (hnone h _)

/-- What came apart can be put together again: the host may be shown as the
field shows it. -/
def Stable (t : List Char) : Prop :=
  ∀ h, h ≠ [] → (Form t h none → Bare h) ∧
    ∀ d p, Form t h (some d) → parsePort d = some p → if p = 5900 then Bare h else Direct h

theorem stable_alone_iff {t h : List Char} (hf : Form t h none) :
    Stable t ↔ (h ≠ [] → Bare h) := by
  constructor
  · intro hst hne
    exact (hst h hne).1 hf
  · intro hbare h' hne
    refine ⟨fun hf' => ?_, fun d p hf' => ?_⟩
    · obtain rfl := (hf.unique hf').1
      exact hbare hne
    · cases (hf.unique hf').2

theorem stable_port_iff {t h d : List Char} {p : ℤ} (hf : Form t h (some d))
    (hp : parsePort d = some p) :
    Stable t ↔ (h ≠ [] → if p = 5900 then Bare h else Direct h) := by
  constructor
  · intro hst hne
    exact (hst h hne).2 d p hf hp
  · intro hst h' hne
    refine ⟨fun hf' => ?_, fun d' q hf' hq => ?_⟩
    · cases (hf.unique hf').2
    · obtain ⟨rfl, hd⟩ := hf.unique hf'
      cases hd
      cases hp.symm.trans hq
      exact hst hne

theorem Whole.stable {t : List Char} (hw : Whole t) : Stable t :=
  fun _ _ => ⟨fun hf => absurd hf hw.not_alone, fun _ _ hf hp => absurd hp (hw.not_port hf)⟩

/-- What the field shows of an answer is read back as it, if the host may be
shown that way. -/
theorem parseHostPort_hostInput_iff (h : List Char) {p : ℤ} (hrange : 1 ≤ p ∧ p ≤ 65535) :
    parseHostPort (hostInput (h, p)) = (h, p) ↔ if p = 5900 then Bare h else Direct h := by
  unfold hostInput
  dsimp only
  split
  · next hp =>
      rw [hp]
      exact parseHostPort_bare_iff h
  · next hp => exact parseHostPort_direct_iff h hrange hp

/-- **When the host field round-trips**. -/
theorem hostInput_roundtrip_iff (s : List Char) :
    ((parseHostPort s).1 ≠ [] →
        parseHostPort (hostInput (parseHostPort s)) = parseHostPort s) ↔ Stable (trim s) := by
  have hans := parseHostPort_answers s
  have htrim := trim_trim s
  generalize trim s = t at hans htrim
  generalize parseHostPort s = r at hans
  rcases hans.cases with ⟨h, hf, rfl⟩ | ⟨h, d, p, hf, hp, rfl⟩ | ⟨hw, rfl⟩
  · rw [stable_alone_iff hf]
    exact imp_congr_right fun _ => parseHostPort_bare_iff h
  · rw [stable_port_iff hf hp]
    exact imp_congr_right fun _ =>
      parseHostPort_hostInput_iff h (parsePort_eq_some.mp hp).2
  · constructor
    · intro _
      exact hw.stable
    · intro _ _
      exact (parseHostPort_bare_iff t).mpr ⟨htrim, hw⟩

/-- A bracketed address with a port that is not the default one. -/
theorem hostInput_brackets_lost :
    ¬ ∀ s : List Char, (parseHostPort s).1 ≠ [] →
      parseHostPort (hostInput (parseHostPort s)) = parseHostPort s := by
  intro h
  have hp : parseHostPort "[fe80::1]:5901".toList = ("fe80::1".toList, 5901) := by decide
  have hq : parseHostPort "fe80::1:5901".toList = ("fe80::1:5901".toList, 5900) := by decide
  have hs : hostInput ("fe80::1".toList, 5901) = "fe80::1:5901".toList := by decide
  have hrt := h "[fe80::1]:5901".toList (by rw [hp]; decide)
  rw [hp, hs, hq] at hrt
  exact absurd hrt (by decide)

end Rmcast.Config
