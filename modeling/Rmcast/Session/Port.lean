import Rmcast.Session.Main

/-!
# The PORT operand

`main` takes the second operand through `std::stoi`, which reads a number at
the front of a string and ignores what comes behind it, and which throws
`std::out_of_range` for a number that is no `int`; the catch clause is for
`std::invalid_argument` only. The operand is validated exactly if its leading
number, where it has one, is an `int`, and where it is a port the operand
is that number and nothing else.
-/

namespace Rmcast.Session

/-! ## §1  Numbers in strings -/

/-- A sign at the front, and what is behind it. -/
def sign (s : List Char) : Bool × List Char :=
  match s with
  | '-' :: s => (true, s)
  | '+' :: s => (false, s)
  | s => (false, s)

def signed (neg : Bool) (ds : List Char) : ℤ := if neg then -decimal ds else decimal ds

/-- The number at the front of a string, behind blanks, of any size. -/
def leadingNumber (s : List Char) : Option ℤ :=
  let t := sign (s.dropWhile isSpace)
  let ds := t.2.takeWhile Char.isDigit
  if ds = [] then none else some (signed t.1 ds)

/-- The value of the whole string as a decimal number. -/
def wholeNumber (s : List Char) : Option ℤ :=
  let t := sign s
  if t.2 ≠ [] ∧ t.2.all Char.isDigit then some (signed t.1 t.2) else none

/-- The string is a decimal number, and that a port. -/
def IsPort (s : List Char) (n : ℤ) : Prop :=
  wholeNumber s = some n ∧ minPort ≤ n ∧ n ≤ maxPort

instance (s : List Char) (n : ℤ) : Decidable (IsPort s n) := inferInstanceAs (Decidable (_ ∧ _))

theorem stoi_none {s : List Char} (h : leadingNumber s = none) :
    stoi s = .error .invalidArgument := by
  unfold leadingNumber at h
  dsimp only at h
  split at h
  · rename_i hds
    exact if_pos hds
  · cases h

theorem stoi_some {s : List Char} {n : ℤ} (h : leadingNumber s = some n) :
    stoi s = if n < -2 ^ 31 ∨ 2 ^ 31 ≤ n then .error .outOfRange else .ok n := by
  unfold leadingNumber at h
  dsimp only at h
  split at h
  · cases h
  · rename_i hds
    cases h
    exact if_neg hds

/-- A decimal number begins with no blank. -/
theorem dropWhile_of_whole {s : List Char} (hne : (sign s).2 ≠ [])
    (h : ∀ c ∈ (sign s).2, c.isDigit) : s.dropWhile isSpace = s := by
  unfold sign at hne h
  revert hne h
  split
  · intro _ _
    exact List.dropWhile_cons_of_neg (by decide)
  · intro _ _
    exact List.dropWhile_cons_of_neg (by decide)
  · cases s with
    | nil => exact fun hne _ => absurd rfl hne
    | cons c s =>
        intro _ h
        have hspace := not_isSpace_of_isDigit (h c (List.mem_cons_self ..))
        exact List.dropWhile_cons_of_neg (by rw [hspace]; exact Bool.false_ne_true)

theorem leadingNumber_of_whole {s : List Char} {n : ℤ} (h : wholeNumber s = some n) :
    leadingNumber s = some n := by
  unfold wholeNumber at h
  dsimp only at h
  split at h
  · rename_i hs
    have hdigits := List.all_eq_true.mp hs.2
    unfold leadingNumber
    rw [dropWhile_of_whole hs.1 hdigits]
    dsimp only
    rw [List.takeWhile_eq_self_iff.mpr hdigits, if_neg hs.1]
    exact h
  · cases h

/-! ## §2  `main` and its second operand -/

/-- **The PORT operand is validated**: `main` goes on with the value of the
whole operand, a port, or reports an error; and it does go on with every port
where the options are accepted. -/
structure PortValidated (env : Environ) (startLandscape : Bool) (args : List (List Char)) :
    Prop where
  sound : (∃ c, main env startLandscape args = .ok c ∧
      ∀ s ∈ (parse args).2[1]?, IsPort s c.serverPort) ∨
    ∃ f, main env startLandscape args = .error (.failure f)
  complete : ∀ s ∈ (parse args).2[1]?, ∀ n, IsPort s n →
    ∀ set, settings (parse args).1 = .ok set →
      ∃ c, main env startLandscape args = .ok c ∧ c.serverPort = n

/-- The number at the front of the operand, if there is one, is an `int`, and
if it is a port and the options are accepted, it is all of the operand. -/
def PlainPort (opts : Dictionary) (s : List Char) : Prop :=
  ∀ n, leadingNumber s = some n → (-2 ^ 31 ≤ n ∧ n < 2 ^ 31) ∧
    ∀ set, settings opts = .ok set → minPort ≤ n → n ≤ maxPort → wholeNumber s = some n

/-- The options stop `main` with a message only. -/
theorem settings_error {opts : Dictionary} {e : Stop} (h : settings opts = .error e) :
    ∃ f, e = .failure f := by
  unfold settings at h
  cases ho : orientationOption opts with
  | error e' =>
      rw [ho] at h
      cases h
      unfold orientationOption at ho
      split at ho
      · split at ho
        · cases ho
          exact ⟨_, rfl⟩
        · cases ho
      · cases ho
  | ok o =>
      rw [ho] at h
      cases hr : rejectUnknown (knownOptions.foldl Dictionary.erase opts) with
      | error e' =>
          change (rejectUnknown _ >>= _) = _ at h
          rw [hr] at h
          cases h
          unfold rejectUnknown at hr
          split at hr
          · cases hr
          · cases hr
            exact ⟨_, rfl⟩
      | ok u =>
          change (rejectUnknown _ >>= _) = _ at h
          rw [hr] at h
          cases h

section Main

variable {env : Environ} {startLandscape : Bool} {args : List (List Char)}

/-- What is left of `main` where the server is an operand. -/
theorem main_operands (hreq : screenRequest (parse args).1 (parse args).2 = .ok ())
    {ip : List Char} (hip : (parse args).2[0]? = some ip) :
    main env startLandscape args =
      (serverPort (parse args).2 >>= fun port => settings (parse args).1 >>= fun set =>
        .ok ⟨cString ip, port, ((parse args).2[2]?).getD [],
          (startOrientation env startLandscape set.orientation).1, set,
          (startOrientation env startLandscape set.orientation).2⟩) := by
  have hserver : serverIp env (parse args).2 = .ok ip := by
    unfold serverIp
    rw [hip]
  unfold main
  show (screenRequest (parse args).1 (parse args).2 >>= fun _ =>
    serverIp env (parse args).2 >>= fun ip => serverPort (parse args).2 >>= _) = _
  rw [hreq, hserver]
  rfl

theorem main_port_error (hreq : screenRequest (parse args).1 (parse args).2 = .ok ())
    {ip : List Char} (hip : (parse args).2[0]? = some ip) {e : Stop}
    (h : serverPort (parse args).2 = .error e) : main env startLandscape args = .error e := by
  rw [main_operands hreq hip, h]
  rfl

theorem main_settings_error (hreq : screenRequest (parse args).1 (parse args).2 = .ok ())
    {ip : List Char} (hip : (parse args).2[0]? = some ip) {port : ℤ}
    (h : serverPort (parse args).2 = .ok port) {e : Stop}
    (hset : settings (parse args).1 = .error e) :
    ∃ f, main env startLandscape args = .error (.failure f) := by
  obtain ⟨f, rfl⟩ := settings_error hset
  refine ⟨f, ?_⟩
  rw [main_operands hreq hip, h]
  show (settings (parse args).1 >>= _) = _
  rw [hset]
  rfl

theorem main_goes_on (hreq : screenRequest (parse args).1 (parse args).2 = .ok ())
    {ip : List Char} (hip : (parse args).2[0]? = some ip) {port : ℤ}
    (h : serverPort (parse args).2 = .ok port) {set : Settings}
    (hset : settings (parse args).1 = .ok set) :
    ∃ c, main env startLandscape args = .ok c ∧ c.serverPort = port := by
  rw [main_operands hreq hip, h]
  show ∃ c : Client, (settings (parse args).1 >>= _) = Except.ok c ∧ c.serverPort = port
  rw [hset]
  exact ⟨_, rfl, rfl⟩

end Main

section Operand

variable {oper : List (List Char)} {s : List Char} {n : ℤ}

theorem serverPort_not_number (hs : oper[1]? = some s) (h : leadingNumber s = none) :
    serverPort oper = .error (.failure (.notAPort s)) := by
  unfold serverPort
  rw [hs]
  dsimp only
  rw [stoi_none h]

/-- The catch clause misses a number that is no `int`. -/
theorem serverPort_not_int (hs : oper[1]? = some s) (h : leadingNumber s = some n)
    (hn : n < -2 ^ 31 ∨ 2 ^ 31 ≤ n) : serverPort oper = .error .uncaught := by
  unfold serverPort
  rw [hs]
  dsimp only
  rw [stoi_some h, if_pos hn]

theorem serverPort_int (hs : oper[1]? = some s) (h : leadingNumber s = some n)
    (hn : ¬ (n < -2 ^ 31 ∨ 2 ^ 31 ≤ n)) :
    serverPort oper = if n < minPort ∨ n > maxPort then .error (.failure (.portRange n))
      else .ok n := by
  unfold serverPort
  rw [hs]
  dsimp only
  rw [stoi_some h, if_neg hn]

end Operand

section Exactness

variable {env : Environ} {startLandscape : Bool} {args : List (List Char)} {ip s : List Char}

/-- Without a second operand there is nothing to validate. -/
theorem portValidated_default (hreq : screenRequest (parse args).1 (parse args).2 = .ok ())
    (hip : (parse args).2[0]? = some ip) (hs : (parse args).2[1]? = none) :
    PortValidated env startLandscape args := by
  have hport : serverPort (parse args).2 = .ok defaultServerPort := by
    unfold serverPort
    rw [hs]
  refine ⟨?_, fun s hs' => by rw [hs] at hs'; cases hs'⟩
  cases hset : settings (parse args).1 with
  | error e => exact Or.inr (main_settings_error hreq hip hport hset)
  | ok set =>
      obtain ⟨c, hc, -⟩ := main_goes_on hreq hip hport hset
      exact Or.inl ⟨c, hc, fun s hs' => by rw [hs] at hs'; cases hs'⟩

/-- An operand that is no port, and that `main` reports. -/
theorem portValidated_failure {f : Failure}
    (hmain : main env startLandscape args = .error (.failure f))
    (hs : (parse args).2[1]? = some s)
    (hnot : ∀ n, IsPort s n → ∀ set, settings (parse args).1 ≠ .ok set) :
    PortValidated env startLandscape args := by
  refine ⟨Or.inr ⟨f, hmain⟩, ?_⟩
  intro s' hs' n hn set hset
  rw [hs] at hs'
  cases hs'
  exact absurd hset (hnot n hn set)

/-- An operand whose leading number `main` goes on with. -/
theorem portValidated_goes_on (hreq : screenRequest (parse args).1 (parse args).2 = .ok ())
    (hip : (parse args).2[0]? = some ip) (hs : (parse args).2[1]? = some s) {n : ℤ}
    (hport : serverPort (parse args).2 = .ok n)
    (hrange : minPort ≤ n ∧ n ≤ maxPort) {set : Settings}
    (hset : settings (parse args).1 = .ok set) :
    PortValidated env startLandscape args ↔ wholeNumber s = some n := by
  obtain ⟨c, hc, hcn⟩ : ∃ c, main env startLandscape args = .ok c ∧ c.serverPort = n :=
    main_goes_on hreq hip hport hset
  constructor
  · rintro ⟨⟨c', hc', hwhole⟩ | ⟨f, hf⟩, -⟩
    · cases hc.symm.trans hc'
      rw [← hcn]
      exact (hwhole s hs).1
    · cases hc.symm.trans hf
  · intro hwhole
    refine ⟨Or.inl ⟨c, hc, fun s' hs' => ?_⟩, fun s' hs' m hm _ _ => ⟨c, hc, ?_⟩⟩
    · cases hs.symm.trans hs'
      rw [hcn]
      exact ⟨hwhole, hrange⟩
    · cases hs.symm.trans hs'
      rw [hcn]
      exact Option.some.inj (hwhole.symm.trans hm.1)

/-- The number at the front is the only one there is. -/
theorem plainPort_iff {opts : Dictionary} {n : ℤ} (hn : leadingNumber s = some n) :
    PlainPort opts s ↔ (-2 ^ 31 ≤ n ∧ n < 2 ^ 31) ∧
      ∀ set, settings opts = .ok set → minPort ≤ n → n ≤ maxPort → wholeNumber s = some n := by
  constructor
  · intro h
    exact h n hn
  · intro h m hm
    obtain rfl := Option.some.inj (hn.symm.trans hm)
    exact h

theorem IsPort.in_range {n m : ℤ} (hn : leadingNumber s = some n) (h : IsPort s m) :
    minPort ≤ n ∧ n ≤ maxPort := by
  obtain rfl := Option.some.inj (hn.symm.trans (leadingNumber_of_whole h.1))
  exact h.2

/-- A leading number that is no `int`. -/
theorem not_portValidated {n : ℤ}
    (hreq : screenRequest (parse args).1 (parse args).2 = .ok ())
    (hip : (parse args).2[0]? = some ip) (hs : (parse args).2[1]? = some s)
    (hn : leadingNumber s = some n) (hint : n < -2 ^ 31 ∨ 2 ^ 31 ≤ n) :
    ¬ PortValidated env startLandscape args := by
  have hmain : main env startLandscape args = .error .uncaught :=
    main_port_error hreq hip (serverPort_not_int hs hn hint)
  rintro ⟨⟨c, hc, -⟩ | ⟨f, hf⟩, -⟩
  · cases hmain.symm.trans hc
  · cases hmain.symm.trans hf

theorem portValidated_operand (hreq : screenRequest (parse args).1 (parse args).2 = .ok ())
    (hip : (parse args).2[0]? = some ip) (hs : (parse args).2[1]? = some s) :
    PortValidated env startLandscape args ↔ PlainPort (parse args).1 s := by
  cases hn : leadingNumber s with
  | none =>
      -- no digits: `std::invalid_argument`
      constructor
      · intro _ n h
        cases hn.symm.trans h
      · intro _
        refine portValidated_failure (main_port_error hreq hip (serverPort_not_number hs hn)) hs ?_
        intro n h
        cases hn.symm.trans (leadingNumber_of_whole h.1)
  | some n =>
      rw [plainPort_iff hn]
      by_cases hint : n < -2 ^ 31 ∨ 2 ^ 31 ≤ n
      · refine iff_of_false (not_portValidated hreq hip hs hn hint) ?_
        rintro ⟨⟨hlo, hhi⟩, -⟩
        rcases hint with hlt | hge
        · exact absurd hlo (not_le.mpr hlt)
        · exact absurd hhi (not_lt.mpr hge)
      have hport := serverPort_int hs hn hint
      rw [not_or, not_lt, not_le] at hint
      by_cases hrange : n < minPort ∨ n > maxPort
      · rw [if_pos hrange] at hport
        have hout : ¬ (minPort ≤ n ∧ n ≤ maxPort) := by
          rintro ⟨hlo, hhi⟩
          rcases hrange with hlt | hgt
          · exact absurd hlo (not_le.mpr hlt)
          · exact absurd hhi (not_le.mpr hgt)
        refine iff_of_true ?_ ⟨hint, fun _ _ hlo hhi => absurd ⟨hlo, hhi⟩ hout⟩
        refine portValidated_failure (main_port_error hreq hip hport) hs ?_
        exact fun m h => absurd (h.in_range hn) hout
      rw [if_neg hrange] at hport
      rw [not_or, not_lt, not_lt] at hrange
      cases hset : settings (parse args).1 with
      | error e =>
          obtain ⟨f, hf⟩ : ∃ f, main env startLandscape args = .error (.failure f) :=
            main_settings_error hreq hip hport hset
          refine iff_of_true ?_ ⟨hint, fun set h => by cases h⟩
          exact portValidated_failure hf hs fun _ _ set h => by cases hset.symm.trans h
      | ok set =>
          rw [portValidated_goes_on hreq hip hs hport hrange hset]
          constructor
          · intro hwhole
            exact ⟨hint, fun _ _ _ _ => hwhole⟩
          · intro h
            exact h.2 set rfl hrange.1 hrange.2

end Exactness

/-- **The PORT operand is validated exactly** if the number at its front is an
`int` and, as a port, all of it. -/
theorem port_validated_iff (env : Environ) (startLandscape : Bool) {args : List (List Char)}
    (hreq : screenRequest (parse args).1 (parse args).2 = .ok ())
    (hone : (parse args).2 ≠ []) :
    PortValidated env startLandscape args ↔
      ∀ s ∈ (parse args).2[1]?, PlainPort (parse args).1 s := by
  obtain ⟨ip, hip⟩ : ∃ ip, (parse args).2[0]? = some ip :=
    ⟨_, List.getElem?_eq_getElem (List.length_pos_of_ne_nil hone)⟩
  cases hs : (parse args).2[1]? with
  | none =>
      constructor
      · intro _ s hs'
        cases hs'
      · intro _
        exact portValidated_default hreq hip hs
  | some s =>
      rw [portValidated_operand hreq hip hs]
      constructor
      · intro h s' hs'
        cases hs'
        exact h
      · intro h
        exact h s rfl

theorem port_validated_5901 :
    PortValidated (fun _ => none) false ["host".toList, "5901".toList] := by
  refine (port_validated_iff _ _ (by decide) (by decide)).mpr ?_
  intro s hs n hn
  cases hs
  cases hn
  exact ⟨by decide, fun _ _ _ _ => by decide⟩

/-- `std::stoi` throws `std::out_of_range`, and nothing catches it. -/
theorem port_uncaught :
    ¬ ∀ (env : Environ) (startLandscape : Bool) (args : List (List Char)),
      screenRequest (parse args).1 (parse args).2 = .ok () → (parse args).2 ≠ [] →
      PortValidated env startLandscape args := by
  intro H
  have hmain : main (fun _ => none) false ["host".toList, "99999999999".toList] =
      .error .uncaught :=
    main_port_error (by decide) rfl (serverPort_not_int rfl (n := 99999999999) (by decide)
      (by decide))
  obtain ⟨⟨c, hc, -⟩ | ⟨f, hf⟩, -⟩ := H (fun _ => none) false
    ["host".toList, "99999999999".toList] (by decide) (by decide)
  · cases hmain.symm.trans hc
  · cases hmain.symm.trans hf

end Rmcast.Session
