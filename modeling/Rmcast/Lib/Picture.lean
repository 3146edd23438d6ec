import Mathlib.Tactic

/-!
# Pictures on top of each other

A picture gives values to some of the points. Laid over another one, it hides
that one where it has values itself. What a stack shows at a point is decided
by the last picture with a value there, so two stacks under one last picture
show the same exactly if they agree wherever it has none.
-/

namespace Picture

variable {P V : Type*}

/-- The picture `f` laid over `c`. -/
def lay (f c : P → Option V) : P → Option V := fun p => (f p).or (c p)

/-- The pictures `fs` laid over `c`, one after the other. -/
def stack (c : P → Option V) (fs : List (P → Option V)) : P → Option V :=
  fs.foldl (fun c f => lay f c) c

/-- The value of the last picture that has one. -/
def top (fs : List (P → Option V)) (p : P) : Option V :=
  fs.reverse.findSome? fun f => f p

variable {c c' f : P → Option V} {fs gs : List (P → Option V)} {p : P}

theorem lay_of_some {v : V} (h : f p = some v) : lay f c p = some v := by
  unfold lay
  rw [h, Option.some_or]

theorem lay_of_none (h : f p = none) : lay f c p = c p := by
  unfold lay
  rw [h, Option.none_or]

@[simp] theorem stack_nil (c : P → Option V) : stack c [] = c := rfl

theorem stack_append (c : P → Option V) (fs gs : List (P → Option V)) :
    stack c (fs ++ gs) = stack (stack c fs) gs :=
  List.foldl_append

theorem top_snoc (fs : List (P → Option V)) (f : P → Option V) (p : P) :
    top (fs ++ [f]) p = (f p).or (top fs p) := by
  unfold top
  rw [List.reverse_concat, List.findSome?_cons]
  cases f p with
  | none => rfl
  | some v => rfl

theorem top_eq_none_iff : top fs p = none ↔ ∀ f ∈ fs, f p = none := by
  unfold top
  rw [List.findSome?_eq_none_iff]
  simp only [List.mem_reverse]

/-- **The last picture over a point decides.** -/
theorem stack_apply (c : P → Option V) (fs : List (P → Option V)) (p : P) :
    stack c fs p = (top fs p).or (c p) := by
  induction fs using List.reverseRecOn with
  | nil => rfl
  | append_singleton fs f ih =>
      rw [stack_append, top_snoc, Option.or_assoc, ← ih]
      rfl

/-- Under a common last picture, only the points it leaves out differ. -/
theorem lay_eq_lay_iff : lay f c = lay f c' ↔ ∀ p, f p = none → c p = c' p := by
  constructor
  · intro h p hp
    have hat := congrFun h p
    rwa [lay_of_none hp, lay_of_none hp] at hat
  · intro h
    ext1 p
    cases hp : f p with
    | none => rw [lay_of_none hp, lay_of_none hp, h p hp]
    | some v => rw [lay_of_some hp, lay_of_some hp]

end Picture
