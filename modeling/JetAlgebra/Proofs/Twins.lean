import Mathlib.Data.List.Forall2
import JetAlgebra.Operation
import JetAlgebra.Proofs.Outcome

/-!
# Numbers of two kinds that behave alike

A recipe that is run twice, on elements of one kind and on elements of another, goes the same
way both times if the elements behave alike: `Twins Elem` says so of the relation `Elem`
between them.  The plain numbers that a recipe writes down are the same in both runs, and what
they make with each other is the same again, until they meet an element.  So a number of a run
is an element or a plain number, with its counterpart in the other run: `Twin Elem`.

Two relations are used.  A lenient double goes with the same double in a wrapper
(`twins_wrapped`), which compares two kinds.  A rational goes with itself (`twins_rational`):
then the two runs are one, and what is said of it is that nothing but rationals comes out.

Outcomes are compared with their faults (`Alike`).
-/
namespace JetAlgebra

/-- **Outcomes that are alike**: results that are related, or the same fault. -/
inductive Alike {ε α β : Type} (R : α → β → Prop) : Except ε α → Except ε β → Prop where
  | ok {a : α} {b : β} (h : R a b) : Alike R (.ok a) (.ok b)
  | error (fault : ε) : Alike R (.error fault) (.error fault)

namespace Alike
variable {ε α β γ δ : Type} {R : α → β → Prop} {S : γ → δ → Prop}

theorem refl (x : Except ε α) : Alike Eq x x := by
  cases x with
  | ok a => exact .ok rfl
  | error fault => exact .error fault

theorem mono {R' : α → β → Prop} {x : Except ε α} {y : Except ε β} (h : Alike R x y)
    (hr : ∀ a b, R a b → R' a b) : Alike R' x y := by
  cases h with
  | ok h => exact .ok (hr _ _ h)
  | error fault => exact .error fault

/-- **Steps that are alike make chains that are alike.** -/
theorem bind {x : Except ε α} {y : Except ε β} {f : α → Except ε γ} {g : β → Except ε δ}
    (h : Alike R x y) (hf : ∀ a b, R a b → Alike S (f a) (g b)) : Alike S (x >>= f) (y >>= g) := by
  cases h with
  | ok h => exact hf _ _ h
  | error fault => exact .error fault

/-- A step that both chains share. -/
theorem bind_same {x : Except ε α} {f : α → Except ε γ} {g : α → Except ε δ}
    (hf : ∀ a, Alike S (f a) (g a)) : Alike S (x >>= f) (x >>= g) :=
  (refl x).bind fun a _ h => h ▸ hf a

theorem mapM {xs : List α} {ys : List β} {f : α → Except ε γ} {g : β → Except ε δ}
    (h : List.Forall₂ R xs ys) (hf : ∀ a b, R a b → Alike S (f a) (g b)) :
    Alike (List.Forall₂ S) (xs.mapM f) (ys.mapM g) := by
  induction h with
  | nil => exact .ok .nil
  | cons hab _ ih =>
    rw [List.mapM_cons, List.mapM_cons]
    exact (hf _ _ hab).bind fun _ _ hv => ih.bind fun _ _ hvs => .ok (.cons hv hvs)

theorem mapError {ε' : Type} {x : Except ε α} {y : Except ε β} (h : Alike R x y) (f : ε → ε') :
    Alike R (x.mapError f) (y.mapError f) := by
  cases h with
  | ok h => exact .ok h
  | error fault => exact .error (f fault)

/-- The same branch is taken in both. -/
theorem ite {c : Prop} [Decidable c] {x x' : Except ε α} {y y' : Except ε β} (h : Alike R x y)
    (h' : Alike R x' y') : Alike R (if c then x else x') (if c then y else y') := by
  split
  · exact h
  · exact h'

/-- The same branch is taken in both, on the way to a next step. -/
theorem ite_bind {c : Prop} [Decidable c] {x x' : Except ε α} {y y' : Except ε β}
    {f : α → Except ε γ} {g : β → Except ε δ} (h : Alike R x y) (h' : Alike R x' y')
    (hf : ∀ a b, R a b → Alike S (f a) (g b)) :
    Alike S (if c then x >>= f else x' >>= f) (if c then y >>= g else y' >>= g) :=
  .ite (h.bind hf) (h'.bind hf)

/-- What is known of one outcome is known of the other. -/
theorem cases_ok {x : Except ε α} {y : Except ε β} (h : Alike R x y) {a : α} (hx : x = .ok a) :
    ∃ b, y = .ok b ∧ R a b := by
  cases h with
  | ok h => cases hx; exact ⟨_, rfl, h⟩
  | error fault => cases hx

end Alike

theorem forall₂_replicate {α β : Type} {R : α → β → Prop} {a : α} {b : β} (h : R a b) (n : Nat) :
    List.Forall₂ R (List.replicate n a) (List.replicate n b) := by
  induction n with
  | zero => exact .nil
  | succ n ih => exact .cons h ih

theorem forall₂_set {α β : Type} {R : α → β → Prop} {as : List α} {bs : List β}
    (h : List.Forall₂ R as bs) (i : Nat) {a : α} {b : β} (hab : R a b) :
    List.Forall₂ R (as.set i a) (bs.set i b) := by
  induction h generalizing i with
  | nil => exact .nil
  | cons hxy h ih =>
    cases i with
    | zero => exact .cons hab h
    | succ i => exact .cons hxy (ih i)

/-! ## Twins -/

/-- Integers and doubles. -/
inductive Scalar.IsPlain : Scalar → Prop where
  | int (n : Int) : IsPlain (.int n)
  | strict (x : Float) : IsPlain (.strict x)
  | lenient (x : Float) : IsPlain (.lenient x)

/-- **A number of one run and its counterpart in the other**: two elements, or a plain number
that both runs share. -/
inductive Twin (Elem : Scalar → Scalar → Prop) : Scalar → Scalar → Prop where
  | element {a b : Scalar} (h : Elem a b) : Twin Elem a b
  | plain {a : Scalar} (h : a.IsPlain) : Twin Elem a a

/-- Operations that combine scalars by a rule under which integers make plain numbers. -/
def IsCombination (op : Scalar → Scalar → Except ArithmeticFault Scalar) : Prop :=
  ∃ rule : Scalar.Rule, op = Scalar.combine rule ∧ ∀ m n v, rule.onInt m n = .ok v → v.IsPlain

/-- **Elements that behave alike** in all that a recipe does with them. -/
structure Twins (Elem : Scalar → Scalar → Prop) : Prop where
  left : ∀ (rule : Scalar.Rule) {a b c d : Scalar}, Elem a b → Twin Elem c d →
    Alike Elem (Scalar.combine rule a c) (Scalar.combine rule b d)
  right : ∀ (rule : Scalar.Rule) {a b c d : Scalar}, Twin Elem a b → Elem c d →
    Alike Elem (Scalar.combine rule a c) (Scalar.combine rule b d)
  pow : ∀ {a b c d : Scalar}, Elem a b → Twin Elem c d →
    Alike Elem (Arithmetic.pow a c) (Arithmetic.pow b d)
  neg : ∀ {a b : Scalar}, Elem a b → Alike Elem (Arithmetic.neg a) (Arithmetic.neg b)
  zeroLike : ∀ {a b : Scalar}, Elem a b →
    Alike Elem (Arithmetic.zeroLike a) (Arithmetic.zeroLike b)
  oneLike : ∀ {a b : Scalar}, Elem a b → Alike Elem (Arithmetic.oneLike a) (Arithmetic.oneLike b)
  apply : ∀ (f : Elementary) {a b : Scalar}, Elem a b →
    Alike Elem (Arithmetic.apply f a) (Arithmetic.apply f b)
  toFloat : ∀ {a b : Scalar}, Elem a b → Arithmetic.toFloat a = Arithmetic.toFloat b

namespace Scalar

theorem isCombination_add : IsCombination Arithmetic.add :=
  ⟨_, rfl, fun _ _ _ h => by cases h; exact .int _⟩

theorem isCombination_sub : IsCombination Arithmetic.sub :=
  ⟨_, rfl, fun _ _ _ h => by cases h; exact .int _⟩

theorem isCombination_mul : IsCombination Arithmetic.mul :=
  ⟨_, rfl, fun _ _ _ h => by cases h; exact .int _⟩

theorem isCombination_div : IsCombination Arithmetic.div := by
  refine ⟨_, rfl, fun m n v h => ?_⟩
  obtain ⟨q, -, h⟩ := bind_eq_ok_iff.mp h
  obtain ⟨x, -, h⟩ := bind_eq_ok_iff.mp h
  cases h
  exact .strict _

/-- Plain numbers make plain numbers. -/
theorem isPlain_combine {rule : Rule} (hr : ∀ m n v, rule.onInt m n = .ok v → v.IsPlain)
    {a b v : Scalar} (ha : a.IsPlain) (hb : b.IsPlain) (h : combine rule a b = .ok v) :
    v.IsPlain := by
  have lenient : ∀ {x : Except ArithmeticFault Float} {f : Float → Float},
      (x >>= fun y => .ok (.lenient (f y))) = .ok v → v.IsPlain := by
    intro x f h
    obtain ⟨y, -, h⟩ := bind_eq_ok_iff.mp h
    cases h
    exact .lenient _
  have strict : ∀ {x y : Except ArithmeticFault Float} {f : Float → Float → _},
      (x >>= fun a => y >>= fun b => f a b >>= fun c => .ok (.strict c)) = .ok v → v.IsPlain := by
    intro x y f h
    obtain ⟨a, -, h⟩ := bind_eq_ok_iff.mp h
    obtain ⟨b, -, h⟩ := bind_eq_ok_iff.mp h
    obtain ⟨c, -, h⟩ := bind_eq_ok_iff.mp h
    cases h
    exact .strict _
  cases ha with
  | int m =>
    cases hb with
    | int n => exact hr _ _ _ h
    | strict y => exact strict h
    | lenient y => exact lenient h
  | strict x =>
    cases hb with
    | int n => exact strict h
    | strict y => exact strict h
    | lenient y => exact lenient h
  | lenient x => cases hb <;> exact lenient h

/-- The same plain numbers make the same in both runs, and it is a plain number. -/
theorem alike_combine_plain {op : Scalar → Scalar → Except ArithmeticFault Scalar}
    (hop : IsCombination op) {a b : Scalar} (ha : a.IsPlain) (hb : b.IsPlain) :
    Alike (fun v w => v = w ∧ v.IsPlain) (op a b) (op a b) := by
  obtain ⟨rule, rfl, hr⟩ := hop
  cases hv : combine rule a b with
  | error fault => exact .error fault
  | ok v => exact .ok ⟨rfl, isPlain_combine hr ha hb hv⟩

end Scalar

namespace Twins
variable {Elem : Scalar → Scalar → Prop} (T : Twins Elem) {a b c d : Scalar}
  {op : Scalar → Scalar → Except ArithmeticFault Scalar}
include T

/-- An element on the left makes an element. -/
theorem combine_left (hop : IsCombination op) (h : Elem a b) (h' : Twin Elem c d) :
    Alike Elem (op a c) (op b d) := by
  obtain ⟨rule, rfl, -⟩ := hop
  exact T.left rule h h'

/-- An element on the right makes an element. -/
theorem combine_right (hop : IsCombination op) (h : Twin Elem a b) (h' : Elem c d) :
    Alike Elem (op a c) (op b d) := by
  obtain ⟨rule, rfl, -⟩ := hop
  exact T.right rule h h'

/-- **Counterparts make counterparts.** -/
theorem combine (hop : IsCombination op) (h : Twin Elem a b) (h' : Twin Elem c d) :
    Alike (Twin Elem) (op a c) (op b d) := by
  cases h with
  | element h => exact (T.combine_left hop h h').mono fun _ _ => .element
  | plain h =>
    cases h' with
    | element h' => exact (T.combine_right hop (.plain h) h').mono fun _ _ => .element
    | plain h' =>
      exact (Scalar.alike_combine_plain hop h h').mono fun _ _ ⟨same, hv⟩ => same ▸ .plain hv

omit T in
theorem ofInt (n : Int) : Twin Elem (Arithmetic.ofInt n) (Arithmetic.ofInt n) := .plain (.int n)

omit T in
theorem ofFloat (x : Float) : Twin Elem (Arithmetic.ofFloat x) (Arithmetic.ofFloat x) :=
  .plain (.strict x)

omit T in
theorem computed (x : Float) : Twin Elem (Arithmetic.computed x) (Arithmetic.computed x) :=
  .plain (.lenient x)

theorem negTwin (h : Twin Elem a b) :
    Alike (Twin Elem) (Arithmetic.neg a) (Arithmetic.neg b) := by
  cases h with
  | element h => exact (T.neg h).mono fun _ _ => .element
  | plain h =>
    cases h with
    | int n => exact .ok (.plain (.int _))
    | strict x => exact .ok (.plain (.strict _))
    | lenient x => exact .ok (.plain (.lenient _))

theorem toFloatTwin (h : Twin Elem a b) : Arithmetic.toFloat a = Arithmetic.toFloat b := by
  cases h with
  | element h => exact T.toFloat h
  | plain => rfl

end Twins

/-! ## Wrapped doubles -/

/-- A double that is lenient on one side and wrapped on the other. -/
inductive WrappedValue : Scalar → Scalar → Prop where
  | intro (x : Float) : WrappedValue (.lenient x) (.real x)

/-- What the other operand of a double is, is asked in the same way. -/
theorem collect_twin {a b : Scalar} (h : Twin WrappedValue a b) : a.plain = b.collect := by
  cases h with
  | element h => cases h; rfl
  | plain h => cases h <;> rfl

/-- **A lenient double and a wrapped one behave alike.** -/
theorem twins_wrapped : Twins WrappedValue where
  left rule a b c d h h' := by
    have other := collect_twin h'
    obtain ⟨x⟩ := h
    have wrapped : Scalar.combine rule (.real x) d =
        d.collect >>= fun y => .ok (.real (rule.onFloat x y)) := by
      cases h' with
      | element h' => cases h'; rfl
      | plain h' => cases h' <;> rfl
    have lenient : Scalar.combine rule (.lenient x) c =
        c.plain >>= fun y => .ok (.lenient (rule.onFloat x y)) := by
      cases h' with
      | element h' => cases h'; rfl
      | plain h' => cases h' <;> rfl
    rw [lenient, wrapped, other]
    exact .bind_same fun y => .ok ⟨_⟩
  right rule a b c d h h' := by
    have other := collect_twin h
    obtain ⟨y⟩ := h'
    have wrapped : Scalar.combine rule b (.real y) =
        b.collect >>= fun x => .ok (.real (rule.onFloat x y)) := by
      cases h with
      | element h => cases h; rfl
      | plain h => cases h <;> rfl
    have lenient : Scalar.combine rule a (.lenient y) =
        a.plain >>= fun x => .ok (.lenient (rule.onFloat x y)) := by
      cases h with
      | element h => cases h; rfl
      | plain h => cases h <;> rfl
    rw [lenient, wrapped, other]
    exact .bind_same fun x => .ok ⟨_⟩
  pow {a b c d} h h' := by
    have other := collect_twin h'
    obtain ⟨x⟩ := h
    have lenient : Scalar.pow (.lenient x) c =
        c.plain >>= fun y => .ok (.lenient (Float.pow x y)) := by
      cases h' with
      | element h' => cases h'; rfl
      | plain h' => cases h' <;> rfl
    show Alike _ (Scalar.pow _ _) (d.collect >>= fun y => .ok (Scalar.real (Float.pow x y)))
    rw [lenient, other]
    exact .bind_same fun y => .ok ⟨_⟩
  neg h := by cases h; exact .ok ⟨_⟩
  zeroLike h := by cases h; exact .ok ⟨_⟩
  oneLike h := by cases h; exact .ok ⟨_⟩
  apply f _ _ h := by cases h; exact .ok ⟨_⟩
  toFloat h := by cases h; rfl

/-! ## Rationals -/

/-- A rational goes with itself. -/
inductive SameRational : Scalar → Scalar → Prop where
  | intro (q : Rat) : SameRational (.rat q) (.rat q)

theorem SameRational.eq {a b : Scalar} (h : SameRational a b) : a = b := by
  cases h; rfl

theorem twin_rational_eq {a b : Scalar} (h : Twin SameRational a b) : a = b := by
  cases h with
  | element h => exact h.eq
  | plain => rfl

/-- **What meets a rational becomes one.** -/
theorem twins_rational : Twins SameRational where
  left rule a b c d h h' := by
    obtain rfl := twin_rational_eq h'
    obtain ⟨q⟩ := h
    exact .bind_same fun x => .bind_same fun y => .ok ⟨_⟩
  right rule a b c d h h' := by
    obtain ⟨q⟩ := h'
    cases h with
    | element h => obtain ⟨p⟩ := h; exact .bind_same fun x => .bind_same fun y => .ok ⟨_⟩
    | plain h => cases h <;> exact .bind_same fun x => .bind_same fun y => .ok ⟨_⟩
  pow h h' := by
    obtain rfl := twin_rational_eq h'
    obtain ⟨q⟩ := h
    exact .bind_same fun y => .bind_same fun r => .ok ⟨_⟩
  neg h := by cases h; exact .ok ⟨_⟩
  zeroLike h := by cases h; exact .ok ⟨_⟩
  oneLike h := by cases h; exact .ok ⟨_⟩
  apply f _ _ h := by cases h; exact .ok ⟨_⟩
  toFloat h := by cases h; rfl

end JetAlgebra
