import JetAlgebra.Proofs.WrappedJets

/-!
# Elements of one kind

There are three kinds of buffers: of doubles, of wrapped doubles and of rationals.  Slots of the
latter two may be empty, and everything else in them is an element of the kind.

A composition looks at the kind of the slots and at the integers that elements are multiplied
with, but whether it succeeds does not depend on which elements there are.  So if it succeeds
for one jet and one list of derivatives, it does for every other jet that has elements where the
first one has some, and for every other list (`follows_compose`); and only elements come out.

`Follows` says that of outcomes: one succeeds wherever another one does.
-/
namespace JetAlgebra
open Arithmetic Scalar

/-! ## Outcomes that follow each other -/

/-- **An outcome that succeeds wherever another one does**, with a related result. -/
def Follows {ε α β : Type} (R : α → β → Prop) (x : Except ε α) (y : Except ε β) : Prop :=
  ∀ a, x = .ok a → ∃ b, y = .ok b ∧ R a b

namespace Follows
variable {ε α β γ δ : Type} {R : α → β → Prop} {S : γ → δ → Prop}

theorem refl (x : Except ε α) : Follows Eq x x := fun a h => ⟨a, h, rfl⟩

theorem ok {a : α} {b : β} (h : R a b) : Follows (ε := ε) R (.ok a) (.ok b) := by
  rintro _ ⟨⟩
  exact ⟨b, rfl, h⟩

/-- Nothing has to follow a failure. -/
theorem error (fault : ε) (y : Except ε β) : Follows R (.error fault) y := fun _ h => nomatch h

theorem mono {R' : α → β → Prop} {x : Except ε α} {y : Except ε β} (h : Follows R x y)
    (hr : ∀ a b, R a b → R' a b) : Follows R' x y := by
  intro a ha
  obtain ⟨b, hb, hab⟩ := h a ha
  exact ⟨b, hb, hr a b hab⟩

/-- **Chains follow each other** step by step. -/
theorem bind {x : Except ε α} {y : Except ε β} {f : α → Except ε γ} {g : β → Except ε δ}
    (h : Follows R x y) (hf : ∀ a b, R a b → Follows S (f a) (g b)) :
    Follows S (x >>= f) (y >>= g) := by
  intro c hc
  obtain ⟨a, ha, hc⟩ := bind_eq_ok_iff.mp hc
  obtain ⟨b, hb, hab⟩ := h a ha
  obtain ⟨d, hd, hcd⟩ := hf a b hab c hc
  exact ⟨d, bind_eq_ok hb hd, hcd⟩

theorem mapError {ε' : Type} {x : Except ε α} {y : Except ε β} (h : Follows R x y) (f : ε → ε') :
    Follows R (x.mapError f) (y.mapError f) := by
  intro a ha
  obtain ⟨b, hb, hab⟩ := h a (mapError_eq_ok_iff.mp ha)
  exact ⟨b, mapError_eq_ok_iff.mpr hb, hab⟩

theorem mapM {xs : List α} {ys : List β} {f : α → Except ε γ} {g : β → Except ε δ}
    (h : List.Forall₂ R xs ys) (hf : ∀ a b, R a b → Follows S (f a) (g b)) :
    Follows (List.Forall₂ S) (xs.mapM f) (ys.mapM g) := by
  induction h with
  | nil => exact .ok .nil
  | cons hab _ ih =>
    rw [List.mapM_cons, List.mapM_cons]
    exact (hf _ _ hab).bind fun _ _ hv => ih.bind fun _ _ hl => .ok (.cons hv hl)

end Follows

/-- Outcomes that are alike follow each other. -/
theorem Alike.follows {ε α β : Type} {R : α → β → Prop} {x : Except ε α} {y : Except ε β}
    (h : Alike R x y) : Follows R x y := fun _ ha => h.cases_ok ha

section Lists
variable {R S T : Scalar → Scalar → Prop} {as bs cs ds : List Scalar}

theorem follows_zipEach {f g : Scalar → Scalar → Except ArithmeticFault Scalar}
    (hf : ∀ ⦃a b⦄, R a b → ∀ ⦃c d⦄, S c d → Follows T (f a c) (g b d))
    (h : List.Forall₂ R as bs) (h' : List.Forall₂ S cs ds) :
    Follows (List.Forall₂ T) (zipEach f as cs) (zipEach g bs ds) := by
  induction h generalizing cs ds with
  | nil => exact .ok .nil
  | cons hab _ ih =>
    cases h' with
    | nil => exact .ok .nil
    | cons hcd h' =>
      exact (hf hab hcd).bind fun _ _ hv => (ih h').bind fun _ _ hl => .ok (.cons hv hl)

theorem follows_scaleEach {α : Type} {l : List α} {c : α → Int}
    (hs : ∀ n ⦃a b⦄, R a b → Follows S (scale n a) (scale n b)) (h : Along (fun _ => R) l as bs) :
    Follows (Along (fun _ => S) l) (scaleEach (l.map c) as) (scaleEach (l.map c) bs) := by
  induction h with
  | nil => exact .ok .nil
  | cons hab _ ih =>
    exact (hs _ hab).bind fun _ _ hv => ih.bind fun _ _ hl => .ok (.cons hv hl)

theorem follows_sum (ha : ∀ ⦃a b⦄, R a b → ∀ ⦃c d⦄, R c d →
      Follows R (Arithmetic.add a c) (Arithmetic.add b d)) (h : List.Forall₂ R as bs) :
    Follows R (Arithmetic.sum as) (Arithmetic.sum bs) := by
  cases h with
  | nil => exact .error _ _
  | @cons a b as bs hab h =>
    show Follows R (as.foldlM Arithmetic.add a) (bs.foldlM Arithmetic.add b)
    induction h generalizing a b with
    | nil => exact .ok hab
    | cons hcd _ ih =>
      rw [List.foldlM_cons, List.foldlM_cons]
      exact (ha hab hcd).bind fun _ _ hs => ih hs

end Lists

/-! ## Kinds -/

/-- The kinds of buffers that can hold jets. -/
inductive ElementKind where
  /-- Packed doubles. -/
  | double
  /-- Wrapped doubles. -/
  | real
  /-- Exact rationals. -/
  | rational
  deriving DecidableEq, Repr

namespace ElementKind

/-- **The elements of a kind.** -/
inductive Element : ElementKind → Scalar → Prop where
  | strict (x : Float) : Element .double (.strict x)
  | lenient (x : Float) : Element .double (.lenient x)
  | real (x : Float) : Element .real (.real x)
  | rat (q : Rat) : Element .rational (.rat q)

/-- What a slot of a buffer of the kind may hold. -/
def Slot (kind : ElementKind) (v : Scalar) : Prop := v = .unset ∨ kind.Element v

/-- Storage like that of a buffer of the kind. -/
def storage : ElementKind → Storage Scalar
  | .double => Buffer.packedStorage
  | .real | .rational => .faithful

/-- Two elements of the kind. -/
def Elements (kind : ElementKind) (x y : Scalar) : Prop := kind.Element x ∧ kind.Element y

/-- Two slots, the second of which has an element if the first one has. -/
structure Refines (kind : ElementKind) (x y : Scalar) : Prop where
  left : kind.Slot x
  right : kind.Slot y
  element : kind.Element x → kind.Element y

/-- Two elements, or an integer that is the same in both places. -/
def Factors (kind : ElementKind) (x y : Scalar) : Prop :=
  kind.Elements x y ∨ ∃ n, x = .int n ∧ y = .int n

variable {kind : ElementKind} {a b c d : Scalar}

theorem Elements.refines (h : kind.Elements a b) : kind.Refines a b :=
  ⟨.inr h.1, .inr h.2, fun _ => h.2⟩

/-- **Elements can be added**, whatever they are. -/
theorem add_eq_ok (ha : kind.Element a) (hb : kind.Element b) :
    ∃ c, Arithmetic.add a b = .ok c ∧ kind.Element c := by
  cases ha <;> cases hb <;> exact ⟨_, rfl, by constructor⟩

/-- **Elements can be multiplied.** -/
theorem mul_eq_ok (ha : kind.Element a) (hb : kind.Element b) :
    ∃ c, Arithmetic.mul a b = .ok c ∧ kind.Element c := by
  cases ha <;> cases hb <;> exact ⟨_, rfl, by constructor⟩

/-- A point of elements has an angle. -/
theorem atan2_eq_ok (ha : kind.Element a) (hb : kind.Element b) :
    ∃ c, Arithmetic.atan2 a b = .ok c ∧ kind.Element c := by
  cases ha <;> cases hb <;> exact ⟨_, rfl, by constructor⟩

/-- Whether an element can be multiplied by an integer depends on the integer alone. -/
theorem mul_int_eq (n : Int) (kind : ElementKind) : ∃ x : Except ArithmeticFault Float,
    ∀ a, kind.Element a → ∃ f : Float → Scalar, (∀ y, kind.Element (f y)) ∧
      Arithmetic.mul (.int n) a = x >>= fun y => .ok (f y) := by
  cases kind with
  | double =>
    refine ⟨floatOfInt n, fun a ha => ?_⟩
    cases ha with
    | strict x => exact ⟨fun y => .strict (y * x), fun _ => .strict _, rfl⟩
    | lenient x => exact ⟨fun y => .lenient (y * x), fun _ => .lenient _, rfl⟩
  | real =>
    refine ⟨floatOfInt n, fun a ha => ?_⟩
    cases ha with
    | real x => exact ⟨fun y => .real (y * x), fun _ => .real _, rfl⟩
  | rational =>
    refine ⟨.ok 0, fun a ha => ?_⟩
    cases ha with
    | rat q => exact ⟨fun _ => .rat (n * q), fun _ => .rat _, rfl⟩

theorem follows_add (h : kind.Elements a b) (h' : kind.Elements c d) :
    Follows kind.Elements (Arithmetic.add a c) (Arithmetic.add b d) := by
  intro v hv
  obtain ⟨x, hx, ex⟩ := add_eq_ok h.1 h'.1
  obtain ⟨y, hy, ey⟩ := add_eq_ok h.2 h'.2
  obtain rfl := Except.ok.inj (hv.symm.trans hx)
  exact ⟨y, hy, ex, ey⟩

theorem follows_mul (h : kind.Elements a b) (h' : kind.Elements c d) :
    Follows kind.Elements (Arithmetic.mul a c) (Arithmetic.mul b d) := by
  intro v hv
  obtain ⟨x, hx, ex⟩ := mul_eq_ok h.1 h'.1
  obtain ⟨y, hy, ey⟩ := mul_eq_ok h.2 h'.2
  obtain rfl := Except.ok.inj (hv.symm.trans hx)
  exact ⟨y, hy, ex, ey⟩

theorem follows_mul_int (n : Int) (h : kind.Elements a b) :
    Follows kind.Elements (Arithmetic.mul (.int n) a) (Arithmetic.mul (.int n) b) := by
  obtain ⟨x, hx⟩ := mul_int_eq n kind
  obtain ⟨f, hf, left⟩ := hx a h.1
  obtain ⟨g, hg, right⟩ := hx b h.2
  rw [left, right]
  exact (Follows.refl x).bind fun y _ hy => hy ▸ .ok ⟨hf y, hg y⟩

/-- An empty slot refuses to be multiplied, unless a wrapped double takes it in; and that takes in
elements as well. -/
theorem follows_mul_unset (h : kind.Elements a b) (hd : kind.Slot d) :
    Follows kind.Elements (Arithmetic.mul a .unset) (Arithmetic.mul b d) := by
  obtain ⟨ha, hb⟩ := h
  cases ha with
  | strict x | lenient x | rat q => exact .error _ _
  | real x =>
    cases hb with
    | real y =>
      rcases hd with rfl | hd
      · exact .ok ⟨.real _, .real _⟩
      · cases hd
        exact .ok ⟨.real _, .real _⟩

/-- **A factor times a slot** is an element, whatever the factor and the slot are. -/
theorem Factors.mul (h : kind.Factors a b) (h' : kind.Refines c d) :
    Follows kind.Elements (Arithmetic.mul a c) (Arithmetic.mul b d) := by
  rcases h'.left with rfl | hc
  · rcases h with h | ⟨n, rfl, rfl⟩
    · exact follows_mul_unset h h'.right
    · exact .error _ _
  · rcases h with h | ⟨n, rfl, rfl⟩
    · exact follows_mul h ⟨hc, h'.element hc⟩
    · exact follows_mul_int n ⟨hc, h'.element hc⟩

theorem Factors.scale (n : Int) (h : kind.Factors a b) :
    Follows kind.Factors (Arithmetic.scale n a) (Arithmetic.scale n b) := by
  rcases h with h | ⟨m, rfl, rfl⟩
  · exact (follows_mul_int n h).mono fun _ _ h => .inl h
  · exact .ok (.inr ⟨n * m, rfl, rfl⟩)

theorem Refines.alone (h : kind.Refines a b) :
    kind.Refines (kind.storage.alone a) (kind.storage.alone b) := by
  cases kind with
  | real | rational => exact h
  | double =>
    have keep : ∀ {v : Scalar}, Element .double v → Element .double
        (Buffer.packedStorage.alone v) := by
      rintro v (x | x) <;> exact .lenient x
    have slot : ∀ {v : Scalar}, Slot .double v → Slot .double (Buffer.packedStorage.alone v) := by
      rintro v (rfl | hv)
      · exact .inl rfl
      · exact .inr (keep hv)
    refine ⟨slot h.left, slot h.right, fun ha => keep (h.element ?_)⟩
    rcases h.left with rfl | hl
    · cases ha
    · exact hl

theorem Refines.oneLike (h : kind.Refines a b) :
    Follows kind.Elements (Arithmetic.oneLike a) (Arithmetic.oneLike b) := by
  rcases h.left with rfl | ha
  · exact .error _ _
  · have hb := h.element ha
    cases ha <;> cases hb <;> exact .ok ⟨by constructor, by constructor⟩

/-- **Elements can be stored.** -/
theorem store_eq_ok (ha : kind.Element a) :
    ∃ c, kind.storage.store a = .ok c ∧ kind.Element c := by
  cases ha <;> exact ⟨_, rfl, by constructor⟩

theorem Elements.store (h : kind.Elements a b) :
    Follows kind.Elements (kind.storage.store a) (kind.storage.store b) := by
  obtain ⟨ha, hb⟩ := h
  cases ha <;> cases hb <;> exact .ok ⟨by constructor, by constructor⟩

/-! ## Compositions -/

section Composition
variable {k : Calculus} {rows : List (List CompositionEntry)} {padding : Int}
  {f f' g g' as bs : List Scalar}

theorem follows_mulColumns (hg : List.Forall₂ kind.Refines g g') (width : Nat) :
    ∀ (slots : List (List Int)) {as bs : List Scalar}, List.Forall₂ kind.Elements as bs →
      Follows (List.Forall₂ kind.Elements) (Jet.mulColumns g width slots as)
        (Jet.mulColumns g' width slots bs) := by
  induction width with
  | zero => exact fun _ _ _ h => .ok h
  | succ width ih =>
    exact fun slots _ _ h => (alike_gather hg _).follows.bind fun _ _ hc =>
      (follows_zipEach (f := Arithmetic.mul) (g := Arithmetic.mul)
        (fun _ _ h _ _ h' => Factors.mul (.inl h) h') h hc).bind fun _ _ hp =>
          ih (slots.map List.tail) hp

theorem follows_leadingFactors (hf : List.Forall₂ kind.Factors f f') :
    Follows (Along (fun _ => kind.Factors) rows.flatten)
      (Jet.leadingFactors (.ofRows rows padding) f)
      (Jet.leadingFactors (.ofRows rows padding) f') :=
  (alike_gather_along (d := CompositionEntry.derivative) fun e _ =>
    alike_slot hf e.derivative).follows.bind fun _ _ hd =>
      follows_scaleEach (fun n _ _ h => h.scale n) hd

/-- Machine integers are integers after they were multiplied. -/
theorem follows_leadingWords (words : List Int) :
    Follows (Along (fun _ => kind.Factors) rows.flatten)
      (Jet.leadingWords (.ofRows rows padding) words)
      (Jet.leadingWords (.ofRows rows padding) words) :=
  (alike_leadingWords (fun n => .inr ⟨n, rfl, rfl⟩) words).follows

/-- **The terms of a composition** are elements, as each has a slot for a factor. -/
theorem follows_termsFrom (hl : Along (fun _ => kind.Factors) rows.flatten as bs)
    (hg : List.Forall₂ kind.Refines g g') :
    Follows (List.Forall₂ kind.Elements) (Jet.termsFrom (.ofRows rows padding) g as)
      (Jet.termsFrom (.ofRows rows padding) g' bs) := by
  by_cases hrows : rows.flatten = []
  · rw [hrows] at hl
    cases hl
    rw [termsFrom_nil hrows, termsFrom_nil hrows]
    exact .ok .nil
  · obtain ⟨w, hw⟩ := exists_width hrows padding
    rw [Jet.termsFrom, Jet.termsFrom, hw]
    exact (alike_gather hg _).follows.bind fun _ _ hc =>
      (follows_zipEach (fun _ _ h _ _ h' => h.mul h') hl.forall₂ hc).bind fun _ _ hp =>
        follows_mulColumns hg w _ hp

/-- **A composition of other elements** succeeds if this one does, and makes elements. -/
theorem follows_composeFrom (hk : k.composition = .ofRows rows padding)
    {leading leading' : Except ArithmeticFault (List Scalar)} (hg : List.Forall₂ kind.Refines g g')
    (hl : Follows (Along (fun _ => kind.Factors) rows.flatten) leading leading') :
    Follows (List.Forall₂ kind.Elements) (Jet.composeFrom k kind.storage g leading)
      (Jet.composeFrom k kind.storage g' leading') := by
  have value : Follows kind.Refines (Jet.value kind.storage g) (Jet.value kind.storage g') :=
    (alike_slot hg 0).follows.bind fun _ _ h => .ok h.alone
  refine value.bind fun _ _ hv => hv.oneLike.bind fun _ _ h1 => h1.store.bind fun _ _ h1 =>
    hl.bind fun _ _ hl => ?_
  rw [hk]
  have extended : List.Forall₂ kind.Refines (g ++ [_]) (g' ++ [_]) :=
    List.rel_append hg (.cons h1.refines .nil)
  exact (follows_termsFrom hl extended).bind fun _ _ ht =>
    Follows.mapM (forall₂_segments _ ht) fun _ _ h =>
      follows_sum (fun _ _ h _ _ h' => follows_add h h') h

theorem follows_compose (hk : k.composition = .ofRows rows padding)
    (hg : List.Forall₂ kind.Refines g g') (hf : List.Forall₂ kind.Factors f f') :
    Follows (List.Forall₂ kind.Elements) (Jet.compose k kind.storage g f)
      (Jet.compose k kind.storage g' f') :=
  follows_composeFrom hk hg (hk ▸ follows_leadingFactors hf)

theorem Elements.neg (h : kind.Elements a b) :
    Follows kind.Elements (Arithmetic.neg a) (Arithmetic.neg b) := by
  obtain ⟨ha, hb⟩ := h
  cases ha <;> cases hb <;> exact .ok ⟨by constructor, by constructor⟩

/-- The derivatives of one function of a joint form, and those of the other. -/
theorem follows_cycle (alternating : Bool) (n : Nat) : ∀ {a b c d : Scalar},
    kind.Elements a c → kind.Elements b d → Follows (List.Forall₂ kind.Elements)
      (Outer.cycle alternating n a b) (Outer.cycle alternating n c d) := by
  induction n with
  | zero => exact fun _ _ => .ok .nil
  | succ n ih =>
    intro a b c d ha hb
    cases alternating with
    | false => exact (ih hb ha).bind fun _ _ hl => .ok (.cons ha hl)
    | true => exact ha.neg.bind fun _ _ hn => (ih hb hn).bind fun _ _ hl => .ok (.cons ha hl)

end Composition

end ElementKind

end JetAlgebra
