import JetAlgebra.Proofs.Flattening
import JetAlgebra.Proofs.TwinRecipes

/-!
# Jets of doubles and jets of wrapped doubles

The slots of a packed jet are strict doubles, and what an operation computes from them is
strict or lenient; the jet of wrapped doubles has the same double in the same slot
(`WrappedJet`).  Sums, products and what is built from them do not tell the tempers apart, and
a value that is read out alone is lenient, so the recipes run alike (`twins_wrapped`).  Storing
makes all slots strict again on the one side and changes nothing on the other.

The outer derivatives of a composition may come from a caller, who may write down integers.
On packed jets they are turned into doubles first, and with wrapped doubles only after they
were multiplied by a coefficient of the table.  `ScalesAlike` says that this makes no
difference.  Machine integers are multiplied as such on both sides (`alike_leadingWords`).
-/
namespace JetAlgebra
open Arithmetic Scalar

/-- A double of either temper on one side, and the same in a wrapper on the other. -/
inductive WrappedSlot : Scalar → Scalar → Prop where
  | strict (x : Float) : WrappedSlot (.strict x) (.real x)
  | lenient (x : Float) : WrappedSlot (.lenient x) (.real x)

/-- **A jet of doubles and the same jet of wrapped doubles.** -/
abbrev WrappedJet (a b : Jet Scalar) : Prop := List.Forall₂ WrappedSlot a b

theorem WrappedValue.slot {a b : Scalar} (h : WrappedValue a b) : WrappedSlot a b := by
  obtain ⟨x⟩ := h
  exact .lenient x

/-! ## Slots -/

/-- Rules that refuse no strict double. -/
def Scalar.Rule.IsTotal (rule : Rule) : Prop :=
  ∀ x y, rule.onStrict x y = .ok (rule.onFloat x y)

theorem Scalar.Rule.IsTotal.onStrict_eq {rule : Rule} (h : rule.IsTotal) (x y : Float) :
    rule.onStrict x y = .ok (rule.onFloat x y) := h x y

/-- What a double is combined with: a plain number on one side, and on the other a number that
the same double is made of, if any is. -/
structure Counterpart (a b : Scalar) : Prop where
  plain : a.IsPlain
  other : b.IsPlain ∨ ∃ y, b = .real y
  same : a.plain = b.collect

theorem WrappedSlot.counterpart {a b : Scalar} (h : WrappedSlot a b) : Counterpart a b := by
  cases h with
  | strict x => exact ⟨.strict x, .inr ⟨x, rfl⟩, rfl⟩
  | lenient x => exact ⟨.lenient x, .inr ⟨x, rfl⟩, rfl⟩

theorem counterpart_self {a : Scalar} (h : a.IsPlain) : Counterpart a a :=
  ⟨h, .inl h, by cases h <;> rfl⟩

namespace WrappedSlot
variable {rule : Rule} {a b c d : Scalar}

/-- Combining a plain number with a double makes a double of some temper. -/
theorem combine_left (total : rule.IsTotal) (h : WrappedSlot a b) (hc : c.IsPlain) :
    ∃ (x : Float) (temper : Float → Scalar), b = .real x ∧
      (∀ z, WrappedSlot (temper z) (.real z)) ∧
      combine rule a c = c.plain >>= fun y => .ok (temper (rule.onFloat x y)) := by
  cases h with
  | lenient x =>
    refine ⟨x, .lenient, rfl, .lenient, ?_⟩
    cases hc <;> rfl
  | strict x =>
    cases hc with
    | lenient y => exact ⟨x, .lenient, rfl, .lenient, rfl⟩
    | int n =>
      refine ⟨x, .strict, rfl, .strict, ?_⟩
      show (floatOfInt n >>= fun y => rule.onStrict x y >>=
        fun z => Except.ok (Scalar.strict z)) = _
      simp only [total.onStrict_eq]
      rfl
    | strict y =>
      refine ⟨x, .strict, rfl, .strict, ?_⟩
      show (rule.onStrict x y >>= fun z => Except.ok (Scalar.strict z)) = _
      rw [total.onStrict_eq]
      rfl

/-- The same with the double on the right. -/
theorem combine_right (total : rule.IsTotal) (h : WrappedSlot a b) (hc : c.IsPlain) :
    ∃ (x : Float) (temper : Float → Scalar), b = .real x ∧
      (∀ z, WrappedSlot (temper z) (.real z)) ∧
      combine rule c a = c.plain >>= fun y => .ok (temper (rule.onFloat y x)) := by
  cases h with
  | lenient x =>
    refine ⟨x, .lenient, rfl, .lenient, ?_⟩
    cases hc <;> rfl
  | strict x =>
    cases hc with
    | lenient y => exact ⟨x, .lenient, rfl, .lenient, rfl⟩
    | int n =>
      refine ⟨x, .strict, rfl, .strict, ?_⟩
      show (floatOfInt n >>= fun y => rule.onStrict y x >>=
        fun z => Except.ok (Scalar.strict z)) = _
      simp only [total.onStrict_eq]
      rfl
    | strict y =>
      refine ⟨x, .strict, rfl, .strict, ?_⟩
      show (rule.onStrict y x >>= fun z => Except.ok (Scalar.strict z)) = _
      rw [total.onStrict_eq]
      rfl

theorem alike_left (total : rule.IsTotal) (h : WrappedSlot a b) (h' : Counterpart c d) :
    Alike WrappedSlot (combine rule a c) (combine rule b d) := by
  obtain ⟨x, temper, rfl, slot, double⟩ := combine_left total h h'.plain
  have wrapped : combine rule (.real x) d =
      d.collect >>= fun y => .ok (.real (rule.onFloat x y)) := by
    rcases h'.other with hd | ⟨y, rfl⟩
    · cases hd <;> rfl
    · rfl
  rw [double, wrapped, h'.same]
  exact .bind_same fun y => .ok (slot _)

theorem alike_right (total : rule.IsTotal) (h : WrappedSlot a b) (h' : Counterpart c d) :
    Alike WrappedSlot (combine rule c a) (combine rule d b) := by
  obtain ⟨x, temper, rfl, slot, double⟩ := combine_right total h h'.plain
  have wrapped : combine rule d (.real x) =
      d.collect >>= fun y => .ok (.real (rule.onFloat y x)) := by
    rcases h'.other with hd | ⟨y, rfl⟩
    · cases hd <;> rfl
    · rfl
  rw [double, wrapped, h'.same]
  exact .bind_same fun y => .ok (slot _)

theorem add (h : WrappedSlot a b) (h' : WrappedSlot c d) :
    Alike WrappedSlot (Arithmetic.add a c) (Arithmetic.add b d) :=
  alike_left (fun _ _ => rfl) h h'.counterpart

theorem sub (h : WrappedSlot a b) (h' : WrappedSlot c d) :
    Alike WrappedSlot (Arithmetic.sub a c) (Arithmetic.sub b d) :=
  alike_left (fun _ _ => rfl) h h'.counterpart

theorem mul (h : WrappedSlot a b) (h' : Counterpart c d) :
    Alike WrappedSlot (Arithmetic.mul a c) (Arithmetic.mul b d) :=
  alike_left (fun _ _ => rfl) h h'

theorem mul_right (h : Counterpart c d) (h' : WrappedSlot a b) :
    Alike WrappedSlot (Arithmetic.mul c a) (Arithmetic.mul d b) :=
  alike_right (fun _ _ => rfl) h' h

theorem scale (n : Int) (h : WrappedSlot a b) :
    Alike WrappedSlot (Arithmetic.scale n a) (Arithmetic.scale n b) :=
  mul_right (counterpart_self (.int n)) h

theorem toFloat (h : WrappedSlot a b) : Arithmetic.toFloat a = Arithmetic.toFloat b := by
  cases h <;> rfl

theorem apply (f : Elementary) (h : WrappedSlot a b) :
    Alike WrappedValue (Arithmetic.apply f a) (Arithmetic.apply f b) := by
  cases h <;> exact .ok ⟨_⟩

theorem zeroLike (h : WrappedSlot a b) :
    Alike WrappedValue (Arithmetic.zeroLike a) (Arithmetic.zeroLike b) := by
  cases h <;> exact .ok ⟨_⟩

theorem atan2 (h : WrappedSlot a b) (h' : WrappedSlot c d) :
    Alike WrappedValue (Arithmetic.atan2 a c) (Arithmetic.atan2 b d) := by
  cases h <;> cases h' <;> exact .ok ⟨_⟩

theorem remainder (h : WrappedSlot a b) (h' : WrappedSlot c d) :
    Alike WrappedSlot (Arithmetic.remainder a c) (Arithmetic.remainder b d) := by
  cases h <;> cases h' <;> exact .ok (.lenient _)

/-- **Storing** makes strict doubles of doubles, and keeps wrapped ones. -/
theorem store (h : WrappedSlot a b) :
    Alike WrappedSlot (Buffer.packedStorage.store a) (Storage.faithful.store b) := by
  cases h <;> exact .ok (.strict _)

/-- **A slot that is read out alone** is lenient. -/
theorem alone (h : WrappedSlot a b) :
    WrappedValue (Buffer.packedStorage.alone a) (Storage.faithful.alone b) := by
  cases h <;> exact ⟨_⟩

end WrappedSlot

/-! ## Lists of slots -/

section Lists
variable {R S : Scalar → Scalar → Prop} {as bs cs ds : List Scalar}

theorem alike_zipEach {f g : Scalar → Scalar → Except ArithmeticFault Scalar}
    (hf : ∀ ⦃a b⦄, R a b → ∀ ⦃c d⦄, S c d → Alike WrappedSlot (f a c) (g b d))
    (h : List.Forall₂ R as bs) (h' : List.Forall₂ S cs ds) :
    Alike WrappedJet (zipEach f as cs) (zipEach g bs ds) := by
  induction h generalizing cs ds with
  | nil => exact .ok .nil
  | cons hab _ ih =>
    cases h' with
    | nil => exact .ok .nil
    | cons hcd h' =>
      exact (hf hab hcd).bind fun _ _ hv => (ih h').bind fun _ _ hl => .ok (.cons hv hl)

theorem alike_gather {α β : Type} {R : α → β → Prop} {as : List α} {bs : List β}
    (h : List.Forall₂ R as bs) (positions : List Int) :
    Alike (List.Forall₂ R) (gather as positions) (gather bs positions) := by
  have same : List.Forall₂ Eq positions positions := List.forall₂_refl positions
  exact Alike.mapM same fun i j hij => hij ▸ alike_slot h i

theorem alike_scaleEach (ns : List Int) (h : WrappedJet as bs) :
    Alike WrappedJet (scaleEach ns as) (scaleEach ns bs) := by
  induction h generalizing ns with
  | nil => cases ns <;> exact .ok .nil
  | cons hab _ ih =>
    cases ns with
    | nil => exact .ok .nil
    | cons n ns =>
      exact (hab.scale n).bind fun _ _ hv => (ih ns).bind fun _ _ hl => .ok (.cons hv hl)

theorem forall₂_segments (starts : List Nat) (h : List.Forall₂ R as bs) :
    List.Forall₂ (List.Forall₂ R) (segments starts as) (segments starts bs) := by
  induction starts with
  | nil => exact .nil
  | cons s starts ih =>
    cases starts with
    | nil => exact .cons (List.forall₂_drop s h) .nil
    | cons t rest =>
      refine .cons ?_ ih
      split
      · exact List.forall₂_drop s (List.forall₂_take t h)
      · exact List.forall₂_take 1 (List.forall₂_drop s h)

theorem alike_sum (h : WrappedJet as bs) :
    Alike WrappedSlot (Arithmetic.sum as) (Arithmetic.sum bs) := by
  cases h with
  | nil => exact .error _
  | @cons a b as bs hab h =>
    show Alike _ (as.foldlM Arithmetic.add a) (bs.foldlM Arithmetic.add b)
    induction h generalizing a b with
    | nil => exact .ok hab
    | cons hcd _ ih =>
      rw [List.foldlM_cons, List.foldlM_cons]
      exact (hab.add hcd).bind fun _ _ hs => ih hs

theorem alike_sumSegments (starts : List Nat) (h : WrappedJet as bs) :
    Alike WrappedJet (Jet.sumSegments starts as) (Jet.sumSegments starts bs) :=
  Alike.mapM (forall₂_segments starts h) fun _ _ h => alike_sum h

end Lists

/-! ## Compositions with what callers hand in -/

/-- Three lists of the same length, related entry by entry. -/
inductive Along {α β γ : Type} (R : α → β → γ → Prop) : List α → List β → List γ → Prop where
  | nil : Along R [] [] []
  | cons {t : α} {a : β} {b : γ} {ts : List α} {as : List β} {bs : List γ} (h : R t a b)
    (rest : Along R ts as bs) : Along R (t :: ts) (a :: as) (b :: bs)

namespace Along
variable {α β γ δ ε : Type} {ts : List α} {as : List β} {bs : List γ}

theorem forall₂ {R : β → γ → Prop} (h : Along (fun _ => R) ts as bs) : List.Forall₂ R as bs := by
  induction h with
  | nil => exact .nil
  | cons h _ ih => exact .cons h ih

/-- Combining with what belongs to the entries of the first list. -/
theorem zipWith_map {R : α → β → γ → Prop} {S : δ → ε → Prop} {c : α → Int} {f : Int → β → δ}
    {g : Int → γ → ε} (hf : ∀ t a b, R t a b → S (f (c t) a) (g (c t) b)) (h : Along R ts as bs) :
    Along (fun _ => S) ts (List.zipWith f (ts.map c) as) (List.zipWith g (ts.map c) bs) := by
  induction h with
  | nil => exact .nil
  | cons h _ ih => exact .cons (hf _ _ _ h) ih

end Along

section Chain
variable {f f' g g' : List Scalar}

theorem alike_gather_along {α β γ : Type} {R : α → β → γ → Prop} {l : List α} {d : α → Int}
    {f : List β} {f' : List γ} (h : ∀ t ∈ l, Alike (R t) (slot f (d t)) (slot f' (d t))) :
    Alike (Along R l) (gather f (l.map d)) (gather f' (l.map d)) := by
  induction l with
  | nil => exact .ok .nil
  | cons t l ih =>
    rw [gather, gather, List.map_cons, List.mapM_cons, List.mapM_cons]
    exact (h t List.mem_cons_self).bind fun _ _ hv =>
      (ih fun u hu => h u (List.mem_cons_of_mem t hu)).bind fun _ _ hl => .ok (.cons hv hl)

theorem alike_scaleEach_along {α : Type} {R : Scalar → Scalar → Prop} {l : List α} {c : α → Int}
    {as bs : List Scalar}
    (h : Along (fun t a b => Alike R (scale (c t) a) (scale (c t) b)) l as bs) :
    Alike (Along (fun _ => R) l) (scaleEach (l.map c) as) (scaleEach (l.map c) bs) := by
  induction h with
  | nil => exact .ok .nil
  | cons h _ ih => exact h.bind fun _ _ hv => ih.bind fun _ _ hl => .ok (.cons hv hl)

theorem alike_mulColumns (hg : WrappedJet g g') (width : Nat) : ∀ (slots : List (List Int))
    {as bs : List Scalar}, WrappedJet as bs →
      Alike WrappedJet (Jet.mulColumns g width slots as) (Jet.mulColumns g' width slots bs) := by
  induction width with
  | zero => exact fun _ _ _ h => .ok h
  | succ width ih =>
    exact fun slots _ _ h => (alike_gather hg _).bind fun _ _ hf =>
      (alike_zipEach (fun _ _ h _ _ h' => h.mul h'.counterpart) h hf).bind fun _ _ hp =>
        ih (slots.map List.tail) hp

/-- With at least one column it does not matter of what kind the terms were. -/
theorem alike_mulColumns_succ (hg : WrappedJet g g') (width : Nat) (slots : List (List Int))
    {as bs : List Scalar} (h : List.Forall₂ Counterpart as bs) :
    Alike WrappedJet (Jet.mulColumns g (width + 1) slots as)
      (Jet.mulColumns g' (width + 1) slots bs) :=
  (alike_gather hg _).bind fun _ _ hf =>
    (alike_zipEach (f := Arithmetic.mul) (g := Arithmetic.mul)
      (fun _ _ h _ _ h' => WrappedSlot.mul_right h h') h hf).bind fun _ _ hp =>
        alike_mulColumns hg width (slots.map List.tail) hp

/-- **Outer derivatives make the same terms**: those of the kernel that look at them are
counterparts after the coefficient was multiplied. -/
def ScalesAlike (entries : List CompositionEntry) (f f' : List Scalar) : Prop :=
  ∀ e ∈ entries, Alike (fun a b => Alike Counterpart (scale e.coefficient a)
    (scale e.coefficient b)) (slot f e.derivative) (slot f' e.derivative)

theorem scalesAlike_of_wrappedJet (entries : List CompositionEntry) (h : WrappedJet f f') :
    ScalesAlike entries f f' := fun e _ =>
  (alike_slot h e.derivative).mono fun _ _ h => (h.scale e.coefficient).mono fun _ _ h =>
    h.counterpart

section Kernel
variable {rows : List (List CompositionEntry)} {padding : Int}

/-- **The width of the slot lists** is read off the first one, and there is at least one column. -/
theorem exists_width (h : rows.flatten ≠ []) (padding : Int) :
    ∃ w, ((CompositionKernel.ofRows rows padding).slots.headD []).length = w + 1 := by
  obtain ⟨e, entries, hrows⟩ := List.exists_cons_of_ne_nil h
  obtain ⟨w, hw⟩ := Nat.exists_eq_add_of_le' (CompositionKernel.one_le_width rows)
  refine ⟨w, hw ▸ ?_⟩
  rw [CompositionKernel.ofRows, CompositionKernel.padAll, hrows]
  exact CompositionKernel.length_pad (hrows ▸ List.mem_cons_self) padding

/-- Without terms there is nothing to multiply. -/
theorem termsFrom_nil (h : rows.flatten = []) (g : List Scalar) :
    Jet.termsFrom (.ofRows rows padding) g [] = .ok [] := by
  rw [Jet.termsFrom, CompositionKernel.ofRows, h]
  rfl

theorem alike_leadingFactors (hf : ScalesAlike rows.flatten f f') :
    Alike (Along (fun _ => Counterpart) rows.flatten)
      (Jet.leadingFactors (.ofRows rows padding) f)
      (Jet.leadingFactors (.ofRows rows padding) f') :=
  (alike_gather_along (d := CompositionEntry.derivative) hf).bind fun _ _ hd =>
    alike_scaleEach_along hd

/-- **Machine integers** are multiplied without a look at the jet. -/
theorem alike_leadingWords {R : Scalar → Scalar → Prop} (hR : ∀ n, R (.int n) (.int n))
    (words : List Int) :
    Alike (Along (fun _ => R) rows.flatten) (Jet.leadingWords (.ofRows rows padding) words)
      (Jet.leadingWords (.ofRows rows padding) words) := by
  have looked : Alike (Along (fun _ => Eq) rows.flatten)
      (gather words (rows.flatten.map CompositionEntry.derivative))
      (gather words (rows.flatten.map CompositionEntry.derivative)) :=
    alike_gather_along fun _ _ => Alike.refl _
  refine looked.bind fun _ _ h => .ok (h.zipWith_map ?_)
  rintro e n _ rfl
  exact hR _

theorem alike_termsFrom {l l' : List Scalar}
    (hl : Along (fun _ => Counterpart) rows.flatten l l') (hg : WrappedJet g g') :
    Alike WrappedJet (Jet.termsFrom (.ofRows rows padding) g l)
      (Jet.termsFrom (.ofRows rows padding) g' l') := by
  by_cases hrows : rows.flatten = []
  · rw [hrows] at hl
    cases hl
    rw [termsFrom_nil hrows, termsFrom_nil hrows]
    exact .ok .nil
  · obtain ⟨w, hw⟩ := exists_width hrows padding
    rw [Jet.termsFrom, Jet.termsFrom, hw]
    exact alike_mulColumns_succ hg w _ hl.forall₂

end Kernel

end Chain

/-! ## Jets -/

/-- Stored jets are alike. -/
theorem Alike.stored {x y : Except ArithmeticFault (Jet Scalar)} (h : Alike WrappedJet x y) :
    Alike WrappedJet (Jet.stored Buffer.packedStorage x) (Jet.stored .faithful y) :=
  h.bind fun _ _ h => Alike.mapM h fun _ _ h => h.store

namespace WrappedJet
variable {k : Calculus} {rows : List (List CompositionEntry)} {padding : Int}
  {a a' b b' g g' : Jet Scalar}

theorem mul (k : Calculus) (ha : WrappedJet a a') (hb : WrappedJet b b') :
    Alike WrappedJet (Jet.mul k a b) (Jet.mul k a' b') := by
  refine Alike.bind (R := WrappedJet) ?_ fun _ _ h => alike_sumSegments _ h
  exact (alike_gather ha _).bind fun _ _ h => (alike_scaleEach _ h).bind fun _ _ h =>
    (alike_gather hb _).bind fun _ _ h' =>
      alike_zipEach (fun _ _ h _ _ h' => h.mul h'.counterpart) h h'

theorem add (ha : WrappedJet a a') (hb : WrappedJet b b') :
    Alike WrappedJet (Jet.add a b) (Jet.add a' b') :=
  alike_zipEach (fun _ _ h _ _ h' => h.add h') ha hb

theorem sub (ha : WrappedJet a a') (hb : WrappedJet b b') :
    Alike WrappedJet (Jet.sub a b) (Jet.sub a' b') :=
  alike_zipEach (fun _ _ h _ _ h' => h.sub h') ha hb

/-- Every slot times the same constant. -/
theorem times (ha : WrappedJet a a') {c : Scalar} (hc : c.IsPlain) :
    Alike WrappedJet (a.mapM fun v => Arithmetic.mul v c) (a'.mapM fun v => Arithmetic.mul v c) :=
  Alike.mapM ha fun _ _ h => h.mul (counterpart_self hc)

theorem tail (ha : WrappedJet a a') : WrappedJet a.tail a'.tail := by
  cases ha with
  | nil => exact .nil
  | cons _ h => exact h

theorem value (ha : WrappedJet a a') :
    Alike WrappedValue (Jet.value Buffer.packedStorage a) (Jet.value .faithful a') :=
  (alike_slot ha 0).bind fun _ _ h => .ok h.alone

theorem remainder (ha : WrappedJet a a') (hb : WrappedJet b b') :
    Alike WrappedJet (Jet.remainder a b) (Jet.remainder a' b') := by
  refine (alike_slot ha 0).bind fun x x' hx => (alike_slot hb 0).bind fun y y' hy =>
    (hx.remainder hy).bind fun r r' hr => ?_
  rw [Jet.quotient, Jet.quotient, hx.toFloat, hy.toFloat, hr.toFloat]
  exact .bind_same fun n => (hb.tail.times (.strict n)).bind fun _ _ hm =>
    (ha.tail.sub hm).bind fun _ _ hd => .ok (.cons hr hd)

theorem composeFrom (hk : k.composition = .ofRows rows padding)
    {leading leading' : Except ArithmeticFault (List Scalar)} (hg : WrappedJet g g')
    (hl : Alike (Along (fun _ => Counterpart) rows.flatten) leading leading') :
    Alike WrappedJet (Jet.composeFrom k Buffer.packedStorage g leading)
      (Jet.composeFrom k .faithful g' leading') := by
  refine hg.value.bind fun _ _ hv => (twins_wrapped.oneLike hv).bind fun _ _ h1 =>
    h1.slot.store.bind fun _ _ h1 => hl.bind fun _ _ hl => ?_
  rw [hk]
  have extended : WrappedJet (g ++ [_]) (g' ++ [_]) := List.rel_append hg (.cons h1 .nil)
  exact (alike_termsFrom hl extended).bind fun _ _ ht => alike_sumSegments _ ht

theorem compose (hk : k.composition = .ofRows rows padding) {f f' : List Scalar}
    (hg : WrappedJet g g') (hf : ScalesAlike rows.flatten f f') :
    Alike WrappedJet (Jet.compose k Buffer.packedStorage g f) (Jet.compose k .faithful g' f') :=
  hg.composeFrom hk (hk ▸ alike_leadingFactors hf)

theorem constant (k : Calculus) {x y c d : Scalar} (hx : WrappedValue x y)
    (hc : WrappedValue c d) :
    Alike WrappedJet (Jet.constant k x c) (Jet.constant k y d) :=
  (twins_wrapped.zeroLike hx).bind fun _ _ hz =>
    .ok (.cons hc.slot (forall₂_replicate hz.slot _))

theorem follow (hk : k.composition = .ofRows rows padding) (hg : WrappedJet g g')
    {r r' : Recipe Scalar} (hr : SameRecipe WrappedValue r r') :
    Alike WrappedJet (Jet.follow k Buffer.packedStorage g r) (Jet.follow k .faithful g' r') := by
  cases hr with
  | constant hc => exact hg.value.bind fun _ _ hv => constant k hv hc
  | compose hf =>
    exact (Alike.mapM hf fun _ _ h => h.slot.store).bind fun _ _ hf =>
      hg.compose hk (scalesAlike_of_wrappedJet _ hf)

theorem through (hk : k.composition = .ofRows rows padding) (hg : WrappedJet g g')
    {f : Scalar → Nat → Except ArithmeticFault (List Scalar)} (hf : RunsAlike WrappedValue f) :
    Alike WrappedJet (Jet.through k Buffer.packedStorage g f) (Jet.through k .faithful g' f) :=
  hg.value.bind fun _ _ hv => (hf hv k.order).bind fun _ _ hf => hg.follow hk (.compose hf)

theorem reciprocal (hk : k.composition = .ofRows rows padding) (hg : WrappedJet g g') :
    Alike WrappedJet (Jet.reciprocal k Buffer.packedStorage g) (Jet.reciprocal k .faithful g') :=
  hg.value.bind fun _ _ hv => (twins_wrapped.integerPower (-1) hv k.order).bind fun _ _ hr =>
    hg.follow hk hr

theorem divide (hk : k.composition = .ofRows rows padding) (ha : WrappedJet a a')
    (hb : WrappedJet b b') :
    Alike WrappedJet (Jet.divide k Buffer.packedStorage a b) (Jet.divide k .faithful a' b') :=
  (hb.reciprocal hk).stored.bind fun _ _ hr => ha.mul k hr

theorem distance (hk : k.composition = .ofRows rows padding) (ha : WrappedJet a a')
    (hb : WrappedJet b b') :
    Alike WrappedJet (Jet.distance k Buffer.packedStorage a b)
      (Jet.distance k .faithful a' b') :=
  (hb.mul k hb).stored.bind fun _ _ hx2 => (ha.mul k ha).stored.bind fun _ _ hy2 =>
    (hx2.add hy2).stored.bind fun _ _ hs =>
      (hs.through hk fun _ _ h => twins_wrapped.root .square (Twins.ofInt 2) h).stored

theorem reflected (ha : WrappedJet a a') :
    Alike WrappedJet (Jet.reflected Buffer.packedStorage a) (Jet.reflected .faithful a') := by
  refine ha.value.bind fun v w hv => ?_
  rw [hv.slot.toFloat]
  exact .bind_same fun x => (ha.tail.times (.int (-2))).bind fun _ _ hd =>
    (hv.slot.mul (counterpart_self (.int (-2)))).bind fun _ _ hm =>
      (WrappedSlot.alike_left (fun _ _ => rfl) hm (counterpart_self (.strict _))).bind
        fun _ _ hs => .ok (.cons hs hd)

theorem angle (hk : k.composition = .ofRows rows padding) (ha : WrappedJet a a')
    (hb : WrappedJet b b') :
    Alike WrappedJet (Jet.angle k Buffer.packedStorage a b) (Jet.angle k .faithful a' b') := by
  refine (ha.distance hk hb).bind fun r r' hr => (alike_slot hb 0).bind fun x x' hx => ?_
  rw [hx.toFloat]
  refine .bind_same fun v => .ite ?_ ?_
  · exact (hr.add hb).stored.bind fun _ _ hf => (ha.divide hk hf).stored.bind fun _ _ ht =>
      (ht.through hk twins_wrapped.atan).stored.bind fun _ _ hd => hd.times (.int 2)
  · exact (hr.sub hb).stored.bind fun _ _ hf => (ha.divide hk hf).stored.bind fun _ _ ht =>
      (ht.through hk twins_wrapped.atan).stored.bind fun _ _ hd => hd.reflected

/-! ### Taylor expansion -/

/-- A lenient total stays lenient. -/
theorem addTerm {x y c d : Scalar} (h : WrappedValue x y) (h' : WrappedSlot c d) :
    Alike WrappedValue (Arithmetic.add x c) (Arithmetic.add y d) := by
  cases h
  cases h' <;> exact .ok ⟨_⟩

/-- A lenient double that both sides share. -/
inductive SameLenient : Scalar → Scalar → Prop where
  | intro (x : Float) : SameLenient (.lenient x) (.lenient x)

theorem sameLenient_pow (x : Float) (n : Int) :
    Alike SameLenient (Arithmetic.pow (lenient x) (ofInt n))
      (Arithmetic.pow (lenient x) (ofInt n)) := by
  show Alike _ (floatOfInt n >>= fun y => Except.ok (lenient (Float.pow x y))) _
  exact .bind_same fun y => .ok ⟨_⟩

theorem sameLenient_div (x : Float) (n : Int) :
    Alike SameLenient (Arithmetic.div (lenient x) (ofInt n))
      (Arithmetic.div (lenient x) (ofInt n)) := by
  show Alike _ (floatOfInt n >>= fun y => Except.ok (lenient (x / y))) _
  exact .bind_same fun y => .ok ⟨_⟩

theorem taylorTerm (delta : List Float) : ∀ (orders : Orders) {x y : Scalar}, WrappedSlot x y →
    Alike WrappedSlot (Jet.taylorTerm x (delta.map .lenient) orders)
      (Jet.taylorTerm y (delta.map .lenient) orders) := by
  induction delta with
  | nil => exact fun orders _ _ h => .ok h
  | cons d delta ih =>
    intro orders x y h
    cases orders with
    | nil => exact .ok h
    | cons n orders =>
      rw [List.map_cons, Jet.taylorTerm, Jet.taylorTerm]
      refine .ite (ih orders h) ?_
      exact (sameLenient_pow d n).bind fun _ _ ⟨p⟩ => (sameLenient_div p _).bind fun _ _ ⟨w⟩ =>
        (h.mul (counterpart_self (.lenient w))).bind fun _ _ hm => ih orders hm

theorem taylorSum (delta : List Float) {as bs : List (Scalar × Orders)}
    (h : List.Forall₂ (fun p q => WrappedSlot p.1 q.1 ∧ p.2 = q.2) as bs) :
    ∀ {x y : Scalar}, WrappedValue x y →
      Alike WrappedValue (Jet.taylorSum (delta.map .lenient) as x)
        (Jet.taylorSum (delta.map .lenient) bs y) := by
  induction h with
  | nil => exact fun h => .ok h
  | @cons p q _ _ hpq _ ih =>
    intro x y h
    obtain ⟨a, orders⟩ := p
    obtain ⟨b, orders'⟩ := q
    obtain ⟨hab, rfl⟩ := hpq
    exact (taylorTerm delta orders hab).bind fun _ _ ht => (addTerm h ht).bind fun _ _ hs => ih hs

theorem forall₂_zip_orders (ha : WrappedJet a a') (orders : List Orders) :
    List.Forall₂ (fun p q : Scalar × Orders => WrappedSlot p.1 q.1 ∧ p.2 = q.2)
      (a.zip orders) (a'.zip orders) := by
  induction ha generalizing orders with
  | nil => exact .nil
  | cons h _ ih =>
    cases orders with
    | nil => exact .nil
    | cons n orders => exact .cons ⟨h, rfl⟩ (ih orders)

/-- **The value of a Taylor expansion** at displacements that are doubles. -/
theorem taylor (derivatives : List Orders) (ha : WrappedJet a a') (delta : List Float) :
    Alike WrappedValue (Jet.taylor derivatives a (delta.map .lenient))
      (Jet.taylor derivatives a' (delta.map .lenient)) :=
  (alike_slot ha 0).bind fun _ _ h => h.zeroLike.bind fun _ _ hz =>
    taylorSum delta (List.rel_reverse (forall₂_zip_orders ha derivatives)) hz

end WrappedJet

end JetAlgebra
