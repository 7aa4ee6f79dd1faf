import Mathlib.Data.Nat.Init
import JetAlgebra.Proofs.Twins

/-!
# Recipes run alike on twins

Every recipe of derivatives takes the same steps on elements that behave alike, whatever it
finds on the way: the same branches, since those depend on doubles that both elements convert
to, the same faults, and lists of elements that behave alike again.  `RunsAlike` says this of a
recipe.  The recipes that change a list of coefficients mix plain numbers and elements there,
so these lists are compared by `Twin`.
-/
namespace JetAlgebra
open Arithmetic Scalar

variable {Elem : Scalar → Scalar → Prop}

/-- **Recipes that take the same steps** on elements that behave alike. -/
def RunsAlike (Elem : Scalar → Scalar → Prop)
    (f : Scalar → Nat → Except ArithmeticFault (List Scalar)) : Prop :=
  ∀ ⦃x y : Scalar⦄, Elem x y → ∀ order, Alike (List.Forall₂ Elem) (f x order) (f y order)

/-- Recipes whose results are alike. -/
inductive SameRecipe (Elem : Scalar → Scalar → Prop) : Recipe Scalar → Recipe Scalar → Prop where
  | constant {c d : Scalar} (h : Elem c d) : SameRecipe Elem (.constant c) (.constant d)
  | compose {f g : List Scalar} (h : List.Forall₂ Elem f g) :
    SameRecipe Elem (.compose f) (.compose g)

section Slots
variable {α β : Type} {R : α → β → Prop} {p : List α} {q : List β}

/-- Looking up a slot, with the place where it was found. -/
theorem alike_slot_found (h : List.Forall₂ R p q) (i : Int) :
    Alike (fun a b => R a b ∧ entryAt? q i = some b) (slot p i) (slot q i) := by
  have place (n : Nat) : Option.Rel R p[n]? q[n]? := by
    induction h generalizing n with
    | nil => exact .none
    | cons hab _ ih =>
      cases n with
      | zero => exact .some hab
      | succ n => exact ih n
  have entries : Option.Rel R (entryAt? p i) (entryAt? q i) := by
    rw [entryAt?, entryAt?, h.length_eq]
    split
    · exact place _
    · split
      · exact place _
      · exact .none
  rw [slot, slot]
  generalize entryAt? p i = a, entryAt? q i = b at entries ⊢
  cases entries with
  | none => exact .error _
  | some hab => exact .ok ⟨hab, rfl⟩

theorem alike_slot (h : List.Forall₂ R p q) (i : Int) : Alike R (slot p i) (slot q i) :=
  (alike_slot_found h i).mono fun _ _ h => h.1

end Slots

namespace Twins
variable (T : Twins Elem) {x y a b : Scalar}
include T

theorem mul (h : Elem x y) (h' : Twin Elem a b) :
    Alike Elem (Arithmetic.mul x a) (Arithmetic.mul y b) := T.combine_left isCombination_mul h h'

theorem scale (n : Int) (h : Twin Elem x y) :
    Alike (Twin Elem) (Arithmetic.scale n x) (Arithmetic.scale n y) :=
  T.combine isCombination_mul (ofInt n) h

theorem overElement (h : Elem x y) :
    Alike Elem (Arithmetic.div Outer.one x) (Arithmetic.div Outer.one y) :=
  T.combine_right isCombination_div (ofFloat 1.0) h

/-! ## Exponentials, logarithms and cycles -/

theorem exp : RunsAlike Elem Outer.exp := fun _ _ h _ =>
  (T.apply .exp h).bind fun _ _ he => .ok (forall₂_replicate he _)

theorem expm1 : RunsAlike Elem Outer.expm1 := fun _ _ h _ =>
  (T.apply .exp h).bind fun _ _ he => (T.apply .expm1 h).bind fun _ _ hv =>
    .ok (.cons hv (forall₂_replicate he _))

theorem logChain {r s : Scalar} (hr : Elem r s) (n : Nat) : ∀ {x y : Scalar}, Elem x y → ∀ i,
    Alike (List.Forall₂ Elem) (Outer.logChain r i n x) (Outer.logChain s i n y) := by
  induction n with
  | zero => exact fun _ _ => .ok .nil
  | succ n ih =>
    intro x y h i
    exact (T.mul hr (ofInt _)).bind fun _ _ hm => (T.mul h (.element hm)).bind fun _ _ hn =>
      (ih hn (i + 1)).bind fun _ _ hl => .ok (.cons h hl)

theorem logarithm (f : Elementary) {inverse first : Scalar → Except ArithmeticFault Scalar}
    (hi : ∀ ⦃x y⦄, Elem x y → Alike Elem (inverse x) (inverse y))
    (hf : ∀ ⦃x y⦄, Elem x y → Alike Elem (first x) (first y)) :
    RunsAlike Elem (Outer.logarithm f inverse first) := by
  intro x y h order
  exact (T.apply f h).bind fun _ _ hv => .ite (.ok (.cons hv .nil)) <|
    (hi h).bind fun _ _ hr => (hf hr).bind fun _ _ hd =>
      (T.logChain hr order hd 1).bind fun _ _ hl => .ok (.cons hv hl)

theorem log : RunsAlike Elem Outer.log :=
  T.logarithm .log (fun _ _ h => T.overElement h) fun _ _ h => .ok h

theorem log1p : RunsAlike Elem Outer.log1p :=
  T.logarithm .log1p (fun _ _ h => (T.combine_left isCombination_add h (ofFloat 1.0)).bind
    fun _ _ h => T.overElement h) fun _ _ h => .ok h

theorem log10 : RunsAlike Elem Outer.log10 :=
  T.logarithm .log10 (fun _ _ h => T.overElement h) fun _ _ h =>
    T.combine_left isCombination_div h (computed _)

theorem cycle (alternating : Bool) (n : Nat) : ∀ {x y a b : Scalar}, Elem x y → Elem a b →
    Alike (List.Forall₂ Elem) (Outer.cycle alternating n x a) (Outer.cycle alternating n y b) := by
  induction n with
  | zero => exact fun _ _ => .ok .nil
  | succ n ih =>
    intro x y a b h h'
    exact .ite_bind (T.neg h) (.ok h) fun _ _ hn => (ih h' hn).bind fun _ _ hl => .ok (.cons h hl)

theorem sin : RunsAlike Elem Outer.sin := fun _ _ h _ =>
  (T.apply .sin h).bind fun _ _ hs => (T.apply .cos h).bind fun _ _ hc => T.cycle true _ hs hc

theorem cos : RunsAlike Elem Outer.cos := fun _ _ h _ =>
  (T.apply .cos h).bind fun _ _ hc => (T.apply .sin h).bind fun _ _ hs => (T.neg hs).bind
    fun _ _ hn => T.cycle true _ hc hn

theorem sinh : RunsAlike Elem Outer.sinh := fun _ _ h _ =>
  (T.apply .sinh h).bind fun _ _ hs => (T.apply .cosh h).bind fun _ _ hc => T.cycle false _ hs hc

theorem cosh : RunsAlike Elem Outer.cosh := fun _ _ h _ =>
  (T.apply .cosh h).bind fun _ _ hc => (T.apply .sinh h).bind fun _ _ hs => T.cycle false _ hc hs

/-! ## Polynomial recurrences -/

section Sweep
variable {p q : List Scalar} (hp : List.Forall₂ (Twin Elem) p q)
include hp

theorem lower (r : Outer.Recurrence) (n k : Int) :
    Alike (Twin Elem) (r.lower n k p) (r.lower n k q) :=
  (alike_slot hp (k - 1)).bind fun _ _ h => (T.scale _ h).bind fun _ _ h =>
    (alike_slot hp (k - 3)).bind fun _ _ h' => (T.scale _ h').bind fun _ _ h' =>
      T.combine isCombination_add h h'

theorem constant (r : Outer.Recurrence) : Alike (Twin Elem) (r.constant p) (r.constant q) :=
  (alike_slot hp 1).bind fun _ _ h => .ite (T.negTwin h) (.ok h)

theorem horner {x2 y2 v w : Scalar} (hx : Elem x2 y2) (hv : Elem v w) (k : Nat) :
    Alike Elem (Outer.horner x2 v p k) (Outer.horner y2 w q k) :=
  (T.mul hv (.element hx)).bind fun _ _ hm => (alike_slot hp k).bind fun _ _ hc =>
    T.combine_left isCombination_add hm hc

end Sweep

/-- A sweep keeps the value an element, and its coefficients counterparts. -/
theorem sweep (r : Outer.Recurrence) (n : Int) {x2 y2 : Scalar} (hx : Elem x2 y2) (k : Nat) :
    ∀ {v w : Scalar} {p q : List Scalar}, Elem v w → List.Forall₂ (Twin Elem) p q →
      Alike (fun s t : Scalar × List Scalar => Elem s.1 t.1 ∧ List.Forall₂ (Twin Elem) s.2 t.2)
        (Outer.sweep r n x2 k v p) (Outer.sweep r n y2 k w q) := by
  induction k using Nat.twoStepInduction with
  | zero => exact fun hv hp => (T.horner hp hx hv 0).bind fun _ _ hv => .ok ⟨hv, hp⟩
  | one => exact fun hv hp => (T.horner hp hx hv 1).bind fun _ _ hv => .ok ⟨hv, hp⟩
  | more k ih _ =>
    intro v w p q hv hp
    exact (T.horner hp hx hv (k + 2)).bind fun _ _ hv =>
      .ite_bind (T.constant hp r) (T.lower hp r n _) fun _ _ hc => ih hv (forall₂_set hp k hc)

theorem tangentFrom (s : Int) {t u t2 u2 z w : Scalar} (ht : Elem t u) (ht2 : Elem t2 u2)
    (hz : Elem z w) (count : Nat) : ∀ (n : Nat) {p q : List Scalar},
      List.Forall₂ (Twin Elem) p q → Alike (List.Forall₂ Elem)
        (Outer.tangentFrom s t t2 z count n p) (Outer.tangentFrom s u u2 w count n q) := by
  induction count with
  | zero => exact fun _ _ _ _ => .ok .nil
  | succ count ih =>
    intro n p q hp
    refine (alike_slot hp n).bind fun _ _ h => (T.scale _ h).bind fun _ _ htop => ?_
    refine (T.sweep _ _ ht2 _ hz (forall₂_set hp _ htop)).bind ?_
    rintro ⟨v, p⟩ ⟨v', q⟩ ⟨hv, hp⟩
    exact .ite_bind (T.mul hv (.element ht)) (.ok hv) fun _ _ hd =>
      (ih (n + 1) hp).bind fun _ _ hl => .ok (.cons hd hl)

theorem tangent (s : Int) : RunsAlike Elem (Outer.tangent s) := by
  intro t u h order
  have coefficients : List.Forall₂ (Twin Elem)
      ((List.replicate (order + 2) (Arithmetic.ofFloat 0.0)).set 1 Outer.one)
      ((List.replicate (order + 2) (Arithmetic.ofFloat 0.0)).set 1 Outer.one) :=
    forall₂_set (forall₂_replicate (ofFloat 0.0) _) 1 (ofFloat 1.0)
  exact .ite (.ok (.cons h .nil)) <| (T.zeroLike h).bind fun _ _ hz =>
    (T.mul h (.element h)).bind fun _ _ h2 =>
      (T.tangentFrom s h h2 hz order 1 coefficients).bind fun _ _ hl => .ok (.cons h hl)

theorem inverseFrom (r : Outer.Recurrence) {x2 y2 z w f g : Scalar} (hx : Elem x y)
    (hx2 : Elem x2 y2) (hz : Elem z w) (hf : Elem f g) (count : Nat) :
    ∀ (n : Nat) {c d : Scalar} {p q : List Scalar}, Elem c d → List.Forall₂ (Twin Elem) p q →
      Alike (List.Forall₂ Elem) (Outer.inverseFrom r x x2 z f count n c p)
        (Outer.inverseFrom r y y2 w g count n d q) := by
  induction count with
  | zero => exact fun _ _ _ _ _ _ _ => .ok .nil
  | succ count ih =>
    intro n c d p q hc hp
    refine (alike_slot hp _).bind fun _ _ h => (T.scale _ h).bind fun _ _ htop => ?_
    refine (T.sweep _ _ hx2 _ hz (forall₂_set hp _ htop)).bind ?_
    rintro ⟨v, p⟩ ⟨v', q⟩ ⟨hv, hp⟩
    exact .ite_bind (T.mul hv (.element hx)) (.ok hv) fun _ _ hv =>
      (T.mul hc (.element hf)).bind fun _ _ hc => (T.mul hc (.element hv)).bind fun _ _ hd =>
        (ih (n + 1) hc hp).bind fun _ _ hl => .ok (.cons hd hl)

theorem inverseFunction (r : Outer.Recurrence) (first : Float) {v w c d f g : Scalar}
    (hx : Elem x y) (hv : Elem v w) (order : Nat) (hc : Elem c d) (hf : Elem f g) :
    Alike (List.Forall₂ Elem) (Outer.inverseFunction r first x v order c f)
      (Outer.inverseFunction r first y w order d g) := by
  have coefficients : List.Forall₂ (Twin Elem)
      ((List.replicate order (Arithmetic.ofFloat 0.0)).set 0 (Arithmetic.ofFloat first))
      ((List.replicate order (Arithmetic.ofFloat 0.0)).set 0 (Arithmetic.ofFloat first)) :=
    forall₂_set (forall₂_replicate (ofFloat 0.0) _) 0 (ofFloat first)
  exact .ite (.ok (.cons hv .nil)) <| (T.zeroLike hx).bind fun _ _ hz =>
    (T.mul hx (.element hx)).bind fun _ _ hx2 => (alike_slot coefficients 0).bind fun _ _ h0 =>
      (T.mul hc h0).bind fun _ _ hd =>
        (T.inverseFrom r hx hx2 hz hf (order - 1) 2 hc coefficients).bind fun _ _ hl =>
          .ok (.cons hv (.cons hd hl))

theorem overOneMinusSquare (h : Elem x y) :
    Alike Elem (Outer.overOneMinusSquare x) (Outer.overOneMinusSquare y) :=
  (T.mul h (.element h)).bind fun _ _ h2 =>
    (T.combine_right isCombination_sub (ofInt 1) h2).bind fun _ _ hd => T.overElement hd

theorem overSquarePlusOne (h : Elem x y) :
    Alike Elem (Outer.overSquarePlusOne x) (Outer.overSquarePlusOne y) :=
  (T.mul h (.element h)).bind fun _ _ h2 =>
    (T.combine_left isCombination_add h2 (ofInt 1)).bind fun _ _ hd => T.overElement hd

theorem overSquareMinusOne (h : Elem x y) :
    Alike Elem (Outer.overSquareMinusOne x) (Outer.overSquareMinusOne y) :=
  (T.mul h (.element h)).bind fun _ _ h2 =>
    (T.combine_left isCombination_sub h2 (ofInt 1)).bind fun _ _ hd => T.overElement hd

theorem acos : RunsAlike Elem Outer.acos := fun _ _ h order =>
  (T.overOneMinusSquare h).bind fun _ _ hf => (T.apply .acos h).bind fun _ _ hv =>
    (T.apply .sqrt hf).bind fun _ _ hc => T.inverseFunction _ _ h hv order hc hf

theorem asin : RunsAlike Elem Outer.asin := fun _ _ h order =>
  (T.overOneMinusSquare h).bind fun _ _ hf => (T.apply .asin h).bind fun _ _ hv =>
    (T.apply .sqrt hf).bind fun _ _ hc => T.inverseFunction _ _ h hv order hc hf

theorem atan : RunsAlike Elem Outer.atan := fun _ _ h order =>
  (T.overSquarePlusOne h).bind fun _ _ hf => (T.apply .atan h).bind fun _ _ hv =>
    T.inverseFunction _ _ h hv order hf hf

theorem asinh : RunsAlike Elem Outer.asinh := fun _ _ h order =>
  (T.overSquarePlusOne h).bind fun _ _ hf => (T.apply .asinh h).bind fun _ _ hv =>
    (T.apply .sqrt hf).bind fun _ _ hc => T.inverseFunction _ _ h hv order hc hf

theorem acosh : RunsAlike Elem Outer.acosh := fun _ _ h order =>
  (T.overSquareMinusOne h).bind fun _ _ hf => (T.apply .acosh h).bind fun _ _ hv =>
    (T.apply .sqrt hf).bind fun _ _ hc => T.inverseFunction _ _ h hv order hc hf

theorem atanh : RunsAlike Elem Outer.atanh := fun _ _ h order =>
  (T.overOneMinusSquare h).bind fun _ _ hf => (T.apply .atanh h).bind fun _ _ hv =>
    T.inverseFunction _ _ h hv order hf hf

/-! ## Powers and roots -/

theorem powersDown (hx : Elem x y) (n : Nat) : ∀ {xk yk : Scalar} {as bs : List Scalar},
    Elem xk yk → List.Forall₂ Elem as bs →
      Alike (List.Forall₂ Elem) (Outer.powersDown x n xk as) (Outer.powersDown y n yk bs) := by
  induction n with
  | zero => exact fun hk ht => .ok (.cons hk ht)
  | succ n ih => exact fun hk ht => (T.mul hk (.element hx)).bind fun _ _ hm => ih hm (.cons hk ht)

theorem powersUp (hx : Twin Elem x y) (n : Nat) : ∀ {xk yk : Scalar}, Elem xk yk →
    Alike (List.Forall₂ Elem) (Outer.powersUp x n xk) (Outer.powersUp y n yk) := by
  induction n with
  | zero => exact fun hk => .ok (.cons hk .nil)
  | succ n ih =>
    exact fun hk => (T.mul hk hx).bind fun _ _ hm => (ih hm).bind fun _ _ hl => .ok (.cons hk hl)

theorem fallingFactors {p q : Scalar} (hp : Twin Elem p q) {as bs : List Scalar}
    (h : List.Forall₂ Elem as bs) : ∀ (i : Nat) {c d : Scalar}, Twin Elem c d →
      Alike (List.Forall₂ Elem) (Outer.fallingFactors p i c as)
        (Outer.fallingFactors q i d bs) := by
  induction h with
  | nil => exact fun _ _ _ _ => .ok .nil
  | cons hv _ ih =>
    intro i c d hc
    exact (T.mul hv hc).bind fun _ _ hw => (T.combine isCombination_sub hp (ofInt i)).bind
      fun _ _ hs => (T.combine isCombination_mul hc hs).bind fun _ _ hn =>
        (ih (i + 1) hn).bind fun _ _ hl => .ok (.cons hw hl)

theorem scalePowers {p q : Scalar} (hp : Twin Elem p q) {as bs : List Scalar}
    (h : List.Forall₂ Elem as bs) :
    Alike (List.Forall₂ Elem) (Outer.scalePowers p as) (Outer.scalePowers q bs) := by
  cases h with
  | nil => exact .ok .nil
  | cons hv h => exact (T.fallingFactors hp h 1 hp).bind fun _ _ hl => .ok (.cons hv hl)

theorem realPower {p q : Scalar} (hp : Twin Elem p q) (hx : Elem x y) (order : Nat) :
    Alike (SameRecipe Elem) (Outer.realPower p x order) (Outer.realPower q y order) := by
  rw [Outer.realPower, Outer.realPower, T.toFloatTwin hp, T.toFloat hx]
  refine .bind_same fun e => .ite ((T.oneLike hx).bind fun _ _ h => .ok (.constant h)) ?_
  refine .bind_same fun v => .ite ((T.zeroLike hx).bind fun _ _ h => .ok (.constant h)) ?_
  exact (T.combine isCombination_sub hp (ofInt order)).bind fun _ _ hs =>
    (T.pow hx hs).bind fun _ _ hl => (T.powersDown hx order hl .nil).bind fun _ _ hps =>
      (T.scalePowers hp hps).bind fun _ _ hf => .ok (.compose hf)

theorem positivePowers (n : Nat) {z w : Scalar} (hx : Elem x y) (hz : Elem z w) (order : Nat) :
    Alike (List.Forall₂ Elem) (Outer.positivePowers n x z order)
      (Outer.positivePowers n y w order) :=
  (T.pow hx (ofInt _)).bind fun _ _ hp => T.powersDown hx _ hp (forall₂_replicate hz _)

theorem negativePowers (n : Nat) (hx : Elem x y) (order : Nat) :
    Alike (List.Forall₂ Elem) (Outer.negativePowers n x order)
      (Outer.negativePowers n y order) :=
  (T.overElement hx).bind fun _ _ hi => (T.pow hi (ofInt _)).bind fun _ _ hp =>
    T.powersUp (.element hi) order hp

theorem integerPower (n : Int) (hx : Elem x y) (order : Nat) :
    Alike (SameRecipe Elem) (Outer.integerPower n x order) (Outer.integerPower n y order) := by
  refine .ite ((T.oneLike hx).bind fun _ _ h => .ok (.constant h)) ?_
  refine (T.zeroLike hx).bind fun z w hz => ?_
  exact .ite_bind (T.positivePowers _ hx hz order) (T.negativePowers _ hx order) fun _ _ hps =>
    (T.scalePowers (ofInt n) hps).bind fun _ _ hf => .ok (.compose hf)

theorem alternate (n : Nat) : ∀ {v w : Scalar}, Elem v w →
    Alike (List.Forall₂ Elem) (Outer.alternate n v) (Outer.alternate n w) := by
  induction n with
  | zero => exact fun _ => .ok .nil
  | succ n ih =>
    exact fun h => (T.neg h).bind fun _ _ hn => (ih hn).bind fun _ _ hl => .ok (.cons hn hl)

theorem zeroPower : RunsAlike Elem Outer.zeroPower := by
  intro x y h order
  rw [Outer.zeroPower, Outer.zeroPower, T.toFloat h]
  refine (T.zeroLike h).bind fun _ _ hz => .bind_same fun v => .ite ?_ (.ite ?_ ?_)
  · exact (T.combine_left isCombination_add hz (ofInt 1)).bind fun _ _ hu =>
      (T.combine_left isCombination_add hz (ofFloat _)).bind fun _ _ hi =>
        (T.alternate order hi).bind fun _ _ hl => .ok (.cons hu hl)
  · exact (T.combine_left isCombination_add hz (ofFloat _)).bind fun _ _ hn =>
      .ok (forall₂_replicate hn _)
  · exact .ok (forall₂_replicate hz _)

theorem basePower (ha : Twin Elem a b) (hx : Elem x y) (order : Nat) :
    Alike (List.Forall₂ Elem) (Outer.basePower a x order) (Outer.basePower b y order) := by
  rw [Outer.basePower, Outer.basePower, T.toFloatTwin ha]
  exact (T.zeroLike hx).bind fun _ _ hz =>
    (T.combine_left isCombination_add hz ha).bind fun _ _ hs =>
      (T.pow hs (.element hx)).bind fun _ _ hv => .bind_same fun _ =>
        T.powersUp (computed _) order hv

theorem overTwin (h : Twin Elem x y) :
    Alike (Twin Elem) (Arithmetic.div Outer.one x) (Arithmetic.div Outer.one y) :=
  T.combine isCombination_div (ofFloat 1.0) h

theorem rootStart (kind : Outer.RootKind) {m n : Scalar} (hn : Twin Elem m n) (hx : Elem x y) :
    Alike (fun s t : Scalar × Scalar => Elem s.1 t.1 ∧ Elem s.2 t.2)
      (Outer.rootStart kind m x) (Outer.rootStart kind n y) := by
  cases kind with
  | square =>
    exact (T.apply .sqrt hx).bind fun _ _ hs =>
      (T.combine_right isCombination_div (ofFloat 0.5) hs).bind fun _ _ hd => .ok ⟨hs, hd⟩
  | cube =>
    exact (T.apply .cbrt hx).bind fun _ _ hs =>
      (T.combine_right isCombination_mul (ofFloat 3.0) hs).bind fun _ _ h3 =>
        (T.mul h3 (.element hs)).bind fun _ _ hm => (T.overElement hm).bind fun _ _ hd =>
          .ok ⟨hs, hd⟩
  | other =>
    exact (T.overTwin hn).bind fun _ _ he => (T.pow hx he).bind fun _ _ hs =>
      (T.combine isCombination_sub hn (ofInt 1)).bind fun _ _ hm => (T.pow hs hm).bind
        fun _ _ hp => (T.combine_right isCombination_mul hn hp).bind fun _ _ hd =>
          (T.overElement hd).bind fun _ _ hd => .ok ⟨hs, hd⟩

theorem rootChain {ox oy m n : Scalar} (ho : Elem ox oy) (hn : Twin Elem m n) (count : Nat) :
    ∀ (i : Nat) {xk yk : Scalar}, Elem xk yk → Alike (List.Forall₂ Elem)
      (Outer.rootChain ox m i count xk) (Outer.rootChain oy n i count yk) := by
  induction count with
  | zero => exact fun _ _ _ _ => .ok .nil
  | succ count ih =>
    intro i xk yk hk
    exact (T.combine isCombination_sub hn (ofInt i)).bind fun _ _ hs => (T.mul ho hs).bind
      fun _ _ hm => (T.mul hk (.element hm)).bind fun _ _ hx => (ih (i + 1) hx).bind
        fun _ _ hl => .ok (.cons hk hl)

theorem root (kind : Outer.RootKind) {m n : Scalar} (hn : Twin Elem m n) (hx : Elem x y)
    (order : Nat) :
    Alike (List.Forall₂ Elem) (Outer.root kind m x order) (Outer.root kind n y order) := by
  refine (T.rootStart kind hn hx).bind ?_
  rintro ⟨s, d⟩ ⟨t, e⟩ ⟨hs, hd⟩
  exact (T.overTwin hn).bind fun _ _ ho => (T.overElement hx).bind fun _ _ hi =>
    (T.rootChain hi ho order 1 hd).bind fun _ _ hl => .ok (.cons hs hl)

/-- **Every elementary function** takes the same steps on elements that behave alike. -/
theorem derivativesOf (f : Elementary) : RunsAlike Elem (Operation.derivativesOf f) := by
  cases f with
  | exp => exact T.exp
  | expm1 => exact T.expm1
  | log => exact T.log
  | log1p => exact T.log1p
  | log10 => exact T.log10
  | sqrt => exact fun _ _ h => T.root .square (ofInt 2) h
  | cbrt => exact fun _ _ h => T.root .cube (ofInt 3) h
  | sin => exact T.sin
  | cos => exact T.cos
  | tan => exact fun _ _ h order => (T.apply .tan h).bind fun _ _ ht => T.tangent 1 ht order
  | asin => exact T.asin
  | acos => exact T.acos
  | atan => exact T.atan
  | sinh => exact T.sinh
  | cosh => exact T.cosh
  | tanh => exact fun _ _ h order => (T.apply .tanh h).bind fun _ _ ht => T.tangent (-1) ht order
  | asinh => exact T.asinh
  | acosh => exact T.acosh
  | atanh => exact T.atanh

end Twins

end JetAlgebra
