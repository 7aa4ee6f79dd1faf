import JetAlgebra.Proofs.ElementArguments

/-!
# What operations make of their operands

An operation on windows reads the jets of its operands, looks at whether they are packed, and
checks the window of its result.  So if the buffers are of one kind and other windows hold the
same jets, it computes the same jet for them (`follows_slotwise`, `follows_quotient`, and so on).

Two computations are compared step by step (`Follows.read`, `Follows.check`, `Follows.step`).  What
they compute fills a window (`ElementKind.Fills`), so nothing is left that could fail when it is
stored.
-/
namespace JetAlgebra
open Arithmetic Scalar

/-! ## Steps of two computations -/

/-- The same result of two computations, and a window for the first one. -/
structure ElementKind.SameResult (kind : ElementKind) (k : Calculus) (m : Memory) (r : Window)
    (x y : Jet Scalar) : Prop where
  eq : x = y
  fills : kind.Fills k x
  checked : Operation.checkResult k m r = .ok ()

/-- Two buffers for jets of the kind. -/
inductive Buffer.SameKind (kind : ElementKind) : Buffer → Buffer → Prop where
  | packed (h : kind = .double) (xs ys : List Float) : SameKind kind (.packed xs) (.packed ys)
  | boxed (h : kind ≠ .double) (xs ys : List Scalar) : SameKind kind (.boxed xs) (.boxed ys)

/-- **Two windows with the same jet**, or with none, in buffers of the kind. -/
structure SameOperand (kind : ElementKind) (k : Calculus) (m m' : Memory) (w w' : Window) :
    Prop where
  jet : m.jet? k w = m'.jet? k w'
  left : (m.get w.buffer).IsOf kind
  right : (m'.get w'.buffer).IsOf kind

namespace Buffer.SameKind
variable {kind : ElementKind} {b b' : Buffer} (h : SameKind kind b b')
include h

theorem storage : b.storage = kind.storage ∧ b'.storage = kind.storage := by
  cases h with
  | packed h => subst h; exact ⟨rfl, rfl⟩
  | boxed h =>
    cases kind with
    | double => exact absurd rfl h
    | real | rational => exact ⟨rfl, rfl⟩

/-- What is in a packed buffer is made of doubles. -/
theorem twin (stop start : Nat) (hd : kind = .double) :
    ∃ v', WrappedJet ((b.scalars.take stop).drop start) v' := by
  cases h with
  | packed _ xs => exact ⟨_, List.forall₂_drop _ (List.forall₂_take _ (wrappedJet_map xs))⟩
  | boxed h => exact absurd hd h

end Buffer.SameKind

theorem Buffer.sameKind {kind : ElementKind} {b b' : Buffer} (hb : b.IsOf kind)
    (hb' : b'.IsOf kind) (h : b.HoldsJets) (h' : b'.HoldsJets) : SameKind kind b b' := by
  cases hb with
  | packed hd xs =>
    cases hb' with
    | packed _ ys => exact .packed hd xs ys
    | boxed hd' => exact absurd hd hd'
    | words | matrix | sequence => cases h'
  | @boxed xs hd =>
    cases hb' with
    | packed hd' => exact absurd hd' hd
    | @boxed ys => exact .boxed hd xs ys
    | words | matrix | sequence => cases h'
  | words | matrix | sequence => cases h

namespace Follows
variable {kind : ElementKind} {k : Calculus} {m m' : Memory} {w w' : Window} {α β γ δ : Type}
  {S : γ → δ → Prop}

/-- **Both read the same jet**, from buffers of the same kind. -/
theorem read {f : Jet Scalar → Except OperationFault γ} {g : Jet Scalar → Except OperationFault δ}
    (h : SameOperand kind k m m' w w') (name : String)
    (hf : ∀ v, kind.Fills k v → Buffer.SameKind kind (m.get w.buffer) (m'.get w'.buffer) →
      Follows S (f v) (g v)) :
    Follows S (Operation.read k m name w >>= f) (Operation.read k m' name w' >>= g) := by
  intro c hc
  obtain ⟨v, hv, hc⟩ := bind_eq_ok_iff.mp hc
  have left := read_eq_ok_iff.mp hv
  have right := h.jet.symm.trans left
  obtain ⟨holds, n, -, -, stretch⟩ := Memory.jet?_eq_some_iff.mp left
  obtain ⟨holds', -⟩ := Memory.jet?_eq_some_iff.mp right
  have buffers := Buffer.sameKind h.left h.right holds holds'
  have fills : kind.Fills k v := ⟨Memory.length_of_jet? left, stretch ▸ buffers.twin _ _⟩
  obtain ⟨d, hd, hcd⟩ := hf v fills buffers c hc
  exact ⟨d, bind_eq_ok (read_eq_ok_iff.mpr right) hd, hcd⟩

/-- **Both read the same jet** where there are new buffers for others. -/
theorem scratch {f : Jet Scalar → Except OperationFault γ}
    {g : Jet Scalar → Except OperationFault δ} (h : SameOperand kind k m m' w w') (name : String)
    (hf : ∀ v, kind.Fills k v → Buffer.SameKind kind (m.get w.buffer) (m'.get w'.buffer) →
      Follows S (f v) (g v)) :
    Follows S (Operation.checkScratch k m w >>= fun _ => Operation.read k m name w >>= f)
      (Operation.checkScratch k m' w' >>= fun _ => Operation.read k m' name w' >>= g) := by
  intro c hc
  obtain ⟨_, -, hc⟩ := bind_eq_ok_iff.mp hc
  obtain ⟨d, hd, hcd⟩ := Follows.read h name hf c hc
  obtain ⟨v, hv, -⟩ := bind_eq_ok_iff.mp hd
  exact ⟨d, bind_eq_ok (checkScratch_of_read hv) hd, hcd⟩

/-- **Both check where the result goes.** -/
theorem check {f : Unit → Except OperationFault γ} {g : Unit → Except OperationFault δ}
    (h : Operation.checkResult k m w = .ok () → Operation.checkResult k m' w' = .ok ())
    (hf : Operation.checkResult k m w = .ok () → Follows S (f ()) (g ())) :
    Follows S (Operation.checkResult k m w >>= f) (Operation.checkResult k m' w' >>= g) := by
  intro c hc
  obtain ⟨_, checked, hc⟩ := bind_eq_ok_iff.mp hc
  obtain ⟨d, hd, hcd⟩ := hf checked c hc
  exact ⟨d, bind_eq_ok (h checked) hd, hcd⟩

/-- **Both compute the same.**  Doubles have their counterparts in a computation with wrapped
doubles. -/
theorem step (kind : ElementKind) {R : α → β → Prop} {x : Except ArithmeticFault α}
    {f : α → Except OperationFault γ} {g : α → Except OperationFault δ}
    (h : kind = .double → ∃ y, Alike R x y)
    (hf : ∀ a, (kind = .double → ∃ a', R a a') → Follows S (f a) (g a)) :
    Follows S (x.mapError .arithmetic >>= f) (x.mapError .arithmetic >>= g) := by
  intro c hc
  obtain ⟨a, ha, hc⟩ := bind_eq_ok_iff.mp hc
  have twin : kind = .double → ∃ a', R a a' := by
    intro hd
    obtain ⟨y, hy⟩ := h hd
    obtain ⟨a', -, related⟩ := hy.cases_ok (mapError_eq_ok_iff.mp ha)
    exact ⟨a', related⟩
  obtain ⟨d, hd, hcd⟩ := hf a twin c hc
  exact ⟨d, bind_eq_ok ha hd, hcd⟩

/-- The last step of both. -/
theorem last {x : Except ArithmeticFault (Jet Scalar)}
    (checked : Operation.checkResult k m w = .ok ()) (h : ∀ v, x = .ok v → kind.Fills k v) :
    Follows (kind.SameResult k m w) (x.mapError OperationFault.arithmetic)
      (x.mapError .arithmetic) :=
  fun v hv => ⟨v, hv, rfl, h v (mapError_eq_ok_iff.mp hv), checked⟩

theorem result {x : Except ArithmeticFault (Jet Scalar)}
    (checked : Operation.checkResult k m w = .ok ())
    (h : kind = .double → ∃ y, Alike WrappedJet x y)
    (length : ∀ v, x = .ok v → v.length = k.size) :
    Follows (kind.SameResult k m w) (x.mapError OperationFault.arithmetic)
      (x.mapError .arithmetic) := by
  refine last checked fun v hv => ⟨length v hv, fun hd => ?_⟩
  obtain ⟨y, hy⟩ := h hd
  obtain ⟨v', -, related⟩ := hy.cases_ok hv
  exact ⟨v', related⟩

end Follows

/-! ## Operations -/

namespace Operation

theorem storageOf_eq {kind : ElementKind} {m m' : Memory} {w w' : Window}
    (h : Buffer.SameKind kind (m.get w.buffer) (m'.get w'.buffer)) :
    storageOf m w = kind.storage ∧ storageOf m' w' = kind.storage := h.storage

section Results
variable {kind : ElementKind} {k : Calculus} (hk : k.IsFull) {m m' : Memory}
  {a a' b b' r r' : Window} (ha : SameOperand kind k m m' a a') (hb : SameOperand kind k m m' b b')
  (hr : checkResult k m r = .ok () → checkResult k m' r' = .ok ())
include ha hr

section Binary
include hb

/-- **Operations that go slot by slot.** -/
theorem follows_slotwise {f : Jet Scalar → Jet Scalar → Except ArithmeticFault (Jet Scalar)}
    (alike : ∀ ⦃x x'⦄, WrappedJet x x' → ∀ ⦃y y'⦄, WrappedJet y y' →
      Alike WrappedJet (f x y) (f x' y'))
    (length : ∀ ⦃x y v⦄, f x y = .ok v → x.length = k.size → y.length = k.size →
      v.length = k.size) :
    Follows (kind.SameResult k m r) (slotwise k m f a b r) (slotwise k m' f a' b' r') := by
  refine .read ha _ fun x hx _ => .read hb _ fun y hy _ => .check hr fun checked =>
    .result checked (fun hd => ?_) fun v hv => length hv hx.length hy.length
  obtain ⟨x', hx'⟩ := hx.twin hd
  obtain ⟨y', hy'⟩ := hy.twin hd
  exact ⟨_, alike hx' hy'⟩

include hk

/-- **Quotients.** -/
theorem follows_quotient :
    Follows (kind.SameResult k m r) (quotient k m a b r) (quotient k m' a' b' r') := by
  obtain ⟨rows, padding, table⟩ := hk.ofRows
  refine .scratch hb _ fun y hy buffers => ?_
  rw [(storageOf_eq buffers).1, (storageOf_eq buffers).2]
  refine .step kind (R := WrappedJet) (fun hd => ?_) fun i hi => .read ha _ fun x hx _ =>
    .check hr fun checked => .result checked (fun hd => ?_) fun v hv => length_of_mul hk hv
  · obtain ⟨y', hy'⟩ := hy.twin hd
    subst hd
    exact ⟨_, (hy'.reciprocal table).stored⟩
  · obtain ⟨i', hi'⟩ := hi hd
    obtain ⟨x', hx'⟩ := hx.twin hd
    exact ⟨_, hx'.mul k hi'⟩

/-- **Powers of two jets.** -/
theorem follows_power :
    Follows (kind.SameResult k m r) (power k m a b r) (power k m' a' b' r') := by
  obtain ⟨rows, padding, table⟩ := hk.ofRows
  refine .scratch ha _ fun x hx buffers => ?_
  rw [(storageOf_eq buffers).1, (storageOf_eq buffers).2]
  refine .step kind (R := WrappedJet) (fun hd => ?_) fun l hl => .read hb _ fun y hy _ =>
    .step kind (R := WrappedJet) (fun hd => ?_) fun e he =>
      .step kind (R := WrappedValue) (fun hd => ?_) fun z hz =>
        .step kind (R := List.Forall₂ WrappedValue) (fun hd => ?_) fun f hf =>
          .check hr fun checked => .result checked (fun hd => ?_) fun v hv =>
            length_of_follow hk hv
  · obtain ⟨x', hx'⟩ := hx.twin hd
    subst hd
    exact ⟨_, (hx'.through table twins_wrapped.log).stored⟩
  · obtain ⟨l', hl'⟩ := hl hd
    obtain ⟨y', hy'⟩ := hy.twin hd
    subst hd
    exact ⟨_, (hl'.mul k hy').stored⟩
  · obtain ⟨e', he'⟩ := he hd
    subst hd
    exact ⟨_, he'.value⟩
  · obtain ⟨z', hz'⟩ := hz hd
    exact ⟨_, twins_wrapped.exp hz' _⟩
  · obtain ⟨e', he'⟩ := he hd
    obtain ⟨f', hf'⟩ := hf hd
    subst hd
    exact ⟨_, he'.follow table (.compose hf')⟩

/-- **Angles**, before their values are replaced. -/
theorem follows_angle :
    Follows (kind.SameResult k m r) (angle k m a b r) (angle k m' a' b' r') := by
  obtain ⟨rows, padding, table⟩ := hk.ofRows
  refine .read ha _ fun y hy _ => .read hb _ fun x hx buffers => .check hr fun checked => ?_
  rw [(storageOf_eq buffers).1, (storageOf_eq buffers).2]
  refine .result checked (fun hd => ?_) fun v hv => length_of_angle hk hv
  obtain ⟨y', hy'⟩ := hy.twin hd
  obtain ⟨x', hx'⟩ := hx.twin hd
  subst hd
  exact ⟨_, hy'.angle table hx'⟩

end Binary

include hk

/-- **What recipes make of a jet.** -/
theorem follows_follow {recipe : Scalar → Nat → Except ArithmeticFault (Recipe Scalar)}
    (alike : kind = .double → ∀ ⦃x x'⦄, WrappedValue x x' → ∀ order, ∃ y,
      Alike (SameRecipe WrappedValue) (recipe x order) y) :
    Follows (kind.SameResult k m r) (follow k m recipe a r) (follow k m' recipe a' r') := by
  obtain ⟨rows, padding, table⟩ := hk.ofRows
  refine .read ha _ fun g hg buffers => ?_
  rw [(storageOf_eq buffers).1, (storageOf_eq buffers).2]
  refine .step kind (R := WrappedValue) (fun hd => ?_) fun x hx =>
    .step kind (R := SameRecipe WrappedValue) (fun hd => ?_) fun f hf => .check hr fun checked =>
      .result checked (fun hd => ?_) fun v hv => length_of_follow hk hv
  · obtain ⟨g', hg'⟩ := hg.twin hd
    subst hd
    exact ⟨_, hg'.value⟩
  · obtain ⟨x', hx'⟩ := hx hd
    exact alike hd hx' _
  · obtain ⟨g', hg'⟩ := hg.twin hd
    obtain ⟨f', hf'⟩ := hf hd
    subst hd
    exact ⟨_, hg'.follow table hf'⟩

theorem follows_through {f : Scalar → Nat → Except ArithmeticFault (List Scalar)}
    (alike : kind = .double → ∀ ⦃x x'⦄, WrappedValue x x' → ∀ order, ∃ y,
      Alike (List.Forall₂ WrappedValue) (f x order) y) :
    Follows (kind.SameResult k m r) (through k m f a r) (through k m' f a' r') := by
  refine follows_follow hk ha hr fun hd x x' hx order => ?_
  obtain ⟨y, hy⟩ := alike hd hx order
  exact ⟨_, hy.bind (g := fun l => .ok (.compose l)) fun _ _ hl => .ok (.compose hl)⟩

end Results

/-! ### Constants as arguments -/

theorem constantPower_eq (k : Calculus) (m : Memory) (a : Window) (exponent : Argument)
    (r : Window) : constantPower k m a exponent r =
      checkExponent exponent (m.get a.buffer) >>= fun _ =>
        follow k m exponent.powerRecipe a r := by
  rw [constantPower, Argument.powerRecipe]
  cases exponent.integer? <;> rfl

/-- Operands in packed buffers have plain exponents. -/
theorem checkExponent_of_sameKind {kind : ElementKind} {b b' : Buffer} {exponent : Argument}
    (h : Buffer.SameKind kind b b') (hc : checkExponent exponent b = .ok ()) :
    checkExponent exponent b' = .ok () ∧ (kind = .double → exponent.isPlain = true) := by
  cases h with
  | packed hd xs ys =>
    unfold checkExponent at hc ⊢
    cases hp : exponent.isPlain with
    | true => exact ⟨rfl, fun _ => rfl⟩
    | false => rw [hp] at hc; cases hc
  | boxed hb => exact ⟨rfl, fun hd => absurd hd hb⟩

section Constants
variable {kind : ElementKind} {k : Calculus} (hk : k.IsFull) {m m' : Memory} {a a' r r' : Window}
  (ha : SameOperand kind k m m' a a')
  (hr : checkResult k m r = .ok () → checkResult k m' r' = .ok ())
include hk ha hr

/-- **Powers to a constant.** -/
theorem follows_constantPower (exponent : Argument) : Follows (kind.SameResult k m r)
    (constantPower k m a exponent r) (constantPower k m' a' exponent r') := by
  rw [constantPower_eq, constantPower_eq]
  intro v hv
  obtain ⟨_, checked, hv⟩ := bind_eq_ok_iff.mp hv
  obtain ⟨g, hg, -⟩ := bind_eq_ok_iff.mp hv
  -- There is a jet to be read, so both buffers are for jets.
  have left := read_eq_ok_iff.mp hg
  obtain ⟨holds, -⟩ := Memory.jet?_eq_some_iff.mp left
  obtain ⟨holds', -⟩ := Memory.jet?_eq_some_iff.mp (ha.jet.symm.trans left)
  obtain ⟨checked', plain⟩ :=
    checkExponent_of_sameKind (Buffer.sameKind ha.left ha.right holds holds') checked
  have alike : kind = .double → ∀ ⦃x x'⦄, WrappedValue x x' → ∀ order, ∃ y,
      Alike (SameRecipe WrappedValue) (exponent.powerRecipe x order) y := by
    intro hd x x' hx order
    rw [Argument.powerRecipe]
    cases exponent.integer? with
    | some n => exact ⟨_, twins_wrapped.integerPower n hx order⟩
    | none => exact ⟨_, alike_realPower (plain hd) hx order⟩
  obtain ⟨v', hv', related⟩ := follows_follow hk ha hr alike v hv
  exact ⟨v', bind_eq_ok checked' hv', related⟩

/-- **Constants to the power of a jet.** -/
theorem follows_scalarPower {base : Argument} (hbase : base.IsOf kind) :
    Follows (kind.SameResult k m r) (scalarPower k m base a r) (scalarPower k m' base a' r') := by
  refine follows_through hk ha hr fun hd x x' hx order => ?_
  subst hd
  by_cases plain : base.isPlain
  · exact ⟨_, runsAlike_basePower plain hx order⟩
  · -- What is no plain number has no logarithm that is a double.
    obtain ⟨z⟩ := hx
    have refused : base.basePower (.lenient z) order = .error .unsupported := by
      cases hbase with
      | scalar h =>
        rcases Argument.plain_or_unset h with hp | rfl
        · cases hp <;> exact absurd rfl plain
        · rfl
      | bool b => exact absurd rfl plain
      | null | text | list | array => rfl
    exact ⟨_, by rw [refused]; exact .error _⟩

/-- **Roots.** -/
theorem follows_rootOf {index : Argument} (hi : index.IsOf kind) :
    Follows (kind.SameResult k m r) (rootOf k m a index r) (rootOf k m' a' index r') := by
  refine follows_through hk ha hr fun hd x x' hx order => ?_
  subst hd
  rcases Argument.plain_or_unset hi.toScalar with plain | unset
  · exact ⟨_, twins_wrapped.root _ (.plain plain) hx order⟩
  · obtain ⟨z⟩ := hx
    have refused : Outer.root index.rootKind index.toScalar (.lenient z) order =
        .error .unsupported := by
      rw [Argument.rootKind, Argument.equals, Argument.equals, unset]
      rfl
    exact ⟨_, by rw [refused]; exact .error _⟩

end Constants

/-! ### Derivatives that callers hand in -/

section Outer
variable {kind : ElementKind} {b b' : Buffer} {outer : Argument}

theorem outerDerivatives_eq (h : Buffer.SameKind kind b b') (outer : Argument) :
    outerDerivatives b outer = outerDerivatives b' outer := by
  cases h with
  | packed | boxed =>
    cases outer with
    | array c => cases c <;> rfl
    | scalar | bool | null | text | list => rfl

/-- On packed operands they are doubles, but for an array of machine integers. -/
theorem strict_or_words (h : Buffer.SameKind .double b b') (ho : outer.IsOf .double)
    {count : Nat} {f : OuterDerivatives} (hf : outerDerivatives b outer = .ok (count, f)) :
    (∃ l, f = .numbers l ∧ ∀ v ∈ l, ∃ x, v = .strict x) ∨ ∃ l, f = .words l := by
  cases h with
  | boxed hb => exact absurd rfl hb
  | packed _ xs =>
    cases ho with
    | scalar | bool | null => cases hf
    | text s =>
      obtain ⟨l, hs, hf⟩ := bind_eq_ok_iff.mp hf
      cases hf
      refine .inl ⟨l, rfl, fun v hv => ?_⟩
      obtain ⟨c, -, hc⟩ := exists_of_mem_mapM hs v hv
      exact Argument.strict_of_toPackedSlot (a := .text (String.ofList [c])) hc
    | list =>
      obtain ⟨l, hs, hf⟩ := bind_eq_ok_iff.mp hf
      cases hf
      refine .inl ⟨l, rfl, fun v hv => ?_⟩
      obtain ⟨c, -, hc⟩ := exists_of_mem_mapM hs v hv
      exact Argument.strict_of_toPackedSlot hc
    | @array c hc =>
      cases c with
      | sequence items =>
        obtain ⟨l, hs, hf⟩ := bind_eq_ok_iff.mp hf
        cases hf
        refine .inl ⟨l, rfl, fun v hv => ?_⟩
        obtain ⟨c, -, hc⟩ := exists_of_mem_mapM hs v hv
        exact Argument.strict_of_store hc
      | boxed slots =>
        cases hc with
        | boxed hb => exact absurd rfl hb
      | packed slots | matrix slots =>
        cases hf
        refine .inl ⟨_, rfl, fun v hv => ?_⟩
        obtain ⟨x, -, rfl⟩ := List.mem_map.mp hv
        exact ⟨x, rfl⟩
      | words slots =>
        cases hf
        exact .inr ⟨slots, rfl⟩

/-- **What the terms begin with** can be multiplied by doubles. -/
theorem follows_leading (h : Buffer.SameKind .double b b') (ho : outer.IsOf .double)
    {count : Nat} {f : OuterDerivatives} (hf : outerDerivatives b outer = .ok (count, f))
    {rows : List (List CompositionEntry)} {padding : Int} :
    Follows (Along (fun _ => ElementKind.double.Factors) rows.flatten)
      (f.leading (.ofRows rows padding)) (f.leading (.ofRows rows padding)) := by
  rcases strict_or_words h ho hf with ⟨l, rfl, strict⟩ | ⟨l, rfl⟩
  · refine ElementKind.follows_leadingFactors (List.forall₂_same.mpr fun v hv => ?_)
    obtain ⟨x, rfl⟩ := strict v hv
    exact .inl ⟨.strict x, .strict x⟩
  · exact ElementKind.follows_leadingWords l

end Outer

/-- **Compositions with derivatives that callers hand in.** -/
theorem follows_composeWith {kind : ElementKind} {k : Calculus} (hk : k.IsFull) {m m' : Memory}
    {a a' r r' : Window} (ha : SameOperand kind k m m' a a')
    (hr : checkResult k m r = .ok () → checkResult k m' r' = .ok ()) {outer : Argument}
    (ho : outer.IsOf kind) :
    Follows (kind.SameResult k m r) (composeWith k m a outer r) (composeWith k m' a' outer r') := by
  obtain ⟨rows, padding, table⟩ := hk.ofRows
  refine .read ha _ fun g hg buffers => .check hr fun checked => ?_
  rw [(storageOf_eq buffers).1, (storageOf_eq buffers).2, ← outerDerivatives_eq buffers outer]
  cases hf : outerDerivatives (m.get a.buffer) outer with
  | error fault => exact .error _ _
  | ok derivatives =>
    obtain ⟨count, f⟩ := derivatives
    show Follows _ (if count < k.order + 1 then _ else if f.length ≠ count then _ else _)
      (if count < k.order + 1 then _ else if f.length ≠ count then _ else _)
    by_cases few : count < k.order + 1
    · rw [if_pos few]
      exact .error _ _
    rw [if_neg few]
    by_cases ragged : f.length ≠ count
    · rw [if_pos ragged]
      exact .error _ _
    rw [if_neg ragged]
    refine .last checked fun v hv => ⟨length_of_composeFrom hk hv, fun hd => ?_⟩
    subst hd
    have slots : List.Forall₂ ElementKind.double.Refines g g := by
      refine List.forall₂_same.mpr fun s hs => ?_
      have element := exists_wrappedJet_iff.mp (hg.twin rfl) s hs
      exact ElementKind.Elements.refines ⟨element, element⟩
    obtain ⟨v', hv', elements⟩ := ElementKind.follows_composeFrom table slots
      (table ▸ follows_leading buffers ho hf) v hv
    obtain rfl := Except.ok.inj (hv.symm.trans hv')
    exact exists_wrappedJet_iff.mpr fun s hs => (List.forall₂_same.mp elements s hs).1

/-! ### Linear combinations -/

theorem forall₂_mem {α β : Type} {R : α → β → Prop} {as : List α} {bs : List β}
    (h : List.Forall₂ R as bs) :
    List.Forall₂ (fun a b => a ∈ as ∧ b ∈ bs ∧ R a b) as bs := by
  induction h with
  | nil => exact .nil
  | cons hab _ ih =>
    exact .cons ⟨List.mem_cons_self, List.mem_cons_self, hab⟩ <| ih.imp fun _ _ h =>
      ⟨List.mem_cons_of_mem _ h.1, List.mem_cons_of_mem _ h.2.1, h.2.2⟩

section Combination
variable {kind : ElementKind} {k : Calculus}

/-- What products and sums have, linear combinations have. -/
theorem of_linearCombination {P : Jet Scalar → Prop} {terms : List (Scalar × Jet Scalar)}
    {v : Jet Scalar} (product : ∀ t ∈ terms, ∀ v, Jet.scaleBy t.1 t.2 = .ok v → P v)
    (sum : ∀ a b v, P a → P b → Jet.add a b = .ok v → P v)
    (h : Jet.linearCombination terms = .ok v) : P v := by
  cases terms with
  | nil => cases h
  | cons t terms =>
    obtain ⟨total, ht, rest⟩ := bind_eq_ok_iff.mp h
    have start := product t List.mem_cons_self total ht
    replace product := fun u hu => product u (List.mem_cons_of_mem t hu)
    clear ht h
    induction terms generalizing total with
    | nil => cases rest; exact start
    | cons u terms ih =>
      obtain ⟨scaled, hs, rest⟩ := bind_eq_ok_iff.mp rest
      obtain ⟨next, hn, rest⟩ := bind_eq_ok_iff.mp rest
      exact ih next rest (sum _ _ _ start (product u List.mem_cons_self _ hs) hn)
        fun w hw => product w (List.mem_cons_of_mem u hw)

/-- A packed column has no product with nothing at all. -/
theorem fills_scaleBy (hk : k.IsFull) {c : Scalar} {a v : Jet Scalar} (hc : kind.Number c)
    (ha : kind.Fills k a) (h : Jet.scaleBy c a = .ok v) : kind.Fills k v := by
  refine ⟨(length_of_mapM h).trans ha.length, fun hd => ?_⟩
  obtain ⟨a', ha'⟩ := ha.twin hd
  subst hd
  rcases Argument.plain_or_unset hc with plain | rfl
  · obtain ⟨v', -, related⟩ := (ha'.times plain).cases_ok h
    exact ⟨v', related⟩
  · have positive := ha.length ▸ hk.positive
    cases ha' with
    | nil => cases positive
    | cons hs =>
      obtain ⟨y, rest, hy, -, -⟩ := of_mapM_cons h
      cases hs <;> cases hy

theorem fills_add {a b v : Jet Scalar} (ha : kind.Fills k a) (hb : kind.Fills k b)
    (h : Jet.add a b = .ok v) : kind.Fills k v := by
  refine ⟨?_, fun hd => ?_⟩
  · exact length_of_zipEach_eq h ha.length hb.length
  · obtain ⟨a', ha'⟩ := ha.twin hd
    obtain ⟨b', hb'⟩ := hb.twin hd
    obtain ⟨v', -, related⟩ := (ha'.add hb').cases_ok h
    exact ⟨v', related⟩

/-- **Accurate dot products** are strict doubles. -/
theorem fills_accurateCombination {terms : List (Scalar × Jet Scalar)} {v : Jet Scalar}
    (h : accurateCombination terms k.size = .ok v) : kind.Fills k v := by
  refine ⟨(length_of_mapM h).trans List.length_range, fun _ => ?_⟩
  refine exists_wrappedJet_iff.mpr fun s hs => ?_
  obtain ⟨i, -, hi⟩ := exists_of_mem_mapM h s hs
  obtain ⟨products, -, hi⟩ := bind_eq_ok_iff.mp hi
  cases hi
  exact .strict _

variable {m m' : Memory} {terms terms' : List (Argument × Window)}

theorem isPlainTerm_eq {w w' : Window}
    (h : Buffer.SameKind kind (m.get w.buffer) (m'.get w'.buffer)) (a : Argument) :
    isPlainTerm m (a, w) = isPlainTerm m' (a, w') := by
  unfold isPlainTerm
  dsimp only
  generalize m.get w.buffer = b at h
  generalize m'.get w'.buffer = b' at h
  cases h <;> rfl

/-- The same columns are read, and it is the same ones that are packed. -/
theorem follows_readColumns
    (h : List.Forall₂ (fun t t' => t.1 = t'.1 ∧ SameOperand kind k m m' t.2 t'.2) terms terms') :
    ∀ i, Follows (fun c c' => c = c' ∧ (∀ t ∈ c, kind.Fills k t.2 ∧ ∃ u ∈ terms, t.1 = u.1) ∧
        terms.all (isPlainTerm m) = terms'.all (isPlainTerm m'))
      (readColumns k m i terms) (readColumns k m' i terms') := by
  induction h with
  | nil => exact fun i => .ok ⟨rfl, nofun, rfl⟩
  | @cons t t' terms terms' ht _ ih =>
    obtain ⟨a, w⟩ := t
    obtain ⟨_, w'⟩ := t'
    obtain ⟨rfl, operand⟩ := ht
    intro i
    refine .read operand _ fun v hv buffers => (ih (i + 1)).bind ?_
    rintro columns _ ⟨rfl, fill, packed⟩
    refine .ok ⟨rfl, ?_, ?_⟩
    · rintro t ht
      rcases List.mem_cons.mp ht with rfl | ht
      · exact ⟨hv, _, List.mem_cons_self, rfl⟩
      · obtain ⟨hf, u, hu, same⟩ := fill t ht
        exact ⟨hf, u, List.mem_cons_of_mem _ hu, same⟩
    · rw [List.all_cons, List.all_cons, packed, isPlainTerm_eq buffers]

/-- **Linear combinations.** -/
theorem follows_combination (hk : k.IsFull) {r r' : Window}
    (h : List.Forall₂ (fun t t' => t.1 = t'.1 ∧ SameOperand kind k m m' t.2 t'.2) terms terms')
    (ht : ∀ t ∈ terms, t.1.IsOf kind)
    (hr : checkResult k m r = .ok () → checkResult k m' r' = .ok ()) :
    Follows (kind.SameResult k m r) (combination k m terms r) (combination k m' terms' r') := by
  have empty : terms.isEmpty = terms'.isEmpty := by cases h <;> rfl
  rw [combination, combination, empty]
  by_cases none : terms'.isEmpty
  · rw [if_pos none, if_pos none]
    exact .error _ _
  rw [if_neg none, if_neg none]
  refine (follows_readColumns h 1).bind ?_
  rintro columns _ ⟨rfl, fill, packed⟩
  refine .check hr fun checked => ?_
  intro v hv
  obtain ⟨factors, hf, hv⟩ := bind_eq_ok_iff.mp hv
  have numbers : ∀ t ∈ factors, kind.Number t.1 ∧ kind.Fills k t.2 := by
    intro t hmem
    obtain ⟨u, hu, ht'⟩ := exists_of_mem_mapM hf t hmem
    obtain ⟨c, hc, ht'⟩ := bind_eq_ok_iff.mp ht'
    obtain ⟨fills, w, hw, same⟩ := fill u hu
    cases ht'
    exact ⟨(same ▸ ht w hw).toFactor (mapError_eq_ok_iff.mp hc), fills⟩
  suffices all : ∀ x : Except ArithmeticFault (Jet Scalar), (∀ v, x = .ok v → kind.Fills k v) →
      x.mapError OperationFault.arithmetic = .ok v → kind.Fills k v by
    rw [packed] at hv
    refine ⟨v, bind_eq_ok hf hv, rfl, ?_, checked⟩
    by_cases accurate : terms'.all (isPlainTerm m')
    · rw [if_pos accurate] at hv
      exact all _ (fun v hv => fills_accurateCombination hv) hv
    · rw [if_neg accurate] at hv
      refine all _ (fun v hv => ?_) hv
      exact of_linearCombination (fun t ht v hv => fills_scaleBy hk (numbers t ht).1
        (numbers t ht).2 hv) (fun a b v ha hb hv => fills_add ha hb hv) hv
  exact fun x hx hv => hx v (mapError_eq_ok_iff.mp hv)

end Combination

end Operation

end JetAlgebra
