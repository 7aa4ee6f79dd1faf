import JetAlgebra.Operation
import JetAlgebra.Proofs.Outcome

/-!
# Running operations on windows

An action leaves an outcome and a memory.  These are the equations for its steps, and for what
becomes of a window: a jet that fills a boxed buffer is read as it is (`read_boxed`), and one
that is stored in such a buffer replaces all that was there (`run_writeTo_boxed`).
-/
namespace JetAlgebra

/-- An action leaves an outcome and a memory, and the next one is run if it succeeded. -/
theorem run_bind {α β : Type} (x : Action α) (f : α → Action β) (m : Memory) :
    (x >>= f).run.run m =
      match x.run.run m with
      | (.ok a, m') => (f a).run.run m'
      | (.error fault, m') => (.error fault, m') := by
  rw [ExceptT.run_bind, StateT.run_bind]
  show (match x.run.run m with | (r, m') => _) = _
  rcases x.run.run m with ⟨_ | a, m'⟩ <;> rfl

theorem run_writeTo (w : Window) (values : Jet Scalar) (m : Memory) :
    (Operation.writeTo w values).run.run m =
      match (m.get w.buffer).write w.offset.toNat values with
      | (b, .ok ()) => (.ok (), m.set w.buffer b)
      | (b, .error fault) => (.error (.arithmetic fault), m.set w.buffer b) := by
  have start : (get : Action Memory).run.run m = (.ok m, m) := rfl
  rw [Operation.writeTo, run_bind, start]
  dsimp only
  rcases (m.get w.buffer).write w.offset.toNat values with ⟨b, _ | _⟩ <;> rfl

/-- A result is stored if there is one. -/
theorem run_compute (w : Window) (f : Memory → Except OperationFault (Jet Scalar)) (m : Memory) :
    (Operation.compute w f).run.run m =
      match f m with
      | .ok values => (Operation.writeTo w values).run.run m
      | .error fault => (.error fault, m) := by
  rw [Operation.compute, run_bind]
  show (ExceptT.mk (pure (f m)) >>= fun values => Operation.writeTo w values).run.run m = _
  rw [run_bind]
  cases f m <;> rfl

/-- A joint form computes its two results one after the other, from the values of its functions
at the start. -/
theorem run_joint {k : Calculus} {f : JointOperation} {operand first second : Window} {m : Memory}
    {alternating : Bool} {one two : Scalar × Scalar}
    (h : (do
      let g ← Operation.read k m "operand" operand
      Operation.jointStarts f (← Arithmetic.slot g 0) : Except OperationFault _) =
        .ok (alternating, one, two)) :
    (Operation.run k (.joint f operand first second)).run.run m =
      (Operation.compute first (Operation.through k ·
          (fun _ order => Outer.cycle alternating (order + 1) one.1 one.2) operand first) >>=
        fun _ => Operation.compute second (Operation.through k ·
          (fun _ order => Outer.cycle alternating (order + 1) two.1 two.2) operand second)).run.run
        m := by
  rw [Operation.run, run_bind]
  show (ExceptT.mk (pure (do
    let g ← Operation.read k m "operand" operand
    Operation.jointStarts f (← Arithmetic.slot g 0) : Except OperationFault _)) >>=
      fun _ => _ : Action Unit).run.run m = _
  rw [h, run_bind]
  rfl

/-! ## Operations on jets that were read -/

section Read
variable {k : Calculus} {m : Memory} {x y r : Window} {a b : Jet Scalar}

/-- A boxed buffer keeps what is stored in it. -/
theorem storageOf_boxed {slots : List Scalar} (h : m.get x.buffer = .boxed slots) :
    Operation.storageOf m x = .faithful := by
  rw [Operation.storageOf, h]
  rfl

/-- An operation that goes slot by slot needs nothing of the memory but its operands. -/
theorem slotwise_of_read (hx : Operation.read k m "lhs" x = .ok a)
    (hy : Operation.read k m "rhs" y = .ok b) (hr : Operation.checkResult k m r = .ok ())
    (f : Jet Scalar → Jet Scalar → Except ArithmeticFault (Jet Scalar)) :
    Operation.slotwise k m f x y r = (f a b).mapError .arithmetic := by
  rw [Operation.slotwise, hx, hy, hr]
  rfl

/-- Where a jet was read there are new buffers for others. -/
theorem checkScratch_of_read {name : String} (h : Operation.read k m name x = .ok a) :
    Operation.checkScratch k m x = .ok () := by
  rw [Operation.checkScratch]
  rw [Operation.read] at h
  cases hb : m.get x.buffer with
  | packed | boxed | words | matrix => rfl
  | sequence => rw [hb] at h; cases h

theorem quotient_of_read (hs : Operation.storageOf m y = .faithful)
    (hx : Operation.read k m "lhs" x = .ok a) (hy : Operation.read k m "operand" y = .ok b)
    (hr : Operation.checkResult k m r = .ok ()) :
    Operation.quotient k m x y r = (Jet.divide k .faithful a b).mapError .arithmetic := by
  rw [Operation.quotient, checkScratch_of_read hy, hx, hy, hr, hs, Jet.divide]
  show ((Jet.stored .faithful (Jet.reciprocal _ .faithful _)).mapError _ >>= _) = _
  cases Jet.stored .faithful (Jet.reciprocal k .faithful b) <;> rfl

/-- A divisor without a reciprocal fails the division, before anything else is looked at. -/
theorem quotient_of_reciprocal {fault : ArithmeticFault}
    (hs : Operation.storageOf m y = .faithful) (hy : Operation.read k m "operand" y = .ok b)
    (h : Jet.reciprocal k .faithful b = .error fault) :
    Operation.quotient k m x y r = .error (.arithmetic fault) := by
  rw [Operation.quotient, checkScratch_of_read hy, hy, hs]
  show ((Jet.stored .faithful (Jet.reciprocal _ .faithful _)).mapError _ >>= _) = _
  rw [h]
  rfl

variable {s : Storage Scalar}

theorem follow_of_read (hs : Operation.storageOf m x = s)
    (hx : Operation.read k m "operand" x = .ok a) (hr : Operation.checkResult k m r = .ok ())
    (recipe : Scalar → Nat → Except ArithmeticFault (Recipe Scalar)) :
    Operation.follow k m recipe x r =
      (Jet.value s a >>= (recipe · k.order) >>= Jet.follow k s a).mapError .arithmetic := by
  rw [Operation.follow, hx, hr, hs]
  show ((Jet.value s _).mapError _ >>= _) = _
  cases Jet.value s a with
  | error fault => rfl
  | ok v =>
    show ((recipe v k.order).mapError _ >>= _) = (recipe v k.order >>= _).mapError _
    cases recipe v k.order <;> rfl

theorem through_of_read (hs : Operation.storageOf m x = s)
    (hx : Operation.read k m "operand" x = .ok a) (hr : Operation.checkResult k m r = .ok ())
    (f : Scalar → Nat → Except ArithmeticFault (List Scalar)) :
    Operation.through k m f x r = (Jet.through k s a f).mapError .arithmetic := by
  rw [Operation.through, follow_of_read hs hx hr, Jet.through]
  cases Jet.value s a with
  | error fault => rfl
  | ok v =>
    show ((f v k.order >>= _) >>= _).mapError _ = (f v k.order >>= _).mapError _
    cases f v k.order <;> rfl

/-- A composition with the operand is stored as it is computed. -/
theorem run_compute_through (hs : Operation.storageOf m x = s)
    (hx : Operation.read k m "operand" x = .ok a) (hr : Operation.checkResult k m r = .ok ())
    {f : Scalar → Nat → Except ArithmeticFault (List Scalar)} (h : Jet.through k s a f = .ok b) :
    (Operation.compute r (Operation.through k · f x r)).run.run m =
      (Operation.writeTo r b).run.run m := by
  rw [run_compute, through_of_read hs hx hr, h]
  rfl

/-- The recipe comes after the value of the operand, and before the window of the result. -/
theorem follow_of_value {v : Scalar} (hs : Operation.storageOf m x = s)
    (hx : Operation.read k m "operand" x = .ok a) (hv : Jet.value s a = .ok v)
    (recipe : Scalar → Nat → Except ArithmeticFault (Recipe Scalar)) :
    Operation.follow k m recipe x r =
      ((recipe v k.order).mapError .arithmetic >>= fun f => Operation.checkResult k m r >>=
        fun _ => (Jet.follow k s a f).mapError .arithmetic) := by
  rw [Operation.follow, hx, hs]
  show ((Jet.value s _).mapError _ >>= _) = _
  rw [hv]
  rfl

end Read

/-! ## Windows that are there -/

namespace Buffer

/-- Buffers that jets can be in. -/
inductive HoldsJets : Buffer → Prop where
  | packed (slots : List Float) : HoldsJets (.packed slots)
  | boxed (slots : List Scalar) : HoldsJets (.boxed slots)

/-- **A window** lies between the ends of a buffer for jets. -/
theorem check_eq_ok_iff {b : Buffer} {name : String} {offset size : Int} :
    b.check name offset size = .ok () ↔
      b.HoldsJets ∧ 0 ≤ offset ∧ offset + size ≤ b.scalars.length := by
  have inside : ∀ c : Buffer, c.HoldsJets → c.length = c.scalars.length →
      ((if offset < 0 ∨ (c.length : Int) < offset + size then
        .error (.outside name c.length size offset) else .ok () : Except WindowFault Unit) =
          .ok () ↔ c.HoldsJets ∧ 0 ≤ offset ∧ offset + size ≤ c.scalars.length) := by
    intro c hc length
    rw [length]
    by_cases outside : offset < 0 ∨ (c.scalars.length : Int) < offset + size
    · rw [if_pos outside]
      exact ⟨fun h => (nomatch h), fun inside => by omega⟩
    · rw [if_neg outside]
      exact ⟨fun _ => ⟨hc, by omega⟩, fun _ => rfl⟩
  cases b with
  | packed slots => exact inside (.packed slots) (.packed slots) rfl
  | boxed slots => exact inside (.boxed slots) (.boxed slots) rfl
  | words | matrix | sequence => exact ⟨fun h => (nomatch h), fun h => (nomatch h.1)⟩

end Buffer

/-- **A window of a boxed buffer** lies between its ends. -/
theorem check_boxed_iff {slots : List Scalar} {name : String} {offset size : Int} :
    (Buffer.boxed slots).check name offset size = .ok () ↔
      0 ≤ offset ∧ offset + size ≤ slots.length :=
  Buffer.check_eq_ok_iff.trans (and_iff_right (.boxed slots))

/-! ## Buffers that hold one jet -/

theorem check_boxed {slots : List Scalar} {size : Nat} (h : slots.length = size) (name : String) :
    (Buffer.boxed slots).check name 0 size = .ok () :=
  check_boxed_iff.mpr (by omega)

theorem window_boxed {slots : List Scalar} {size : Nat} (h : slots.length = size) (name : String) :
    (Buffer.boxed slots).window name 0 size = .ok slots := by
  refine bind_eq_ok (check_boxed h name) (congrArg Except.ok ?_)
  have stop : ¬ (0 + (size : Int) < 0) := by omega
  simp only [slice, if_neg stop, if_neg (Int.lt_irrefl 0), Int.toNat_zero, List.drop_zero]
  exact List.take_of_length_le (by simp only [Buffer.scalars]; omega)

theorem read_boxed {k : Calculus} {m : Memory} {w : Window} {slots : List Scalar}
    (hm : m.get w.buffer = .boxed slots) (hw : w.offset = 0) (h : slots.length = k.size)
    (name : String) : Operation.read k m name w = .ok slots := by
  show ((m.get w.buffer).window name w.offset k.size).mapError _ = _
  rw [hm, hw, window_boxed h]
  rfl

theorem checkResult_boxed {k : Calculus} {m : Memory} {w : Window} {slots : List Scalar}
    (hm : m.get w.buffer = .boxed slots) (hw : w.offset = 0) (h : slots.length = k.size) :
    Operation.checkResult k m w = .ok () := by
  show ((m.get w.buffer).check "result" w.offset k.size).mapError _ = _
  rw [hm, hw, check_boxed h]
  rfl

/-- Slots that are written one after the other replace what was there. -/
theorem writeBoxed_append {values : List Scalar} : ∀ (before slots after : List Scalar),
    slots.length = values.length →
      Buffer.writeBoxed (before ++ slots ++ after) before.length values =
        before ++ values ++ after := by
  induction values with
  | nil =>
    intro before slots after h
    rw [List.length_eq_zero_iff.mp h]
    rfl
  | cons v values ih =>
    intro before slots after h
    obtain ⟨w, slots, rfl⟩ := List.exists_cons_of_length_eq_add_one h
    have next := ih (before ++ [v]) slots after (Nat.succ.inj h)
    rw [List.length_append, List.length_singleton] at next
    rw [Buffer.writeBoxed, List.append_assoc, List.set_append_right _ _ (Nat.le_refl _),
      Nat.sub_self, List.cons_append, List.set_cons_zero]
    simpa using next

/-- **Storing a jet in a buffer of its size** replaces the buffer. -/
theorem run_writeTo_boxed {m : Memory} {w : Window} {slots values : List Scalar}
    (hm : m.get w.buffer = .boxed slots) (hw : w.offset = 0) (h : slots.length = values.length) :
    (Operation.writeTo w values).run.run m = (.ok (), m.set w.buffer (.boxed values)) := by
  have all : Buffer.writeBoxed slots 0 values = values := by
    simpa using writeBoxed_append [] slots [] h
  rw [run_writeTo, hm, hw]
  show (Except.ok (), m.set w.buffer (.boxed (Buffer.writeBoxed slots 0 values))) = _
  rw [all]

/-- **Computing a jet that fills a buffer** replaces the buffer, if there is one to store. -/
theorem run_compute_boxed {m : Memory} {w : Window} {slots : List Scalar}
    (hm : m.get w.buffer = .boxed slots) (hw : w.offset = 0)
    {f : Memory → Except OperationFault (Jet Scalar)}
    (h : ∀ values, f m = .ok values → slots.length = values.length) :
    (Operation.compute w f).run.run m =
      match f m with
      | .ok values => (.ok (), m.set w.buffer (.boxed values))
      | .error fault => (.error fault, m) := by
  rw [run_compute]
  cases computed : f m with
  | error fault => rfl
  | ok values => exact run_writeTo_boxed hm hw (h values computed)

/-- What a recipe makes of a jet in a buffer of its own. -/
theorem follow_boxed {k : Calculus} {m : Memory} {operand w : Window} {g slots : List Scalar}
    (hm : m.get operand.buffer = .boxed g) (ho : operand.offset = 0) (hg : g.length = k.size)
    (hr : m.get w.buffer = .boxed slots) (hw : w.offset = 0) (hs : slots.length = k.size)
    (recipe : Scalar → Nat → Except ArithmeticFault (Recipe Scalar)) :
    Operation.follow k m recipe operand w =
      (Jet.value .faithful g >>= (recipe · k.order) >>= Jet.follow k .faithful g).mapError
        .arithmetic :=
  follow_of_read (storageOf_boxed hm) (read_boxed hm ho hg _) (checkResult_boxed hr hw hs) recipe

end JetAlgebra
