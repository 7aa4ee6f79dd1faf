import JetAlgebra.Proofs.OperationRuns
import JetAlgebra.Proofs.TaylorSum

/-!
# Results in windows

A jet of exact rationals may be anywhere in a boxed buffer (`Memory.Holds`), and a result may go
to any stretch of such a buffer that is long enough (`Memory.Accepts`).  What an operation makes
of its operands does not depend on where they are: `Tables.Maps` and `Tables.Combines` say that
an operation leaves a certain jet, whatever the memory is and whatever the windows are.

They follow from what the algebra of jets says (`combines_multiply`, `combines_divide`,
`maps_power`), because a jet that is written to a window is read from it again (`leaves_of_jet`).
An operation that fails before it has a result leaves all buffers as they are
(`Operation.Refuses`).
-/
namespace JetAlgebra

/-! ## Stretches of slots -/

/-- **A stretch that is written** is replaced, and all other slots stay. -/
theorem writeBoxed_eq {slots values : List Scalar} {n : Nat}
    (h : n + values.length ≤ slots.length) : Buffer.writeBoxed slots n values =
      slots.take n ++ values ++ slots.drop (n + values.length) := by
  have before : (slots.take n).length = n := List.length_take_of_le (by omega)
  have there : ((slots.drop n).take values.length).length = values.length :=
    List.length_take_of_le (by rw [List.length_drop]; omega)
  have parts : slots.take n ++ (slots.drop n).take values.length ++
      slots.drop (n + values.length) = slots := by
    rw [List.append_assoc, ← List.drop_drop, List.take_append_drop, List.take_append_drop]
  have written := writeBoxed_append (slots.take n) _ (slots.drop (n + values.length)) there
  rwa [parts, before] at written

theorem slice_append (before values after : List Scalar) :
    slice (before ++ values ++ after) before.length (before.length + values.length) = values := by
  have start : ¬ (before.length : Int) < 0 := by omega
  have stop : ¬ (before.length : Int) + values.length < 0 := by omega
  simp only [slice, if_neg start, if_neg stop]
  rw [Int.toNat_natCast, ← Nat.cast_add, Int.toNat_natCast, ← List.length_append, List.take_left,
    List.drop_left]

/-- A buffer that is there can be replaced. -/
theorem Memory.get_set {m : Memory} {name : String} (h : m.get name ≠ .sequence []) (b : Buffer) :
    (m.set name b).get name = b := by
  obtain ⟨buffers⟩ := m
  rw [get] at h ⊢
  induction buffers with
  | nil => exact absurd rfl h
  | cons entry buffers ih =>
    rw [set, List.map_cons, List.lookup_cons]
    by_cases here : entry.1 = name
    · rw [if_pos here, beq_self_eq_true]
      rfl
    · have other : (name == entry.1) = false := beq_false_of_ne (Ne.symm here)
      rw [List.lookup_cons, other] at h
      rw [if_neg here, other]
      exact ih h

/-! ## Windows of jets -/

/-- **The window holds a jet** of exact rationals. -/
structure Memory.Holds (m : Memory) (k : Calculus) (w : Window) (a : List Rat) : Prop where
  boxed : ∃ slots, m.get w.buffer = .boxed slots
  /-- The jet is read, under whatever name the window is called by. -/
  read : ∀ name, Operation.read k m name w = .ok (Jet.ofRat a)

/-- The recipe that a power has for its exponent. -/
def Argument.powerRecipe (exponent : Argument) :
    Scalar → Nat → Except ArithmeticFault (Recipe Scalar) :=
  match exponent.integer? with
  | some n => Outer.integerPower n
  | none => exponent.realPower

/-- **The window accepts a jet**, whatever is in it. -/
structure Memory.Accepts (m : Memory) (k : Calculus) (w : Window) : Prop where
  boxed : ∃ slots, m.get w.buffer = .boxed slots
  check : Operation.checkResult k m w = .ok ()

section Memory
variable {k : Calculus} {m : Memory} {w : Window}

theorem Memory.Holds.storageOf {a : List Rat} (h : m.Holds k w a) :
    Operation.storageOf m w = .faithful := by
  obtain ⟨slots, hm⟩ := h.boxed
  exact storageOf_boxed hm

/-- Every constant is an exponent for a jet of rationals. -/
theorem Memory.Holds.constantPower {a : List Rat} (h : m.Holds k w a) (exponent : Argument)
    (r : Window) : Operation.constantPower k m w exponent r =
      Operation.follow k m exponent.powerRecipe w r := by
  obtain ⟨slots, hm⟩ := h.boxed
  rw [Operation.constantPower, hm, Argument.powerRecipe]
  cases exponent.integer? <;> rfl

/-- **A window accepts a jet** if it is a stretch of a boxed buffer. -/
theorem Memory.accepts_iff : m.Accepts k w ↔ ∃ (slots : List Scalar) (n : Nat),
    m.get w.buffer = .boxed slots ∧ w.offset = n ∧ n + k.size ≤ slots.length := by
  have check : ∀ {slots : List Scalar}, m.get w.buffer = .boxed slots →
      (Operation.checkResult k m w = .ok () ↔
        0 ≤ w.offset ∧ w.offset + k.size ≤ slots.length) := by
    intro slots hm
    show ((m.get w.buffer).check "result" w.offset k.size).mapError OperationFault.window = _ ↔ _
    rw [hm, mapError_eq_ok_iff, check_boxed_iff]
  constructor
  · rintro ⟨⟨slots, hm⟩, checked⟩
    have inside := (check hm).mp checked
    exact ⟨slots, w.offset.toNat, hm, by omega, by omega⟩
  · rintro ⟨slots, n, hm, hw, room⟩
    exact ⟨⟨slots, hm⟩, (check hm).mpr (by omega)⟩

/-- The stretch of a boxed buffer that a result replaces. -/
theorem Memory.Accepts.exists_stretch (h : m.Accepts k w) : ∃ before old after : List Scalar,
    m.get w.buffer = .boxed (before ++ old ++ after) ∧ w.offset = before.length ∧
      old.length = k.size := by
  obtain ⟨slots, n, hm, hw, room⟩ := accepts_iff.mp h
  refine ⟨slots.take n, (slots.drop n).take k.size, slots.drop (n + k.size), ?_, ?_, ?_⟩
  · rw [hm, List.append_assoc, ← List.drop_drop, List.take_append_drop, List.take_append_drop]
  · rw [hw, List.length_take_of_le (by omega)]
  · exact List.length_take_of_le (by rw [List.length_drop]; omega)

/-- A stretch of a boxed buffer is read as it is. -/
theorem read_stretch {before values after : List Scalar}
    (hm : m.get w.buffer = .boxed (before ++ values ++ after)) (hw : w.offset = before.length)
    (hl : values.length = k.size) (name : String) : Operation.read k m name w = .ok values := by
  have inside : 0 ≤ (before.length : Int) ∧
      before.length + (k.size : Int) ≤ (before ++ values ++ after).length := by
    simp [hl]
  show ((m.get w.buffer).window name w.offset k.size).mapError _ = _
  rw [hm, hw, mapError_eq_ok_iff]
  refine bind_eq_ok (check_boxed_iff.mpr inside) (congrArg Except.ok ?_)
  rw [← hl]
  exact slice_append before values after

theorem Memory.holds_stretch {before after : List Scalar} {a : List Rat}
    (hm : m.get w.buffer = .boxed (before ++ Jet.ofRat a ++ after)) (hw : w.offset = before.length)
    (ha : a.length = k.size) : m.Holds k w a :=
  ⟨⟨_, hm⟩, read_stretch hm hw ((List.length_map _).trans ha)⟩

/-- **There is a memory for every two jets**, with a place for a result. -/
theorem Memory.exists_holds {a b : List Rat} (ha : a.length = k.size) (hb : b.length = k.size) :
    ∃ (m : Memory) (x y r : Window), m.Holds k x a ∧ m.Holds k y b ∧ m.Accepts k r := by
  refine ⟨⟨[("a", .boxed (Jet.ofRat a)), ("b", .boxed (Jet.ofRat b))]⟩, ⟨"a", 0⟩, ⟨"b", 0⟩,
    ⟨"a", 0⟩, ?_, ?_, ?_⟩
  · exact @holds_stretch k _ ⟨"a", 0⟩ [] [] a (by simp [get]) rfl ha
  · exact @holds_stretch k _ ⟨"b", 0⟩ [] [] b (by simp [get, List.lookup]) rfl hb
  · refine accepts_iff.mpr ⟨Jet.ofRat a, 0, by simp [get], rfl, ?_⟩
    rw [Jet.ofRat, List.length_map, ha, Nat.zero_add]

end Memory

/-! ## What operations leave -/

/-- **Running the operation leaves a jet** in a window. -/
def Operation.Leaves (k : Calculus) (m : Memory) (op : Operation) (w : Window) (c : List Rat) :
    Prop :=
  ∃ after, (Operation.run k op).run.run m = (.ok (), after) ∧ after.Holds k w c

/-- **The operation makes `c` of `a`**, wherever the operand is and the result goes. -/
def Tables.Maps (t : Tables) (op : Window → Window → Operation) (a c : List Rat) : Prop :=
  ∀ (m : Memory) (x r : Window), m.Holds t.calculus x a → m.Accepts t.calculus r →
    (op x r).Leaves t.calculus m r c

/-- **The operation makes `c` of `a` and `b`**, wherever the operands are and the result goes. -/
def Tables.Combines (t : Tables) (op : Window → Window → Window → Operation) (a b c : List Rat) :
    Prop :=
  ∀ (m : Memory) (x y r : Window), m.Holds t.calculus x a → m.Holds t.calculus y b →
    m.Accepts t.calculus r → (op x y r).Leaves t.calculus m r c

/-- **Running the operation fails**, and every buffer stays as it is. -/
def Operation.Refuses (k : Calculus) (m : Memory) (op : Operation) (fault : OperationFault) :
    Prop :=
  (Operation.run k op).run.run m = (.error fault, m)

theorem refuses_of_error {k : Calculus} {m : Memory} {w : Window} {op : Operation}
    {f : Memory → Except OperationFault (Jet Scalar)} {fault : OperationFault}
    (run : Operation.run k op = Operation.compute w f) (failed : f m = .error fault) :
    op.Refuses k m fault := by
  rw [Operation.Refuses, run, run_compute, failed]

/-- **What is computed replaces a stretch** of a boxed buffer. -/
theorem exists_compute_stretch {m : Memory} {w : Window}
    {f : Memory → Except OperationFault (Jet Scalar)} {before old after values : List Scalar}
    (hm : m.get w.buffer = .boxed (before ++ old ++ after)) (hw : w.offset = before.length)
    (hl : old.length = values.length) (computed : f m = .ok values) :
    ∃ m' : Memory, (Operation.compute w f).run.run m = (.ok (), m') ∧
      m'.get w.buffer = .boxed (before ++ values ++ after) := by
  have written : (m.get w.buffer).write w.offset.toNat values =
      (.boxed (before ++ values ++ after), .ok ()) := by
    rw [hm, hw, Int.toNat_natCast, Buffer.write, writeBoxed_append before old after hl]
  have present : m.get w.buffer ≠ .sequence [] := by rw [hm]; nofun
  refine ⟨_, ?_, Memory.get_set present _⟩
  rw [run_compute, computed]
  dsimp only
  rw [run_writeTo, written]

/-- **A jet that is computed is left** in every window that accepts it. -/
theorem leaves_of_jet {k : Calculus} {m : Memory} {w : Window} {op : Operation}
    {f : Memory → Except OperationFault (Jet Scalar)} {c : List Rat}
    (run : Operation.run k op = Operation.compute w f) (accepts : m.Accepts k w)
    (hc : c.length = k.size) (computed : f m = .ok (Jet.ofRat c)) : op.Leaves k m w c := by
  obtain ⟨before, old, after, hm, hw, hold⟩ := accepts.exists_stretch
  have length : old.length = (Jet.ofRat c).length := by rw [hold, Jet.ofRat, List.length_map, hc]
  obtain ⟨m', computes, there⟩ := exists_compute_stretch hm hw length computed
  exact ⟨m', run ▸ computes, Memory.holds_stretch there hw hc⟩

namespace Tables
variable {t : Tables} {a b c : List Rat} (hc : c.length = t.size)
include hc

/-- **What goes slot by slot**, from the same on jets. -/
theorem combines_slotwise {op : Window → Window → Window → Operation}
    {f : Jet Scalar → Jet Scalar → Except ArithmeticFault (Jet Scalar)}
    (run : ∀ x y r, Operation.run t.calculus (op x y r) =
      Operation.compute r (Operation.slotwise t.calculus · f x y r))
    (h : f (Jet.ofRat a) (Jet.ofRat b) = .ok (Jet.ofRat c)) : t.Combines op a b c := by
  intro m x y r hx hy hr
  refine leaves_of_jet (run x y r) hr hc ?_
  rw [slotwise_of_read (hx.read _) (hy.read _) hr.check, h]
  rfl

/-- **A product**, from the product of jets. -/
theorem combines_multiply (h : Jet.mul t.calculus (Jet.ofRat a) (Jet.ofRat b) = .ok (Jet.ofRat c)) :
    t.Combines (.binary .multiply) a b c :=
  combines_slotwise hc (fun _ _ _ => rfl) h

/-- **A quotient**, from the quotient of jets. -/
theorem combines_divide
    (h : Jet.divide t.calculus .faithful (Jet.ofRat a) (Jet.ofRat b) = .ok (Jet.ofRat c)) :
    t.Combines (.binary .divide) a b c := by
  intro m x y r hx hy hr
  refine leaves_of_jet (f := (Operation.quotient t.calculus · x y r)) rfl hr hc ?_
  rw [quotient_of_read hy.storageOf (hx.read _) (hy.read _) hr.check, h]
  rfl

/-- **An elementary function**, from the composition with its derivatives. -/
theorem maps_elementary {f : Elementary} (h : Jet.through t.calculus .faithful (Jet.ofRat a)
    (Operation.derivativesOf f) = .ok (Jet.ofRat c)) : t.Maps (.elementary f · ·) a c := by
  intro m x r hx hr
  refine leaves_of_jet (f := (Operation.through t.calculus · (Operation.derivativesOf f) x r)) rfl
    hr hc ?_
  rw [through_of_read hx.storageOf (hx.read _) hr.check, h]
  rfl

/-- **A power to a constant**, from what the recipe for the exponent makes of the jet. -/
theorem maps_power {exponent : Argument}
    (h : (Jet.value .faithful (Jet.ofRat a) >>= (exponent.powerRecipe · t.calculus.order) >>=
      Jet.follow t.calculus .faithful (Jet.ofRat a)) = .ok (Jet.ofRat c)) :
    t.Maps (.pow · exponent ·) a c := by
  intro m x r hx hr
  refine leaves_of_jet (f := (Operation.constantPower t.calculus · x exponent r)) rfl hr hc ?_
  rw [hx.constantPower, follow_of_read hx.storageOf (hx.read _) hr.check, h]
  rfl

end Tables

end JetAlgebra
