import JetAlgebra.Proofs.JointForms
import JetAlgebra.Proofs.WindowOperands

/-!
# Operations with one result

An operation has windows for its operands and for its results, and arguments that are numbers
(`Operation.operands`, `Operation.results`, `Operation.arguments`).  On buffers of one kind its
first result depends on the jets in the windows of the operands alone (`follows_resultOf`), and
if there is one it can be stored.  So an operation with one result fails, and has changed nothing,
or it ends with its result in the window (`ends_run`).

The angle is stored twice, the second time nothing but its value, which can be computed whenever
its derivatives can (`exists_angleValue`).
-/
namespace JetAlgebra
open Arithmetic Scalar

namespace Operation

/-! ## Windows and arguments -/

/-- The windows that an operation reads. -/
def operands : Operation → List Window
  | .binary _ a b _ => [a, b]
  | .elementary _ a _ | .joint _ a _ _ | .pow a _ _ | .scalarPow _ a _ | .root a _ _
  | .compose a _ _ => [a]
  | .linearCombination terms _ => terms.map Prod.snd

/-- The window of the result, or of the first one. -/
def result : Operation → Window
  | .binary _ _ _ r | .elementary _ _ r | .joint _ _ r _ | .pow _ _ r | .scalarPow _ _ r
  | .root _ _ r | .compose _ _ r | .linearCombination _ r => r

/-- The windows that an operation writes. -/
def results : Operation → List Window
  | .joint _ _ first second => [first, second]
  | op => [op.result]

/-- The arguments that are no windows. -/
def arguments : Operation → List Argument
  | .binary .. | .elementary .. | .joint .. => []
  | .pow _ a _ | .scalarPow a _ _ | .root _ a _ | .compose _ a _ => [a]
  | .linearCombination terms _ => terms.map Prod.fst

/-- **All buffers and arguments of the operation are of the kind.** -/
structure IsOf (kind : ElementKind) (m : Memory) (op : Operation) : Prop where
  windows : ∀ w ∈ op.operands ++ op.results, (m.get w.buffer).IsOf kind
  arguments : ∀ a ∈ op.arguments, a.IsOf kind

/-- The operations whose result may overlap the operands. -/
def mayOverlap : Operation → Bool
  | .binary .add .. | .binary .subtract .. | .binary .remainder .. | .linearCombination .. => true
  | _ => false

/-- **Results are apart** from the operands and from each other, where that is asked for. -/
def Separated (k : Calculus) (op : Operation) : Prop :=
  op.mayOverlap = true ∨
    (∀ r ∈ op.results, ∀ w ∈ op.operands, r.Apart k w) ∧ op.results.Pairwise (Window.Apart k)

/-- **The same operation on other windows**, where `R` relates the operands. -/
inductive Relocated (R : Window → Window → Prop) : Operation → Operation → Prop where
  | binary {a a' b b' : Window} (f : BinaryOperation) (r r' : Window) (ha : R a a') (hb : R b b') :
    Relocated R (.binary f a b r) (.binary f a' b' r')
  | elementary {a a' : Window} (f : Elementary) (r r' : Window) (h : R a a') :
    Relocated R (.elementary f a r) (.elementary f a' r')
  | joint {a a' : Window} (f : JointOperation) (r s r' s' : Window) (h : R a a') :
    Relocated R (.joint f a r s) (.joint f a' r' s')
  | pow {a a' : Window} (e : Argument) (r r' : Window) (h : R a a') :
    Relocated R (.pow a e r) (.pow a' e r')
  | scalarPow {a a' : Window} (e : Argument) (r r' : Window) (h : R a a') :
    Relocated R (.scalarPow e a r) (.scalarPow e a' r')
  | root {a a' : Window} (e : Argument) (r r' : Window) (h : R a a') :
    Relocated R (.root a e r) (.root a' e r')
  | compose {a a' : Window} (e : Argument) (r r' : Window) (h : R a a') :
    Relocated R (.compose a e r) (.compose a' e r')
  | linearCombination {terms terms' : List (Argument × Window)} (r r' : Window)
    (h : List.Forall₂ (fun t t' => t.1 = t'.1 ∧ R t.2 t'.2) terms terms') :
    Relocated R (.linearCombination terms r) (.linearCombination terms' r')

theorem Relocated.refl {R : Window → Window → Prop} (h : ∀ w, R w w) :
    (op : Operation) → Relocated R op op
  | .binary f _ _ r => .binary f r r (h _) (h _)
  | .elementary f _ r => .elementary f r r (h _)
  | .joint f _ r s => .joint f r s r s (h _)
  | .pow _ e r => .pow e r r (h _)
  | .scalarPow e _ r => .scalarPow e r r (h _)
  | .root _ e r => .root e r r (h _)
  | .compose _ e r => .compose e r r (h _)
  | .linearCombination _ r => .linearCombination r r (List.forall₂_same.mpr fun _ _ => ⟨rfl, h _⟩)

/-! ## The first result -/

/-- **What an operation computes** for its result, or for the first one. -/
def resultOf (k : Calculus) (m : Memory) : Operation → Except OperationFault (Jet Scalar)
  | .binary .angle a b r => do
    let v ← angle k m a b r
    return (← angleValue k m a b) ++ v.tail
  | .binary f a b r => binaryResult k m f a b r
  | .elementary f a r => through k m (derivativesOf f) a r
  | .joint f a r _ => through k m (derivativesOf f.first) a r
  | .pow a e r => constantPower k m a e r
  | .scalarPow e a r => scalarPower k m e a r
  | .root a e r => rootOf k m a e r
  | .compose a e r => composeWith k m a e r
  | .linearCombination terms r => combination k m terms r

theorem mem_of_slot {g : Jet Scalar} {s : Scalar} {i : Int} (h : slot g i = .ok s) : s ∈ g := by
  rw [slot] at h
  split at h
  · cases h
    exact mem_of_entryAt? ‹_›
  · cases h

section AngleValue
variable {kind : ElementKind} {k : Calculus} {m : Memory} {a b r : Window}

theorem angleValue_eq {y x : Jet Scalar} (hy : m.jet? k a = some y) (hx : m.jet? k b = some x) :
    angleValue k m a b = (do
      return [← Arithmetic.atan2 (← slot y 0) (← slot x 0)] : Except _ _).mapError .arithmetic := by
  rw [angleValue, read_eq_ok_iff.mpr hy, read_eq_ok_iff.mpr hx]
  show ((slot y 0).mapError OperationFault.arithmetic >>= fun y =>
    (slot x 0).mapError _ >>= fun x => (Arithmetic.atan2 y x).mapError _ >>= fun z => .ok [z]) = _
  cases slot y 0 with
  | error fault => rfl
  | ok y =>
    cases slot x 0 with
    | error fault => rfl
    | ok x =>
      show ((Arithmetic.atan2 y x).mapError _ >>= _) =
        (Arithmetic.atan2 y x >>= fun z => .ok [z]).mapError _
      cases Arithmetic.atan2 y x <;> rfl

/-- **The value of an angle** can be computed if its derivatives can. -/
theorem exists_angleValue (hk : k.IsFull) (ha : (m.get a.buffer).IsOf kind)
    (hb : (m.get b.buffer).IsOf kind) {v : Jet Scalar} (h : angle k m a b r = .ok v) :
    ∃ c, kind.Element c ∧ ∀ (m' : Memory) (a' b' : Window), m.jet? k a = m'.jet? k a' →
      m.jet? k b = m'.jet? k b' → angleValue k m' a' b' = .ok [c] := by
  obtain ⟨y, hy, h⟩ := bind_eq_ok_iff.mp h
  obtain ⟨x, hx, h⟩ := bind_eq_ok_iff.mp h
  obtain ⟨_, -, h⟩ := bind_eq_ok_iff.mp h
  have ordinate := read_eq_ok_iff.mp hy
  have abscissa := read_eq_ok_iff.mp hx
  obtain ⟨⟨y₀, hy₀, fullY⟩, x₀, hx₀, fullX⟩ := values_of_angle hk (mapError_eq_ok_iff.mp h)
  have element : ∀ {w : Window} {g : Jet Scalar} {s : Scalar}, (m.get w.buffer).IsOf kind →
      m.jet? k w = some g → slot g 0 = .ok s → s ≠ .unset → kind.Element s := by
    intro w g s hw hg hs full
    exact (Memory.slot_of_jet? hw hg s (mem_of_slot hs)).resolve_left full
  obtain ⟨c, hc, ec⟩ := ElementKind.atan2_eq_ok (element ha ordinate hy₀ fullY)
    (element hb abscissa hx₀ fullX)
  refine ⟨c, ec, fun m' a' b' sameA sameB => ?_⟩
  rw [angleValue_eq (sameA.symm.trans ordinate) (sameB.symm.trans abscissa), hy₀, hx₀]
  show (Arithmetic.atan2 y₀ x₀ >>= fun z => .ok [z]).mapError _ = _
  rw [hc]
  rfl

end AngleValue

section First
variable {kind : ElementKind} {k : Calculus} (hk : k.IsFull) {m m' : Memory} {op op' : Operation}
include hk

/-- **Angles** with their values. -/
theorem follows_angleResult {a a' b b' r r' : Window} (ha : SameOperand kind k m m' a a')
    (hb : SameOperand kind k m m' b b')
    (hr : checkResult k m r = .ok () → checkResult k m' r' = .ok ()) :
    Follows (kind.SameResult k m r) (resultOf k m (.binary .angle a b r))
      (resultOf k m' (.binary .angle a' b' r')) := by
  intro v hv
  obtain ⟨u, hu, hv⟩ := bind_eq_ok_iff.mp hv
  obtain ⟨u', hu', same⟩ := follows_angle hk ha hb hr u hu
  obtain rfl := same.eq
  obtain ⟨c, hc, value⟩ := exists_angleValue hk ha.left hb.left hu
  rw [value m a b rfl rfl] at hv
  cases hv
  refine ⟨_, bind_eq_ok hu' (bind_eq_ok (value m' a' b' ha.jet hb.jet) rfl), rfl, ⟨?_, ?_⟩,
    same.checked⟩
  · have positive := hk.positive
    rw [List.length_append, List.length_tail, same.fills.length, List.length_singleton]
    omega
  · rintro rfl
    refine exists_wrappedJet_iff.mpr fun s hs => ?_
    rcases List.mem_append.mp hs with first | rest
    · exact List.mem_singleton.mp first ▸ hc
    · exact exists_wrappedJet_iff.mp (same.fills.twin rfl) s (List.mem_of_mem_tail rest)

omit hk in
theorem IsOf.sameOperand (h : op.IsOf kind m) (h' : op'.IsOf kind m') {w w' : Window}
    (hw : w ∈ op.operands) (hw' : w' ∈ op'.operands) (jet : m.jet? k w = m'.jet? k w') :
    SameOperand kind k m m' w w' :=
  ⟨jet, h.windows w (List.mem_append_left _ hw), h'.windows w' (List.mem_append_left _ hw')⟩

/-- **The first result depends on the jets of the operands alone.** -/
theorem follows_resultOf (hop : op.IsOf kind m) (hop' : op'.IsOf kind m')
    (h : op.Relocated (fun w w' => m.jet? k w = m'.jet? k w') op')
    (hr : checkResult k m op.result = .ok () → checkResult k m' op'.result = .ok ()) :
    Follows (kind.SameResult k m op.result) (resultOf k m op) (resultOf k m' op') := by
  cases h with
  | binary f r r' ha hb =>
    have ha := hop.sameOperand hop' List.mem_cons_self List.mem_cons_self ha
    have hb := hop.sameOperand hop' (List.mem_cons_of_mem _ List.mem_cons_self)
      (List.mem_cons_of_mem _ List.mem_cons_self) hb
    cases f with
    | add =>
      exact follows_slotwise ha hb hr (fun _ _ h _ _ h' => h.add h') fun _ _ _ =>
        length_of_zipEach_eq
    | subtract =>
      exact follows_slotwise ha hb hr (fun _ _ h _ _ h' => h.sub h') fun _ _ _ =>
        length_of_zipEach_eq
    | multiply =>
      exact follows_slotwise ha hb hr (fun _ _ h _ _ h' => h.mul k h') fun _ _ _ h _ _ =>
        length_of_mul hk h
    | divide => exact follows_quotient hk ha hb hr
    | remainder =>
      exact follows_slotwise ha hb hr (fun _ _ h _ _ h' => h.remainder h') fun _ _ _ =>
        length_of_remainder
    | power => exact follows_power hk ha hb hr
    | angle => exact follows_angleResult hk ha hb hr
  | elementary f r r' ha =>
    exact follows_through hk (hop.sameOperand hop' List.mem_cons_self List.mem_cons_self ha) hr
      fun _ _ _ h order => ⟨_, twins_wrapped.derivativesOf f h order⟩
  | joint f r s r' s' ha =>
    exact follows_through hk (hop.sameOperand hop' List.mem_cons_self List.mem_cons_self ha) hr
      fun _ _ _ h order => ⟨_, twins_wrapped.derivativesOf f.first h order⟩
  | pow e r r' ha =>
    exact follows_constantPower hk (hop.sameOperand hop' List.mem_cons_self List.mem_cons_self ha)
      hr e
  | scalarPow e r r' ha =>
    exact follows_scalarPower hk (hop.sameOperand hop' List.mem_cons_self List.mem_cons_self ha)
      hr (hop.arguments e List.mem_cons_self)
  | root e r r' ha =>
    exact follows_rootOf hk (hop.sameOperand hop' List.mem_cons_self List.mem_cons_self ha)
      hr (hop.arguments e List.mem_cons_self)
  | compose e r r' ha =>
    exact follows_composeWith hk (hop.sameOperand hop' List.mem_cons_self List.mem_cons_self ha)
      hr (hop.arguments e List.mem_cons_self)
  | linearCombination r r' ht =>
    refine follows_combination hk ((forall₂_mem ht).imp fun t t' h => ?_)
      (fun t ht => hop.arguments t.1 (List.mem_map_of_mem ht)) hr
    obtain ⟨here, there, same, jet⟩ := h
    exact ⟨same, hop.sameOperand hop' (List.mem_map_of_mem here) (List.mem_map_of_mem there) jet⟩

end First

/-! ## How operations end -/

/-- **A computation ends**: it has failed and nothing has changed, or what it computed was
stored. -/
inductive Ends (kind : ElementKind) (k : Calculus) (m : Memory) (r : Window)
    (x : Except OperationFault (Jet Scalar)) (outcome : Except OperationFault Unit × Memory) :
    Prop where
  | fails (fault : OperationFault) (hx : ∀ v, x ≠ .ok v) (h : outcome = (.error fault, m))
  | stores {v stored : Jet Scalar} {after : Memory} (hx : x = .ok v)
    (hs : v.mapM kind.storage.store = .ok stored) (length : stored.length = k.size)
    (h : outcome = (.ok (), after)) (hm : m.Stores k r stored after)

/-- A computation that succeeds ends with its result in the window. -/
theorem Ends.exists_stores {kind : ElementKind} {k : Calculus} {m : Memory} {r : Window}
    {x : Except OperationFault (Jet Scalar)} {outcome : Except OperationFault Unit × Memory}
    {v stored : Jet Scalar} (h : Ends kind k m r x outcome) (hx : x = .ok v)
    (hs : v.mapM kind.storage.store = .ok stored) :
    ∃ after, outcome = (.ok (), after) ∧ m.Stores k r stored after := by
  cases h with
  | fails _ absent => exact absurd hx (absent v)
  | stores hx' hs' _ h hm =>
    obtain rfl := Except.ok.inj (hx.symm.trans hx')
    obtain rfl := Except.ok.inj (hs.symm.trans hs')
    exact ⟨_, h, hm⟩

section Ends
variable {kind : ElementKind} {k : Calculus} {m : Memory} {r : Window}

theorem storageOf_of_jet? {v : Jet Scalar} (hm : (m.get r.buffer).IsOf kind)
    (h : m.jet? k r = some v) : storageOf m r = kind.storage :=
  hm.storage_eq (Memory.jet?_eq_some_iff.mp h).1

/-- What fills a window is stored in it. -/
theorem exists_stores {v : Jet Scalar} (hm : (m.get r.buffer).IsOf kind) (hv : kind.Fills k v)
    (checked : checkResult k m r = .ok ()) : ∃ stored after,
      v.mapM kind.storage.store = .ok stored ∧ stored.length = k.size ∧
        (writeTo r v).run.run m = (.ok (), after) ∧ m.Stores k r stored after := by
  obtain ⟨old, hold⟩ := checkResult_eq_ok_iff.mp checked
  obtain ⟨stored, hs, length⟩ := hv.store
  have hs' : v.mapM (storageOf m r).store = .ok stored := by rwa [storageOf_of_jet? hm hold]
  obtain ⟨after, run, h⟩ := run_writeTo_ok hold hs' (by omega)
  exact ⟨stored, after, hs, length, run, h⟩

theorem ends_compute {f : Memory → Except OperationFault (Jet Scalar)}
    (hm : (m.get r.buffer).IsOf kind) (h : Follows (kind.SameResult k m r) (f m) (f m)) :
    Ends kind k m r (f m) ((compute r f).run.run m) := by
  rw [run_compute]
  cases hf : f m with
  | error fault => exact .fails fault nofun rfl
  | ok v =>
    obtain ⟨_, -, -, fills, checked⟩ := h v hf
    obtain ⟨stored, after, hs, length, run, h⟩ := exists_stores hm fills checked
    exact .stores rfl hs length run h

variable (hk : k.IsFull)
include hk

/-- An operation compared with itself. -/
theorem follows_self {op : Operation} (hop : op.IsOf kind m) :
    Follows (kind.SameResult k m op.result) (resultOf k m op) (resultOf k m op) :=
  follows_resultOf hk hop hop (Relocated.refl (fun _ => by rfl) op) id

omit hk in
theorem run_angle {a b : Window} : (run k (.binary .angle a b r)).run.run m =
    (compute r (angle k · a b r) >>= fun _ =>
      compute r fun _ => angleValue k m a b).run.run m := by
  show ((get : Action Memory) >>= fun start => compute r (angle k · a b r) >>= fun _ =>
    compute r fun _ => angleValue k start a b).run.run m = _
  rw [run_bind]
  rfl

/-- **An angle is stored twice**, the second time nothing but its value. -/
theorem ends_angle {a b : Window} (hop : (Operation.binary .angle a b r).IsOf kind m) :
    Ends kind k m r (resultOf k m (.binary .angle a b r))
      ((run k (.binary .angle a b r)).run.run m) := by
  have ha := hop.sameOperand hop List.mem_cons_self List.mem_cons_self (k := k) (w := a) rfl
  have hb := hop.sameOperand hop (List.mem_cons_of_mem _ List.mem_cons_self)
    (List.mem_cons_of_mem _ List.mem_cons_self) (k := k) (w := b) rfl
  have hr := hop.windows r (by simp [operands, results, result])
  rw [run_angle, run_bind]
  cases ends_compute (f := (angle k · a b r)) hr (follows_angle hk ha hb id) with
  | fails fault hx h =>
    rw [h]
    refine .fails fault (fun v hv => ?_) rfl
    obtain ⟨u, hu, -⟩ := bind_eq_ok_iff.mp hv
    exact hx u hu
  | @stores v stored middle hx hs length h hm =>
    rw [h]
    obtain ⟨c, hc, value⟩ := exists_angleValue hk ha.left hb.left hx
    have computed := value m a b rfl rfl
    obtain ⟨old, before, -⟩ := hm.holds
    have storage := storageOf_of_jet? hr before
    obtain ⟨c', stored', -⟩ := ElementKind.store_eq_ok hc
    have storage' : storageOf middle r = storageOf m r := (hm.changes.shape r.buffer).storage
    have again : [c].mapM (storageOf middle r).store = .ok [c'] := by
      rw [storage', storage, List.mapM_cons, stored']
      rfl
    have room : [c'].length ≤ stored.length := length ▸ hk.positive
    obtain ⟨after, run, hm'⟩ := run_writeTo_ok (hm.jet?_eq length) again (length ▸ room)
    refine .stores (v := [c] ++ v.tail) ?_ ?_ ?_ ?_ (hm.trans hm' room)
    · exact bind_eq_ok hx (bind_eq_ok computed rfl)
    · refine mapM_append (by rw [List.mapM_cons, stored']; rfl) ?_
      rw [List.length_singleton, List.drop_one]
      exact mapM_tail hs
    · rw [List.length_append, List.length_drop, Nat.add_sub_cancel' room, length]
    · show (compute r fun _ => angleValue k m a b).run.run middle = _
      rw [run_compute, computed]
      exact run

omit hk in
theorem result_mem (op : Operation) : op.result ∈ op.results := by
  cases op <;> exact List.mem_cons_self

/-- **Every operation with one result** fails, or stores what it has computed. -/
theorem ends_run {op : Operation} (hop : op.IsOf kind m)
    (single : ∀ f a r s, op ≠ .joint f a r s) :
    Ends kind k m op.result (resultOf k m op) ((run k op).run.run m) := by
  have once : run k op = compute op.result (resultOf k · op) →
      Ends kind k m op.result (resultOf k m op) ((run k op).run.run m) := by
    intro h
    rw [h]
    exact ends_compute (f := (resultOf k · op))
      (hop.windows _ (List.mem_append_right _ (result_mem op))) (follows_self hk hop)
  cases op with
  | binary f a b r =>
    cases f with
    | angle => exact ends_angle hk hop
    | add | subtract | multiply | divide | remainder | power => exact once rfl
  | joint f a r s => exact absurd rfl (single f a r s)
  | elementary | pow | scalarPow | root | compose | linearCombination => exact once rfl

end Ends

end Operation

end JetAlgebra
