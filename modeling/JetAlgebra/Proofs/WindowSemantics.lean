import JetAlgebra.Proofs.OperationResults

/-!
# Operations work on windows

An operation is told where its operands are and where its results go.  On buffers of one kind it
changes nothing but the windows of its results (`WindowSemantics.frame`).  What it leaves there
depends on the jets in the windows of its operands alone, not on where these are or on what else
is in memory (`WindowSemantics.determined`).  And if it fails, nothing has changed, but for the
joint forms: of their results the first one is there if the second one has no window
(`WindowSemantics.failure`).

Both results of a joint form are computed one after the other, and the first may be written over
the operand.  The second one succeeds even so, since there are elements now where elements were
(`follows_half`).
-/
namespace JetAlgebra
open Arithmetic Scalar

namespace Operation

/-! ## Joint forms -/

/-- The functions of a joint form have the derivatives that its cycles have. -/
theorem jointStarts_of_element {kind : ElementKind} (f : JointOperation) {x : Scalar}
    (hx : kind.Element x) : ∃ alternating one two,
      jointStarts f x = .ok (alternating, one, two) ∧
        (∀ order, Outer.cycle alternating (order + 1) one.1 one.2 =
          derivativesOf f.first (kind.storage.alone x) order) ∧
        (∀ order, Outer.cycle alternating (order + 1) two.1 two.2 =
          derivativesOf f.second (kind.storage.alone x) order) ∧
        kind.Elements one.1 two.1 ∧ kind.Elements one.2 two.2 := by
  cases hx <;> cases f <;>
    exact ⟨_, _, _, rfl, fun _ => rfl, fun _ => rfl, ⟨by constructor, by constructor⟩,
      by constructor, by constructor⟩

section Joint
variable {kind : ElementKind} {k : Calculus} {m : Memory} {f : JointOperation} {a r s : Window}
  {g : Jet Scalar} {x : Scalar}

/-- A recipe is asked at the value of its operand, and nowhere else. -/
theorem through_congr {l l' : Scalar → Nat → Except ArithmeticFault (List Scalar)}
    (hm : (m.get a.buffer).IsOf kind) (hg : m.jet? k a = some g) (hx : slot g 0 = .ok x)
    (same : l (kind.storage.alone x) = l' (kind.storage.alone x)) :
    through k m l a r = through k m l' a r := by
  have value : Jet.value kind.storage g = .ok (kind.storage.alone x) := bind_eq_ok hx rfl
  rw [through, through, follow, follow, read_eq_ok_iff.mpr hg, storageOf_of_jet? hm hg]
  show ((Jet.value kind.storage g).mapError _ >>= _) = ((Jet.value kind.storage g).mapError _ >>= _)
  rw [value]
  show ((l (kind.storage.alone x) k.order >>= _).mapError _ >>= _) =
    ((l' (kind.storage.alone x) k.order >>= _).mapError _ >>= _)
  rw [same]

theorem run_joint_of_element (hm : (m.get a.buffer).IsOf kind) (hg : m.jet? k a = some g)
    (hx : slot g 0 = .ok x) (he : kind.Element x) :
    (run k (.joint f a r s)).run.run m =
      (run k (.elementary f.first a r) >>= fun _ => compute s
        (through k · (fun _ => derivativesOf f.second (kind.storage.alone x)) a s)).run.run m := by
  obtain ⟨alternating, one, two, starts, first, second, -⟩ := jointStarts_of_element f he
  have start : (do
      let g ← read k m "operand" a
      jointStarts f (← slot g 0) : Except OperationFault _) = .ok (alternating, one, two) :=
    bind_eq_ok (read_eq_ok_iff.mpr hg)
      (bind_eq_ok (mapError_eq_ok_iff.mpr hx) (mapError_eq_ok_iff.mpr starts))
  have same : through k m (fun _ order => Outer.cycle alternating (order + 1) one.1 one.2) a r =
      through k m (derivativesOf f.first) a r := through_congr hm hg hx (funext first)
  rw [run_joint start, run_bind, run_bind, run, run_compute, run_compute, same, funext second]

/-- A joint form without a value of its operand does nothing. -/
theorem run_joint_error {fault : OperationFault} (h : (do
      let g ← read k m "operand" a
      jointStarts f (← slot g 0) : Except OperationFault _) = .error fault) :
    (run k (.joint f a r s)).run.run m = (.error fault, m) := by
  rw [run, run_bind]
  show (ExceptT.mk (pure (do
    let g ← read k m "operand" a
    jointStarts f (← slot g 0) : Except OperationFault _)) >>=
      fun _ => _ : Action Unit).run.run m = _
  rw [h, run_bind]
  rfl

/-- A joint form has an element to start from, or it does nothing. -/
theorem run_joint_cases (hm : (m.get a.buffer).IsOf kind) :
    (∃ fault, (run k (.joint f a r s)).run.run m = (.error fault, m)) ∨
      ∃ g x, m.jet? k a = some g ∧ slot g 0 = .ok x ∧ kind.Element x := by
  cases h : (do
      let g ← read k m "operand" a
      jointStarts f (← slot g 0) : Except OperationFault _) with
  | error fault => exact .inl ⟨fault, run_joint_error h⟩
  | ok starts =>
    obtain ⟨g, hg, h⟩ := bind_eq_ok_iff.mp h
    obtain ⟨x, hx, h⟩ := bind_eq_ok_iff.mp h
    have there := read_eq_ok_iff.mp hg
    have value := mapError_eq_ok_iff.mp hx
    refine .inr ⟨g, x, there, value, ?_⟩
    refine (Memory.slot_of_jet? hm there x (mem_of_slot value)).resolve_left ?_
    rintro rfl
    cases f <;> cases h

/-- **The same for other elements.**  A composition with the one function can be followed by one
with the other function, where the operand may have other elements by then. -/
theorem follows_half {n : Memory} {g' : Jet Scalar} (hk : k.IsFull)
    (hm : (m.get a.buffer).IsOf kind) (hn : (n.get a.buffer).IsOf kind)
    (hg : m.jet? k a = some g) (hg' : n.jet? k a = some g')
    (refines : List.Forall₂ kind.Refines g g') (hs : checkResult k n s = .ok ())
    {l l' : Nat → Except ArithmeticFault (List Scalar)}
    (hl : Follows (List.Forall₂ kind.Elements) (l k.order) (l' k.order)) :
    Follows (List.Forall₂ kind.Elements) (through k m (fun _ => l) a r)
      (through k n (fun _ => l') a s) := by
  obtain ⟨rows, padding, table⟩ := hk.ofRows
  have value : Follows (fun _ _ => True) (Jet.value kind.storage g) (Jet.value kind.storage g') :=
    (alike_slot refines 0).follows.bind fun _ _ _ => .ok trivial
  rw [through, through, follow, follow, read_eq_ok_iff.mpr hg, read_eq_ok_iff.mpr hg',
    storageOf_of_jet? hm hg, storageOf_of_jet? hn hg']
  refine (value.mapError _).bind fun _ _ _ => ?_
  show Follows _ ((l k.order >>= fun f => .ok (Recipe.compose f)).mapError _ >>= _)
    ((l' k.order >>= fun f => .ok (Recipe.compose f)).mapError _ >>= _)
  have recipe : Follows
      (fun c c' => ∃ f f', c = .compose f ∧ c' = .compose f' ∧ List.Forall₂ kind.Elements f f')
      (l k.order >>= fun f => .ok (Recipe.compose f))
      (l' k.order >>= fun f => .ok (Recipe.compose f)) :=
    hl.bind fun f f' hf => .ok ⟨f, f', rfl, rfl, hf⟩
  refine (recipe.mapError _).bind ?_
  rintro _ _ ⟨f, f', rfl, rfl, hf⟩
  refine .check (fun _ => hs) fun _ => Follows.mapError ?_ _
  exact (Follows.mapM hf fun _ _ h => h.store).bind fun _ _ hf =>
    ElementKind.follows_compose table refines (hf.imp fun _ _ h => .inl h)

/-- The derivatives of both functions of a joint form are elements. -/
theorem follows_derivativesOf (f : JointOperation) (he : kind.Element x) (order : Nat) :
    Follows (List.Forall₂ kind.Elements) (derivativesOf f.first (kind.storage.alone x) order)
        (derivativesOf f.first (kind.storage.alone x) order) ∧
      Follows (List.Forall₂ kind.Elements) (derivativesOf f.first (kind.storage.alone x) order)
        (derivativesOf f.second (kind.storage.alone x) order) := by
  obtain ⟨alternating, one, two, -, first, second, h, h'⟩ := jointStarts_of_element f he
  rw [← first, ← second]
  exact ⟨ElementKind.follows_cycle alternating _ ⟨h.1, h.1⟩ ⟨h'.1, h'.1⟩,
    ElementKind.follows_cycle alternating _ h h'⟩

/-- **How a joint form ends**: without any change, with its first result only, or with both. -/
inductive JointEnds (kind : ElementKind) (k : Calculus) (m : Memory) (f : JointOperation)
    (a r s : Window) (outcome : Except OperationFault Unit × Memory) : Prop where
  | fails (fault : OperationFault) (h : outcome = (.error fault, m))
  | half (fault : OperationFault) {after : Memory} (none : ∀ v, m.jet? k s ≠ some v)
    (changes : m.ChangesOnly k after [r])
    (first : (run k (.elementary f.first a r)).run.run m = (.ok (), after))
    (h : outcome = (.error fault, after))
  | stores {g v v' one two : Jet Scalar} {x : Scalar} {middle after : Memory}
    (hg : m.jet? k a = some g) (hx : slot g 0 = .ok x) (he : kind.Element x)
    (first : resultOf k m (.elementary f.first a r) = .ok v)
    (hs : v.mapM kind.storage.store = .ok one) (length : one.length = k.size)
    (elements : ∀ s ∈ one, kind.Element s) (hm : m.Stores k r one middle)
    (second : through k middle (fun _ => derivativesOf f.second (kind.storage.alone x)) a s =
      .ok v')
    (hs' : v'.mapM kind.storage.store = .ok two) (length' : two.length = k.size)
    (hm' : middle.Stores k s two after) (h : outcome = (.ok (), after))

/-- The second function of a joint form is composed with the operand, as it is by then. -/
theorem follows_second {n n' : Memory} {a' s' : Window} (hk : k.IsFull)
    (ha : SameOperand kind k n n' a a') (he : kind.Element x)
    (hs : checkResult k n s = .ok () → checkResult k n' s' = .ok ()) :
    Follows (kind.SameResult k n s)
      (through k n (fun _ => derivativesOf f.second (kind.storage.alone x)) a s)
      (through k n' (fun _ => derivativesOf f.second (kind.storage.alone x)) a' s') := by
  refine follows_through hk ha hs fun hd _ _ _ order => ?_
  subst hd
  have lenient : ∃ y, WrappedValue (ElementKind.double.storage.alone x) y := by
    cases he <;> exact ⟨_, .intro _⟩
  obtain ⟨y, hy⟩ := lenient
  exact ⟨_, twins_wrapped.derivativesOf f.second hy order⟩

theorem IsOf.first (hop : (Operation.joint f a r s).IsOf kind m) :
    (Operation.elementary f.first a r).IsOf kind m := by
  refine ⟨fun w hw => hop.windows w ?_, nofun⟩
  rcases List.mem_cons.mp hw with rfl | hw
  · exact List.mem_cons_self
  · exact List.mem_cons_of_mem _ (List.mem_singleton.mp hw ▸ List.mem_cons_self)

theorem jointEnds (hk : k.IsFull) (hop : (Operation.joint f a r s).IsOf kind m) :
    JointEnds kind k m f a r s ((run k (.joint f a r s)).run.run m) := by
  have ha := hop.windows a (by simp [operands])
  have hr := hop.windows r (by simp [results])
  have hs := hop.windows s (by simp [results])
  rcases run_joint_cases ha with ⟨fault, h⟩ | ⟨g, x, hg, hx, he⟩
  · exact .fails fault h
  have hop₁ := hop.first
  have derivatives := follows_derivativesOf f he k.order
  rw [run_joint_of_element ha hg hx he, run_bind]
  cases ends_run hk hop₁ (fun _ _ _ _ => Operation.noConfusion) with
  | fails fault _ h => rw [h]; exact .fails fault rfl
  | @stores v one middle first hstore length h hm =>
    rw [h]
    obtain ⟨_, -, -, fills, checked⟩ := follows_self hk hop₁ v first
    have congr : through k m (derivativesOf f.first) a r =
        through k m (fun _ => derivativesOf f.first (kind.storage.alone x)) a r :=
      through_congr ha hg hx rfl
    have same : List.Forall₂ kind.Refines g g := List.forall₂_same.mpr fun s hs =>
      have slot := Memory.slot_of_jet? ha hg s hs
      ⟨slot, slot, id⟩
    -- All slots of the first result are elements, so it may go where the operand is.
    have elements : ∀ s ∈ one, kind.Element s := by
      obtain ⟨v₁, hv₁, values⟩ := follows_half hk ha ha hg hg same checked derivatives.1 v
        (congr.symm.trans first)
      obtain rfl := Except.ok.inj ((congr.symm.trans first).symm.trans hv₁)
      obtain ⟨one', hone', stored⟩ := Follows.mapM values (fun _ _ h => h.store) one hstore
      obtain rfl := Except.ok.inj (hstore.symm.trans hone')
      exact fun s hs => (List.forall₂_same.mp stored s hs).1
    have isOf : ∀ {name : String}, (m.get name).IsOf kind → (middle.get name).IsOf kind :=
      fun h => hm.isOf (fun s hs => .inr (elements s hs)) h
    obtain ⟨g', hg', refines⟩ := hm.refines elements ha hg
    cases ends_compute
        (f := (through k · (fun _ => derivativesOf f.second (kind.storage.alone x)) a s))
        (isOf hs) (follows_second hk ⟨rfl, isOf ha, isOf ha⟩ he id) with
    | fails fault absent h' =>
      refine .half fault (fun u there => ?_) hm.changes h h'
      have valid := checkResult_eq_ok_iff.mpr ((hm.changes.isSome_jet? s).mpr ⟨u, there⟩)
      obtain ⟨v', hv', -⟩ := follows_half hk ha (isOf ha) hg hg' refines valid derivatives.2 v
        (congr.symm.trans first)
      exact absent v' hv'
    | @stores v' two after second hstore' length' h' hm' =>
      exact .stores hg hx he first hstore length elements hm second hstore' length' hm' h'

end Joint

end Operation

/-! ## All operations -/

namespace Tables
open Operation

/-- **What an operation on windows does.** -/
structure WindowSemantics (t : Tables) (kind : ElementKind) (m : Memory) (op : Operation) :
    Prop where
  /-- If it succeeds, only the windows of its results have changed. -/
  frame : ∀ after, (run t.calculus op).run.run m = (.ok (), after) →
    m.ChangesOnly t.calculus after op.results
  /-- And then it succeeds in every memory and with all windows that hold the same operands, if
  there are windows for the results, and it leaves the same results there. -/
  determined : ∀ after, (run t.calculus op).run.run m = (.ok (), after) →
    op.Separated t.calculus → ∀ (m' : Memory) (op' : Operation), op'.IsOf kind m' →
      op.Relocated (fun w w' => m.jet? t.calculus w = m'.jet? t.calculus w') op' →
      op'.Separated t.calculus → (∀ r ∈ op'.results, ∃ v, m'.jet? t.calculus r = some v) →
      ∃ after', (run t.calculus op').run.run m' = (.ok (), after') ∧
        op'.results.map (after'.jet? t.calculus) = op.results.map (after.jet? t.calculus)
  /-- If it fails, nothing has changed, or it is a joint form without a window for its second
  result, and the first result is all there and all that has changed. -/
  failure : ∀ fault after, (run t.calculus op).run.run m = (.error fault, after) →
    after = m ∨ ∃ f a r s, op = .joint f a r s ∧ m.jet? t.calculus s = none ∧
      (run t.calculus (.elementary f.first a r)).run.run m = (.ok (), after) ∧
      m.ChangesOnly t.calculus after [r]

/-- Results of a joint form that are apart from the operand and from each other. -/
theorem apart_of_separated {k : Calculus} {f : JointOperation} {a r s : Window}
    (h : (Operation.joint f a r s).Separated k) : r.Apart k a ∧ r.Apart k s := by
  rcases h with overlap | ⟨operand, pair⟩
  · cases overlap
  · exact ⟨operand r List.mem_cons_self a List.mem_cons_self,
      (List.pairwise_cons.mp pair).1 s List.mem_cons_self⟩

/-- Two windows that are filled one after the other hold both jets. -/
theorem jet?_of_stores {k : Calculus} {m middle after : Memory} {r s : Window}
    {one two : Jet Scalar} (apart : r.Apart k s) (hm : m.Stores k r one middle)
    (length : one.length = k.size)
    (hm' : middle.Stores k s two after) (length' : two.length = k.size) :
    after.jet? k r = some one ∧ after.jet? k s = some two := by
  refine ⟨?_, hm'.jet?_eq length'⟩
  rw [hm'.changes.jet?_eq fun w hw => List.mem_singleton.mp hw ▸ apart.symm, hm.jet?_eq length]

section Semantics
variable {t : Tables} (hk : t.calculus.IsFull) {kind : ElementKind} {m : Memory} {op : Operation}
include hk

theorem windowSemantics_of_single (hop : op.IsOf kind m) (single : ∀ f a r s, op ≠ .joint f a r s) :
    t.WindowSemantics kind m op := by
  have one : op.results = [op.result] := by
    cases op with
    | joint f a r s => exact absurd rfl (single f a r s)
    | _ => rfl
  have ends := ends_run hk hop single
  refine ⟨fun after h => ?_, fun after h _ m' op' hop' related _ windows => ?_,
    fun fault after h => ?_⟩
  · rw [h] at ends
    cases ends with
    | fails _ _ h => cases h
    | stores _ _ _ h hm => cases h; exact one ▸ hm.changes
  · rw [h] at ends
    cases ends with
    | fails _ _ h => cases h
    | @stores v stored _ computed hs length h hm =>
      cases h
      have single' : ∀ f a r s, op' ≠ .joint f a r s := by
        rintro f a r s rfl
        cases related
        exact single _ _ _ _ rfl
      have one' : op'.results = [op'.result] := by
        cases op' with
        | joint f a r s => exact absurd rfl (single' f a r s)
        | _ => rfl
      have checked := checkResult_eq_ok_iff.mpr (windows _ (result_mem op'))
      obtain ⟨_, computed', same⟩ := follows_resultOf hk hop hop' related (fun _ => checked) v
        computed
      obtain rfl := same.eq
      obtain ⟨after', h', hm'⟩ := (ends_run hk hop' single').exists_stores computed' hs
      refine ⟨after', h', ?_⟩
      rw [one, one', List.map_singleton, List.map_singleton, hm.jet?_eq length,
        hm'.jet?_eq length]
  · rw [h] at ends
    cases ends with
    | fails _ _ h => cases h; exact .inl rfl
    | stores _ _ _ h => cases h

/-- A joint form that succeeds does the same in every other place. -/
theorem joint_determined {f : JointOperation} {a r s : Window} {after : Memory}
    (hop : (Operation.joint f a r s).IsOf kind m)
    (h : (run t.calculus (.joint f a r s)).run.run m = (.ok (), after))
    (apart : (Operation.joint f a r s).Separated t.calculus) {m' : Memory} {op' : Operation}
    (hop' : op'.IsOf kind m')
    (related : (Operation.joint f a r s).Relocated
      (fun w w' => m.jet? t.calculus w = m'.jet? t.calculus w') op')
    (apart' : op'.Separated t.calculus)
    (windows : ∀ r ∈ op'.results, ∃ v, m'.jet? t.calculus r = some v) :
    ∃ after', (run t.calculus op').run.run m' = (.ok (), after') ∧
      op'.results.map (after'.jet? t.calculus) = [r, s].map (after.jet? t.calculus) := by
  have ends := jointEnds hk hop
  rw [h] at ends
  cases ends with
  | fails _ h | half _ _ _ _ h => cases h
  | @stores g v v' one two x middle _ hg hx he first hs length elements hm second hs' length' hm'
      h =>
    cases h
    cases related with
    | @joint _ a' _ _ _ r' s' jet =>
      obtain ⟨operand, results⟩ := apart_of_separated apart
      obtain ⟨operand', results'⟩ := apart_of_separated apart'
      have ha := hop.windows a List.mem_cons_self
      have ha' := hop'.windows a' List.mem_cons_self
      have checked := checkResult_eq_ok_iff.mpr (windows r' List.mem_cons_self)
      -- The first result is that of an elementary function.
      obtain ⟨_, first', same⟩ := follows_resultOf hk hop.first hop'.first
        (.elementary f.first r r' jet) (fun _ => checked) v first
      obtain rfl := same.eq
      rw [run_joint_of_element ha' (jet.symm.trans hg) hx he, run_bind]
      obtain ⟨middle', h₁, hm₁⟩ := (ends_run hk hop'.first
        fun _ _ _ _ => Operation.noConfusion).exists_stores first' hs
      rw [h₁]
      -- Both operands are where they were, and so the second results are the same, too.
      have slots : ∀ s ∈ one, kind.Slot s := fun s hs => .inr (elements s hs)
      have same : SameOperand kind t.calculus middle middle' a a' := by
        refine ⟨?_, hm.isOf slots ha, hm₁.isOf slots ha'⟩
        rw [hm.changes.jet?_eq fun w hw => List.mem_singleton.mp hw ▸ operand,
          hm₁.changes.jet?_eq fun w hw => List.mem_singleton.mp hw ▸ operand', jet]
      have checked' := checkResult_eq_ok_iff.mpr ((hm₁.changes.isSome_jet? s').mpr
        (windows s' (List.mem_cons_of_mem _ List.mem_cons_self)))
      obtain ⟨_, second', same'⟩ := follows_second hk same he (fun _ => checked') v' second
      obtain rfl := same'.eq
      obtain ⟨after', h₂, hm₂⟩ := (ends_compute
        (f := (through t.calculus · (fun _ =>
          derivativesOf f.second (kind.storage.alone x)) a' s'))
        (hm₁.isOf slots (hop'.windows s' (by simp [Operation.results])))
        (follows_second hk ⟨rfl, same.right, same.right⟩ he id)).exists_stores second' hs'
      refine ⟨after', h₂, ?_⟩
      obtain ⟨left, right⟩ := jet?_of_stores results hm length hm' length'
      obtain ⟨left', right'⟩ := jet?_of_stores results' hm₁ length hm₂ length'
      show [after'.jet? t.calculus r', after'.jet? t.calculus s'] =
        [after.jet? t.calculus r, after.jet? t.calculus s]
      rw [left, right, left', right']

theorem windowSemantics_of_joint {f : JointOperation} {a r s : Window}
    (hop : (Operation.joint f a r s).IsOf kind m) : t.WindowSemantics kind m (.joint f a r s) := by
  have ends := jointEnds hk hop
  refine ⟨fun after h => ?_, fun _ h apart _ _ hop' related apart' windows =>
    joint_determined hk hop h apart hop' related apart' windows, fun fault after h => ?_⟩
  · rw [h] at ends
    cases ends with
    | fails _ h | half _ _ _ _ h => cases h
    | stores _ _ _ _ _ _ _ hm _ _ _ hm' h =>
      cases h
      exact (hm.changes.trans hm'.changes).mono (by simp [results])
  · rw [h] at ends
    cases ends with
    | fails _ h => cases h; exact .inl rfl
    | half _ none changes first h =>
      cases h
      refine .inr ⟨f, a, r, s, rfl, ?_, first, changes⟩
      cases hj : m.jet? t.calculus s with
      | none => rfl
      | some v => exact absurd hj (none v)
    | stores _ _ _ _ _ _ _ _ _ _ _ _ h => cases h

end Semantics

/-- **Window semantics of every operation**, in every memory of every kind. -/
theorem windowSemantics_of_built {p o : Nat} {t : Tables} (h : Built p o t) {kind : ElementKind}
    {m : Memory} {op : Operation} (hop : op.IsOf kind m) : t.WindowSemantics kind m op := by
  obtain rfl := h.eq_complete
  have full := isFull p o
  cases op with
  | joint f a r s => exact windowSemantics_of_joint full hop
  | binary | elementary | pow | scalarPow | root | compose | linearCombination =>
    exact windowSemantics_of_single full hop nofun

/-- One buffer of rationals with a jet at its start, another slot, and room for three more. -/
def sharedBuffer : Memory := ⟨[("v", .boxed [.rat 1, .rat 2, .rat 3, .unset, .unset, .unset])]⟩

/-- A joint form with all its windows in one buffer, and a sum that is written over its operands,
shifted against the first one. -/
theorem windowSemantics_one_one : Built 1 1 (complete 1 1) ∧
    ∀ op ∈ [Operation.joint .sinCos ⟨"v", 0⟩ ⟨"v", 2⟩ ⟨"v", 4⟩,
        .binary .add ⟨"v", 0⟩ ⟨"v", 1⟩ ⟨"v", 1⟩],
      op.IsOf .rational sharedBuffer ∧ op.Separated (complete 1 1).calculus ∧
        (∃ after, (run (complete 1 1).calculus op).run.run sharedBuffer = (.ok (), after)) ∧
        (complete 1 1).WindowSemantics .rational sharedBuffer op := by
  refine ⟨built_complete 1 1, fun op hop => ?_⟩
  have buffer : (sharedBuffer.get "v").IsOf .rational := by
    refine .boxed ElementKind.noConfusion fun v hv => ?_
    simp only [List.mem_cons, List.not_mem_nil, or_false] at hv
    rcases hv with rfl | rfl | rfl | rfl | rfl | rfl
    · exact .inr (.rat 1)
    · exact .inr (.rat 2)
    · exact .inr (.rat 3)
    all_goals exact .inl rfl
  have kind : op.IsOf .rational sharedBuffer := by
    simp only [List.mem_cons, List.not_mem_nil, or_false] at hop
    rcases hop with rfl | rfl
    · exact ⟨by simpa [operands, results] using buffer, List.forall_mem_nil _⟩
    · exact ⟨by simpa [operands, results, result] using buffer, List.forall_mem_nil _⟩
  refine ⟨kind, ?_, ?_, windowSemantics_of_built (built_complete 1 1) kind⟩
  · simp only [List.mem_cons, List.not_mem_nil, or_false] at hop
    rcases hop with rfl | rfl
    · refine .inr ⟨?_, ?_⟩
      · simp only [results, operands, List.mem_cons, List.not_mem_nil, or_false]
        rintro r (rfl | rfl) w rfl _ <;> decide
      · refine .cons (fun w hw _ => ?_) (List.pairwise_singleton _ _)
        obtain rfl := List.mem_singleton.mp hw
        decide
    · exact .inl rfl
  · simp only [List.mem_cons, List.not_mem_nil, or_false] at hop
    rcases hop with rfl | rfl <;> exact ⟨_, rfl⟩

end Tables

end JetAlgebra
