import JetAlgebra.Proofs.ElementKinds
import JetAlgebra.Proofs.WindowResults

/-!
# What is written to windows

`Memory.jet?` is the jet in a window, if there is such a window; operations read that and nothing
else (`read_eq_ok_iff`), and they check their results for it (`checkResult_eq_ok_iff`).

`Memory.ChangesOnly` is the frame of an operation: buffers keep their representation and their
length, and all slots outside of certain windows are as they were.  So a window that is apart from
those has the same jet as before (`ChangesOnly.jet?_eq`).  A jet that can be stored is stored, and
nothing else happens (`run_writeTo_ok`).
-/
namespace JetAlgebra
open Scalar

/-! ## Buffers -/

namespace Buffer

/-- **A buffer of the kind**, or what is no buffer for jets. -/
inductive IsOf (kind : ElementKind) : Buffer → Prop where
  | packed (h : kind = .double) (slots : List Float) : IsOf kind (.packed slots)
  | boxed {slots : List Scalar} (h : kind ≠ .double) (hs : ∀ v ∈ slots, kind.Slot v) :
    IsOf kind (.boxed slots)
  | words (slots : List Int) : IsOf kind (.words slots)
  | matrix (row : List Float) : IsOf kind (.matrix row)
  | sequence (items : List Scalar) : IsOf kind (.sequence items)

/-- The same representation, and as many slots. -/
inductive SameShape : Buffer → Buffer → Prop where
  | refl (b : Buffer) : SameShape b b
  | packed {xs ys : List Float} (h : ys.length = xs.length) : SameShape (.packed xs) (.packed ys)
  | boxed {xs ys : List Scalar} (h : ys.length = xs.length) : SameShape (.boxed xs) (.boxed ys)

theorem SameShape.trans {b c d : Buffer} (h : SameShape b c) (h' : SameShape c d) :
    SameShape b d := by
  cases h with
  | refl => exact h'
  | packed h =>
    cases h' with
    | refl => exact .packed h
    | packed h' => exact .packed (h'.trans h)
  | boxed h =>
    cases h' with
    | refl => exact .boxed h
    | boxed h' => exact .boxed (h'.trans h)

theorem SameShape.length_scalars {b c : Buffer} (h : SameShape b c) :
    c.scalars.length = b.scalars.length := by
  cases h with
  | refl => rfl
  | packed h => simp [scalars, h]
  | boxed h => exact h

theorem SameShape.storage {b c : Buffer} (h : SameShape b c) : c.storage = b.storage := by
  cases h <;> rfl

theorem SameShape.holdsJets_iff {b c : Buffer} (h : SameShape b c) :
    c.HoldsJets ↔ b.HoldsJets := by
  cases h with
  | refl => exact Iff.rfl
  | packed => exact ⟨fun _ => .packed _, fun _ => .packed _⟩
  | boxed => exact ⟨fun _ => .boxed _, fun _ => .boxed _⟩

/-- Storage like that of a buffer is that of its kind. -/
theorem IsOf.storage_eq {kind : ElementKind} {b : Buffer} (h : b.IsOf kind) (hb : b.HoldsJets) :
    b.storage = kind.storage := by
  cases h with
  | packed h => rw [h]; rfl
  | boxed h =>
    cases kind with
    | double => exact absurd rfl h
    | real | rational => rfl
  | words | matrix | sequence => cases hb

/-! ### Writing slots -/

theorem length_writeBoxed (values : List Scalar) : ∀ (slots : List Scalar) (n : Nat),
    (writeBoxed slots n values).length = slots.length := by
  induction values with
  | nil => exact fun _ _ => rfl
  | cons v values ih => exact fun slots n => (ih _ _).trans List.length_set

/-- **The slots that were written**, and all others. -/
theorem getElem?_writeBoxed {slots values : List Scalar} {n : Nat}
    (h : n + values.length ≤ slots.length) (i : Nat) : (writeBoxed slots n values)[i]? =
      if n ≤ i ∧ i < n + values.length then values[i - n]? else slots[i]? := by
  have before : (slots.take n).length = n := List.length_take_of_le (by omega)
  rw [writeBoxed_eq h, List.append_assoc]
  by_cases low : i < n
  · rw [List.getElem?_append_left (by omega), List.getElem?_take_of_lt low, if_neg (by omega)]
  · rw [List.getElem?_append_right (by omega), before]
    by_cases written : i < n + values.length
    · rw [List.getElem?_append_left (by omega), if_pos (by omega)]
    · rw [List.getElem?_append_right (by omega), List.getElem?_drop, if_neg (by omega)]
      congr 1
      omega

/-- What is stored in packed slots are strict doubles. -/
theorem writePacked_eq {values : List Scalar} : ∀ {stored : List Scalar} (slots : List Float)
    (n : Nat), values.mapM packedStorage.store = .ok stored → ∃ after : List Float,
      writePacked slots n values = (after, .ok ()) ∧
        after.map .strict = writeBoxed (slots.map .strict) n stored := by
  induction values with
  | nil =>
    intro stored slots n h
    cases h
    exact ⟨slots, rfl, rfl⟩
  | cons v values ih =>
    intro stored slots n h
    obtain ⟨s, rest, hs, hrest, rfl⟩ := of_mapM_cons h
    obtain ⟨x, collected, hx⟩ := bind_eq_ok_iff.mp hs
    cases hx
    obtain ⟨after, written, same⟩ := ih (slots.set n x) (n + 1) hrest
    refine ⟨after, ?_, ?_⟩
    · rw [writePacked, collected]
      exact written
    · rw [same, writeBoxed, List.map_set]

/-- Slots that keep what they are given are given what is stored. -/
theorem mapM_faithful (values : List Scalar) :
    values.mapM (Storage.faithful : Storage Scalar).store = .ok values := by
  have same : values.mapM (Storage.faithful : Storage Scalar).store = .ok (values.map id) :=
    mapM_eq_ok fun _ _ => rfl
  rwa [List.map_id] at same

/-- **Scalars that can be stored are stored**, and the buffer keeps its shape. -/
theorem write_eq {b : Buffer} {values stored : List Scalar} {n : Nat} (hb : b.HoldsJets)
    (hs : values.mapM b.storage.store = .ok stored) :
    ∃ after, b.write n values = (after, .ok ()) ∧ b.SameShape after ∧
      after.scalars = writeBoxed b.scalars n stored := by
  cases hb with
  | packed slots =>
    obtain ⟨after, written, same⟩ := writePacked_eq slots n hs
    refine ⟨.packed after, by rw [write, written], .packed ?_, same⟩
    simpa [length_writeBoxed] using congrArg List.length same
  | boxed slots =>
    obtain rfl : values = stored := Except.ok.inj ((mapM_faithful values).symm.trans hs)
    exact ⟨_, rfl, .boxed (length_writeBoxed values slots n), rfl⟩

/-- **Scalars that can be stored are packed** into a new buffer of their number, as a composition
packs the derivatives that it is handed in a list. -/
theorem pack?_eq {b : Buffer} {values stored : List Scalar} (hb : b.HoldsJets)
    (hs : values.mapM b.storage.store = .ok stored) :
    ∃ after, b.pack? values = some (.ok after) ∧ after.storage = b.storage ∧
      after.scalars = stored := by
  have fresh : ∃ c, b.scratch? values.length = some c ∧ c.HoldsJets ∧ b.storage = c.storage ∧
      c.scalars.length = stored.length := by
    have length := length_of_mapM hs
    cases hb with
    | packed => exact ⟨_, rfl, .packed _, rfl, by simp [scalars, length]⟩
    | boxed => exact ⟨_, rfl, .boxed _, rfl, by simp [scalars, length]⟩
  obtain ⟨c, new, hc, storage, length⟩ := fresh
  obtain ⟨after, written, shape, scalars⟩ := write_eq (n := 0) hc (storage ▸ hs)
  have all : writeBoxed c.scalars 0 stored = stored := by
    simpa using writeBoxed_append [] c.scalars [] length
  refine ⟨after, ?_, shape.storage.trans storage.symm, scalars.trans all⟩
  rw [pack?, new, Option.map_some, written]
end Buffer

theorem slice_natCast {α : Type} (xs : List α) (n size : Nat) :
    slice xs (n : Int) (n + size : Int) = (xs.take (n + size)).drop n := by
  have start : ¬ (n : Int) < 0 := by omega
  have stop : ¬ (n : Int) + size < 0 := by omega
  simp only [slice, if_neg start, if_neg stop, Int.toNat_natCast]
  rfl

/-! ## Memory -/

/-- Two windows of jets that have no slot in common. -/
def Window.Apart (k : Calculus) (v w : Window) : Prop :=
  v.buffer = w.buffer → v.offset + k.size ≤ w.offset ∨ w.offset + k.size ≤ v.offset

theorem Window.Apart.symm {k : Calculus} {v w : Window} (h : v.Apart k w) : w.Apart k v :=
  fun same => (h same.symm).symm

/-- The slots of a window. -/
def Window.Covers (k : Calculus) (w : Window) (name : String) (i : Nat) : Prop :=
  w.buffer = name ∧ w.offset ≤ i ∧ i < w.offset + k.size

namespace Memory

/-- **The jet in a window**, if the window lies in a buffer for jets. -/
def jet? (m : Memory) (k : Calculus) (w : Window) : Option (Jet Scalar) :=
  ((m.get w.buffer).window "" w.offset k.size).toOption

/-- **Only slots in these windows have changed**: every buffer has its representation and its
length, and every other slot is as it was. -/
structure ChangesOnly (k : Calculus) (m after : Memory) (windows : List Window) : Prop where
  shape : ∀ name, (m.get name).SameShape (after.get name)
  outside : ∀ name i, (∀ w ∈ windows, ¬ w.Covers k name i) →
    (after.get name).scalars[i]? = (m.get name).scalars[i]?

variable {k : Calculus} {m after : Memory} {w : Window} {v : Jet Scalar}

theorem get_set_ne {name other : String} (h : other ≠ name) (b : Buffer) :
    (m.set name b).get other = m.get other := by
  obtain ⟨buffers⟩ := m
  rw [get, get]
  congr 1
  induction buffers with
  | nil => rfl
  | cons entry buffers ih =>
    rw [set, List.map_cons, List.lookup_cons, List.lookup_cons]
    by_cases here : entry.1 = name
    · have left : (other == name) = false := beq_false_of_ne h
      rw [if_pos here, here, left]
      exact ih
    · rw [if_neg here]
      cases other == entry.1 with
      | true => rfl
      | false => exact ih

/-- **There is a jet** in a window that lies in a buffer for jets, and it has all its slots. -/
theorem jet?_eq_some_iff : m.jet? k w = some v ↔ (m.get w.buffer).HoldsJets ∧
    ∃ n : Nat, w.offset = n ∧ n + k.size ≤ (m.get w.buffer).scalars.length ∧
      v = ((m.get w.buffer).scalars.take (n + k.size)).drop n := by
  rw [jet?, Buffer.window]
  constructor
  · intro h
    cases hc : (m.get w.buffer).check "" w.offset k.size with
    | error fault => rw [hc] at h; cases h
    | ok =>
      rw [hc] at h
      obtain ⟨holds, start, stop⟩ := Buffer.check_eq_ok_iff.mp hc
      obtain ⟨n, hn⟩ := Int.eq_ofNat_of_zero_le start
      refine ⟨holds, n, hn, by omega, ?_⟩
      rw [← Option.some.inj h, hn]
      exact slice_natCast _ n k.size
  · rintro ⟨holds, n, hn, stop, rfl⟩
    rw [hn, Buffer.check_eq_ok_iff.mpr ⟨holds, by omega, by omega⟩, ← slice_natCast]
    rfl

theorem length_of_jet? (h : m.jet? k w = some v) : v.length = k.size := by
  obtain ⟨-, n, -, stop, rfl⟩ := jet?_eq_some_iff.mp h
  rw [List.length_drop, List.length_take]
  omega

/-- The slots of a jet, where they are in the buffer. -/
theorem getElem?_of_jet? (h : m.jet? k w = some v) {n i : Nat} (hn : w.offset = n)
    (hi : i < k.size) : v[i]? = (m.get w.buffer).scalars[n + i]? := by
  obtain ⟨-, n', hn', stop, rfl⟩ := jet?_eq_some_iff.mp h
  obtain rfl : n' = n := by omega
  rw [List.getElem?_drop, List.getElem?_take_of_lt (by omega)]

/-- What a buffer holds is of its kind. -/
theorem slot_of_jet? {kind : ElementKind} (hb : (m.get w.buffer).IsOf kind)
    (h : m.jet? k w = some v) : ∀ s ∈ v, kind.Slot s := by
  obtain ⟨holds, n, -, -, rfl⟩ := jet?_eq_some_iff.mp h
  intro s hs
  have there := List.mem_of_mem_take (List.mem_of_mem_drop hs)
  cases hm : m.get w.buffer with
  | packed slots =>
    rw [hm] at hb there
    cases hb with
    | packed hk =>
      obtain ⟨x, -, rfl⟩ := List.mem_map.mp there
      exact hk ▸ .inr (.strict x)
  | boxed slots =>
    rw [hm] at hb there
    cases hb with
    | boxed _ hs => exact hs s there
  | words | matrix | sequence => rw [hm] at holds; cases holds

namespace ChangesOnly
variable {windows windows' : List Window}

theorem refl (k : Calculus) (m : Memory) : m.ChangesOnly k m [] :=
  ⟨fun _ => .refl _, fun _ _ _ => rfl⟩

/-- **Changes one after the other.** -/
theorem trans {last : Memory} (h : m.ChangesOnly k after windows)
    (h' : after.ChangesOnly k last windows') : m.ChangesOnly k last (windows ++ windows') := by
  refine ⟨fun name => (h.shape name).trans (h'.shape name), fun name i outside => ?_⟩
  rw [h'.outside name i fun w hw => outside w (List.mem_append_right _ hw)]
  exact h.outside name i fun w hw => outside w (List.mem_append_left _ hw)

theorem mono (h : m.ChangesOnly k after windows) (hw : windows ⊆ windows') :
    m.ChangesOnly k after windows' :=
  ⟨h.shape, fun name i outside => h.outside name i fun w hm => outside w (hw hm)⟩

/-- There are the same windows as before. -/
theorem isSome_jet? (h : m.ChangesOnly k after windows) (w : Window) :
    (∃ v, after.jet? k w = some v) ↔ ∃ v, m.jet? k w = some v := by
  have shape := h.shape w.buffer
  simp only [jet?_eq_some_iff, shape.holdsJets_iff, shape.length_scalars]
  constructor <;> rintro ⟨-, holds, n, hn, stop, -⟩ <;> exact ⟨_, holds, n, hn, stop, rfl⟩

/-- **A window that is apart from the changes** has its jet still. -/
theorem jet?_eq (h : m.ChangesOnly k after windows) (hw : ∀ r ∈ windows, r.Apart k w) :
    after.jet? k w = m.jet? k w := by
  refine Option.ext fun v => ?_
  have shape := h.shape w.buffer
  rw [jet?_eq_some_iff, jet?_eq_some_iff, shape.holdsJets_iff, shape.length_scalars]
  refine and_congr_right fun _ => exists_congr fun n => and_congr_right fun hn =>
    and_congr_right fun _ => ?_
  have same : ((after.get w.buffer).scalars.take (n + k.size)).drop n =
      ((m.get w.buffer).scalars.take (n + k.size)).drop n := by
    refine List.ext_getElem? fun i => ?_
    rw [List.getElem?_drop, List.getElem?_drop, List.getElem?_take, List.getElem?_take]
    by_cases hi : n + i < n + k.size
    · rw [if_pos hi, if_pos hi]
      refine h.outside w.buffer (n + i) fun r hr => ?_
      rintro ⟨same, start, stop⟩
      have apart := hw r hr same
      omega
    · rw [if_neg hi, if_neg hi]
  rw [same]

end ChangesOnly

/-- **An initial part of a window was stored**, and nothing else has changed. -/
structure Stores (k : Calculus) (m : Memory) (w : Window) (stored : Jet Scalar) (after : Memory) :
    Prop where
  changes : m.ChangesOnly k after [w]
  holds : ∃ old, m.jet? k w = some old ∧
    after.jet? k w = some (stored ++ old.drop stored.length)

namespace Stores
variable {stored : Jet Scalar}

/-- A slot is one that was stored, or it is what it was. -/
theorem slot_cases (h : m.Stores k w stored after) {name : String} {i : Nat} {s : Scalar}
    (there : (after.get name).scalars[i]? = some s) :
    s ∈ stored ∨ (m.get name).scalars[i]? = some s := by
  obtain ⟨changes, old, before, now⟩ := h
  by_cases covered : w.Covers k name i
  · obtain ⟨rfl, start, stop⟩ := covered
    obtain ⟨-, n, hn, -, -⟩ := jet?_eq_some_iff.mp before
    obtain ⟨j, rfl⟩ := Nat.exists_eq_add_of_le (show n ≤ i by omega)
    rw [← getElem?_of_jet? now hn (by omega)] at there
    rcases List.mem_append.mp (List.mem_of_getElem? there) with written | kept
    · exact .inl written
    · by_cases low : j < stored.length
      · rw [List.getElem?_append_left low] at there
        exact .inl (List.mem_of_getElem? there)
      · rw [List.getElem?_append_right (by omega), List.getElem?_drop,
          Nat.add_sub_cancel' (by omega), getElem?_of_jet? before hn (by omega)] at there
        exact .inr there
  · refine .inr ((changes.outside name i fun r hr => ?_).symm.trans there)
    rwa [List.mem_singleton.mp hr]

/-- **A part of what was stored is stored again.** -/
theorem trans {last : Memory} {again : Jet Scalar} (h : m.Stores k w stored after)
    (h' : after.Stores k w again last) (hl : again.length ≤ stored.length) :
    m.Stores k w (again ++ stored.drop again.length) last := by
  obtain ⟨old, before, now⟩ := h.holds
  obtain ⟨old', now', ends⟩ := h'.holds
  obtain rfl := Option.some.inj (now.symm.trans now')
  refine ⟨(h.changes.trans h'.changes).mono (by simp), old, before, ?_⟩
  rw [ends, List.drop_append_of_le_length hl, List.append_assoc, List.length_append,
    List.length_drop, Nat.add_sub_cancel' hl]

/-- A window that was filled has nothing but what was stored. -/
theorem jet?_eq (h : m.Stores k w stored after) (hl : stored.length = k.size) :
    after.jet? k w = some stored := by
  obtain ⟨old, before, now⟩ := h.holds
  rw [now, List.drop_of_length_le (by rw [length_of_jet? before, hl]), List.append_nil]

/-- A buffer in which slots of the kind were stored is of the kind still. -/
theorem isOf {kind : ElementKind} (h : m.Stores k w stored after)
    (hs : ∀ s ∈ stored, kind.Slot s) {name : String} (hm : (m.get name).IsOf kind) :
    (after.get name).IsOf kind := by
  have slots : ∀ (i : Nat) (s : Scalar), (after.get name).scalars[i]? = some s →
      s ∈ stored ∨ (m.get name).scalars[i]? = some s := fun _ _ => h.slot_cases
  have shape := h.changes.shape name
  generalize after.get name = b at slots shape
  generalize m.get name = a at slots shape hm
  cases shape with
  | refl => exact hm
  | packed =>
    cases hm with
    | packed hk => exact .packed hk _
  | boxed =>
    cases hm with
    | boxed hk there =>
      refine .boxed hk fun s hmem => ?_
      obtain ⟨i, hi⟩ := List.mem_iff_getElem?.mp hmem
      rcases slots i s hi with stored | old
      · exact hs s stored
      · exact there s (List.mem_of_getElem? old)

/-- **A jet where elements were stored** has elements where it had some. -/
theorem refines {kind : ElementKind} {g : Jet Scalar} {operand : Window}
    (h : m.Stores k w stored after) (hs : ∀ s ∈ stored, kind.Element s)
    (hm : (m.get operand.buffer).IsOf kind) (hg : m.jet? k operand = some g) :
    ∃ g', after.jet? k operand = some g' ∧ List.Forall₂ kind.Refines g g' := by
  obtain ⟨g', hg'⟩ := (h.changes.isSome_jet? operand).mpr ⟨g, hg⟩
  refine ⟨g', hg', List.forall₂_iff_get.mpr ⟨?_, fun i hi hi' => ?_⟩⟩
  · rw [length_of_jet? hg, length_of_jet? hg']
  · obtain ⟨-, n, hn, -, -⟩ := jet?_eq_some_iff.mp hg
    have inside : i < k.size := length_of_jet? hg ▸ hi
    have old := getElem?_of_jet? hg hn inside
    have new := getElem?_of_jet? hg' hn inside
    rw [List.getElem?_eq_getElem hi] at old
    rw [List.getElem?_eq_getElem hi'] at new
    have left := slot_of_jet? hm hg g[i] (List.getElem_mem hi)
    simp only [List.get_eq_getElem]
    rcases h.slot_cases new.symm with written | same
    · exact ⟨left, .inr (hs _ written), fun _ => hs _ written⟩
    · have equal : g[i] = g'[i] := Option.some.inj (old.trans same)
      exact ⟨left, equal ▸ left, fun element => equal ▸ element⟩

end Stores

end Memory

/-! ## Reading and storing -/

section Actions
variable {k : Calculus} {m : Memory} {w : Window} {v : Jet Scalar}

theorem window_name (b : Buffer) (name : String) (offset size : Int) :
    b.window name offset size = .ok v ↔ b.window "" offset size = .ok v := by
  rw [Buffer.window, Buffer.window, bind_eq_ok_iff, bind_eq_ok_iff]
  refine exists_congr fun _ => and_congr_left fun _ => ?_
  rw [Buffer.check_eq_ok_iff, Buffer.check_eq_ok_iff]

/-- **Reading a window** gives the jet in it. -/
theorem read_eq_ok_iff {name : String} :
    Operation.read k m name w = .ok v ↔ m.jet? k w = some v := by
  show ((m.get w.buffer).window name w.offset k.size).mapError OperationFault.window = _ ↔ _
  rw [mapError_eq_ok_iff, window_name, Memory.jet?]
  cases (m.get w.buffer).window "" w.offset k.size with
  | error fault => exact ⟨fun h => (nomatch h), fun h => (nomatch h)⟩
  | ok u =>
    exact ⟨fun h => congrArg some (Except.ok.inj h), fun h => congrArg _ (Option.some.inj h)⟩

/-- **A result may go** wherever there is a jet already. -/
theorem checkResult_eq_ok_iff :
    Operation.checkResult k m w = .ok () ↔ ∃ v, m.jet? k w = some v := by
  show ((m.get w.buffer).check "result" w.offset k.size).mapError OperationFault.window = _ ↔ _
  rw [mapError_eq_ok_iff, Buffer.check_eq_ok_iff]
  simp only [Memory.jet?_eq_some_iff]
  constructor
  · rintro ⟨holds, start, stop⟩
    exact ⟨_, holds, w.offset.toNat, by omega, by omega, rfl⟩
  · rintro ⟨-, holds, n, hn, stop, -⟩
    exact ⟨holds, by omega⟩

/-- **What can be stored in a window is stored**, and nothing else happens. -/
theorem run_writeTo_ok {stored old : Jet Scalar} (hw : m.jet? k w = some old)
    (hs : v.mapM (Operation.storageOf m w).store = .ok stored) (hl : stored.length ≤ k.size) :
    ∃ after, (Operation.writeTo w v).run.run m = (.ok (), after) ∧ m.Stores k w stored after := by
  obtain ⟨holds, n, hn, stop, -⟩ := Memory.jet?_eq_some_iff.mp hw
  obtain ⟨b, written, shape, scalars⟩ := Buffer.write_eq (n := n) holds hs
  have present : m.get w.buffer ≠ .sequence [] := fun absent => by rw [absent] at holds; cases holds
  have here : (m.set w.buffer b).get w.buffer = b := Memory.get_set present b
  have room : n + stored.length ≤ (m.get w.buffer).scalars.length := by omega
  have shapes : ∀ name, (m.get name).SameShape ((m.set w.buffer b).get name) := by
    intro name
    by_cases same : name = w.buffer
    · rw [same, here]
      exact shape
    · rw [Memory.get_set_ne same]
      exact .refl _
  have slots : ∀ name i, ((m.set w.buffer b).get name).scalars[i]? =
      if name = w.buffer ∧ n ≤ i ∧ i < n + stored.length then stored[i - n]?
      else (m.get name).scalars[i]? := by
    intro name i
    by_cases same : name = w.buffer
    · rw [same, here, scalars, Buffer.getElem?_writeBoxed room]
      simp
    · rw [Memory.get_set_ne same, if_neg fun h => same h.1]
  have changes : m.ChangesOnly k (m.set w.buffer b) [w] := by
    refine ⟨shapes, fun name i outside => ?_⟩
    rw [slots, if_neg]
    rintro ⟨same, low, high⟩
    exact outside w List.mem_cons_self ⟨same.symm, by omega, by omega⟩
  refine ⟨m.set w.buffer b, ?_, changes, old, hw, ?_⟩
  · rw [run_writeTo, hn, Int.toNat_natCast, written]
  · obtain ⟨u, hu⟩ := (changes.isSome_jet? w).mpr ⟨_, hw⟩
    rw [hu]
    refine congrArg some (List.ext_getElem? fun i => ?_)
    by_cases inside : i < k.size
    · rw [Memory.getElem?_of_jet? hu hn inside, slots]
      by_cases low : i < stored.length
      · rw [if_pos ⟨rfl, by omega, by omega⟩, List.getElem?_append_left low,
          Nat.add_sub_cancel_left]
      · rw [if_neg (by omega), List.getElem?_append_right (by omega), List.getElem?_drop,
          Nat.add_sub_cancel' (by omega), Memory.getElem?_of_jet? hw hn inside]
    · have length := Memory.length_of_jet? hw
      have length' := Memory.length_of_jet? hu
      rw [List.getElem?_eq_none (by omega), List.getElem?_eq_none (by simp; omega)]

end Actions

end JetAlgebra
