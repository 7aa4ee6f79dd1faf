import JetAlgebra.Proofs.GridFilling
import JetAlgebra.Proofs.Interleaving

/-!
# Interleaved lookups are safe

What a lookup relies on is only that the others let the registry grow: `Registry.Extends`.  A
lookup that started from an older snapshot stays sound (`Lookup.Sound.mono`), because snapshots
are told apart by their stamps: either the snapshot is still the published one, and publishing
only adds cells to it, or it is not and publishing fails.  What a lookup guarantees for its part
is `Advance.guarantee`.

Every run starting from an empty registry keeps this up (`System.sound_of_run`), and
`System.IsSafe` collects what it means for callers.
-/
namespace JetAlgebra
open Tables Grid

namespace Registry
variable {r r' r'' : Registry} {readFrom : Option Snapshot}

/-- The published grid is sound, and the next stamp is a new one. -/
structure Sound (r : Registry) : Prop where
  grid : r.grid.Sound
  stamp : ∀ {t}, r.published.current = some t → t.stamp < r.nextStamp

/-- **What happens to a registry** while lookups go on: what is published is kept, and if
something else is published then it has a new stamp. -/
structure Extends (r r' : Registry) : Prop where
  keeps : Keeps r.grid r'.grid
  serial : r.nextSerial ≤ r'.nextSerial
  stamp : r.nextStamp ≤ r'.nextStamp
  published : r'.published = r.published ∨
    ∃ t, r'.published.current = some t ∧ r.nextStamp ≤ t.stamp

theorem Extends.refl (r : Registry) : r.Extends r :=
  ⟨Keeps.refl _, le_rfl, le_rfl, Or.inl rfl⟩

theorem Extends.trans (h : r.Extends r') (h' : r'.Extends r'') : r.Extends r'' where
  keeps := h.keeps.trans h'.keeps
  serial := h.serial.trans h'.serial
  stamp := h.stamp.trans h'.stamp
  published := by
    rcases h'.published with hp | ⟨t, ht, hle⟩
    · rw [hp]
      exact h.published
    · exact Or.inr ⟨t, ht, h.stamp.trans hle⟩

/-- The cells of the snapshot that a lookup read. -/
def cellsOf (readFrom : Option Snapshot) : Grid := (readFrom.map Snapshot.grid).getD []

/-- **A snapshot that was read** some time ago is the published one, or has another stamp. -/
structure Read (r : Registry) (readFrom : Option Snapshot) : Prop where
  older : ∀ {t}, readFrom = some t → t.stamp < r.nextStamp
  same : (r.published.current == readFrom) = true → r.published.current = readFrom

theorem Sound.read (h : r.Sound) : r.Read r.published.current := ⟨h.stamp, fun _ => rfl⟩

theorem Read.mono (h : r.Read readFrom) (hr : r.Extends r') : r'.Read readFrom := by
  refine ⟨fun ht => Nat.lt_of_lt_of_le (h.older ht) hr.stamp, fun he => ?_⟩
  rcases hr.published with hp | ⟨t, ht, hle⟩
  · rw [hp] at he ⊢
    exact h.same he
  · -- The stamp of the new snapshot is too large for the old one.
    rw [ht] at he
    cases readFrom with
    | none => exact absurd he Bool.false_ne_true
    | some u =>
      have stamps : t.stamp = u.stamp := beq_iff_eq.mp he
      have := h.older rfl
      omega

/-- Numbering new rules changes nothing else. -/
theorem extends_nextSerial {n : Nat} (hn : r.nextSerial ≤ n) :
    r.Extends { r with nextSerial := n } :=
  ⟨Keeps.refl _, hn, le_rfl, Or.inl rfl⟩

/-- **All that publishing can do.** -/
theorem publish_cases (r : Registry) (readFrom : Option Snapshot) (g : Grid) :
    ((r.published.current == readFrom) = true ∧ (r.publish readFrom g).2 =
      { r with published := ⟨some ⟨r.nextStamp, g⟩⟩, nextStamp := r.nextStamp + 1 }) ∨
    (r.publish readFrom g).2 = { r with nextStamp := r.nextStamp + 1 } := by
  rw [publish, AtomicReference.compareAndSet]
  by_cases h : (r.published.current == readFrom) = true
  · exact Or.inl ⟨h, by rw [if_pos h]⟩
  · exact Or.inr (by rw [if_neg h])

/-- **Publishing a grid** that keeps the cells of the snapshot it was filled from. -/
theorem publish_spec (h : r.Sound) (hread : r.Read readFrom) {g : Grid} (hg : g.Sound)
    (hkeeps : Keeps (cellsOf readFrom) g) :
    (r.publish readFrom g).2.Sound ∧ r.Extends (r.publish readFrom g).2 := by
  rcases publish_cases r readFrom g with ⟨he, hp⟩ | hp
  · rw [hp]
    refine ⟨⟨hg, fun ht => ?_⟩, ?_, le_rfl, Nat.le_succ _, Or.inr ⟨_, rfl, le_rfl⟩⟩
    · rw [← Option.some.inj ht]
      exact Nat.lt_succ_self _
    · have read : r.grid = cellsOf readFrom := by rw [grid, hread.same he, cellsOf]
      rw [read]
      exact hkeeps
  · rw [hp]
    exact ⟨⟨h.grid, fun ht => Nat.lt_succ_of_lt (h.stamp ht)⟩, Keeps.refl _, le_rfl, Nat.le_succ _,
      Or.inl rfl⟩

end Registry

/-! ## Lookups -/

/-- **What a lookup has so far is sound**, with respect to the registry it will publish to. -/
def Lookup.Sound (r : Registry) : Lookup → Prop
  | .filling s readFrom f rest => r.Read readFrom ∧ Keeps (Registry.cellsOf readFrom) f.grid ∧
      Fills s.parameters s.order f.grid rest
  | .returned s rules => rules.tables = complete s.parameters s.order
  | _ => True

/-- **Other lookups do no harm.** -/
theorem Lookup.Sound.mono {r r' : Registry} {l : Lookup} (h : l.Sound r) (hr : r.Extends r') :
    l.Sound r' := by
  cases l with
  | filling s readFrom f rest => exact ⟨h.1.mono hr, h.2⟩
  | returned s rules => exact h
  | _ => trivial

namespace Advance
variable {r r' : Registry} {l l' : Lookup}

/-- **A step keeps the registry and its own lookup sound**, and does no harm to others. -/
theorem guarantee (h : Advance r l r' l') (hr : r.Sound) (hl : l.Sound r) :
    r'.Sound ∧ l'.Sound r' ∧ r.Extends r' := by
  cases h with
  | hit h => exact ⟨hr, hr.grid.canonical h, .refl r⟩
  | @miss _ s h =>
    obtain ⟨fills, keeps⟩ := Fills.start hr.grid s.parameters s.order
    exact ⟨hr, ⟨hr.read, keeps, fills⟩, .refl r⟩
  | @fill _ _ s readFrom f =>
    obtain ⟨read, keeps, fills⟩ := hl
    rcases Filling.fillCell_cases (f := { f with nextSerial := r.nextSerial }) fills ‹_› with
      ⟨-, there, rfl⟩ | ⟨-, hn, -, rfl⟩ | ⟨reason, he, -⟩
    · exact ⟨hr, ⟨read, keeps, fills.skip there⟩, .refl r⟩
    · have grown := Registry.extends_nextSerial (Nat.le_succ r.nextSerial)
      exact ⟨⟨hr.grid, hr.stamp⟩, ⟨read.mono grown, keeps.trans (fills.keeps_set hn _),
        fills.set hn rfl⟩, grown⟩
    · cases he
  | @refuse _ _ s readFrom f =>
    rcases Filling.fillCell_cases (f := { f with nextSerial := r.nextSerial }) hl.2.2 ‹_› with
      ⟨he, -⟩ | ⟨he, -⟩ | ⟨reason, -, -, -, rfl⟩
    · cases he
    · cases he
    · exact ⟨hr, trivial, .refl r⟩
  | publish =>
    obtain ⟨read, keeps, fills⟩ := hl
    obtain ⟨rules, -, answer, ht⟩ := fills.exists_rules
    obtain ⟨sound, grown⟩ := Registry.publish_spec hr read fills.sound keeps
    exact ⟨sound, by rw [answer]; exact ht, grown⟩
  | lose =>
    obtain ⟨rules, -, answer, ht⟩ := hl.2.2.exists_rules
    exact ⟨hr, by rw [answer]; exact ht, .refl r⟩

end Advance

/-! ## Systems -/

namespace System

/-- The registry and all lookups are sound. -/
structure Sound (sys : System) : Prop where
  registry : sys.registry.Sound
  lookups : ∀ l ∈ sys.lookups, l.Sound sys.registry

theorem sound_initial : Sound {} where
  registry := ⟨sound_nil, fun h => by cases h⟩
  lookups _ h := absurd h List.not_mem_nil

/-- **A step keeps a system sound**, and its registry grows. -/
theorem sound_of_step {sys sys' : System} (h : Step sys sys') (hs : sys.Sound) :
    sys'.Sound ∧ sys.registry.Extends sys'.registry := by
  cases h with
  | call s =>
    refine ⟨⟨hs.registry, fun l hl => ?_⟩, .refl _⟩
    rcases List.mem_append.mp hl with hl | hl
    · exact hs.lookups l hl
    · rw [List.mem_singleton.mp hl]
      trivial
  | @advance r r' l l' before after h =>
    obtain ⟨sound, own, grown⟩ :=
      h.guarantee hs.registry (hs.lookups l (List.mem_append_right _ List.mem_cons_self))
    refine ⟨⟨sound, fun m hm => ?_⟩, grown⟩
    rcases List.mem_append.mp hm with hm | hm
    · exact (hs.lookups m (List.mem_append_left _ hm)).mono grown
    · rcases List.mem_cons.mp hm with rfl | hm
      · exact own
      · exact (hs.lookups m (List.mem_append_right _ (List.mem_cons_of_mem _ hm))).mono grown

/-- **A run keeps a system sound**, and its registry grows. -/
theorem sound_of_run {sys sys' : System} (h : Run sys sys') (hs : sys.Sound) :
    sys'.Sound ∧ sys.registry.Extends sys'.registry := by
  induction h with
  | refl => exact ⟨hs, .refl _⟩
  | tail _ step ih =>
    obtain ⟨sound, grown⟩ := ih
    obtain ⟨sound', grown'⟩ := sound_of_step step sound
    exact ⟨sound', grown.trans grown'⟩

end System

/-! ## Rules are told apart by their numbers -/

/-- The rules that are published. -/
def Registry.Holds (r : Registry) (x : Rules) : Prop := ∃ q k, r.grid.cell? q k = some x

/-- The rules that a lookup holds. -/
def Lookup.Holds : Lookup → Rules → Prop
  | .filling _ _ f _, x => ∃ q k, f.grid.cell? q k = some x
  | .returned _ rules, x => rules = x
  | _, _ => False

/-- **A step brings no rules but new ones**, which get the next number. -/
theorem Advance.holds {r r' : Registry} {l l' : Lookup} (h : Advance r l r' l') (hr : r.Sound)
    (hl : l.Sound r) : ∃ t, ∀ {x}, r'.Holds x ∨ l'.Holds x → (r.Holds x ∨ l.Holds x) ∨
      (x = ⟨r.nextSerial, t⟩ ∧ r'.nextSerial = r.nextSerial + 1) := by
  cases h with
  | @hit _ s rules h =>
    refine ⟨default, fun {x} hx => Or.inl (hx.elim Or.inl ?_)⟩
    rintro rfl
    exact Or.inl ⟨_, _, h⟩
  | @miss _ s h =>
    obtain ⟨rows, columns, shape⟩ := hr.grid.rectangular
    refine ⟨default, fun {x} hx => Or.inl (hx.elim Or.inl ?_)⟩
    rintro ⟨q, k, hx⟩
    exact Or.inl ⟨q, k, (shape.cell?_enlarge s.parameters s.order q k).symm.trans hx⟩
  | @fill _ _ s readFrom f f' q k =>
    rcases Filling.fillCell_cases (f := { f with nextSerial := r.nextSerial }) hl.2.2 ‹_› with
      ⟨-, -, rfl⟩ | ⟨-, -, -, rfl⟩ | ⟨reason, he, -⟩
    · exact ⟨default, fun hx => Or.inl hx⟩
    · refine ⟨complete q k, fun {x} hx => ?_⟩
      rcases hx with hx | ⟨q', k', hx⟩
      · exact Or.inl (Or.inl hx)
      · rw [hl.2.2.cell?_set] at hx
        split at hx
        · exact Or.inr ⟨(Option.some.inj hx).symm, rfl⟩
        · exact Or.inl (Or.inr ⟨q', k', hx⟩)
    · cases he
  | @refuse _ _ s readFrom f =>
    rcases Filling.fillCell_cases (f := { f with nextSerial := r.nextSerial }) hl.2.2 ‹_› with
      ⟨he, -⟩ | ⟨he, -⟩ | ⟨reason, -, -, -, rfl⟩
    · cases he
    · cases he
    · exact ⟨default, fun hx => Or.inl (hx.elim Or.inl False.elim)⟩
  | @publish _ s readFrom f =>
    obtain ⟨rules, there, answer, -⟩ := hl.2.2.exists_rules
    refine ⟨default, fun {x} hx => Or.inl ?_⟩
    rcases hx with ⟨q, k, hx⟩ | rfl
    · rcases r.publish_cases readFrom f.grid with ⟨-, hp⟩ | hp
      · rw [hp] at hx
        exact Or.inr ⟨q, k, hx⟩
      · rw [hp] at hx
        exact Or.inl ⟨q, k, hx⟩
    · exact Or.inr ⟨_, _, there.trans (congrArg some answer.symm)⟩
  | @lose _ s readFrom f =>
    obtain ⟨rules, there, answer, -⟩ := hl.2.2.exists_rules
    refine ⟨default, fun {x} hx => Or.inl (hx.elim Or.inl ?_)⟩
    rintro rfl
    exact Or.inr ⟨_, _, there.trans (congrArg some answer.symm)⟩

namespace System

/-- The rules that are published or that a lookup holds. -/
def Holds (sys : System) (x : Rules) : Prop :=
  sys.registry.Holds x ∨ ∃ l ∈ sys.lookups, l.Holds x

/-- **Every number is given once.** -/
structure Numbered (sys : System) : Prop where
  serial : ∀ {x}, sys.Holds x → x.serial < sys.registry.nextSerial
  eq_of_serial : ∀ {x y}, sys.Holds x → sys.Holds y → x.serial = y.serial → x = y

theorem numbered_initial : Numbered {} := by
  have none : ∀ x, ¬ Holds {} x := by
    rintro x (⟨q, k, hx⟩ | ⟨l, hl, -⟩)
    · cases hx
    · cases hl
  exact ⟨fun hx => absurd hx (none _), fun hx => absurd hx (none _)⟩

theorem numbered_of_step {sys sys' : System} (h : Step sys sys') (hs : sys.Sound)
    (hn : sys.Numbered) : sys'.Numbered := by
  -- All that is held was held before, or it is the one that got the next number.
  have held : sys.registry.nextSerial ≤ sys'.registry.nextSerial ∧ ∃ t, ∀ {x}, sys'.Holds x →
      sys.Holds x ∨ (x = ⟨sys.registry.nextSerial, t⟩ ∧
        sys'.registry.nextSerial = sys.registry.nextSerial + 1) := by
    refine ⟨(sound_of_step h hs).2.serial, ?_⟩
    cases h with
    | call s =>
      refine ⟨default, fun {x} hx => Or.inl (hx.imp_right ?_)⟩
      rintro ⟨l, hl, hx⟩
      rcases List.mem_append.mp hl with hl | hl
      · exact ⟨l, hl, hx⟩
      · rw [List.mem_singleton.mp hl] at hx
        exact hx.elim
    | @advance r r' l l' before after h =>
      obtain ⟨t, step⟩ := h.holds hs.registry
        (hs.lookups l (List.mem_append_right _ List.mem_cons_self))
      have own : ∀ {x}, r.Holds x ∨ l.Holds x → Holds ⟨r, before ++ l :: after⟩ x :=
        fun hx => hx.imp_right fun hx => ⟨l, List.mem_append_right _ List.mem_cons_self, hx⟩
      refine ⟨t, fun {x} hx => ?_⟩
      rcases hx with hx | ⟨m, hm, hx⟩
      · exact (step (Or.inl hx)).imp_left own
      · rcases List.mem_append.mp hm with hm | hm
        · exact Or.inl (Or.inr ⟨m, List.mem_append_left _ hm, hx⟩)
        · rcases List.mem_cons.mp hm with rfl | hm
          · exact (step (Or.inr hx)).imp_left own
          · exact Or.inl (Or.inr ⟨m, List.mem_append_right _ (List.mem_cons_of_mem _ hm), hx⟩)
  obtain ⟨le, t, held⟩ := held
  refine ⟨fun {x} hx => ?_, fun {x y} hx hy he => ?_⟩
  · rcases held hx with hx | ⟨rfl, next⟩
    · exact Nat.lt_of_lt_of_le (hn.serial hx) le
    · exact next ▸ Nat.lt_succ_self _
  · rcases held hx with hx | ⟨rfl, -⟩ <;> rcases held hy with hy | ⟨rfl, -⟩
    · exact hn.eq_of_serial hx hy he
    · exact absurd he (hn.serial hx).ne
    · exact absurd he (hn.serial hy).ne'
    · rfl

theorem numbered_of_run {sys sys' : System} (h : Run sys sys') (hs : sys.Sound)
    (hn : sys.Numbered) : sys'.Numbered := by
  induction h with
  | refl => exact hn
  | tail run step ih => exact numbered_of_step step (sound_of_run run hs).1 ih

/-! ## What callers may rely on -/

/-- **Lookups are safe**, at any moment of a run. -/
structure IsSafe (sys : System) : Prop where
  rectangular : ∃ rows columns, sys.registry.grid.Rectangular rows columns
  /-- With a signature all smaller ones are published. -/
  downward : ∀ {p o q k}, q ≤ p → k ≤ o → (sys.registry.grid.cell? p o).isSome →
    (sys.registry.grid.cell? q k).isSome
  /-- What is published for a signature are its tables. -/
  canonical : ∀ {p o x}, sys.registry.grid.cell? p o = some x → x.tables = complete p o
  /-- What is published stays published, and it stays the same object. -/
  permanent : ∀ {later}, Run sys later → ∀ {p o x}, sys.registry.grid.cell? p o = some x →
    later.registry.grid.cell? p o = some x
  /-- Objects with the same number are one object, wherever they are. -/
  identity : ∀ {x y}, sys.Holds x → sys.Holds y → x.serial = y.serial → x = y
  /-- When a cell is looked at, both of its neighbours are there. -/
  neighbours : ∀ {s readFrom f q k rest},
    .filling s readFrom f ((q, k) :: rest) ∈ sys.lookups →
      (q ≠ 0 → ∃ x, f.grid.cell? (q - 1) k = some x ∧ x.tables = complete (q - 1) k) ∧
        (k ≠ 0 → ∃ x, f.grid.cell? q (k - 1) = some x ∧ x.tables = complete q (k - 1))
  /-- An answer has the tables of the signature, whether its publication was won or lost. -/
  answers : ∀ {s x}, .returned s x ∈ sys.lookups → x.tables = complete s.parameters s.order

/-- **Lookups are safe under every interleaving.** -/
theorem isSafe_of_run {sys : System} (h : Run {} sys) : sys.IsSafe := by
  obtain ⟨sound, -⟩ := sound_of_run h sound_initial
  have numbered := numbered_of_run h sound_initial numbered_initial
  refine ⟨sound.registry.grid.rectangular, sound.registry.grid.downward,
    sound.registry.grid.canonical, fun run _ _ _ hx => (sound_of_run run sound).2.keeps hx,
    numbered.eq_of_serial, fun hl => ?_, fun hl => sound.lookups _ hl⟩
  obtain ⟨-, -, fills⟩ := sound.lookups _ hl
  exact fills.neighbours

/-- A lookup of `(1, 0)` that loses its publication to one of `(0, 1)`, and has its answer. -/
theorem isSafe_race : ∃ sys, Run {} sys ∧ sys.registry.signatures = [⟨0, 0⟩, ⟨0, 1⟩] ∧
    (∃ x, .returned ⟨1, 0⟩ x ∈ sys.lookups) ∧ sys.IsSafe := by
  obtain ⟨more, run, answered⟩ := Run.get ⟨machineIndexMax, 1⟩ {} ⟨1, 0⟩
    ⟨some (.int 0, .int 1), false⟩ []
  have published : ((({} : Registry).get ⟨machineIndexMax, 1⟩ ⟨1, 0⟩
      ⟨some (.int 0, .int 1), false⟩).registry).signatures = [⟨0, 0⟩, ⟨0, 1⟩] := by decide
  exact ⟨_, run, published, ⟨_, answered _ rfl⟩, isSafe_of_run run⟩

end System

end JetAlgebra
