import Mathlib.Data.List.Induction
import JetAlgebra.Proofs.Outcome
import JetAlgebra.TermLimit

/-!
# The term limit over a run

Three things decide the limit: the scopes that were entered and not left yet, the standing
setting, and the text of the environment.  Callers change them in any order (`LimitAction`), and
a setting that is refused changes nothing.

What should be in force is said about the actions alone.  `ClosesScopes` are actions that leave
every scope that they enter, `OpenScopes` are the settings of the scopes that are still open, and
`LastSet` is what was set last.  A run keeps all three (`run_of_closesScopes`,
`run_of_openScopes`, `run_of_lastSet`).  Where scopes are properly nested, some are open and all
others are closed in between (`isNested_iff`), so the limit is always the one that the actions
ask for: `obeysScopes_of_isNested`.

Texts are read up to `maxDigits` digits throughout.  A longer text is refused as a setting, and sets
nothing where it is the text of the environment.
-/

namespace JetAlgebra

variable {maxDigits : Option Nat}

/-- **What callers do about the limit**, besides asking for it. -/
inductive LimitAction where
  | setStanding (n : Datum)
  | setEnvironment (text : Option String)
  | enter (n : Datum)
  | leave

namespace TermLimit

/-- An action, which may be refused. -/
def act? (maxDigits : Option Nat) (l : TermLimit) : LimitAction → Except LimitFault TermLimit
  | .setStanding n => l.setStanding maxDigits n
  | .setEnvironment text => .ok (l.setEnvironment text)
  | .enter n => l.enter maxDigits n
  | .leave => .ok l.leave

/-- An action that is not done if it is refused. -/
def act (maxDigits : Option Nat) (l : TermLimit) (a : LimitAction) : TermLimit :=
  match l.act? maxDigits a with
  | .ok l' => l'
  | .error _ => l

/-- One action after the other. -/
def run (maxDigits : Option Nat) (l : TermLimit) (actions : List LimitAction) : TermLimit :=
  actions.foldl (act maxDigits) l

@[simp] theorem run_nil (l : TermLimit) : l.run maxDigits [] = l := rfl

@[simp] theorem run_cons (l : TermLimit) (a : LimitAction) (rest : List LimitAction) :
    l.run maxDigits (a :: rest) = (l.act maxDigits a).run maxDigits rest := rfl

theorem run_append (l : TermLimit) (first second : List LimitAction) :
    l.run maxDigits (first ++ second) = (l.run maxDigits first).run maxDigits second :=
  List.foldl_append

/-! ## Which settings are accepted -/

/-- **The settings**: none at all, and what converts to a positive integer. -/
def Accepts (maxDigits : Option Nat) (n : Datum) (s : Option Nat) : Prop :=
  (n = .null ∧ s = none) ∨ ∃ k : Int, n.toInt? maxDigits = .ok k ∧ 1 ≤ k ∧ s = some k.toNat

/-- A datum is converted and then compared. -/
theorem setting?_of_ne_null {n : Datum} (h : n ≠ .null) : setting? maxDigits n =
    ((n.toInt? maxDigits).mapError .conversion >>= fun k =>
      if k < 1 then .error .notPositive else .ok (some k.toNat)) := by
  rw [setting?.eq_def]
  split
  · exact absurd rfl h
  · cases n.toInt? maxDigits <;> rfl

theorem setting?_eq_ok_iff {n : Datum} {s : Option Nat} :
    setting? maxDigits n = .ok s ↔ Accepts maxDigits n s := by
  by_cases null : n = .null
  · subst null
    constructor
    · intro h
      cases h
      exact .inl ⟨rfl, rfl⟩
    · rintro (⟨-, rfl⟩ | ⟨k, read, -⟩)
      · rfl
      · cases read
  · rw [setting?_of_ne_null null, bind_eq_ok_iff, Accepts]
    simp only [mapError_eq_ok_iff, null, false_and, false_or]
    refine exists_congr fun k => and_congr_right fun _ => ?_
    by_cases small : k < 1
    · have below : ¬ 1 ≤ k := by omega
      simp [small, below]
    · have positive : 1 ≤ k := Int.not_lt.mp small
      simp [small, positive, eq_comm]

/-- A datum that is no setting is refused with a fault. -/
theorem exists_fault_of_not_accepts {n : Datum} (h : ∀ s, ¬ Accepts maxDigits n s) :
    ∃ fault, setting? maxDigits n = .error fault := by
  cases setting : setting? maxDigits n with
  | error fault => exact ⟨fault, rfl⟩
  | ok s => exact absurd (setting?_eq_ok_iff.mp setting) (h s)

theorem one_le_of_accepts {n : Datum} {m : Nat} (h : Accepts maxDigits n (some m)) : 1 ≤ m := by
  rcases h with ⟨-, none⟩ | ⟨k, -, positive, same⟩
  · cases none
  · cases same
    omega

end TermLimit

open TermLimit

/-! ## What the actions ask for -/

namespace LimitAction

/-- The action enters a scope with the setting. -/
def Enters (maxDigits : Option Nat) (a : LimitAction) (s : Option Nat) : Prop :=
  ∃ n, a = .enter n ∧ Accepts maxDigits n s

/-- The action sets the standing setting. -/
def SetsStanding (maxDigits : Option Nat) (a : LimitAction) (s : Option Nat) : Prop :=
  ∃ n, a = .setStanding n ∧ Accepts maxDigits n s

/-- The action sets the text of the environment, or unsets it. -/
def SetsEnvironment (a : LimitAction) (text : Option String) : Prop := a = .setEnvironment text

end LimitAction

/-- **Actions that leave every scope that they enter**, and no other one. -/
inductive ClosesScopes (maxDigits : Option Nat) : List LimitAction → Prop where
  | nil : ClosesScopes maxDigits []
  | other {a : LimitAction} {rest : List LimitAction} (hl : a ≠ .leave)
      (he : ∀ s, ¬ a.Enters maxDigits s) (hr : ClosesScopes maxDigits rest) :
      ClosesScopes maxDigits (a :: rest)
  | scope {a : LimitAction} {s : Option Nat} {body rest : List LimitAction}
      (he : a.Enters maxDigits s) (hb : ClosesScopes maxDigits body)
      (hr : ClosesScopes maxDigits rest) : ClosesScopes maxDigits (a :: (body ++ .leave :: rest))

/-- **The settings of the scopes that are still open**, the innermost one first. -/
inductive OpenScopes (maxDigits : Option Nat) : List LimitAction → List (Option Nat) → Prop where
  | closed {actions : List LimitAction} (h : ClosesScopes maxDigits actions) :
      OpenScopes maxDigits actions []
  | enter {outer inner : List LimitAction} {settings : List (Option Nat)} {a : LimitAction}
      {s : Option Nat} (ho : OpenScopes maxDigits outer settings) (he : a.Enters maxDigits s)
      (hi : ClosesScopes maxDigits inner) :
      OpenScopes maxDigits (outer ++ a :: inner) (s :: settings)

/-- **Properly nested scopes**: every scope that is left was entered, and what was entered after
it was left before. -/
def IsNested (maxDigits : Option Nat) (actions : List LimitAction) : Prop :=
  ∀ before after, actions = before ++ .leave :: after →
    ∃ outer a s inner, before = outer ++ a :: inner ∧ a.Enters maxDigits s ∧
      ClosesScopes maxDigits inner

/-- **What was set last**, or what there was at the start if nothing was set. -/
def LastSet {α : Type} (sets : LimitAction → α → Prop) (start : α) (actions : List LimitAction)
    (v : α) : Prop :=
  (v = start ∧ ∀ a ∈ actions, ∀ w, ¬ sets a w) ∨ ∃ before a after,
    actions = before ++ a :: after ∧ sets a v ∧ ∀ b ∈ after, ∀ w, ¬ sets b w

/-- **The limit that is asked for** by the setting of the innermost scope, the standing setting and
the text of the environment, in this order. -/
structure IsLimit (maxDigits innermost standing : Option Nat) (environment : Option String)
    (n : Nat) : Prop where
  of_scope : ∀ m, innermost = some m → n = m
  of_standing : innermost = none → ∀ m, standing = some m → n = m
  of_environment : innermost = none → standing = none → ∀ text k, environment = some text →
    Text.readInteger? maxDigits text = some k → 0 < k → (n : Int) = k
  standard : innermost = none → standing = none → (∀ text k, environment = some text →
    Text.readInteger? maxDigits text = some k → ¬ 0 < k) → n = TermLimit.standard

/-! ## What one action does -/

namespace TermLimit
variable (l : TermLimit) {a : LimitAction}

theorem act_of_enters {s : Option Nat} (h : a.Enters maxDigits s) :
    l.act maxDigits a = { l with scope := s, saved := l.scope :: l.saved } := by
  obtain ⟨n, rfl, accepted⟩ := h
  have entered : l.enter maxDigits n = .ok { l with scope := s, saved := l.scope :: l.saved } :=
    bind_eq_ok (setting?_eq_ok_iff.mpr accepted) rfl
  rw [act, act?, entered]

theorem act_of_setsStanding {s : Option Nat} (h : a.SetsStanding maxDigits s) :
    l.act maxDigits a = { l with standing := s } := by
  obtain ⟨n, rfl, accepted⟩ := h
  have set : l.setStanding maxDigits n = .ok { l with standing := s } :=
    bind_eq_ok (setting?_eq_ok_iff.mpr accepted) rfl
  rw [act, act?, set]

theorem act_of_setsEnvironment {text : Option String} (h : a.SetsEnvironment text) :
    l.act maxDigits a = { l with environment := text } := by
  rw [h]
  rfl

theorem act_leave : l.act maxDigits .leave = l.leave := rfl

/-- **A refused setting is a fault**, of a scope as well as of the standing setting, and changes
nothing. -/
theorem refused {n : Datum} (h : ∀ s, ¬ Accepts maxDigits n s) : ∃ fault,
    l.setStanding maxDigits n = .error fault ∧ l.enter maxDigits n = .error fault ∧
    l.act maxDigits (.setStanding n) = l ∧ l.act maxDigits (.enter n) = l := by
  obtain ⟨fault, setting⟩ := exists_fault_of_not_accepts h
  have standing : l.setStanding maxDigits n = .error fault := bind_eq_error_iff.mpr (.inl setting)
  have entered : l.enter maxDigits n = .error fault := bind_eq_error_iff.mpr (.inl setting)
  exact ⟨fault, standing, entered, by rw [act, act?, standing], by rw [act, act?, entered]⟩

/-- **What an action can do.** -/
theorem act_cases (a : LimitAction) : a = .leave ∨ (∃ s, a.Enters maxDigits s) ∨
    (∃ s, a.SetsStanding maxDigits s) ∨ (∃ text, a.SetsEnvironment text) ∨
    l.act maxDigits a = l := by
  cases a with
  | leave => exact .inl rfl
  | setEnvironment text => exact .inr (.inr (.inr (.inl ⟨text, rfl⟩)))
  | enter n =>
    by_cases h : ∃ s, Accepts maxDigits n s
    · obtain ⟨s, accepted⟩ := h
      exact .inr (.inl ⟨s, n, rfl, accepted⟩)
    · obtain ⟨-, -, -, -, kept⟩ := l.refused (not_exists.mp h)
      exact .inr (.inr (.inr (.inr kept)))
  | setStanding n =>
    by_cases h : ∃ s, Accepts maxDigits n s
    · obtain ⟨s, accepted⟩ := h
      exact .inr (.inr (.inl ⟨s, n, rfl, accepted⟩))
    · obtain ⟨-, -, -, kept, -⟩ := l.refused (not_exists.mp h)
      exact .inr (.inr (.inr (.inr kept)))

/-- An action that neither enters nor leaves a scope keeps the scopes. -/
theorem scopes_act (hl : a ≠ .leave) (he : ∀ s, ¬ a.Enters maxDigits s) :
    (l.act maxDigits a).scope = l.scope ∧ (l.act maxDigits a).saved = l.saved := by
  rcases l.act_cases a with rfl | ⟨s, h⟩ | ⟨s, h⟩ | ⟨text, h⟩ | h
  · exact absurd rfl hl
  · exact absurd h (he s)
  · rw [l.act_of_setsStanding h]
    exact ⟨rfl, rfl⟩
  · rw [l.act_of_setsEnvironment h]
    exact ⟨rfl, rfl⟩
  · rw [h]
    exact ⟨rfl, rfl⟩

theorem standing_act (h : ∀ s, ¬ a.SetsStanding maxDigits s) :
    (l.act maxDigits a).standing = l.standing := by
  rcases l.act_cases a with rfl | ⟨s, he⟩ | ⟨s, hs⟩ | ⟨text, ht⟩ | kept
  · rw [act_leave, leave]
    split <;> rfl
  · rw [l.act_of_enters he]
  · exact absurd hs (h s)
  · rw [l.act_of_setsEnvironment ht]
  · rw [kept]

theorem environment_act (h : ∀ text, ¬ a.SetsEnvironment text) :
    (l.act maxDigits a).environment = l.environment := by
  rcases l.act_cases a with rfl | ⟨s, he⟩ | ⟨s, hs⟩ | ⟨text, ht⟩ | kept
  · rw [act_leave, leave]
    split <;> rfl
  · rw [l.act_of_enters he]
  · rw [l.act_of_setsStanding hs]
  · exact absurd ht (h text)
  · rw [kept]

/-! ## What a run does -/

/-- **Closed scopes restore what was in force.** -/
theorem run_of_closesScopes {actions : List LimitAction} (h : ClosesScopes maxDigits actions) :
    (l.run maxDigits actions).scope = l.scope ∧ (l.run maxDigits actions).saved = l.saved := by
  induction h generalizing l with
  | nil => exact ⟨rfl, rfl⟩
  | other hl he _ ih =>
    obtain ⟨scope, saved⟩ := l.scopes_act hl he
    rw [run_cons, ← scope, ← saved]
    exact ih _
  | @scope a s body rest he _ _ ihb ihr =>
    obtain ⟨scope, saved⟩ := ihb (l.act maxDigits a)
    -- After the body the scope that was entered is still the innermost one.
    have left : (((l.act maxDigits a).run maxDigits body).act maxDigits .leave).scope = l.scope ∧
        (((l.act maxDigits a).run maxDigits body).act maxDigits .leave).saved = l.saved := by
      rw [l.act_of_enters he] at saved ⊢
      rw [act_leave, leave, saved]
      exact ⟨rfl, rfl⟩
    rw [run_cons, run_append, run_cons, ← left.1, ← left.2]
    exact ihr _

/-- **Leaving a scope restores what was in force before it was entered**, whatever happened in
between. -/
theorem restored {s : Option Nat} {body : List LimitAction} (he : a.Enters maxDigits s)
    (hb : ClosesScopes maxDigits body) :
    (l.run maxDigits (a :: (body ++ [.leave]))).scope = l.scope ∧
      (l.run maxDigits (a :: (body ++ [.leave]))).saved = l.saved :=
  l.run_of_closesScopes (.scope he hb .nil)

/-- **Open scopes are in force**, the innermost one first, in front of what was in force before. -/
theorem run_of_openScopes {actions : List LimitAction} {settings : List (Option Nat)}
    (h : OpenScopes maxDigits actions settings) :
    (l.run maxDigits actions).scope :: (l.run maxDigits actions).saved =
      settings ++ l.scope :: l.saved := by
  induction h with
  | closed h =>
    obtain ⟨scope, saved⟩ := l.run_of_closesScopes h
    rw [scope, saved, List.nil_append]
  | @enter outer inner settings a s _ he hi ih =>
    obtain ⟨scope, saved⟩ := ((l.run maxDigits outer).act maxDigits a).run_of_closesScopes hi
    rw [run_append, run_cons, scope, saved, act_of_enters _ he, List.cons_append, ← ih]

/-- **What was set last is in force**, for anything that only certain actions set. -/
theorem run_of_lastSet {α : Type} {sets : LimitAction → α → Prop} {f : TermLimit → α}
    (set : ∀ (l : TermLimit) a v, sets a v → f (l.act maxDigits a) = v)
    (keep : ∀ (l : TermLimit) a, (∀ v, ¬ sets a v) → f (l.act maxDigits a) = f l)
    {actions : List LimitAction} {v : α} (h : LastSet sets (f l) actions v) :
    f (l.run maxDigits actions) = v := by
  have kept : ∀ (l : TermLimit) (actions : List LimitAction), (∀ a ∈ actions, ∀ w, ¬ sets a w) →
      f (l.run maxDigits actions) = f l := by
    intro l actions
    induction actions generalizing l with
    | nil => exact fun _ => rfl
    | cons a rest ih =>
      intro none
      rw [run_cons, ih (l.act maxDigits a) fun b hb => none b (List.mem_cons_of_mem a hb)]
      exact keep l a (none a List.mem_cons_self)
  rcases h with ⟨rfl, none⟩ | ⟨before, a, after, rfl, last, none⟩
  · exact kept l actions none
  · rw [run_append, run_cons, kept _ after none]
    exact set _ a v last

/-- Something was set last, or nothing was set. -/
theorem exists_lastSet {α : Type} (sets : LimitAction → α → Prop) (start : α)
    (actions : List LimitAction) : ∃ v, LastSet sets start actions v := by
  induction actions with
  | nil => exact ⟨start, .inl ⟨rfl, by simp⟩⟩
  | cons a rest ih =>
    obtain ⟨v, ⟨rfl, none⟩ | ⟨before, b, after, rfl, last, none⟩⟩ := ih
    · by_cases here : ∃ w, sets a w
      · obtain ⟨w, hw⟩ := here
        exact ⟨w, .inr ⟨[], a, rest, rfl, hw, none⟩⟩
      · refine ⟨v, .inl ⟨rfl, fun b hb => ?_⟩⟩
        rcases List.mem_cons.mp hb with rfl | hb
        · exact not_exists.mp here
        · exact none b hb
    · exact ⟨v, .inr ⟨a :: before, b, after, rfl, last, none⟩⟩

/-- **Limits are positive**: those in force, and those that will be again. -/
structure IsPositive (l : TermLimit) : Prop where
  scopes : ∀ m, some m ∈ l.scope :: l.saved → 1 ≤ m
  standing : ∀ m, l.standing = some m → 1 ≤ m

theorem IsPositive.act {l : TermLimit} (h : l.IsPositive) (a : LimitAction) :
    (l.act maxDigits a).IsPositive := by
  rcases l.act_cases a with rfl | ⟨s, he⟩ | ⟨s, hs⟩ | ⟨text, ht⟩ | kept
  · rw [act_leave, leave]
    split
    · exact h
    · next outer rest saved =>
      exact ⟨fun m hm => h.scopes m (by rw [saved]; exact List.mem_cons_of_mem _ hm), h.standing⟩
  · rw [l.act_of_enters he]
    obtain ⟨n, -, accepted⟩ := he
    refine ⟨fun m hm => ?_, h.standing⟩
    rcases List.mem_cons.mp hm with rfl | hm
    · exact one_le_of_accepts accepted
    · exact h.scopes m hm
  · rw [l.act_of_setsStanding hs]
    obtain ⟨n, -, accepted⟩ := hs
    refine ⟨h.scopes, fun m hm => ?_⟩
    obtain rfl : s = some m := hm
    exact one_le_of_accepts accepted
  · rw [l.act_of_setsEnvironment ht]
    exact ⟨h.scopes, h.standing⟩
  · rwa [kept]

theorem IsPositive.run {l : TermLimit} (h : l.IsPositive) (actions : List LimitAction) :
    (l.run maxDigits actions).IsPositive := by
  induction actions generalizing l with
  | nil => exact h
  | cons a rest ih => exact ih (h.act a)

/-! ## The limit in force -/

/-- **The limit follows from the three settings**, in their order. -/
theorem isLimit_resolve (maxDigits : Option Nat) :
    IsLimit maxDigits l.scope l.standing l.environment (l.resolve maxDigits) where
  of_scope m scope := by rw [resolve, scope]
  of_standing scope m standing := by rw [resolve, scope, standing]
  of_environment scope standing text k environment read positive := by
    simp only [resolve, scope, standing, environment, Option.bind_some, ofEnvironment?, read,
      if_pos positive, Option.getD_some]
    omega
  standard scope standing unreadable := by
    simp only [resolve, scope, standing]
    cases environment : l.environment with
    | none => rfl
    | some text =>
      rw [Option.bind_some, ofEnvironment?]
      cases read : Text.readInteger? maxDigits text with
      | none => rfl
      | some k =>
        dsimp only
        rw [if_neg (unreadable text k environment read)]
        rfl

theorem IsPositive.one_le_resolve {l : TermLimit} (h : l.IsPositive) : 1 ≤ l.resolve maxDigits := by
  have limit := l.isLimit_resolve maxDigits
  cases scope : l.scope with
  | some m => exact limit.of_scope m scope ▸ h.scopes m (scope ▸ List.mem_cons_self)
  | none =>
    cases standing : l.standing with
    | some m => exact limit.of_standing scope m standing ▸ h.standing m standing
    | none =>
      by_cases readable : ∃ text k, l.environment = some text ∧
          Text.readInteger? maxDigits text = some k ∧ 0 < k
      · obtain ⟨text, k, environment, read, positive⟩ := readable
        have same := limit.of_environment scope standing text k environment read positive
        omega
      · rw [limit.standard scope standing fun text k environment read positive =>
          readable ⟨text, k, environment, read, positive⟩]
        decide

end TermLimit

/-! ## Nesting -/

section Nesting
variable {actions first second : List LimitAction} {a : LimitAction} {s : Option Nat}

theorem ClosesScopes.append (h : ClosesScopes maxDigits first)
    (h' : ClosesScopes maxDigits second) : ClosesScopes maxDigits (first ++ second) := by
  induction h with
  | nil => exact h'
  | other hl he _ ih => exact .other hl he ih
  | scope he hb _ _ ih =>
    rw [List.cons_append, List.append_assoc, List.cons_append]
    exact .scope he hb ih

/-- What is closed does not change which scopes are open. -/
theorem OpenScopes.append {settings : List (Option Nat)} (h : OpenScopes maxDigits first settings)
    (h' : ClosesScopes maxDigits second) : OpenScopes maxDigits (first ++ second) settings := by
  cases h with
  | closed h => exact .closed (h.append h')
  | enter ho he hi =>
    rw [List.append_assoc, List.cons_append]
    exact .enter ho he (hi.append h')

/-- One properly nested run after another is properly nested. -/
theorem IsNested.append (h : IsNested maxDigits first) (h' : IsNested maxDigits second) :
    IsNested maxDigits (first ++ second) := by
  intro before after split
  rcases List.append_eq_append_iff.mp split with ⟨rest, rfl, later⟩ | ⟨rest, same, later⟩
  · obtain ⟨outer, a, s, inner, rfl, he, hi⟩ := h' rest after later
    exact ⟨first ++ outer, a, s, inner, (List.append_assoc _ _ _).symm, he, hi⟩
  · cases rest with
    | nil =>
      obtain ⟨outer, a, s, inner, none, -, -⟩ := h' [] after later.symm
      exact absurd none (by simp)
    | cons b rest =>
      obtain ⟨rfl, -⟩ := List.cons_eq_cons.mp later
      exact h before rest same

theorem isNested_singleton (hl : a ≠ .leave) : IsNested maxDigits [a] := by
  intro before after split
  rcases before with _ | ⟨b, before⟩
  · exact absurd (List.cons_eq_cons.mp split).1 hl
  · simp at split

/-- A scope that was entered can be left. -/
theorem IsNested.leave {outer inner : List LimitAction}
    (h : IsNested maxDigits (outer ++ a :: inner)) (he : a.Enters maxDigits s)
    (hi : ClosesScopes maxDigits inner) : IsNested maxDigits (outer ++ a :: inner ++ [.leave]) := by
  intro before after split
  rcases List.append_eq_append_iff.mp split with ⟨rest, rfl, later⟩ | ⟨rest, same, later⟩
  · cases rest with
    | nil => exact ⟨outer, a, s, inner, List.append_nil _, he, hi⟩
    | cons b rest => simp at later
  · cases rest with
    | nil =>
      rw [List.append_nil] at same
      exact ⟨outer, a, s, inner, same.symm, he, hi⟩
    | cons b rest =>
      obtain ⟨rfl, -⟩ := List.cons_eq_cons.mp later
      exact h before rest same

theorem LimitAction.Enters.ne_leave (h : a.Enters maxDigits s) : a ≠ .leave := by
  obtain ⟨n, rfl, -⟩ := h
  nofun

theorem ClosesScopes.isNested (h : ClosesScopes maxDigits actions) :
    IsNested maxDigits actions := by
  induction h with
  | nil => exact fun before after split => by simp at split
  | other hl _ _ ih => exact (isNested_singleton hl).append ih
  | @scope a s body rest he hb _ ihb ihr =>
    have entered : IsNested maxDigits ([] ++ a :: body) :=
      (isNested_singleton he.ne_leave).append ihb
    have left := (entered.leave he hb).append ihr
    simpa using left

theorem OpenScopes.isNested {settings : List (Option Nat)}
    (h : OpenScopes maxDigits actions settings) : IsNested maxDigits actions := by
  induction h with
  | closed h => exact h.isNested
  | enter _ he hi ih => exact ih.append ((isNested_singleton he.ne_leave).append hi.isNested)

/-- A run that ended before is properly nested as well. -/
theorem IsNested.of_append (h : IsNested maxDigits (first ++ second)) :
    IsNested maxDigits first := by
  intro before after split
  obtain rfl := split
  exact h before (after ++ second) (List.append_assoc _ _ _)

/-- **Properly nested scopes** are open scopes, with closed ones in between. -/
theorem isNested_iff :
    IsNested maxDigits actions ↔ ∃ settings, OpenScopes maxDigits actions settings := by
  refine ⟨fun h => ?_, fun ⟨_, h⟩ => h.isNested⟩
  -- From the first action on: each one closes, opens or leaves a scope.
  induction actions using List.reverseRecOn with
  | nil => exact ⟨[], .closed .nil⟩
  | append_singleton actions a ih =>
    obtain ⟨settings, opened⟩ := ih h.of_append
    by_cases he : ∃ s, a.Enters maxDigits s
    · obtain ⟨s, he⟩ := he
      exact ⟨s :: settings, .enter opened he .nil⟩
    by_cases hl : a = .leave
    · subst hl
      cases opened with
      | enter ho he hi =>
        rw [List.append_assoc, List.cons_append]
        exact ⟨_, ho.append (.scope he hi .nil)⟩
      | closed closed =>
        -- A run without open scopes saves nothing, but the scope that is left was saved.
        obtain ⟨outer, b, s, inner, rfl, he, hi⟩ := h actions [] rfl
        have kept := (({} : TermLimit).run_of_closesScopes closed).2
        rw [run_append, run_cons, (run_of_closesScopes _ hi).2, act_of_enters _ he] at kept
        exact absurd kept (List.cons_ne_nil _ _)
    · exact ⟨settings, opened.append (.other hl (not_exists.mp he) .nil)⟩

end Nesting

/-! ## What callers may rely on -/

namespace TermLimit

/-- The settings after the actions, from a start where there is nothing but the text of the
environment. -/
def after (maxDigits : Option Nat) (text : Option String) (actions : List LimitAction) :
    TermLimit :=
  ({ environment := text } : TermLimit).run maxDigits actions

theorem after_append (text : Option String) (first second : List LimitAction) :
    after maxDigits text (first ++ second) = (after maxDigits text first).run maxDigits second :=
  run_append _ first second

section After
variable {text : Option String} {actions : List LimitAction}

/-- The setting in force is that of the innermost open scope. -/
theorem scope_after {settings : List (Option Nat)} (h : OpenScopes maxDigits actions settings) :
    (after maxDigits text actions).scope = settings.head?.join := by
  have scopes : (after maxDigits text actions).scope :: (after maxDigits text actions).saved =
      settings ++ [none] := run_of_openScopes _ h
  cases settings with
  | nil => exact (List.cons_eq_cons.mp scopes).1
  | cons s settings => exact (List.cons_eq_cons.mp scopes).1

theorem standing_after {standing : Option Nat}
    (h : LastSet (LimitAction.SetsStanding maxDigits) none actions standing) :
    (after maxDigits text actions).standing = standing :=
  run_of_lastSet _ (fun l a v ha => by rw [l.act_of_setsStanding ha]) (fun l a => l.standing_act) h

theorem environment_after {environment : Option String}
    (h : LastSet LimitAction.SetsEnvironment text actions environment) :
    (after maxDigits text actions).environment = environment :=
  run_of_lastSet _ (fun l a v ha => by rw [l.act_of_setsEnvironment ha])
    (fun l a => l.environment_act) h

theorem after_leave (a : LimitAction) (body : List LimitAction) :
    after maxDigits text (actions ++ a :: (body ++ [.leave])) =
      (after maxDigits text (actions ++ a :: body)).act maxDigits .leave := by
  have last : actions ++ a :: (body ++ [.leave]) = (actions ++ a :: body) ++ [.leave] := by simp
  rw [last, after_append, run_cons, run_nil]

end After

/-- **The limit obeys the scopes**, after the actions. -/
structure ObeysScopes (maxDigits : Option Nat) (text : Option String) (actions : List LimitAction) :
    Prop where
  /-- What the actions ask for is settled. -/
  settled : (∃ settings, OpenScopes maxDigits actions settings) ∧
    (∃ standing, LastSet (LimitAction.SetsStanding maxDigits) none actions standing) ∧
    ∃ environment, LastSet LimitAction.SetsEnvironment text actions environment
  /-- The limit is what they ask for: the setting of the innermost open scope, or else the standing
  setting that was accepted last, or else the text of the environment, or else the standard. -/
  limit : ∀ settings standing environment, OpenScopes maxDigits actions settings →
    LastSet (LimitAction.SetsStanding maxDigits) none actions standing →
    LastSet LimitAction.SetsEnvironment text actions environment →
      IsLimit maxDigits settings.head?.join standing environment
        ((after maxDigits text actions).resolve maxDigits)
  positive : 1 ≤ (after maxDigits text actions).resolve maxDigits
  /-- A setting that is refused is a fault and changes nothing. -/
  refused : ∀ n, (∀ s, ¬ Accepts maxDigits n s) → ∃ fault,
    (after maxDigits text actions).setStanding maxDigits n = .error fault ∧
    (after maxDigits text actions).enter maxDigits n = .error fault ∧
    after maxDigits text (actions ++ [.setStanding n]) = after maxDigits text actions ∧
    after maxDigits text (actions ++ [.enter n]) = after maxDigits text actions
  /-- Leaving a scope restores what was in force before it was entered, and nothing else. -/
  restored : ∀ a s body, a.Enters maxDigits s → ClosesScopes maxDigits body →
    (after maxDigits text (actions ++ a :: (body ++ [.leave]))).scope =
      (after maxDigits text actions).scope ∧
    (after maxDigits text (actions ++ a :: (body ++ [.leave]))).standing =
      (after maxDigits text (actions ++ a :: body)).standing ∧
    (after maxDigits text (actions ++ a :: (body ++ [.leave]))).environment =
      (after maxDigits text (actions ++ a :: body)).environment

/-- **The limit obeys properly nested scopes**, whatever else is done in between and whatever is
refused. -/
theorem obeysScopes_of_isNested (text : Option String) {actions : List LimitAction}
    (h : IsNested maxDigits actions) : ObeysScopes maxDigits text actions := by
  constructor
  case settled =>
    exact ⟨isNested_iff.mp h, exists_lastSet _ none actions, exists_lastSet _ text actions⟩
  case limit =>
    intro settings standing environment opened last lastText
    have limit := isLimit_resolve (after maxDigits text actions) maxDigits
    rwa [scope_after opened, standing_after last, environment_after lastText] at limit
  case positive =>
    have start : IsPositive { environment := text } := ⟨by simp, by simp⟩
    exact (start.run actions).one_le_resolve
  case refused =>
    intro n none
    obtain ⟨fault, standing, entered, kept, kept'⟩ := (after maxDigits text actions).refused none
    exact ⟨fault, standing, entered, by rw [after_append, run_cons, run_nil, kept],
      by rw [after_append, run_cons, run_nil, kept']⟩
  case restored =>
    intro a s body he hb
    refine ⟨?_, ?_, ?_⟩
    · rw [after_append]
      exact (TermLimit.restored _ he hb).1
    · rw [after_leave]
      exact standing_act _ nofun
    · rw [after_leave]
      exact environment_act _ nofun

/-- An inner scope without a setting hides the outer one until it is left, and what is set while it
is open stays; of the other settings two are refused. -/
theorem obeysScopes_hidden : IsNested (some Text.standardDigits) [.enter (.int 5),
      .setEnvironment (some "12"), .enter .null, .setStanding (.int 7), .setStanding (.int 0),
      .enter (.text "x"), .leave] ∧
    ObeysScopes (some Text.standardDigits) none [.enter (.int 5), .setEnvironment (some "12"),
      .enter .null, .setStanding (.int 7), .setStanding (.int 0), .enter (.text "x"), .leave] := by
  have letter : ∀ s, ¬ (LimitAction.enter (.text "x")).Enters (some Text.standardDigits) s := by
    rintro s ⟨n, same, accepted⟩
    cases same
    have refused : setting? (some Text.standardDigits) (.text "x") =
        .error (.conversion .unreadable) := by decide +kernel
    have setting := setting?_eq_ok_iff.mpr accepted
    rw [refused] at setting
    cases setting
  have body : ClosesScopes (some Text.standardDigits)
      [.setStanding (.int 7), .setStanding (.int 0), .enter (.text "x")] :=
    .other nofun nofun (.other nofun nofun (.other nofun letter .nil))
  have inner : ClosesScopes (some Text.standardDigits)
      (.setEnvironment (some "12") :: .enter .null :: ([.setStanding (.int 7),
        .setStanding (.int 0), .enter (.text "x")] ++ .leave :: [])) :=
    .other nofun nofun (.scope ⟨_, rfl, .inl ⟨rfl, rfl⟩⟩ body .nil)
  have opened := (OpenScopes.closed .nil).enter
    (⟨_, rfl, .inr ⟨5, rfl, by decide, rfl⟩⟩ : (LimitAction.enter (.int 5)).Enters _ (some 5)) inner
  exact ⟨opened.isNested, obeysScopes_of_isNested none opened.isNested⟩

end TermLimit

end JetAlgebra
