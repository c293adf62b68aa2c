import RootCause.Order.Edges
import Mathlib.Logic.Relation
import Mathlib.Order.WellFounded
import Mathlib.Data.Fintype.Card
import Mathlib.Data.Set.Finite.List

/-!
# Cycles

What no order can respect is said here of any relation: an element is on a cycle if it leads back
to itself, and behind a cycle if it can be reached from one that is.

* An element behind a cycle has a predecessor behind a cycle (`BehindCycle.exists_pred`), so a list
  in which every element stands after its predecessors has none of them (`IsAfterPreds.not_behind`).
* A finite set whose elements all have a predecessor in it lies behind cycles
  (`behindCycle_of_forall_exists_pred`).
-/

namespace RootCause.Order

open Relation

section

variable {α : Type} (r : α → α → Prop)

/-- The element leads back to itself in one or more steps. -/
def OnCycle (a : α) : Prop := TransGen r a a

/-- The element can be reached, in zero or more steps, from one on a cycle. -/
def BehindCycle (b : α) : Prop := ∃ a, OnCycle r a ∧ ReflTransGen r a b

/-- No element leads back to itself. -/
def Acyclic : Prop := ∀ a, ¬ OnCycle r a

/-- Every element of a list stands after all that lead to it. -/
def IsAfterPreds (l : List α) : Prop :=
  ∀ pre b post, l = pre ++ b :: post → ∀ a, r a b → a ∈ pre

variable {r}

theorem BehindCycle.exists_pred {b : α} (h : BehindCycle r b) :
    ∃ a, r a b ∧ BehindCycle r a := by
  obtain ⟨c, hc, hcb⟩ := h
  have hcb' : TransGen r c b := TransGen.trans_left hc hcb
  obtain ⟨a, hca, hab⟩ := TransGen.tail'_iff.mp hcb'
  exact ⟨a, hab, c, hc, hca⟩

/-- More edges take nothing out from behind a cycle. -/
theorem BehindCycle.mono {r' : α → α → Prop} (hsub : r ≤ r') {b : α} (h : BehindCycle r b) :
    BehindCycle r' b := by
  obtain ⟨a, ha, hab⟩ := h
  exact ⟨a, TransGen.mono hsub a a ha, ReflTransGen.mono hsub a b hab⟩

theorem Acyclic.not_behind (h : Acyclic r) (b : α) : ¬ BehindCycle r b := by
  rintro ⟨a, ha, -⟩
  exact h a ha

/-- A relation along which something grows has no cycles. -/
theorem Acyclic.of_lt {β : Type} [Preorder β] (f : α → β) (h : ∀ a b, r a b → f a < f b) :
    Acyclic r := by
  have hlt : ∀ a b, TransGen r a b → f a < f b := fun a b hab => by
    induction hab with
    | single hab => exact h _ _ hab
    | tail _ hbc ih => exact ih.trans (h _ _ hbc)
  exact fun a ha => lt_irrefl _ (hlt a a ha)

/-! ## Lists in which every element stands after its predecessors -/

theorem IsAfterPreds.nil : IsAfterPreds r ([] : List α) := by
  intro pre b post h
  simp at h

theorem IsAfterPreds.snoc {l : List α} {b : α} (h : IsAfterPreds r l) (hb : ∀ a, r a b → a ∈ l) :
    IsAfterPreds r (l ++ [b]) := by
  intro pre c post hl a hac
  rcases List.eq_nil_or_concat post with rfl | ⟨post, d, rfl⟩
  · obtain ⟨rfl, hbc⟩ := List.append_inj' hl rfl
    obtain rfl : b = c := by simpa using hbc
    exact hb a hac
  · have hl' : l ++ [b] = (pre ++ c :: post) ++ [d] := by simpa using hl
    obtain ⟨hl', -⟩ := List.append_inj' hl' rfl
    exact h pre c post hl' a hac

theorem IsAfterPreds.mem_of_mem {l : List α} (h : IsAfterPreds r l) {a b : α} (hb : b ∈ l)
    (hab : r a b) : a ∈ l := by
  obtain ⟨pre, post, rfl⟩ := List.append_of_mem hb
  exact List.mem_append_left _ (h pre b post rfl a hab)

/-- Of the elements behind a cycle the first one in the list would stand before a predecessor. -/
theorem IsAfterPreds.not_behind {l : List α} (h : IsAfterPreds r l) :
    ∀ b ∈ l, ¬ BehindCycle r b := by
  have key : ∀ n, ∀ pre b post, l = pre ++ b :: post → pre.length = n → ¬ BehindCycle r b := by
    intro n
    induction n using Nat.strongRecOn with
    | ind n ih =>
      rintro pre b post hl rfl hb
      obtain ⟨a, hab, ha⟩ := hb.exists_pred
      obtain ⟨pre₁, pre₂, rfl⟩ := List.append_of_mem (h pre b post hl a hab)
      refine ih pre₁.length ?_ pre₁ a (pre₂ ++ b :: post) (by simpa using hl) rfl ha
      simp only [List.length_append, List.length_cons]
      omega
  intro b hb
  obtain ⟨pre, post, hl⟩ := List.append_of_mem hb
  exact key _ pre b post hl rfl

/-! ## Sets without a source -/

/-- Without a cycle in front of `b`, the elements of the list that lead to `b` would have one
without a predecessor among them. -/
theorem behindCycle_of_forall_exists_pred {l : List α} (h : ∀ b ∈ l, ∃ a ∈ l, r a b) {b : α}
    (hb : b ∈ l) : BehindCycle r b := by
  classical
  by_contra hcycle
  let S : Set α := { a | a ∈ l ∧ ReflTransGen r a b }
  have : Finite S := ((List.finite_toSet l).subset fun _ ha => ha.1).to_subtype
  have : IsTrans S fun a a' => TransGen r a.1 a'.1 := ⟨fun _ _ _ => TransGen.trans⟩
  have : Std.Irrefl fun a a' : S => TransGen r a.1 a'.1 :=
    ⟨fun a ha => hcycle ⟨a.1, ha, a.2.2⟩⟩
  have wf : WellFounded fun a a' : S => TransGen r a.1 a'.1 :=
    Finite.wellFounded_of_trans_of_irrefl _
  obtain ⟨⟨c, hc, hcb⟩, -, hmin⟩ := wf.has_min Set.univ ⟨⟨b, hb, .refl⟩, trivial⟩
  obtain ⟨a, ha, hac⟩ := h c hc
  exact hmin ⟨a, ha, hcb.head hac⟩ trivial (.single hac)

end

/-! ## The graph of a list of edges -/

/-- An edge leads from one identity to another one. -/
def Leads (es : List Edge) (a b : Id) : Prop := ⟨a, b⟩ ∈ es

/-- An edge leads from one identity of a list to a different one of it. -/
def Links (ids : List Id) (es : List Edge) (a b : Id) : Prop :=
  a ≠ b ∧ a ∈ ids ∧ b ∈ ids ∧ Leads es a b

end RootCause.Order
