import Mathlib.Data.Finset.SDiff
import Mathlib.Logic.Relation
import RootCause.Proofs.Scope.Requests
import RootCause.Source.Parser

/-!
# Searches for exports

A search expands no request twice, in whatever circles files export from each other, and yet misses
nothing: it finds a symbol exactly if an answered request can be reached by forwarding
(`Project.exportOf_isSome_iff_answered_reachable`). A symbol is found only where a request is
answered (`exists_isAnswered_of_search`). Conversely a search that finds nothing has, for every
request that it expanded, also expanded the ones to which it is forwarded, and none of them is
answered (`Exhausts`); a search within its depth does not end before that (`isThorough_search`).
-/

namespace RootCause.Scope.Project

open Relation (ReflTransGen)

variable {p : Project} {ask : Request → Search (Option Symbol)} {r : Request} {name : String}
  {targets : List Nat} {symbol : Symbol} {seen seen' seen'' : List Request} {depth : Nat}

/-! ## Symbols that are found -/

theorem exists_ask_of_askAll_eq_some (h : askAll ask name targets seen = (some symbol, seen')) :
    ∃ target ∈ targets, ∃ before, ask ⟨target, name⟩ before = (some symbol, seen') := by
  induction targets generalizing seen with
  | nil => cases h
  | cons target targets ih =>
    rw [askAll] at h
    cases hask : ask ⟨target, name⟩ seen with
    | mk found after =>
      rw [hask] at h
      cases found with
      | some found =>
        cases h
        exact ⟨target, List.mem_cons_self, seen, hask⟩
      | none =>
        obtain ⟨target', hmem, before, hbefore⟩ := ih h
        exact ⟨target', List.mem_cons_of_mem _ hmem, before, hbefore⟩

theorem exists_isAnswered_of_search (h : p.search depth r seen = (some symbol, seen')) :
    ∃ s, ReflTransGen p.Forwards r s ∧ p.IsAnswered s := by
  induction depth generalizing r seen with
  | zero => cases h
  | succ depth ih =>
    rw [search] at h
    split at h
    · cases h
    split at h
    · cases h
    next f hf =>
    by_cases hanswered : p.IsAnswered r
    · exact ⟨r, .refl, hanswered⟩
    · obtain ⟨name, targets, hasks⟩ := exists_asksAll hf hanswered
      rw [hasks.expand_eq] at h
      obtain ⟨target, hmem, before, hask⟩ := exists_ask_of_askAll_eq_some h
      obtain ⟨s, hreach, hs⟩ := ih hask
      exact ⟨s, .head ((hasks.forwards_iff _).mpr ⟨rfl, hmem⟩) hreach, hs⟩

/-! ## Searches that find nothing -/

/-- The requests expanded between two lists have led nowhere: none of them is answered, and all to
which they are forwarded have been expanded. -/
structure Exhausts (p : Project) (seen seen' : List Request) : Prop where
  subset : seen ⊆ seen'
  unanswered : ∀ r ∈ seen', r ∉ seen → ¬ p.IsAnswered r
  closed : ∀ r ∈ seen', r ∉ seen → ∀ s, p.Forwards r s → s ∈ seen'

namespace Exhausts

theorem refl (p : Project) (seen : List Request) : p.Exhausts seen seen where
  subset := List.Subset.refl seen
  unanswered _ h hnot := absurd h hnot
  closed _ h hnot := absurd h hnot

theorem trans (h : p.Exhausts seen seen') (h' : p.Exhausts seen' seen'') :
    p.Exhausts seen seen'' where
  subset := List.Subset.trans h.subset h'.subset
  unanswered r hr hnot := by
    by_cases hmem : r ∈ seen'
    · exact h.unanswered r hmem hnot
    · exact h'.unanswered r hr hmem
  closed r hr hnot s hs := by
    by_cases hmem : r ∈ seen'
    · exact h'.subset (h.closed r hmem hnot s hs)
    · exact h'.closed r hr hmem s hs

/-- A request that is expanded first and led nowhere itself. -/
theorem of_cons (h : p.Exhausts (r :: seen) seen') (hr : ¬ p.IsAnswered r)
    (hforwards : ∀ s, p.Forwards r s → s ∈ seen') : p.Exhausts seen seen' where
  subset := List.Subset.trans (List.subset_cons_self r seen) h.subset
  unanswered s hs hnot := by
    by_cases heq : s = r
    · exact heq ▸ hr
    · exact h.unanswered s hs (by simp [heq, hnot])
  closed s hs hnot := by
    by_cases heq : s = r
    · exact heq ▸ hforwards
    · exact h.closed s hs (by simp [heq, hnot])

/-- Once a search from the start has led nowhere, no answered request can be reached from what it
expanded. -/
theorem not_isAnswered_of_reachable (h : p.Exhausts [] seen) (hr : r ∈ seen) {s : Request}
    (hs : ReflTransGen p.Forwards r s) : ¬ p.IsAnswered s := by
  have hmem : s ∈ seen := by
    induction hs with
    | refl => exact hr
    | tail _ hstep ih => exact h.closed _ ih List.not_mem_nil _ hstep
  exact h.unanswered s hmem List.not_mem_nil

end Exhausts

/-! ## Searches within their depth -/

/-- How many requests of a finite set have not been expanded. -/
def unseen (requests : Finset Request) (seen : List Request) : Nat :=
  (requests \ seen.toFinset).card

variable {requests : Finset Request}

theorem sdiff_toFinset_subset (h : seen ⊆ seen') :
    requests \ seen'.toFinset ⊆ requests \ seen.toFinset :=
  Finset.sdiff_subset_sdiff subset_rfl fun _ hr =>
    List.mem_toFinset.mpr (h (List.mem_toFinset.mp hr))

theorem unseen_le_of_subset (h : seen ⊆ seen') : unseen requests seen' ≤ unseen requests seen :=
  Finset.card_le_card (sdiff_toFinset_subset h)

theorem unseen_cons_lt (hr : r ∈ requests) (hnot : r ∉ seen) :
    unseen requests (r :: seen) < unseen requests seen := by
  have hsubset : requests \ (r :: seen).toFinset ⊆ requests \ seen.toFinset :=
    sdiff_toFinset_subset (List.subset_cons_self r seen)
  refine Finset.card_lt_card ((Finset.ssubset_iff_of_subset hsubset).mpr ⟨r, ?_, ?_⟩)
  · simp [hr, hnot]
  · simp

/-- Where fewer requests than the depth are left, to find no answer to a request is to have expanded
it, and all else that was expanded, in vain. -/
def IsThorough (p : Project) (requests : Finset Request) (depth : Nat)
    (ask : Request → Search (Option Symbol)) : Prop :=
  ∀ r ∈ requests, ∀ seen seen', unseen requests seen < depth → ask r seen = (none, seen') →
    p.Exhausts seen seen' ∧ r ∈ seen'

theorem IsThorough.askAll (hask : p.IsThorough requests depth ask)
    (htargets : ∀ target ∈ targets, ⟨target, name⟩ ∈ requests)
    (hdepth : unseen requests seen < depth) (h : askAll ask name targets seen = (none, seen')) :
    p.Exhausts seen seen' ∧ ∀ target ∈ targets, ⟨target, name⟩ ∈ seen' := by
  induction targets generalizing seen with
  | nil =>
    cases h
    exact ⟨.refl p _, by simp⟩
  | cons target targets ih =>
    rw [Project.askAll] at h
    cases hstep : ask ⟨target, name⟩ seen with
    | mk found after =>
      rw [hstep] at h
      cases found with
      | some found => cases h
      | none =>
        obtain ⟨htarget, hrest⟩ := List.forall_mem_cons.mp htargets
        obtain ⟨hfirst, hmem⟩ := hask _ htarget _ _ hdepth hstep
        have hdepth := (unseen_le_of_subset hfirst.subset).trans_lt hdepth
        obtain ⟨hothers, hmems⟩ := ih hrest hdepth h
        exact ⟨hfirst.trans hothers, List.forall_mem_cons.mpr ⟨hothers.subset hmem, hmems⟩⟩

/-- A search is thorough among the requests of the project: there is none left when its depth is
used up. -/
theorem isThorough_search (p : Project) (queried : List String) (depth : Nat) :
    p.IsThorough (p.requests queried) depth (p.search depth) := by
  induction depth with
  | zero => exact fun r _ seen seen' hdepth => absurd hdepth (Nat.not_lt_zero _)
  | succ depth ih =>
    intro r hr seen seen' hdepth h
    rw [search] at h
    split at h
    next hmem =>
      cases h
      exact ⟨.refl p seen, hmem⟩
    next hnot =>
      obtain ⟨f, hf⟩ := exists_fileAt? (mem_requests.mp hr).1
      simp only [hf] at h
      have hanswered : ¬ p.IsAnswered r := by
        intro hanswered
        obtain ⟨symbol, after, hexpand⟩ := exists_expand_eq_some hf hanswered
        rw [hexpand] at h
        cases h
      obtain ⟨name, targets, hasks⟩ := exists_asksAll hf hanswered
      rw [hasks.expand_eq] at h
      have htargets : ∀ target ∈ targets, ⟨target, name⟩ ∈ p.requests queried := fun target ht =>
        mem_requests_of_forwards ((hasks.forwards_iff ⟨target, name⟩).mpr ⟨rfl, ht⟩) hr
      have hdepth : unseen (p.requests queried) (r :: seen) < depth := by
        have := unseen_cons_lt hr hnot
        omega
      obtain ⟨hexhausts, hmems⟩ := ih.askAll htargets hdepth h
      refine ⟨hexhausts.of_cons hanswered fun s hs => ?_, hexhausts.subset List.mem_cons_self⟩
      obtain ⟨rfl, ht⟩ := (hasks.forwards_iff s).mp hs
      exact hmems s.file ht

theorem exists_exhausts_of_exportOf_eq_none (h : (p.exportOf r []).1 = none)
    (hfile : r.file < p.files.length) : ∃ seen, p.Exhausts [] seen ∧ r ∈ seen := by
  have hdepth : unseen (p.requests [r.name]) [] < p.searchDepth :=
    (Finset.card_le_card Finset.sdiff_subset).trans_lt (card_requests_lt_searchDepth (by simp))
  have hr : r ∈ p.requests [r.name] := mem_requests.mpr ⟨hfile, List.mem_append_left _ (by simp)⟩
  exact ⟨_, isThorough_search p _ _ r hr [] _ hdepth (Prod.ext h rfl)⟩

theorem exists_fileAt?_of_reachable {s : Request} (hreach : ReflTransGen p.Forwards r s)
    (hs : p.IsAnswered s) : ∃ f, p.fileAt? r.file = some f := by
  obtain rfl | ⟨_, hstep, -⟩ := hreach.cases_head
  · obtain ⟨f, _, _, hf, -⟩ | ⟨f, _, _, hf, -⟩ := hs <;> exact ⟨f, hf⟩
  · obtain ⟨f, _, _, _, _, hf, -⟩ | ⟨f, _, _, hf, -⟩ := hstep <;> exact ⟨f, hf⟩

/-- **Searches miss nothing.** What a file exports under a name is found exactly if forwarding leads
from that request to an answered one. An export under the name that neither answers the request nor
forwards it ends the search at once, also if the file exports all names of others. -/
theorem exportOf_isSome_iff_answered_reachable (p : Project) :
    (∀ r, (p.exportOf r []).1.isSome ↔
      ∃ s, ReflTransGen p.Forwards r s ∧ p.IsAnswered s) ∧
    ∀ r f referent, p.fileAt? r.file = some f → f.ExportsFirst r.name referent →
      ¬ p.IsAnswered r → (∀ s, ¬ p.Forwards r s) → p.exportOf r [] = (none, [r]) := by
  refine ⟨fun r => ⟨fun h => ?_, ?_⟩, fun r f referent hf _ hanswered hforwards => ?_⟩
  · obtain ⟨symbol, hsymbol⟩ := Option.isSome_iff_exists.mp h
    exact exists_isAnswered_of_search (Prod.ext hsymbol rfl)
  · rintro ⟨s, hreach, hs⟩
    by_contra hnone
    obtain ⟨f, hf⟩ := exists_fileAt?_of_reachable hreach hs
    obtain ⟨seen, hexhausts, hr⟩ := exists_exhausts_of_exportOf_eq_none
      (Option.not_isSome_iff_eq_none.mp hnone) (lt_length_of_fileAt? hf)
    exact hexhausts.not_isAnswered_of_reachable hr hreach hs
  · obtain ⟨name, targets, hasks⟩ := exists_asksAll hf hanswered
    obtain rfl : targets = [] := List.eq_nil_iff_forall_not_mem.mpr fun target ht =>
      hforwards ⟨target, name⟩ ((hasks.forwards_iff _).mpr ⟨rfl, ht⟩)
    simp [exportOf, searchDepth, search, hf, hasks.expand_eq, askAll]

/-- Of two files that export all names of each other, one declares a name, which the other one then
exports too. -/
example :
    let p : Project := .ofSources Source.parse ⟨8, by decide⟩ [
      (⟨"a.ts"⟩, "export * from './b'".toList),
      (⟨"b.ts"⟩, "export * from './a'; export let x".toList)]
    (p.exportOf ⟨0, "x"⟩ []).1.isSome ∧ ¬ (p.exportOf ⟨0, "y"⟩ []).1.isSome := by
  decide +kernel

end RootCause.Scope.Project
