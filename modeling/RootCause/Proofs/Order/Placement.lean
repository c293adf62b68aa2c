import RootCause.Order.Rank
import RootCause.Proofs.Diagnostic.Identity
import RootCause.Proofs.Order.Cycles

/-!
# The ranking machine

What holds after any number of steps of the machine that ranks identities (`Placement.Invariant`):
what is placed stands after its predecessors, each count is the number of edges from what is not
placed yet, and what can be placed next is exactly what waits for nothing. The machine stops
(`Invariant.ready_run_eq_nil`), and what it cannot place lies behind a cycle
(`Invariant.mem_placed_iff`).
-/

namespace RootCause.Order

/-! ## Ascending lists -/

@[simp] theorem mem_insertSorted {a b : Id} {l : List Id} :
    a ∈ insertSorted b l ↔ a = b ∨ a ∈ l := by
  induction l with
  | nil => simp [insertSorted]
  | cons c l ih =>
    by_cases h : b < c
    · simp [insertSorted, h]
    · simp only [insertSorted, h, if_false, List.mem_cons, ih]
      exact or_left_comm

theorem pairwise_insertSorted {a : Id} {l : List Id} (ha : a ∉ l) (hl : l.Pairwise (· < ·)) :
    (insertSorted a l).Pairwise (· < ·) := by
  induction l with
  | nil => exact List.pairwise_singleton _ _
  | cons b l ih =>
    obtain ⟨hb, hl'⟩ := List.pairwise_cons.mp hl
    obtain ⟨hab, ha'⟩ := not_or.mp (mt List.mem_cons.mpr ha)
    by_cases h : a < b
    · simp only [insertSorted, h, if_true]
      refine List.pairwise_cons.mpr ⟨fun c hc => ?_, hl⟩
      rcases List.mem_cons.mp hc with rfl | hc
      · exact h
      · exact Id.lt_trans h (hb c hc)
    · simp only [insertSorted, h, if_false]
      refine List.pairwise_cons.mpr ⟨fun c hc => ?_, ih ha' hl'⟩
      rcases mem_insertSorted.mp hc with rfl | hc
      · exact (Id.lt_or_gt_of_ne hab).resolve_left h
      · exact hb c hc

theorem mem_foldr_insertSorted {a : Id} {new l : List Id} :
    a ∈ new.foldr insertSorted l ↔ a ∈ new ∨ a ∈ l := by
  induction new with
  | nil => simp
  | cons b new ih => simp [ih, or_assoc]

theorem pairwise_foldr_insertSorted {new l : List Id} (hnew : new.Nodup)
    (hdisj : ∀ a ∈ new, a ∉ l) (hl : l.Pairwise (· < ·)) :
    (new.foldr insertSorted l).Pairwise (· < ·) := by
  induction new with
  | nil => exact hl
  | cons a new ih =>
    obtain ⟨ha, hnew⟩ := List.nodup_cons.mp hnew
    refine pairwise_insertSorted ?_ (ih hnew fun b hb => hdisj b (by simp [hb]))
    rw [mem_foldr_insertSorted]
    exact not_or.mpr ⟨ha, hdisj a (by simp)⟩

/-! ## Edges inside a list of identities -/

/-- Every identity and every edge is there once, and an edge leads from one of the identities to a
different one. -/
structure IsInner (ids : List Id) (es : List Edge) : Prop where
  nodup_ids : ids.Nodup
  nodup : es.Nodup
  links : ∀ {a b}, Leads es a b → Links ids es a b

theorem leads_innerEdges {ids : List Id} {es : List Edge} {a b : Id} :
    Leads (innerEdges ids es) a b ↔ Links ids es a b := by
  simp [Leads, Links, innerEdges, and_assoc, and_comm]

theorem isInner_innerEdges (ids : List Id) (es : List Edge) :
    IsInner (distinct ids) (innerEdges (distinct ids) es) where
  nodup_ids := nodup_distinct ids
  nodup := nodup_distinct _
  links h := by
    obtain ⟨hne, ha, hb, -⟩ := leads_innerEdges.mp h
    exact ⟨hne, ha, hb, h⟩

/-- The edges to an identity from those that are not placed yet. -/
def pending (es : List Edge) (placed : List Id) (id : Id) : List Edge :=
  es.filter fun e => e.target = id ∧ e.source ∉ placed

theorem mem_pending {es : List Edge} {placed : List Id} {id : Id} {e : Edge} :
    e ∈ pending es placed id ↔ Leads es e.source id ∧ e.target = id ∧ e.source ∉ placed := by
  simp only [pending, List.mem_filter, decide_eq_true_eq, Leads]
  refine and_congr_left fun h => ?_
  rw [← h.1]

theorem pending_eq_nil_iff {es : List Edge} {placed : List Id} {id : Id} :
    pending es placed id = [] ↔ ∀ a, Leads es a id → a ∈ placed := by
  rw [List.eq_nil_iff_forall_not_mem]
  constructor
  · intro h a ha
    by_contra hp
    exact h ⟨a, id⟩ (mem_pending.mpr ⟨ha, rfl, hp⟩)
  · intro h e he
    obtain ⟨hl, -, hp⟩ := mem_pending.mp he
    exact hp (h e.source hl)

/-- An identity that is placed takes away its own edge and no other. -/
theorem pending_snoc {es : List Edge} (hes : es.Nodup) (placed : List Id) (a id : Id) :
    pending es (placed ++ [a]) id = (pending es placed id).erase ⟨a, id⟩ := by
  have hpend : (pending es placed id).Nodup := hes.filter _
  rw [hpend.erase_eq_filter, pending, pending, List.filter_filter]
  refine List.filter_congr fun e _ => ?_
  by_cases ht : e.target = id
  · have he : e = ⟨a, id⟩ ↔ e.source = a := by
      constructor
      · rintro rfl
        rfl
      · rintro rfl
        rw [← ht]
    have hbne : (e != ⟨a, id⟩) = decide (e.source ≠ a) := by
      rw [Bool.eq_iff_iff]
      simp [he]
    rw [hbne]
    simp [ht, and_comm]
  · simp [ht]

theorem length_pending_snoc {es : List Edge} (hes : es.Nodup) {placed : List Id} {a : Id}
    (ha : a ∉ placed) (id : Id) :
    (pending es (placed ++ [a]) id).length =
      if Placement.leadsTo es a id then (pending es placed id).length - 1
      else (pending es placed id).length := by
  have h : ⟨a, id⟩ ∈ pending es placed id ↔ Placement.leadsTo es a id = true := by
    rw [mem_pending]
    simp [Leads, Placement.leadsTo, ha]
  rw [pending_snoc hes, List.length_erase]
  simp only [h]

/-! ## The invariant -/

namespace Placement

variable {ids : List Id} {es : List Edge}

/-- What every step keeps. -/
structure Invariant (ids : List Id) (es : List Edge) (p : Placement) : Prop where
  nodup : p.placed.Nodup
  subset : p.placed ⊆ ids
  /-- What is placed stands after its predecessors. -/
  after : IsAfterPreds (Leads es) p.placed
  /-- Every identity waits for its predecessors that are not placed yet. -/
  waiting_eq : p.waiting = ids.map fun id => (id, (pending es p.placed id).length)
  ready_sorted : p.ready.Pairwise (· < ·)
  /-- What can be placed next is what waits for nothing. -/
  mem_ready : ∀ id, id ∈ p.ready ↔ id ∈ ids ∧ id ∉ p.placed ∧ pending es p.placed id = []

theorem mem_map_fst_filter {f : Id → Nat} {q : Id × Nat → Bool} {id : Id} :
    id ∈ ((ids.map fun a => (a, f a)).filter q).map (·.1) ↔ id ∈ ids ∧ q (id, f id) := by
  simp [and_comm]

theorem nodup_map_fst_filter (h : ids.Nodup) (f : Id → Nat) (q : Id × Nat → Bool) :
    (((ids.map fun a => (a, f a)).filter q).map (·.1)).Nodup := by
  have hsub : List.Sublist (((ids.map fun a => (a, f a)).filter q).map (·.1))
      ((ids.map fun a => (a, f a)).map (·.1)) := List.filter_sublist.map _
  refine hsub.nodup ?_
  simpa [Function.comp_def] using h

theorem Invariant.start (h : IsInner ids es) : Invariant ids es (start ids es) := by
  have hcount : ∀ id, pending es [] id = es.filter (·.target = id) := fun id => by
    simp [pending]
  refine ⟨.nil, by simp [Placement.start], .nil, ?_, ?_, fun id => ?_⟩
  · simp only [Placement.start, inDegree, hcount]
  · exact pairwise_foldr_insertSorted (nodup_map_fst_filter h.nodup_ids _ _) (by simp) .nil
  · simp only [Placement.start, mem_foldr_insertSorted, mem_map_fst_filter, hcount, inDegree]
    simp

/-- The identities that can be placed once `next` is placed: those that waited for it alone. -/
def freed (ids : List Id) (es : List Edge) (placed : List Id) (next : Id) : List Id :=
  ((ids.map fun id => (id, (pending es (placed ++ [next]) id).length)).filter
    fun w => leadsTo es next w.1 ∧ w.2 = 0).map (·.1)

theorem mem_freed {placed : List Id} {next id : Id} :
    id ∈ freed ids es placed next ↔
      id ∈ ids ∧ Leads es next id ∧ pending es (placed ++ [next]) id = [] := by
  rw [freed, mem_map_fst_filter]
  simp [leadsTo, Leads]

/-- What a step does: the smallest identity that can be placed is placed, and those that it frees
can be placed next. -/
theorem Invariant.step_eq {p : Placement} (h : IsInner ids es) (hp : Invariant ids es p)
    {next : Id} {ready : List Id} (hready : p.ready = next :: ready) :
    p.step es = ⟨p.placed ++ [next], (freed ids es p.placed next).foldr insertSorted ready,
      ids.map fun id => (id, (pending es (p.placed ++ [next]) id).length)⟩ := by
  have hnext : next ∉ p.placed := ((hp.mem_ready next).mp (by simp [hready])).2.1
  have hwaiting : ∀ f : Id × Nat → Id × Nat,
      (∀ id n, f (id, n) = if leadsTo es next id then (id, n - 1) else (id, n)) →
      p.waiting.map f = ids.map fun id => (id, (pending es (p.placed ++ [next]) id).length) := by
    intro f hf
    rw [hp.waiting_eq, List.map_map]
    refine List.map_congr_left fun id _ => ?_
    rw [Function.comp_apply, hf, length_pending_snoc h.nodup hnext]
    by_cases hl : leadsTo es next id = true <;> simp [hl]
  simp only [step, hready, freed]
  rw [hwaiting _ fun _ _ => rfl]

theorem step_of_ready_eq_nil {p : Placement} (h : p.ready = []) : p.step es = p := by
  simp [Placement.step, h]

theorem Invariant.step {p : Placement} (h : IsInner ids es) (hp : Invariant ids es p) :
    Invariant ids es (p.step es) := by
  rcases hready : p.ready with _ | ⟨next, ready⟩
  · rw [step_of_ready_eq_nil hready]
    exact hp
  obtain ⟨hmem, hnext, hpend⟩ := (hp.mem_ready next).mp (by simp [hready])
  obtain ⟨hlt, hsorted⟩ := List.pairwise_cons.mp (hready ▸ hp.ready_sorted)
  have htail : ∀ id, id ∈ ready ↔
      id ≠ next ∧ id ∈ ids ∧ id ∉ p.placed ∧ pending es p.placed id = [] := fun id => by
    rw [← hp.mem_ready id, hready, List.mem_cons]
    constructor
    · intro hid
      exact ⟨(Id.ne_of_lt (hlt id hid)).symm, .inr hid⟩
    · rintro ⟨hne, hid⟩
      exact hid.resolve_left hne
  have hpreds := pending_eq_nil_iff.mp hpend
  have hunplaced : ∀ id, Leads es next id → id ∉ p.placed := fun id hl hid =>
    hnext (hp.after.mem_of_mem hid hl)
  rw [hp.step_eq h hready]
  refine ⟨?_, ?_, hp.after.snoc hpreds, rfl, ?_, fun id => ?_⟩
  · exact List.nodup_append.mpr ⟨hp.nodup, List.nodup_singleton _, by
      rintro a ha b hb rfl
      exact hnext (List.mem_singleton.mp hb ▸ ha)⟩
  · exact List.append_subset.mpr ⟨hp.subset, by simpa using hmem⟩
  · refine pairwise_foldr_insertSorted (nodup_map_fst_filter h.nodup_ids _ _) ?_ hsorted
    -- what the step frees was waiting for `next`, and what was ready waited for nothing
    intro id hid hold
    obtain ⟨-, hl, -⟩ := mem_freed.mp hid
    exact hnext (pending_eq_nil_iff.mp ((htail id).mp hold).2.2.2 next hl)
  · simp only [mem_foldr_insertSorted, mem_freed, htail, List.mem_append, List.mem_singleton, not_or]
    constructor
    · rintro (⟨hid, hl, hnil⟩ | ⟨hne, hid, hout, hnil⟩)
      · exact ⟨hid, ⟨hunplaced id hl, ((h.links hl).1).symm⟩, hnil⟩
      · refine ⟨hid, ⟨hout, hne⟩, ?_⟩
        rw [pending_snoc h.nodup, hnil]
        rfl
    · rintro ⟨hid, ⟨hout, hne⟩, hnil⟩
      by_cases hl : Leads es next id
      · exact .inl ⟨hid, hl, hnil⟩
      · refine .inr ⟨hne, hid, hout, pending_eq_nil_iff.mpr fun a ha => ?_⟩
        have := pending_eq_nil_iff.mp hnil a ha
        rcases List.mem_append.mp this with hap | hap
        · exact hap
        · rw [List.mem_singleton.mp hap] at ha
          exact absurd ha hl

theorem Invariant.run {p : Placement} (h : IsInner ids es) (hp : Invariant ids es p) (n : Nat) :
    Invariant ids es (p.run es n) := by
  induction n generalizing p with
  | zero => exact hp
  | succ n ih => exact ih (hp.step h)

/-! ## The end of the run -/

theorem run_of_ready_eq_nil {p : Placement} (h : p.ready = []) (n : Nat) : p.run es n = p := by
  induction n with
  | zero => rfl
  | succ n ih => rw [Placement.run, step_of_ready_eq_nil h, ih]

/-- Every step places an identity or finds the machine at its end. -/
theorem ready_run_eq_nil_or_length (p : Placement) (n : Nat) :
    (p.run es n).ready = [] ∨ (p.run es n).placed.length = p.placed.length + n := by
  induction n generalizing p with
  | zero => exact .inr rfl
  | succ n ih =>
    rcases hready : p.ready with _ | ⟨next, ready⟩
    · left
      rw [run_of_ready_eq_nil hready, hready]
    · have hlength : (p.step es).placed.length = p.placed.length + 1 := by
        simp [Placement.step, hready]
      rcases ih (p.step es) with hnil | hlen
      · exact .inl hnil
      · right
        rw [Placement.run, hlen, hlength]
        omega

theorem Invariant.ready_run_eq_nil (h : IsInner ids es) :
    ((Placement.start ids es).run es ids.length).ready = [] := by
  have hp := (Invariant.start h).run h ids.length
  have hend : ((Placement.start ids es).run es ids.length).ready = [] ∨
      ((Placement.start ids es).run es ids.length).placed.length = 0 + ids.length :=
    ready_run_eq_nil_or_length (Placement.start ids es) ids.length
  rcases hend with hnil | hlength
  · exact hnil
  · rw [List.eq_nil_iff_forall_not_mem]
    intro id hid
    obtain ⟨hmem, hout, -⟩ := (hp.mem_ready id).mp hid
    -- all identities are placed, as there are no more of them than steps
    have hperm := (List.subperm_of_subset hp.nodup hp.subset).perm_of_length_le
      (by rw [hlength, Nat.zero_add])
    exact hout (hperm.mem_iff.mpr hmem)

/-- A machine at its end has placed exactly the identities that are not behind a cycle. -/
theorem Invariant.mem_placed_iff {p : Placement} (h : IsInner ids es) (hp : Invariant ids es p)
    (hend : p.ready = []) (id : Id) :
    id ∈ p.placed ↔ id ∈ ids ∧ ¬ BehindCycle (Leads es) id := by
  constructor
  · intro hid
    exact ⟨hp.subset hid, hp.after.not_behind id hid⟩
  · rintro ⟨hid, hcycle⟩
    by_contra hout
    refine hcycle (behindCycle_of_forall_exists_pred (l := ids.filter (· ∉ p.placed)) ?_ ?_)
    · intro b hb
      obtain ⟨hb, hbout⟩ := List.mem_filter.mp hb
      have hwait : ¬ pending es p.placed b = [] := fun hnil => by
        have := (hp.mem_ready b).mpr ⟨hb, by simpa using hbout, hnil⟩
        rw [hend] at this
        exact List.not_mem_nil this
      rw [pending_eq_nil_iff] at hwait
      push Not at hwait
      obtain ⟨a, ha, haout⟩ := hwait
      exact ⟨a, List.mem_filter.mpr ⟨(h.links ha).2.1, by simpa using haout⟩, ha⟩
    · exact List.mem_filter.mpr ⟨hid, by simpa using hout⟩

end Placement

end RootCause.Order
