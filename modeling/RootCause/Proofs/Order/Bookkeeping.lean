import Mathlib.Data.Finset.Card
import RootCause.Proofs.Order.Ranking

/-!
# The books of the ranking machine

The machine that ranks the identities of a list, followed step by step (`machineAt`). After any
number of steps its books say what they are kept for (`KeepsBooks`):

* what an identity waits for is the number of its predecessors that are not placed yet
  (`waiting_machineAt`), so that a count is only ever taken down from a positive number
  (`pos_of_leadsTo_next`);
* what can be placed next is what is not placed and waits for nothing (`mem_ready_machineAt`), and
  no identity is made ready twice: what was made ready so far is what is placed and what is ready
  (`madeReadyBy_perm`), each once;
* the machine comes to its end in no more steps than there are identities
  (`StopsAfter`), and what it has placed then stands first in the ranking.
-/

namespace RootCause.Order

variable {ids : List Id} {es : List Edge}

/-! ## What a step makes ready -/

theorem insertSorted_perm (a : Id) (l : List Id) : (insertSorted a l).Perm (a :: l) := by
  induction l with
  | nil => exact .refl _
  | cons b l ih =>
    by_cases h : a < b
    · rw [insertSorted, if_pos h]
    · rw [insertSorted, if_neg h]
      exact (ih.cons b).trans (.swap a b l)

theorem foldr_insertSorted_perm (new l : List Id) :
    (new.foldr insertSorted l).Perm (new ++ l) := by
  induction new with
  | nil => exact .refl _
  | cons a new ih => exact (insertSorted_perm a _).trans (ih.cons a)

namespace Placement

/-- The identities whose count the next step takes down to zero, and which it makes ready. -/
def madeReady (es : List Edge) (p : Placement) : List Id :=
  match p.ready with
  | [] => []
  | next :: _ => (p.waiting.filter fun (id, n) => leadsTo es next id ∧ n - 1 = 0).map (·.1)

theorem ready_step {p : Placement} {next : Id} {ready : List Id} (h : p.ready = next :: ready) :
    (p.step es).ready = (madeReady es p).foldr insertSorted ready := by
  simp only [step, madeReady, h, List.filter_map, List.map_map]
  congr 1
  refine congrArg₂ List.map (funext fun w => ?_) (List.filter_congr fun w _ => ?_)
  · by_cases hl : leadsTo es next w.1 <;> simp [hl]
  · by_cases hl : leadsTo es next w.1 <;> simp [hl]

theorem placed_step {p : Placement} {next : Id} {ready : List Id} (h : p.ready = next :: ready) :
    (p.step es).placed = p.placed ++ [next] := by
  simp only [step, h]

theorem run_succ (p : Placement) (n : Nat) : p.run es (n + 1) = (p.run es n).step es := by
  induction n generalizing p with
  | zero => rfl
  | succ n ih => exact ih (p.step es)

end Placement

/-! ## The machine at work -/

/-- The machine that ranks the identities of a list, after so many steps. -/
def machineAt (ids : List Id) (es : List Edge) (n : Nat) : Placement :=
  (Placement.start (distinct ids) (innerEdges (distinct ids) es)).run
    (innerEdges (distinct ids) es) n

theorem machineAt_succ (ids : List Id) (es : List Edge) (n : Nat) :
    machineAt ids es (n + 1) = (machineAt ids es n).step (innerEdges (distinct ids) es) :=
  Placement.run_succ _ n

theorem invariant_machineAt (ids : List Id) (es : List Edge) (n : Nat) :
    Placement.Invariant (distinct ids) (innerEdges (distinct ids) es) (machineAt ids es n) :=
  have h := isInner_innerEdges ids es
  (Placement.Invariant.start h).run h n

/-! ## Counts -/

instance (ids : List Id) (es : List Edge) (a b : Id) : Decidable (Links ids es a b) :=
  inferInstanceAs (Decidable (a ≠ b ∧ a ∈ ids ∧ b ∈ ids ∧ ⟨a, b⟩ ∈ es))

/-- The identities of a list that an edge leads from to another one of it, and which are not placed
yet. -/
def unplacedPreds (ids : List Id) (es : List Edge) (placed : List Id) (id : Id) : Finset Id :=
  {a ∈ ids.toFinset | Links ids es a id ∧ a ∉ placed}

theorem card_unplacedPreds (placed : List Id) (id : Id) :
    (unplacedPreds ids es placed id).card =
      (pending (innerEdges (distinct ids) es) placed id).length := by
  have hpending : (pending (innerEdges (distinct ids) es) placed id).Nodup :=
    (isInner_innerEdges ids es).nodup.filter _
  have hsources : ((pending (innerEdges (distinct ids) es) placed id).map Edge.source).Nodup := by
    refine hpending.map_on fun e he f hf hsource => ?_
    obtain ⟨-, rfl, -⟩ := mem_pending.mp he
    obtain ⟨-, htarget, -⟩ := mem_pending.mp hf
    cases e
    cases f
    exact congrArg₂ Edge.mk hsource htarget.symm
  have hmem : unplacedPreds ids es placed id =
      ((pending (innerEdges (distinct ids) es) placed id).map Edge.source).toFinset := by
    ext a
    simp only [unplacedPreds, Finset.mem_filter, List.mem_toFinset, List.mem_map, mem_pending,
      leads_innerEdges_distinct]
    constructor
    · rintro ⟨-, hlinks, hout⟩
      exact ⟨⟨a, id⟩, ⟨hlinks, rfl, hout⟩, rfl⟩
    · rintro ⟨e, ⟨hlinks, -, hout⟩, rfl⟩
      exact ⟨hlinks.2.1, hlinks, hout⟩
  rw [hmem, List.toFinset_card_of_nodup hsources, List.length_map]

/-- Every identity waits for its predecessors that are not placed yet. -/
theorem waiting_machineAt (ids : List Id) (es : List Edge) (n : Nat) :
    (machineAt ids es n).waiting = (distinct ids).map fun id =>
      (id, (unplacedPreds ids es (machineAt ids es n).placed id).card) := by
  simp only [card_unplacedPreds, (invariant_machineAt ids es n).waiting_eq]

theorem mem_waiting_machineAt {n k : Nat} {id : Id} :
    (id, k) ∈ (machineAt ids es n).waiting ↔
      id ∈ ids ∧ (unplacedPreds ids es (machineAt ids es n).placed id).card = k := by
  simp only [waiting_machineAt, List.mem_map, mem_distinct, Prod.mk.injEq]
  constructor
  · rintro ⟨a, ha, rfl, hk⟩
    exact ⟨ha, hk⟩
  · rintro ⟨hid, hk⟩
    exact ⟨id, hid, rfl, hk⟩

theorem mem_ready_machineAt {n : Nat} {id : Id} :
    id ∈ (machineAt ids es n).ready ↔
      id ∉ (machineAt ids es n).placed ∧ (id, 0) ∈ (machineAt ids es n).waiting := by
  rw [(invariant_machineAt ids es n).mem_ready, mem_distinct, mem_waiting_machineAt,
    card_unplacedPreds, List.length_eq_zero_iff]
  exact and_left_comm

/-- What waits for the identity that is placed next waits for at least one. -/
theorem pos_of_leadsTo_next {n k : Nat} {next id : Id} {ready : List Id}
    (hready : (machineAt ids es n).ready = next :: ready)
    (hid : (id, k) ∈ (machineAt ids es n).waiting)
    (hleads : Placement.leadsTo (innerEdges (distinct ids) es) next id) : 0 < k := by
  obtain ⟨-, rfl⟩ := mem_waiting_machineAt.mp hid
  have hnext : next ∉ (machineAt ids es n).placed :=
    (mem_ready_machineAt.mp (hready ▸ List.mem_cons_self)).1
  have hlinks : Links ids es next id := by
    rw [← leads_innerEdges_distinct]
    simpa [Placement.leadsTo, Leads] using hleads
  refine Finset.card_pos.mpr ⟨next, ?_⟩
  simp only [unplacedPreds, Finset.mem_filter, List.mem_toFinset]
  exact ⟨hlinks.2.1, hlinks, hnext⟩

/-! ## What was made ready -/

/-- The identities that were made ready, at the start and by so many steps, in this order. -/
def madeReadyBy (ids : List Id) (es : List Edge) : Nat → List Id
  | 0 => (machineAt ids es 0).ready
  | n + 1 =>
    madeReadyBy ids es n ++ (machineAt ids es n).madeReady (innerEdges (distinct ids) es)

/-- What was made ready is placed, or ready still. -/
theorem madeReadyBy_perm (ids : List Id) (es : List Edge) (n : Nat) :
    (madeReadyBy ids es n).Perm ((machineAt ids es n).placed ++ (machineAt ids es n).ready) := by
  induction n with
  | zero => exact .refl _
  | succ n ih =>
    rw [madeReadyBy, machineAt_succ]
    rcases hready : (machineAt ids es n).ready with _ | ⟨next, ready⟩
    · rw [Placement.step_of_ready_eq_nil hready, Placement.madeReady, hready, List.append_nil]
      rwa [hready] at ih
    · rw [Placement.placed_step hready, Placement.ready_step hready]
      rw [hready] at ih
      refine (ih.append_right _).trans ?_
      rw [List.append_assoc, List.append_assoc, List.singleton_append, List.cons_append]
      refine List.Perm.append_left _ (List.Perm.cons _ ?_)
      exact List.perm_append_comm.trans (foldr_insertSorted_perm _ _).symm

theorem nodup_ready_machineAt (ids : List Id) (es : List Edge) (n : Nat) :
    (machineAt ids es n).ready.Nodup :=
  (invariant_machineAt ids es n).ready_sorted.imp Id.ne_of_lt

theorem nodup_madeReadyBy (ids : List Id) (es : List Edge) (n : Nat) :
    (madeReadyBy ids es n).Nodup := by
  rw [(madeReadyBy_perm ids es n).nodup_iff]
  refine List.nodup_append.mpr
    ⟨(invariant_machineAt ids es n).nodup, nodup_ready_machineAt ids es n, ?_⟩
  rintro a ha b hb rfl
  exact (mem_ready_machineAt.mp hb).1 ha

/-! ## The end -/

theorem machineAt_of_le {m n : Nat} (hm : (machineAt ids es m).ready = []) (hmn : m ≤ n) :
    machineAt ids es n = machineAt ids es m := by
  induction n, hmn using Nat.le_induction with
  | base => rfl
  | succ n _ ih => rw [machineAt_succ, ih, Placement.step_of_ready_eq_nil hm]

/-- The machine comes to its end in no more steps than there are identities, and goes on no
further. -/
theorem exists_last_step (ids : List Id) (es : List Edge) :
    ∃ last ≤ (distinct ids).length,
      (∀ n, (machineAt ids es n).ready = [] ↔ last ≤ n) ∧
      machineAt ids es (distinct ids).length = machineAt ids es last := by
  have hend : (machineAt ids es (distinct ids).length).ready = [] :=
    Placement.Invariant.ready_run_eq_nil (isInner_innerEdges ids es)
  have hexists : ∃ n, (machineAt ids es n).ready = [] := ⟨_, hend⟩
  classical
  have hlast := Nat.find_spec hexists
  refine ⟨Nat.find hexists, Nat.find_min' hexists hend,
    fun n => ⟨Nat.find_min' hexists, fun h => ?_⟩,
    machineAt_of_le hlast (Nat.find_min' hexists hend)⟩
  rw [machineAt_of_le hlast h, hlast]

/-! ## The books -/

/-- The books of the machine are right after so many steps. -/
structure KeepsBooks (ids : List Id) (es : List Edge) (n : Nat) : Prop where
  /-- Each identity is entered with the number of its predecessors that are not placed yet. -/
  waiting_eq : (machineAt ids es n).waiting = (distinct ids).map fun id =>
    (id, (unplacedPreds ids es (machineAt ids es n).placed id).card)
  nodup_ready : (machineAt ids es n).ready.Nodup
  /-- What can be placed next is not placed and waits for nothing. -/
  mem_ready_iff : ∀ id, id ∈ (machineAt ids es n).ready ↔
    id ∉ (machineAt ids es n).placed ∧ (id, 0) ∈ (machineAt ids es n).waiting
  nodup_placed : (machineAt ids es n).placed.Nodup
  placed_subset : (machineAt ids es n).placed ⊆ ids
  /-- No count is taken down from zero by what is placed next. -/
  pos_of_leadsTo : ∀ next ready, (machineAt ids es n).ready = next :: ready →
    ∀ id k, (id, k) ∈ (machineAt ids es n).waiting →
      Placement.leadsTo (innerEdges (distinct ids) es) next id → 0 < k
  /-- No identity has been made ready twice. -/
  nodup_madeReady : (madeReadyBy ids es n).Nodup

theorem keepsBooks (ids : List Id) (es : List Edge) (n : Nat) : KeepsBooks ids es n where
  waiting_eq := waiting_machineAt ids es n
  nodup_ready := nodup_ready_machineAt ids es n
  mem_ready_iff _ := mem_ready_machineAt
  nodup_placed := (invariant_machineAt ids es n).nodup
  placed_subset _ hid := mem_distinct.mp ((invariant_machineAt ids es n).subset hid)
  pos_of_leadsTo _ _ hready _ _ hid hleads := pos_of_leadsTo_next hready hid hleads
  nodup_madeReady := nodup_madeReadyBy ids es n

/-- The machine is at its end after so many steps and not before, and what it has placed then stands
first in the ranking. -/
structure StopsAfter (ids : List Id) (es : List Edge) (last : Nat) : Prop where
  le_length : last ≤ (distinct ids).length
  ready_eq_nil_iff : ∀ n, (machineAt ids es n).ready = [] ↔ last ≤ n
  order_eq : (rank ids es).order = (machineAt ids es last).placed ++
    (distinct ids).filter (· ∉ (machineAt ids es last).placed)

theorem exists_stopsAfter (ids : List Id) (es : List Edge) : ∃ last, StopsAfter ids es last := by
  obtain ⟨last, hle, hend, hrun⟩ := exists_last_step ids es
  refine ⟨last, hle, hend, ?_⟩
  rw [← hrun]
  exact order_rank ids es

/-- **The books of the ranking machine are right after every step**, and the machine is at its end
after at most as many steps as there are identities. -/
theorem machineAt_keeps_books (ids : List Id) (es : List Edge) :
    (∀ n, KeepsBooks ids es n) ∧ ∃ last, StopsAfter ids es last :=
  ⟨keepsBooks ids es, exists_stopsAfter ids es⟩

end RootCause.Order
