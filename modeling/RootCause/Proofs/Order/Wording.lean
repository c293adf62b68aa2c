import RootCause.Proofs.Order.Presentation
import Mathlib.Data.List.Forall2

/-!
# Messages and severities

How a problem is put and how bad it is have no influence on the order of different problems
(`order_of_rewording`). Neither is part of an identity or of what edges depend on, so the ranking
stays (`rankingOf_of_isSameProblem`), and the ordered identities are the ones in which ranks rise
(`map_id_order_eq`). Messages are not sorted by either. What a stable sort moves where depends only
on the keys (`IsSortingOrder.unique`), so that with other messages the same positions of the input
come in the same order.
-/

namespace RootCause.Order

/-! ## Where a stable sort puts what -/

section

variable {α β : Type} [LinearOrder β] {key key' : α → β} {l l' sorted sorted' : List α}
  {positions positions' : List Nat}

/-- The positions of a list in the order in which a sort by the key puts what stands there: it is
the sorted list, and of elements with the same key the first stays the first. -/
structure IsSortingOrder (key : α → β) (l sorted : List α) (positions : List Nat) : Prop where
  perm : positions.Perm (List.range l.length)
  map_getElem? : positions.map (l[·]?) = sorted.map some
  ties : positions.Pairwise fun i j => (l.map key)[i]? = (l.map key)[j]? → i < j

/-- Key and position at `i` are not greater than those at `j`. -/
def PlaceLE (keys : List β) (i j : Nat) : Prop :=
  ∀ k ∈ keys[i]?, ∀ k' ∈ keys[j]?, toLex (k, i) ≤ toLex (k', j)

theorem IsSortingOrder.pairwise_placeLE (h : IsSortingOrder key l sorted positions)
    (hsorted : sorted.Pairwise fun a b => key a ≤ key b) :
    positions.Pairwise (PlaceLE (l.map key)) := by
  have hkeys : positions.map ((l.map key)[·]?) = sorted.map fun a => some (key a) := by
    have hmap := congrArg (List.map (Option.map key)) h.map_getElem?
    simpa [Function.comp_def] using hmap
  have hascending : (positions.map ((l.map key)[·]?)).Pairwise fun x y =>
      ∀ k ∈ x, ∀ k' ∈ y, k ≤ k' := by
    rw [hkeys, List.pairwise_map]
    exact hsorted.imp fun hab => by simpa using hab
  refine ((List.pairwise_map.mp hascending).and h.ties).imp fun {i j} hij k hk k' hk' => ?_
  have hle : k ≤ k' := hij.1 k hk k' hk'
  refine Prod.Lex.toLex_le_toLex.mpr (hle.lt_or_eq.imp_right ?_)
  rintro rfl
  exact ⟨rfl, (hij.2 (hk.trans hk'.symm)).le⟩

/-- Where a sort puts what depends only on the keys. -/
theorem IsSortingOrder.unique (h : IsSortingOrder key l sorted positions)
    (h' : IsSortingOrder key' l' sorted' positions') (hkeys : l.map key = l'.map key')
    (hsorted : sorted.Pairwise fun a b => key a ≤ key b)
    (hsorted' : sorted'.Pairwise fun a b => key' a ≤ key' b) : positions = positions' := by
  have hlength : l.length = l'.length := by simpa using congrArg List.length hkeys
  have hperm : positions.Perm positions' := (hlength ▸ h.perm).trans h'.perm.symm
  have hget : ∀ i ∈ positions, ∃ k, (l.map key)[i]? = some k := fun i hi => by
    have hi : i < (l.map key).length := by simpa using h.perm.mem_iff.mp hi
    exact ⟨_, List.getElem?_eq_getElem hi⟩
  refine hperm.eq_of_pairwise (fun i j hi hj hij hji => ?_) (h.pairwise_placeLE hsorted)
    (hkeys ▸ h'.pairwise_placeLE hsorted')
  obtain ⟨k, hk⟩ := hget i hi
  obtain ⟨k', hk'⟩ := hget j (hperm.mem_iff.mpr hj)
  have hplace := le_antisymm (hij k hk k' hk') (hji k' hk' k hk)
  exact congrArg (fun place => (ofLex place).2) hplace

theorem exists_isSortingOrder {le : α → α → Bool} (hle : ∀ a b, le a b = true ↔ key a ≤ key b)
    (l : List α) : ∃ positions, IsSortingOrder key l (l.mergeSort le) positions := by
  -- the elements are sorted together with their positions
  set tagged := l.zipIdx.mergeSort (List.zipIdxLE le)
  have hperm : tagged.Perm l.zipIdx := List.mergeSort_perm _ _
  have hmem : ∀ a ∈ tagged, l[a.2]? = some a.1 := fun a ha =>
    List.mem_zipIdx_iff_getElem?.mp (hperm.mem_iff.mp ha)
  have hpositions : (tagged.map (·.2)).Perm (List.range l.length) := by
    have hmap := hperm.map (·.2)
    rwa [List.zipIdx_map_snd, ← List.range_eq_range'] at hmap
  refine ⟨tagged.map (·.2), hpositions, ?_, ?_⟩
  · rw [← List.mergeSort_zipIdx, List.map_map, List.map_map]
    exact List.map_congr_left fun a ha => hmem a ha
  · have hsorted : tagged.Pairwise fun a b => List.zipIdxLE le a b = true :=
      List.pairwise_mergeSort (List.zipIdxLE_trans (trans_of_key key hle))
        (List.zipIdxLE_total (total_of_key key hle)) _
    have hnodup : (tagged.map (·.2)).Nodup := hpositions.nodup_iff.mpr List.nodup_range
    refine List.pairwise_map.mpr ?_
    refine (hsorted.and (List.pairwise_map.mp hnodup)).imp_of_mem fun {a b} ha hb hab heq => ?_
    have hkey : key a.1 = key b.1 := by simpa [hmem a ha, hmem b hb] using heq
    have hab' : le a.1 b.1 = true := (hle _ _).mpr hkey.le
    have hba' : le b.1 a.1 = true := (hle _ _).mpr hkey.ge
    have hposition : a.2 ≤ b.2 := by simpa [List.zipIdxLE, hab', hba'] using hab.1
    exact lt_of_le_of_ne hposition hab.2

end

/-! ## The same problems in other words -/

/-- Two diagnostics report the same problem, in other words or as more or less severe. -/
structure IsSameProblem (d d' : Diagnostic) : Prop where
  tool : d.tool = d'.tool
  rule : d.rule = d'.rule
  location : d.location = d'.location

/-- Two diagnostics differ in nothing but the message. -/
structure IsReworded (d d' : Diagnostic) : Prop extends IsSameProblem d d' where
  severity : d.severity = d'.severity

theorem IsSameProblem.id_eq {d d' : Diagnostic} (h : IsSameProblem d d') : d.id = d'.id := by
  simp only [Diagnostic.id, Diagnostic.file, Diagnostic.line, Diagnostic.column, h.tool, h.rule,
    h.location]

variable {σ : Type} {m : SemanticModel σ} {ds ds' : List Diagnostic}

theorem IsSameProblem.node_eq {d d' : Diagnostic} (h : IsSameProblem d d') :
    Node.of m d = Node.of m d' := by
  simp only [Node.of, SemanticModel.rangeOf, Diagnostic.file, Diagnostic.line, Diagnostic.column,
    h.id_eq, h.location]

/-- What does not see the difference between related elements is the same for related lists. -/
theorem map_eq_of_forall₂ {α β : Type} {r : α → α → Prop} {l l' : List α} {f g : α → β}
    (h : List.Forall₂ r l l') (hf : ∀ a b, r a b → f a = g b) : l.map f = l'.map g := by
  induction h with
  | nil => rfl
  | cons hab _ ih => rw [List.map_cons, List.map_cons, hf _ _ hab, ih]

variable [DecidableEq σ]

theorem IsSameProblem.usageEdges_eq {d d' : Diagnostic} (h : IsSameProblem d d')
    (nodes : List Node) : usageEdges m nodes d = usageEdges m nodes d' := by
  simp only [usageEdges, SemanticModel.symbolsOf, h.id_eq, h.location]

theorem edges_of_isSameProblem (h : List.Forall₂ IsSameProblem ds ds') :
    edges m ds = edges m ds' := by
  have hnodes : ds.map (Node.of m) = ds'.map (Node.of m) :=
    map_eq_of_forall₂ h fun _ _ hd => hd.node_eq
  have husages : ∀ nodes, ds.flatMap (usageEdges m nodes) = ds'.flatMap (usageEdges m nodes) :=
    fun nodes => by
      rw [List.flatMap_def, List.flatMap_def, map_eq_of_forall₂ h fun _ _ hd => hd.usageEdges_eq nodes]
  simp only [edges, hnodes, husages]

theorem rankingOf_of_isSameProblem (h : List.Forall₂ IsSameProblem ds ds') :
    rankingOf m ds = rankingOf m ds' := by
  have hids : ds.map Diagnostic.id = ds'.map Diagnostic.id :=
    map_eq_of_forall₂ h fun _ _ hd => hd.id_eq
  rw [rankingOf, rankingOf, edges_of_isSameProblem h, hids]

/-! ## The order -/

/-- Two lists with the same identities and the same ranking are ordered into the same sequence of
identities. -/
theorem map_id_order_eq (hids : ds.map Diagnostic.id = ds'.map Diagnostic.id)
    (hranking : rankingOf m ds = rankingOf m ds') :
    (order (some m) ds).map Diagnostic.id = (order (some m) ds').map Diagnostic.id := by
  have hperm : ((order (some m) ds).map Diagnostic.id).Perm
      ((order (some m) ds').map Diagnostic.id) :=
    ((sort_perm _ ds).map _).trans (hids ▸ ((sort_perm _ ds').map _).symm)
  have hsorted : ∀ ds, ((order (some m) ds).map Diagnostic.id).Pairwise fun a b =>
      (rankingOf m ds).rankOf a ≤ (rankingOf m ds).rankOf b := fun ds =>
    List.pairwise_map.mpr (pairwise_sortRank (some (rankingOf m ds)) ds)
  refine hperm.eq_of_pairwise (fun a b ha _ hab hba => ?_) (hsorted ds) (hranking ▸ hsorted ds')
  have ha : a ∈ (rankingOf m ds).order := mem_order_rank.mpr (((sort_perm _ ds).map _).mem_iff.mp ha)
  exact (Ranking.rankOf_eq_iff (nodup_order_rank _ _) ha).mp (le_antisymm hab hba)

/-- What diagnostics are sorted by in a model. -/
def keysOf (m : SemanticModel σ) (ds : List Diagnostic) : List (Nat ×ₗ Place) :=
  ds.map fun d => (sortKey (some (rankingOf m ds)) d).linear

theorem keysOf_of_isReworded (h : List.Forall₂ IsReworded ds ds') : keysOf m ds = keysOf m ds' := by
  have hranking : rankingOf m ds = rankingOf m ds' :=
    rankingOf_of_isSameProblem (h.imp fun _ _ hd => hd.toIsSameProblem)
  refine map_eq_of_forall₂ h fun d d' hd => ?_
  simp only [sortKey, sortRank, SortKey.linear, Diagnostic.file, Diagnostic.line, Diagnostic.column,
    hranking, hd.id_eq, hd.location, hd.severity]

/-- The positions of some diagnostics in the order in which they are presented. -/
def IsPresentedAs (m : SemanticModel σ) (ds : List Diagnostic) (positions : List Nat) : Prop :=
  IsSortingOrder (fun d => (sortKey (some (rankingOf m ds)) d).linear) ds (order (some m) ds)
    positions

theorem exists_isPresentedAs (m : SemanticModel σ) (ds : List Diagnostic) :
    ∃ positions, IsPresentedAs m ds positions := by
  simp only [IsPresentedAs, order, sort_eq_mergeSort]
  refine exists_isSortingOrder ?_ ds
  exact fun _ _ => SortKey.le_iff

theorem IsPresentedAs.unique {positions positions' : List Nat} (h : IsPresentedAs m ds positions)
    (h' : IsPresentedAs m ds' positions') (hkeys : keysOf m ds = keysOf m ds') :
    positions = positions' :=
  IsSortingOrder.unique h h' hkeys (pairwise_sort _ ds) (pairwise_sort _ ds')

/-- **Messages and severities have no influence on the order of different problems.** Reported with
other messages and severities, the same problems are ordered into the same sequence of identities.
With other messages alone, the same positions of the list come in the same order, which is that of a
stable sort and the only one of the kind. -/
theorem order_of_rewording (m : SemanticModel σ) (ds ds' : List Diagnostic) :
    (List.Forall₂ IsSameProblem ds ds' →
      (order (some m) ds).map Diagnostic.id = (order (some m) ds').map Diagnostic.id) ∧
    (List.Forall₂ IsReworded ds ds' → ∃ positions, ∀ positions',
      (IsPresentedAs m ds positions' ↔ positions' = positions) ∧
      (IsPresentedAs m ds' positions' ↔ positions' = positions)) := by
  refine ⟨fun h => ?_, fun h => ?_⟩
  · exact map_id_order_eq (map_eq_of_forall₂ h fun _ _ hd => hd.id_eq) (rankingOf_of_isSameProblem h)
  · obtain ⟨positions, hds⟩ := exists_isPresentedAs m ds
    obtain ⟨positions', hds'⟩ := exists_isPresentedAs m ds'
    obtain rfl : positions = positions' := hds.unique hds' (keysOf_of_isReworded h)
    refine ⟨positions, fun positions' => ⟨⟨fun h' => h'.unique hds rfl, ?_⟩,
      fun h' => h'.unique hds' rfl, ?_⟩⟩
    · rintro rfl
      exact hds
    · rintro rfl
      exact hds'

/-! ## Two files that import each other -/

/-- A problem of either file, and one that is reported twice. -/
def mutualReports : List Diagnostic :=
  let report (file : String) (line : Nat) (severity : Severity) (message : String) : Diagnostic :=
    { tool := .tsc, message, severity, location := { file := ⟨file⟩, line, column := 1 } }
  [report "/b" 2 .hint "unused", report "/a" 1 .warning "no such name",
    report "/b" 2 .error "no such type", report "/b" 1 .info "deprecated"]

/-- The same reports without their texts. -/
def mutedReports : List Diagnostic := mutualReports.map fun d => { d with message := "" }

/-- The same reports, all as errors and without their texts. -/
def gradedReports : List Diagnostic := mutedReports.map fun d => { d with severity := .error }

/-- Each of the two files imports the other one. -/
def mutualModel : SemanticModel String :=
  TableModel.toModel { imports := [(⟨"/a"⟩, ⟨"/b"⟩), (⟨"/b"⟩, ⟨"/a"⟩)] }

theorem order_mutualReports :
    List.Forall₂ IsSameProblem mutualReports gradedReports ∧
    (order (some mutualModel) mutualReports).map Diagnostic.id =
      (order (some mutualModel) gradedReports).map Diagnostic.id ∧
    List.Forall₂ IsReworded mutualReports mutedReports ∧
    ∃ positions, ∀ positions', (IsPresentedAs mutualModel mutualReports positions' ↔
        positions' = positions) ∧
      (IsPresentedAs mutualModel mutedReports positions' ↔ positions' = positions) := by
  have hgraded : List.Forall₂ IsSameProblem mutualReports gradedReports := by
    simp only [gradedReports, mutedReports, List.forall₂_map_right_iff]
    exact List.forall₂_same.mpr fun _ _ => ⟨rfl, rfl, rfl⟩
  have hmuted : List.Forall₂ IsReworded mutualReports mutedReports := by
    simp only [mutedReports, List.forall₂_map_right_iff]
    exact List.forall₂_same.mpr fun _ _ => ⟨⟨rfl, rfl, rfl⟩, rfl⟩
  exact ⟨hgraded, (order_of_rewording mutualModel mutualReports gradedReports).1 hgraded, hmuted,
    (order_of_rewording mutualModel mutualReports mutedReports).2 hmuted⟩

end RootCause.Order
