import RootCause.Proofs.Order.Idempotence
import RootCause.Proofs.Text.Octets
import Mathlib.Order.WithBot

/-!
# The order of presentation as a stable sort

What diagnostics are sorted by can be said without the number that stands for the rank of an
identity without one, and with the octets of a file name in place of its characters
(`presentationKey`). These keys compare as those that the sort compares (`presentationKey_le_iff`),
so sorting gives the one list in which the keys rise and diagnostics with one key keep their order
(`sort_isStableSort`).
-/

namespace RootCause.Order

/-! ## Ranks -/

/-- The rank of an identity. Without a ranking all are alike, and what a ranking does not have comes
after all that it has. -/
def rankKey (ranking : Option Ranking) (id : Id) : WithTop Nat :=
  match ranking with
  | none => .some 0
  | some r =>
    match r.get? id with
    | some rank => .some rank
    | none => ⊤

/-- The sort compares ranks, with the number of ranks in place of a missing one. -/
theorem rankKey_lt_iff {ranking : Option Ranking} {d e : Diagnostic} :
    rankKey ranking d.id < rankKey ranking e.id ↔ sortRank ranking d < sortRank ranking e := by
  cases ranking with
  | none => simp [rankKey, sortRank]
  | some r =>
    cases hd : r.get? d.id with
    | none =>
      cases he : r.get? e.id with
      | none => simp [rankKey, sortRank, hd, he]
      | some j =>
        have hj : j < r.size := lt_length_of_position? he
        simp [rankKey, sortRank, hd, he, hj.le]
    | some i =>
      cases he : r.get? e.id with
      | none =>
        have hi : i < r.size := lt_length_of_position? hd
        simp [rankKey, sortRank, hd, he, hi]
      | some j => simp [rankKey, sortRank, hd, he]

theorem rankKey_eq_iff {ranking : Option Ranking} {d e : Diagnostic} :
    rankKey ranking d.id = rankKey ranking e.id ↔ sortRank ranking d = sortRank ranking e := by
  rw [eq_iff_le_not_lt, eq_iff_le_not_lt, ← not_lt, ← not_lt, rankKey_lt_iff, rankKey_lt_iff]

/-! ## File names -/

/-- The octets of a text as numbers. -/
def octetCodes (s : String) : List Nat := (Text.octets s).map UInt8.toNat

theorem strictMono_octetCodes : StrictMono octetCodes := fun _ _ h =>
  List.map_lt (fun _ _ hlt => UInt8.lt_iff_toNat_lt.mp hlt) (Text.lt_iff_octets_lt.mp h)

/-! ## Keys -/

/-- What diagnostics are presented by: the rank of the identity, then the most severe first, then
the octets of the file name, the line and the column. -/
def presentationKey (ranking : Option Ranking) (d : Diagnostic) :
    WithTop Nat ×ₗ Natᵒᵈ ×ₗ List Nat ×ₗ Nat ×ₗ Nat :=
  toLex (rankKey ranking d.id, toLex (OrderDual.toDual d.severity.level,
    toLex (octetCodes d.file.text, toLex (d.line, d.column))))

theorem presentationKey_le_iff (ranking : Option Ranking) (d e : Diagnostic) :
    (sortKey ranking d).le (sortKey ranking e) = true ↔
      presentationKey ranking d ≤ presentationKey ranking e := by
  rw [SortKey.le_iff, linear_sortKey, linear_sortKey]
  simp only [presentationKey, placeOf, Prod.Lex.toLex_le_toLex, rankKey_lt_iff, rankKey_eq_iff,
    strictMono_octetCodes.lt_iff_lt, strictMono_octetCodes.injective.eq_iff]

/-- **Sorting is the stable sort by rank, severity, file, line and column.** The result is the one
list that has the diagnostics as they are, with rising keys and those of one key in the order in
which they came. Hence a sorted list stays as it is, and two lists have the same result just if the
diagnostics with each key come in the same order in both. -/
theorem sort_isStableSort (ranking : Option Ranking) (ds : List Diagnostic) :
    (∀ sorted, IsStableSort (presentationKey ranking) ds sorted ↔ sorted = sort ranking ds) ∧
    sort ranking (sort ranking ds) = sort ranking ds ∧
    ∀ ds', sort ranking ds' = sort ranking ds ↔ ∀ key,
      ds'.filter (presentationKey ranking · = key) = ds.filter (presentationKey ranking · = key) := by
  have hsort : ∀ ds sorted : List Diagnostic,
      IsStableSort (presentationKey ranking) ds sorted ↔ sorted = sort ranking ds := by
    intro ds sorted
    rw [sort_eq_mergeSort]
    exact isStableSort_iff_eq_mergeSort (presentationKey_le_iff ranking)
  refine ⟨hsort ds, sort_sort ranking ds, fun ds' => ⟨fun h key => ?_, fun h => ?_⟩⟩
  · rw [← ((hsort ds' _).mpr rfl).ties key, h, ((hsort ds _).mpr rfl).ties key]
  · have hds := (hsort ds _).mpr rfl
    have hds' := (hsort ds' _).mpr rfl
    exact eq_of_filter_eq hds'.ascending hds.ascending fun key => by
      rw [hds'.ties, h, hds.ties]

end RootCause.Order
