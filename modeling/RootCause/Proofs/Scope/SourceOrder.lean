import RootCause.Proofs.Scope.Renaming
import RootCause.Source.Parser

/-!
# The order of the sources

A permutation of some sources puts each file at another place (`exists_injective_of_perm`). Files
with different paths are found by their paths wherever they stand, so that the places are all that
the permutation changes (`Project.exists_rearranges`), and no answer depends on them
(`Project.toModel_ofSources_of_perm`).
-/

namespace RootCause.Scope

/-- What a map of places does behind a place that it leaves alone. -/
def behindFirst (ρ : Nat → Nat) : Nat → Nat
  | 0 => 0
  | i + 1 => ρ i + 1

theorem behindFirst_injective {ρ : Nat → Nat} (hρ : Function.Injective ρ) :
    Function.Injective (behindFirst ρ) := by
  rintro (_ | i) (_ | j) h
  · rfl
  · cases h
  · cases h
  · rw [hρ (Nat.succ.inj h)]

/-- A permutation of a list takes each of its elements to a place of its own. -/
theorem exists_injective_of_perm {α : Type} {l l' : List α} (h : l.Perm l') :
    ∃ ρ : Nat → Nat, Function.Injective ρ ∧ ∀ i, l'[ρ i]? = l[i]? := by
  induction h with
  | nil => exact ⟨id, Function.injective_id, fun _ => rfl⟩
  | cons a _ ih =>
    obtain ⟨ρ, hρ, hget⟩ := ih
    refine ⟨behindFirst ρ, behindFirst_injective hρ, ?_⟩
    rintro (_ | i)
    · rfl
    · simpa [behindFirst] using hget i
  | swap a b l =>
    refine ⟨Equiv.swap 0 1, Equiv.injective _, ?_⟩
    rintro (_ | _ | i)
    · rfl
    · rfl
    · rw [Equiv.swap_apply_of_ne_of_ne (by simp) (by simp)]
      rfl
  | trans _ _ ih ih' =>
    obtain ⟨ρ, hρ, hget⟩ := ih
    obtain ⟨ρ', hρ', hget'⟩ := ih'
    exact ⟨ρ' ∘ ρ, hρ'.comp hρ, fun i => (hget' (ρ i)).trans (hget i)⟩

namespace Project

theorem exists_rearranges {p q : Project} (htabs : q.tabs = p.tabs) (hperm : p.files.Perm q.files)
    (hpaths : (p.files.map SourceFile.path).Nodup) : ∃ ρ, p.Rearranges ρ q := by
  obtain ⟨ρ, hρ, hget⟩ := exists_injective_of_perm hperm
  exact ⟨ρ, hρ, htabs, hperm, hget, hpaths⟩

theorem map_path_ofSources (parse : Source.Reader) (tabs : TabStops)
    (sources : List (Path × List Char)) :
    (ofSources parse tabs sources).files.map SourceFile.path =
      sources.map fun source => source.1.normalize := by
  rw [ofSources, List.map_map]
  rfl

/-- **The order of the sources has no influence.** Projects of the same sources, the paths of which
differ in their normal form, agree in everything that can be asked of them. So the same edges lead
between diagnostics, and they are put into the same order. -/
theorem toModel_ofSources_of_perm (parse : Source.Reader) (tabs : TabStops)
    {sources sources' : List (Path × List Char)} (hperm : sources.Perm sources')
    (hpaths : (sources.map fun source => source.1.normalize).Nodup) :
    (ofSources parse tabs sources).toModel.Agrees (ofSources parse tabs sources').toModel := by
  have hfiles : (ofSources parse tabs sources).files.Perm (ofSources parse tabs sources').files :=
    hperm.map _
  rw [← map_path_ofSources parse tabs] at hpaths
  have htabs : (ofSources parse tabs sources').tabs = (ofSources parse tabs sources).tabs := rfl
  obtain ⟨ρ, hρ⟩ := exists_rearranges htabs hfiles hpaths
  exact hρ.renames.agrees

/-- Two files that import from each other. -/
def circularSources : List (Path × List Char) :=
  [(⟨"/p/./a.ts"⟩, "import { y } from './b'; export let x".toList),
    (⟨"/p/b.ts"⟩, "import { x } from './a'; export let y".toList)]

theorem toModel_circularSources_reverse :
    circularSources.Perm circularSources.reverse ∧
    (circularSources.map fun source => source.1.normalize).Nodup ∧
    (ofSources Source.parse .standard circularSources).toModel.Agrees
      (ofSources Source.parse .standard circularSources.reverse).toModel := by
  have hperm : circularSources.Perm circularSources.reverse := (List.reverse_perm _).symm
  have hpaths : (circularSources.map fun source => source.1.normalize).Nodup := by decide +kernel
  exact ⟨hperm, hpaths, toModel_ofSources_of_perm Source.parse .standard hperm hpaths⟩

/-- The imported name is declared in the second file, whichever file is the first one. -/
example : let l : Location := { file := ⟨"/p/a.ts"⟩, line := 1, column := 10 }
    (ofSources Source.parse .standard circularSources).toModel.symbolsAt l =
      [.binding 1 ⟨0, 37, .program⟩ "y"] ∧
    (ofSources Source.parse .standard circularSources.reverse).toModel.symbolsAt l =
      [.binding 0 ⟨0, 37, .program⟩ "y"] := by
  decide +kernel

end Project

end RootCause.Scope
