import Mathlib.Data.List.Forall2
import RootCause.Output.Document
import RootCause.Proofs.Json.ReadBack
import RootCause.Proofs.Json.Records

/-!
# Values on lines

The compact form of a value is one line, because newlines in strings are escaped
(`newline_notMem_render`). So JSON Lines can be cut into the items of an array again, and each line
reads back as its item (`forall₂_splitOn_jsonLines`): as the same value, but for the order of the
members of objects (`Alike`), which are sorted by name before they are written.
-/

namespace RootCause.Json

/-! ## Newlines -/

theorem newline_notMem_escape (c : Char) : '\n' ∉ escape c := fun h => by
  rcases eq_of_mem_escape h with heq | halphanum | rfl
  · exact absurd heq (by decide)
  · exact absurd halphanum (by decide)
  · exact absurd h (by decide)

theorem newline_notMem_quote (text : Text) : '\n' ∉ quote text := by
  cases text with
  | none =>
    rw [quote_none]
    decide
  | some s =>
    have hescaped : '\n' ∉ s.toList.flatMap escape := fun h => by
      obtain ⟨c, -, hc⟩ := List.mem_flatMap.mp h
      exact newline_notMem_escape c hc
    rw [quote_some]
    simp [hescaped]

mutual

/-- The compact form of a value is one line. -/
theorem newline_notMem_render : ∀ {v : Json}, v.HasNaturals → '\n' ∉ v.render
  | .null, _ | .bool true, _ | .bool false, _ => by decide
  | .num literal, hn => by
    obtain ⟨n, rfl⟩ : ∃ n : Nat, literal = toString n := hn
    have hdigits : (toString n).toList = Text.decimal n := Nat.toList_repr
    rw [render, hdigits]
    exact Text.notMem_decimal (by decide) n
  | .str text, _ => newline_notMem_quote text
  | .arr [], _ | .obj [], _ => by decide
  | .arr (v :: vs), h => by
    obtain ⟨hv, hvs⟩ : v.HasNaturals ∧ ItemsHaveNaturals vs := h
    simp [render, newline_notMem_render hv, newline_notMem_renderItems hvs]
  | .obj ((name, v) :: members), h => by
    obtain ⟨hv, hmembers⟩ : v.HasNaturals ∧ MembersHaveNaturals members := h
    simp [render, newline_notMem_quote, newline_notMem_render hv,
      newline_notMem_renderMembers hmembers]

theorem newline_notMem_renderItems : ∀ {vs : List Json}, ItemsHaveNaturals vs →
    '\n' ∉ renderItems vs
  | [], _ => by decide
  | v :: vs, h => by
    obtain ⟨hv, hvs⟩ : v.HasNaturals ∧ ItemsHaveNaturals vs := h
    simp [renderItems, newline_notMem_render hv, newline_notMem_renderItems hvs]

theorem newline_notMem_renderMembers : ∀ {members : List (Text × Json)},
    MembersHaveNaturals members → '\n' ∉ renderMembers members
  | [], _ => by decide
  | (name, v) :: members, h => by
    obtain ⟨hv, hmembers⟩ : v.HasNaturals ∧ MembersHaveNaturals members := h
    simp [renderMembers, newline_notMem_quote, newline_notMem_render hv,
      newline_notMem_renderMembers hmembers]

end

/-! ## The order of members -/

mutual

/-- Two values are the same but for the order of the members of objects. -/
inductive Alike : Json → Json → Prop
  | refl (v : Json) : Alike v v
  | arr {vs ws : List Json} (h : AlikeItems vs ws) : Alike (.arr vs) (.arr ws)
  | obj {members members' found : List (Text × Json)} (h : AlikeMembers members members')
      (hperm : members'.Perm found) : Alike (.obj members) (.obj found)

/-- Two lists have items that are the same but for the order of members. -/
inductive AlikeItems : List Json → List Json → Prop
  | nil : AlikeItems [] []
  | cons {v w : Json} {vs ws : List Json} (h : Alike v w) (hs : AlikeItems vs ws) :
      AlikeItems (v :: vs) (w :: ws)

/-- Two lists have members of the same names, whose values are the same but for the order of
members. -/
inductive AlikeMembers : List (Text × Json) → List (Text × Json) → Prop
  | nil : AlikeMembers [] []
  | cons {name : Text} {v w : Json} {members members' : List (Text × Json)} (h : Alike v w)
      (hs : AlikeMembers members members') : AlikeMembers ((name, v) :: members) ((name, w) :: members')

end

mutual

theorem alike_sortMembers : ∀ v : Json, Alike v v.sortMembers
  | .null | .bool _ | .num _ | .str _ => .refl _
  | .arr items => .arr (alikeItems_sortItems items)
  | .obj members => .obj (alikeMembers_sortValues members) (List.mergeSort_perm _ _).symm

theorem alikeItems_sortItems : ∀ vs : List Json, AlikeItems vs (sortItems vs)
  | [] => .nil
  | v :: vs => .cons (alike_sortMembers v) (alikeItems_sortItems vs)

theorem alikeMembers_sortValues : ∀ members : List (Text × Json),
    AlikeMembers members (sortValues members)
  | [] => .nil
  | (_, v) :: members => .cons (alike_sortMembers v) (alikeMembers_sortValues members)

end

mutual

theorem hasNaturals_sortMembers : ∀ {v : Json}, v.HasNaturals → v.sortMembers.HasNaturals
  | .null, h | .bool _, h | .num _, h | .str _, h => h
  | .arr _, h => itemsHaveNaturals_sortItems h
  | .obj members, h => by
    have hsorted := membersHaveNaturals_sortValues h
    rw [membersHaveNaturals_iff] at hsorted
    rw [sortMembers, HasNaturals, membersHaveNaturals_iff]
    exact fun m hm => hsorted m ((List.mergeSort_perm _ _).mem_iff.mp hm)

theorem itemsHaveNaturals_sortItems : ∀ {vs : List Json}, ItemsHaveNaturals vs →
    ItemsHaveNaturals (sortItems vs)
  | [], h => h
  | _ :: _, ⟨hv, hvs⟩ => ⟨hasNaturals_sortMembers hv, itemsHaveNaturals_sortItems hvs⟩

theorem membersHaveNaturals_sortValues : ∀ {members : List (Text × Json)},
    MembersHaveNaturals members → MembersHaveNaturals (sortValues members)
  | [], h => h
  | _ :: _, ⟨hv, hs⟩ => ⟨hasNaturals_sortMembers hv, membersHaveNaturals_sortValues hs⟩

end

theorem sortItems_eq_map (vs : List Json) : sortItems vs = vs.map sortMembers := by
  induction vs with
  | nil => rfl
  | cons v vs ih => rw [sortItems, ih, List.map_cons]

/-! ## JSON Lines -/

theorem splitOn_jsonLines {items : List Json} (hne : items ≠ [])
    (h : ∀ v ∈ items, v.HasNaturals) :
    (Output.jsonLines (.arr items)).splitOn '\n' = items.map fun v => v.sortMembers.render := by
  have hitems : (Json.arr items).sortMembers = .arr (items.map sortMembers) := by
    rw [sortMembers, sortItems_eq_map]
  rw [Output.jsonLines, hitems]
  simp only [List.map_map]
  refine List.splitOn_intercalate '\n' ?_ (by simpa using hne)
  rw [List.forall_mem_map]
  exact fun v hv => newline_notMem_render (hasNaturals_sortMembers (h v hv))

theorem forall₂_splitOn_jsonLines {items : List Json} (hne : items ≠ [])
    (h : ∀ v ∈ items, v.HasNaturals) :
    List.Forall₂ (fun v line => ∃ w, parse? line = some w ∧ Alike v w) items
      ((Output.jsonLines (.arr items)).splitOn '\n') := by
  rw [splitOn_jsonLines hne h, List.forall₂_map_right_iff, List.forall₂_same]
  exact fun v hv =>
    ⟨_, parse?_render (hasNaturals_sortMembers (h v hv)), alike_sortMembers v⟩

end RootCause.Json
