import RootCause.Json.Decode
import RootCause.Proofs.Json.Tokens

/-!
# Records read back

What readers give on values that were written for them. In an object that names no member twice a
record finds for each of its fields the member of that name, or that there is none
(`fields?_ofMembers`). A number is read back if it fits into a machine word (`nat_ofNat`), a field
that may be missing if its value is (`optionalField_map`), and a list if its items are (`list_arr`).
-/

namespace RootCause.Json

/-! ## Objects -/

theorem hasNaturals_ofNat (n : Nat) : (ofNat n).HasNaturals := ⟨n, rfl⟩

theorem itemsHaveNaturals_iff {vs : List Json} :
    ItemsHaveNaturals vs ↔ ∀ v ∈ vs, v.HasNaturals := by
  induction vs with
  | nil => simp [ItemsHaveNaturals]
  | cons v vs ih => simp [ItemsHaveNaturals, ih]

theorem membersHaveNaturals_iff {members : List (Text × Json)} :
    MembersHaveNaturals members ↔ ∀ m ∈ members, m.2.HasNaturals := by
  induction members with
  | nil => simp [MembersHaveNaturals]
  | cons m members ih => simp [MembersHaveNaturals, ih]

theorem hasNaturals_ofMembers {members : List (String × Json)} :
    (ofMembers members).HasNaturals ↔ ∀ m ∈ members, m.2.HasNaturals := by
  rw [ofMembers, HasNaturals, membersHaveNaturals_iff, List.forall_mem_map]

theorem mem_member? {name : String} {v : Option Json} {m : String × Json} :
    m ∈ member? name v ↔ m.1 = name ∧ v = some m.2 := by
  obtain ⟨name', v'⟩ := m
  cases v with
  | none => simp [member?]
  | some v => simp [member?, eq_comm]

/-- The members of one name are at most one if no name stands twice. -/
theorem filter_members {members : List (String × Json)} (h : (members.map Prod.fst).Nodup)
    (name : String) :
    members.filter (fun m => m.1 == name) =
      ((members.lookup name).map fun v => (name, v)).toList := by
  induction members with
  | nil => rfl
  | cons m members ih =>
    obtain ⟨name', v⟩ := m
    obtain ⟨hm, hnodup⟩ := List.nodup_cons.mp h
    have ih := ih hnodup
    by_cases heq : name' = name
    · subst heq
      have hnone : members.filter (fun m => m.1 == name') = [] := by
        refine List.filter_eq_nil_iff.mpr fun m hmem => ?_
        have hne : m.1 ≠ name' := fun heq => hm (List.mem_map.mpr ⟨m, hmem, heq⟩)
        simpa using hne
      simp [hnone]
    · have hlookup : ((name', v) :: members).lookup name = members.lookup name := by
        rw [List.lookup_cons, beq_false_of_ne (Ne.symm heq)]
      rw [List.filter_cons_of_neg (by simpa using heq), ih, hlookup]

theorem field?_ofMembers {members : List (String × Json)} (h : (members.map Prod.fst).Nodup)
    (name : String) :
    field? (members.map fun (name, v) => (some name, v)) name = some (members.lookup name) := by
  have hfilter : (members.map fun (name, v) => ((some name : Text), v)).filter
      (fun m => m.1 == some name) =
        ((members.lookup name).map fun v => ((some name : Text), v)).toList := by
    rw [List.filter_map]
    have hnames : members.filter ((fun m => m.1 == some name) ∘
        fun (name, v) => ((some name : Text), v)) = members.filter (fun m => m.1 == name) := by
      refine List.filter_congr fun m _ => ?_
      simp
    rw [hnames, filter_members h]
    cases members.lookup name <;> rfl
  rw [field?, hfilter]
  cases members.lookup name <;> rfl

/-- A record finds the members of an object that names none twice. -/
theorem fields?_ofMembers {members : List (String × Json)} (h : (members.map Prod.fst).Nodup)
    (names : List String) :
    fields? names (ofMembers members) = some (names.map fun name => members.lookup name) := by
  have hnamed : (members.map fun (name, v) => ((some name : Text), v)).all
      (fun m => m.1.isSome) := by
    simp
  rw [ofMembers, fields?, if_pos hnamed]
  induction names with
  | nil => rfl
  | cons name names ih =>
    rw [List.mapM_cons, field?_ofMembers h, ih]
    rfl

/-! ## Readers -/

theorem nat_ofNat {n : Nat} (h : n < Text.wordSize) : Reader.nat (ofNat n) = some n := by
  have hdigits : (toString n).toList = Text.decimal n := Nat.toList_repr
  have hne : Text.decimal n ≠ [] := Nat.toDigits_ne_nil
  have hread : Text.digits? (Text.decimal n) = some n := by
    simp [Text.digits?, hne, Text.digitsFrom?_decimal]
  have hle : n ≤ Text.wordMax := Nat.le_sub_one_of_lt h
  rw [Reader.nat, ofNat, Reader.natUpTo, hdigits, hread, Option.filter_some, if_pos]
  exact decide_eq_true hle

theorem string_ofString (s : String) : Reader.string (ofString s) = some s := rfl

theorem named_ofString {α : Type} (ofName? : String → Option α) (name : String) :
    Reader.named ofName? (ofString name) = ofName? name := rfl

theorem required_some {α : Type} (read : Reader α) (v : Json) :
    required read (some v) = read v := rfl

theorem optionalField_map {α : Type} {read : Reader α} {write : α → Json} {o : Option α}
    (hnull : ∀ a, write a ≠ .null) (h : ∀ a ∈ o, read (write a) = some a) :
    optionalField read (o.map write) = some o := by
  cases o with
  | none => rfl
  | some a =>
    have hread : Reader.optional read (write a) = (read (write a)).map some := by
      unfold Reader.optional
      split
      next hw => exact absurd hw (hnull a)
      next => rfl
    rw [Option.map_some, optionalField, withDefault, hread, h a rfl, Option.map_some]

theorem list_arr {α : Type} {read : Reader α} {write : α → Json} {l : List α}
    (h : ∀ a ∈ l, read (write a) = some a) : Reader.list read (.arr (l.map write)) = some l := by
  rw [Reader.list]
  induction l with
  | nil => rfl
  | cons a l ih =>
    obtain ⟨ha, hl⟩ := List.forall_mem_cons.mp h
    rw [List.map_cons, List.mapM_cons, ha, ih hl]
    rfl

end RootCause.Json
