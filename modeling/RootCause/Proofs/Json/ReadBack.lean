import RootCause.Json.Parser
import RootCause.Proofs.Json.Tokens

/-!
# Documents read back

The compact form of a value is read back as the value (`parse?_render`), if its numbers are natural.
Its tokens take the machine from a place where a value may start to the place after the value, with
whatever is open around it left as it was (`run_tokens`).
-/

namespace RootCause.Json

/-- The first item of an array may be any value. -/
theorem run_firstItem (v : Json) (k : List Frame) (ts : List Token) :
    (State.firstItem k).run (v.tokens ++ ts) =
      (State.value (.items [] :: k)).run (v.tokens ++ ts) := by
  match v with
  | .null | .bool _ | .num _ | .str _ => rfl
  | .arr [] | .arr (_ :: _) => rfl
  | .obj [] | .obj (_ :: _) => rfl

mutual

/-- The tokens of a value take the machine behind the value. -/
theorem run_tokens : ∀ (v : Json) (k : List Frame) (ts : List Token),
    (State.value k).run (v.tokens ++ ts) = (State.after v k).run ts
  | .null, _, _ | .bool _, _, _ | .num _, _, _ | .str _, _, _ => rfl
  | .arr [], _, _ | .obj [], _, _ => rfl
  | .arr (v :: vs), k, ts => by
    calc (State.value k).run ((Json.arr (v :: vs)).tokens ++ ts)
        = (State.firstItem k).run (v.tokens ++ (tokensOfItems vs ++ ts)) := by
          rw [tokens, List.cons_append, List.cons_append, List.append_assoc]
          rfl
      _ = (State.after v (.items [] :: k)).run (tokensOfItems vs ++ ts) := by
          rw [run_firstItem, run_tokens]
      _ = (State.after (.arr (v :: vs)) k).run ts := run_tokensOfItems v [] vs k ts
  | .obj ((name, v) :: members), k, ts => by
    calc (State.value k).run ((Json.obj ((name, v) :: members)).tokens ++ ts)
        = (State.value (.members [] name :: k)).run
            (v.tokens ++ (tokensOfMembers members ++ ts)) := by
          rw [tokens]
          simp only [List.cons_append, List.append_assoc]
          rfl
      _ = (State.after v (.members [] name :: k)).run (tokensOfMembers members ++ ts) :=
          run_tokens v _ _
      _ = (State.after (.obj ((name, v) :: members)) k).run ts :=
          run_tokensOfMembers v [] name members k ts

theorem run_tokensOfItems : ∀ (v : Json) (done vs : List Json) (k : List Frame) (ts : List Token),
    (State.after v (.items done :: k)).run (tokensOfItems vs ++ ts) =
      (State.after (.arr (done.reverse ++ v :: vs)) k).run ts
  | v, done, [], k, ts => by
    have hdone : (v :: done).reverse = done.reverse ++ [v] := List.reverse_cons
    rw [← hdone]
    rfl
  | v, done, v' :: vs, k, ts => by
    calc (State.after v (.items done :: k)).run (tokensOfItems (v' :: vs) ++ ts)
        = (State.value (.items (v :: done) :: k)).run (v'.tokens ++ (tokensOfItems vs ++ ts)) := by
          rw [tokensOfItems, List.cons_append, List.cons_append, List.append_assoc]
          rfl
      _ = (State.after v' (.items (v :: done) :: k)).run (tokensOfItems vs ++ ts) :=
          run_tokens v' _ _
      _ = (State.after (.arr (done.reverse ++ v :: v' :: vs)) k).run ts := by
          rw [run_tokensOfItems v' (v :: done) vs k ts, List.reverse_cons, List.append_assoc,
            List.singleton_append]

theorem run_tokensOfMembers : ∀ (v : Json) (done : List (Text × Json)) (name : Text)
    (members : List (Text × Json)) (k : List Frame) (ts : List Token),
    (State.after v (.members done name :: k)).run (tokensOfMembers members ++ ts) =
      (State.after (.obj (done.reverse ++ (name, v) :: members)) k).run ts
  | v, done, name, [], k, ts => by
    have hdone : ((name, v) :: done).reverse = done.reverse ++ [(name, v)] := List.reverse_cons
    rw [← hdone]
    rfl
  | v, done, name, (name', v') :: members, k, ts => by
    calc (State.after v (.members done name :: k)).run
          (tokensOfMembers ((name', v') :: members) ++ ts)
        = (State.value (.members ((name, v) :: done) name' :: k)).run
            (v'.tokens ++ (tokensOfMembers members ++ ts)) := by
          rw [tokensOfMembers]
          simp only [List.cons_append, List.append_assoc]
          rfl
      _ = (State.after v' (.members ((name, v) :: done) name' :: k)).run
            (tokensOfMembers members ++ ts) := run_tokens v' _ _
      _ = (State.after (.obj (done.reverse ++ (name, v) :: (name', v') :: members)) k).run ts := by
          rw [run_tokensOfMembers v' ((name, v) :: done) name' members k ts, List.reverse_cons,
            List.append_assoc, List.singleton_append]

end

/-- **A document is read back as what was written.** -/
theorem parse?_render {v : Json} (h : v.HasNaturals) : parse? v.render = some v := by
  have htokens : tokens? v.render = some v.tokens := by
    have hend : IsDelimited [] := fun _ hc => absurd hc (by simp)
    simpa [tokens?] using tokens?_render h hend
  have hrun : (State.value []).run v.tokens = some (.after v []) := by
    have hafter := run_tokens v [] []
    rwa [List.append_nil] at hafter
  simp only [parse?, htokens, hrun, Option.bind_eq_bind, Option.bind_some, State.document?]

end RootCause.Json
