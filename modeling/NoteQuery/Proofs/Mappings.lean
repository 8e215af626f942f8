/-
What tables and mappings hold.

Putting something under a key changes what is found under that key and nothing else, and adds
the key behind the others if it is new.
-/
import NoteQuery.Value.Key

namespace NoteQuery

/-- In a table without repeated keys what is looked up is what stands there. -/
theorem lookup_eq_some_iff_mem {α β : Type} [BEq α] [LawfulBEq α] {table : List (α × β)}
    (h : (table.map Prod.fst).Nodup) {a : α} {b : β} :
    table.lookup a = some b ↔ (a, b) ∈ table := by
  induction table with
  | nil => simp only [List.lookup_nil, List.not_mem_nil, reduceCtorEq]
  | cons row table ih =>
      obtain ⟨a', b'⟩ := row
      obtain ⟨hnew, hrest⟩ := List.nodup_cons.mp h
      rw [List.lookup_cons, List.mem_cons, Prod.mk.injEq]
      by_cases haa : a = a'
      · subst haa
        have hnot : (a, b) ∉ table := fun hm => hnew (List.mem_map.mpr ⟨(a, b), hm, rfl⟩)
        simp only [BEq.rfl, Option.some.injEq, true_and, hnot, or_false, eq_comm]
      · rw [beq_false_of_ne haa, ih hrest]
        simp only [haa, false_and, false_or]

theorem nodup_eraseDups {α : Type} [BEq α] [LawfulBEq α] (as : List α) : as.eraseDups.Nodup := by
  induction hn : as.length using Nat.strongRecOn generalizing as with
  | ind n ih =>
    cases as with
    | nil => exact .nil
    | cons a as =>
      rw [List.eraseDups_cons]
      refine List.nodup_cons.mpr ⟨?_, ih _ ?_ _ rfl⟩
      · rw [List.mem_eraseDups, List.mem_filter, beq_self_eq_true]
        exact fun h => nomatch h.2
      · exact hn ▸ Nat.lt_succ_of_le (List.length_filter_le _ _)

namespace Value

/-- Texts are only ever the same key as themselves. -/
theorem sameKey_string {key : Value} {text : String} :
    key.sameKey (.string text) = true ↔ key = .string text := by
  cases key with
  | string other => rw [sameKey, beq_iff_eq, string.injEq]
  | _ => exact ⟨nofun, nofun⟩

theorem string_sameKey {key : Value} {text : String} :
    (string text).sameKey key = true ↔ key = .string text := by
  cases key with
  | string other => rw [sameKey, beq_iff_eq, string.injEq, eq_comm]
  | _ => exact ⟨nofun, nofun⟩

end Value

namespace Keyed

variable {α : Type}

theorem find?_cons (k : Value) (a : α) (things : Keyed α) (key : Value) :
    find? ((k, a) :: things) key = if k.sameKey key then some a else find? things key := by
  rw [find?, find?, List.find?_cons]
  cases k.sameKey key with
  | true => rfl
  | false => rfl

/-- Putting something under a key that is a text changes what is found there; putting something
under any other key changes nothing under texts. -/
theorem find?_string_put (things : Keyed α) (key : Value) (a : α) (name : String) :
    (things.put key a).find? (.string name) =
      if key.sameKey (.string name) then some a else things.find? (.string name) := by
  induction things with
  | nil => rw [put, find?_cons]
  | cons thing things ih =>
    obtain ⟨k, b⟩ := thing
    rw [put]
    split
    · next hkey =>
      have hsame : k.sameKey (.string name) = key.sameKey (.string name) := by
        rw [Bool.eq_iff_iff, Value.sameKey_string, Value.sameKey_string]
        constructor
        · rintro rfl
          exact Value.string_sameKey.mp hkey
        · rintro rfl
          exact Value.sameKey_string.mp hkey
      rw [find?_cons, find?_cons, hsame]
      split
      · rfl
      · rfl
    · next hkey =>
      rw [find?_cons, find?_cons, ih]
      split
      · next hk =>
        have hne : ¬ key.sameKey (.string name) := by
          intro h
          rw [Value.sameKey_string.mp h] at hkey
          exact hkey hk
        rw [if_neg hne]
      · rfl

/-- Putting something under a text changes what is found there, and nothing under others. -/
theorem find?_put (things : Keyed α) (text : String) (a : α) (name : String) :
    (things.put (.string text) a).find? (.string name) =
      if text = name then some a else things.find? (.string name) := by
  rw [find?_string_put]
  simp only [Value.sameKey_string, Value.string.injEq]

/-- What is put under a text again and again alike is found there. -/
theorem find?_ofList {pairs : List (Value × α)} {name : String} {a : α}
    (hsome : ∃ b, (.string name, b) ∈ pairs) (h : ∀ b, (.string name, b) ∈ pairs → b = a) :
    (ofList pairs).find? (.string name) = some a := by
  have hfold (things : Keyed α)
      (hmem : (∃ b, (.string name, b) ∈ pairs) ∨ things.find? (.string name) = some a) :
      (pairs.foldl (fun things p => put things p.1 p.2) things).find? (.string name) = some a := by
    clear hsome
    induction pairs generalizing things with
    | nil => exact hmem.resolve_left fun ⟨_, hb⟩ => nomatch hb
    | cons pair pairs ih =>
      refine ih (fun b hb => h b (List.mem_cons_of_mem pair hb)) _ ?_
      rw [find?_string_put]
      split
      · next hkey =>
        have hpair : (.string name, pair.2) = pair :=
          Prod.ext (Value.sameKey_string.mp hkey).symm rfl
        exact .inr (congrArg some (h pair.2 (List.mem_cons.mpr (.inl hpair))))
      · next hkey =>
        refine hmem.imp_left ?_
        rintro ⟨b, hb⟩
        rcases List.mem_cons.mp hb with rfl | hb
        · exact absurd (Value.sameKey_string.mpr rfl) hkey
        · exact ⟨b, hb⟩
  exact hfold [] (.inl hsome)

theorem keys_put (things : Keyed α) (key : Value) (a : α) :
    (things.put key a).keys =
      if things.keys.any (·.sameKey key) then things.keys else things.keys ++ [key] := by
  induction things with
  | nil => rfl
  | cons thing things ih =>
    obtain ⟨k, b⟩ := thing
    rw [put]
    split
    · next h => simp only [keys, List.map_cons, List.any_cons, h, Bool.true_or, if_true]
    · next h =>
      have hkeys (c : α) (rest : Keyed α) : keys ((k, c) :: rest) = k :: keys rest := rfl
      rw [hkeys, hkeys, ih, List.any_cons, Bool.eq_false_iff.mpr h, Bool.false_or]
      split
      · rfl
      · rfl

theorem put_eq_append {things : Keyed α} {key : Value} (a : α)
    (h : ∀ thing ∈ things, thing.1.sameKey key = false) :
    things.put key a = things ++ [(key, a)] := by
  induction things with
  | nil => rfl
  | cons thing things ih =>
    obtain ⟨k, b⟩ := thing
    obtain ⟨hk, hthings⟩ := List.forall_mem_cons.mp h
    rw [put, if_neg (Bool.eq_false_iff.mp hk), ih hthings, List.cons_append]

/-- Where no two keys are the same, everything stands as it was put in. -/
theorem ofList_eq_self {pairs : Keyed α}
    (h : pairs.Pairwise fun p q => p.1.sameKey q.1 = false) : ofList pairs = pairs := by
  have hfold {before after : Keyed α}
      (h : (before ++ after).Pairwise fun p q => p.1.sameKey q.1 = false) :
      after.foldl (fun things p => put things p.1 p.2) before = before ++ after := by
    induction after generalizing before with
    | nil => exact (List.append_nil before).symm
    | cons pair after ih =>
      have hnew : ∀ p ∈ before, p.1.sameKey pair.1 = false := fun p hp =>
        (List.pairwise_append.mp h).2.2 p hp pair List.mem_cons_self
      rw [List.append_cons] at h ⊢
      rw [List.foldl_cons, put_eq_append pair.2 hnew, ih h]
  exact hfold h

end Keyed

/-- Where no two texts are the same, everything stands as it was put in. -/
theorem Entries.ofTexts_eq_map {pairs : List (String × Value)} (h : (pairs.map Prod.fst).Nodup) :
    ofTexts pairs = pairs.map fun p => (.string p.1, p.2) := by
  refine Keyed.ofList_eq_self ?_
  rw [List.pairwise_map]
  refine (List.pairwise_map.mp h).imp fun hne => ?_
  rw [← Bool.not_eq_true, Value.sameKey_string, Value.string.injEq]
  exact hne

end NoteQuery
