import Mathlib.Data.List.Nodup
import Colloquy.Table

/-!
Tables made of lists of entries. What is looked up comes from the list; and the entries of a table
make the table again, in whatever order they are listed.
-/

set_option autoImplicit false

namespace Colloquy

namespace Table

variable {α : Type}

theorem get?_merge {t : Table α} {pairs : List (String × α)} {name : String} {value : α}
    (found : (t.merge pairs).get? name = some value) :
    (name, value) ∈ pairs ∨ t.get? name = some value := by
  induction pairs generalizing t with
  | nil => exact .inr found
  | cons pair pairs ih =>
    rcases ih found with member | earlier
    · exact .inl (List.mem_cons_of_mem _ member)
    · rw [get?_insert] at earlier
      split at earlier
      · next same => cases same; cases earlier; exact .inl List.mem_cons_self
      · exact .inr earlier

theorem get?_merge_eq (t : Table α) (pairs : List (String × α)) (name : String) :
    (t.merge pairs).get? name = t.get? name ∨ ∃ value, (name, value) ∈ pairs := by
  induction pairs generalizing t with
  | nil => exact .inl rfl
  | cons pair pairs ih =>
    rcases ih (t.insert pair.1 pair.2) with same | ⟨value, member⟩
    · by_cases here : pair.1 = name
      · exact .inr ⟨pair.2, here ▸ List.mem_cons_self⟩
      · exact .inl (same.trans (get?_insert_ne t pair.2 here))
    · exact .inr ⟨value, List.mem_cons_of_mem _ member⟩

theorem isSome_get?_merge {t : Table α} {pairs : List (String × α)} {name : String}
    (known : name ∈ pairs.map (·.1) ∨ (t.get? name).isSome) :
    ((t.merge pairs).get? name).isSome := by
  induction pairs generalizing t with
  | nil => exact known.resolve_left (by simp)
  | cons pair pairs ih =>
    apply ih
    rw [get?_insert]
    split
    · exact .inr rfl
    · next other =>
      refine known.imp_left fun member => ?_
      exact (List.mem_cons.1 member).resolve_left fun same => other same.symm

theorem isSome_get?_ofList {pairs : List (String × α)} {name : String}
    (known : name ∈ pairs.map (·.1)) : ((ofList pairs).get? name).isSome :=
  isSome_get?_merge (.inl known)

theorem mem_of_get?_ofList {pairs : List (String × α)} {name : String} {value : α}
    (found : (ofList pairs).get? name = some value) : (name, value) ∈ pairs :=
  (get?_merge found).resolve_right (by simp)

theorem get?_ofList_eq_some {pairs : List (String × α)} (distinct : (pairs.map (·.1)).Nodup)
    {name : String} {value : α} :
    (ofList pairs).get? name = some value ↔ (name, value) ∈ pairs := by
  refine ⟨mem_of_get?_ofList, fun member => ?_⟩
  obtain ⟨found, known⟩ := Option.isSome_iff_exists.1
    (isSome_get?_ofList (List.mem_map.2 ⟨_, member, rfl⟩))
  have same := List.inj_on_of_nodup_map distinct (mem_of_get?_ofList known) member rfl
  exact known.trans (congrArg some (congrArg Prod.snd same))

theorem get?_of_mem {t : Table α} {name : String} {value : α}
    (member : (name, value) ∈ t.toList) : t.get? name = some value := by
  obtain ⟨entries, sorted⟩ := t
  change find name entries = some value
  replace member : (name, value) ∈ entries := member
  induction entries with
  | nil => cases member
  | cons head rest ih =>
    obtain ⟨below, sorted⟩ := List.pairwise_cons.1 sorted
    rcases List.mem_cons.1 member with rfl | later
    · exact if_pos rfl
    · have different : head.1 ≠ name := fun same =>
        String.lt_irrefl _ (same ▸ below _ later)
      exact (if_neg different).trans (ih sorted later)

theorem mem_of_get? {t : Table α} {name : String} {value : α}
    (found : t.get? name = some value) : (name, value) ∈ t.toList := by
  obtain ⟨entries, sorted⟩ := t
  change (name, value) ∈ entries
  replace found : find name entries = some value := found
  clear sorted
  induction entries with
  | nil => cases found
  | cons head rest ih =>
    unfold find at found
    split at found
    · next same =>
      cases found
      exact same ▸ List.mem_cons_self
    · exact List.mem_cons_of_mem _ (ih found)

theorem ofList_of_perm {t : Table α} {pairs : List (String × α)} (listed : pairs.Perm t.toList) :
    ofList pairs = t := by
  refine ext_get? fun name => ?_
  cases found : (ofList pairs).get? name with
  | some value => exact (get?_of_mem (listed.subset (mem_of_get?_ofList found))).symm
  | none =>
    cases kept : t.get? name with
    | none => rfl
    | some value =>
      have known : name ∈ pairs.map (·.1) :=
        List.mem_map.2 ⟨_, listed.symm.subset (mem_of_get? kept), rfl⟩
      have some := isSome_get?_ofList known
      rw [found] at some
      cases some

end Table

end Colloquy
