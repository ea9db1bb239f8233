import Mathlib.Data.List.Forall2
import Colloquy.Json.Decode
import Colloquy.Proofs.Json.Text
import Colloquy.Proofs.Table

/-!
What a document stands for. The documents of the parts of a value make up the document of the value,
which can be printed if they can and is decoded if they are.
-/

set_option autoImplicit false

namespace Colloquy.Json

variable {α β : Type} {a : α} {b : β} {decode : Json → Option α} {encode : α → Json}

/-- The document can be printed, and is decoded as the value. -/
structure Means (decode : Json → Option α) (a : α) (j : Json) : Prop where
  legible : j.Legible
  decoded : decode j = some a

def ReadsBack (encode : α → Json) (decode : Json → Option α) (a : α) : Prop :=
  (parse? (encode a).print).bind decode = some a

theorem Means.parsed {j : Json} (means : Means decode a j) : (parse? j.print).bind decode = some a := by
  rw [parse?_print means.legible]
  exact means.decoded

theorem means_of_readsBack (legible : (encode a).Legible) (back : ReadsBack encode decode a) :
    Means decode a (encode a) := by
  refine ⟨legible, ?_⟩
  rwa [ReadsBack, parse?_print legible] at back

theorem legible_double (x : Number.Double) : (double x).Legible := by
  unfold double
  split
  · exact .number (Numeral.wellFormed_ofFloat _ x)
  · exact .null

theorem legible_single (x : Number.Single) : (single x).Legible := by
  unfold single
  split
  · exact .number (Numeral.wellFormed_ofFloat _ x)
  · exact .null

theorem means_text (s : String) : Means toText? s (text s) := ⟨.string _, rfl⟩

theorem means_bool (b : Bool) : Means toBool? b (bool b) := ⟨.bool b, rfl⟩

theorem Numeral.toInt?_ofInt {n : Int} (low : Int64.minValue.toInt ≤ n) (high : n < UInt64.size) :
    (ofInt n).toInt? = some n := by
  have low : -2 ^ 63 ≤ n := low
  have high : n < 2 ^ 64 := high
  have size : UInt64.size = 2 ^ 64 := rfl
  simp only [toInt?, ofInt, Number.ofDigits_digits, decide_eq_true_eq]
  by_cases negative : n < 0
  · rw [if_pos negative, if_pos (by omega)]
    exact congrArg some (by omega)
  · rw [if_neg negative, if_pos (by omega)]
    exact congrArg some (by omega)

theorem means_int {low high n : Int} (above : low ≤ n) (below : n ≤ high)
    (least : Int64.minValue.toInt ≤ n) (greatest : n < UInt64.size) :
    Means (toInt? low high) n (int n) := by
  refine ⟨.number (Numeral.wellFormed_ofInt n), ?_⟩
  simp [toInt?, int, Numeral.toInt?_ofInt least greatest, above, below]

theorem means_nat {n bound : Nat} (below : n < bound) (size : bound ≤ UInt64.size) :
    Means (toNat? bound) n (nat n) := by
  have int : Means (toInt? 0 (bound - 1)) n (int n) :=
    means_int (by omega) (by omega) (Int.le_trans (by decide) (Int.natCast_nonneg n)) (by omega)
  refine ⟨int.legible, ?_⟩
  change (Json.toInt? 0 (bound - 1) (Json.int n)).map Int.toNat = some n
  rw [int.decoded]
  rfl

theorem means_optional {value : Option α} (refuses : decode .null = none)
    (each : ∀ a ∈ value, Means decode a (encode a)) :
    Means (toOption? decode) value (optional encode value) := by
  cases value with
  | none => exact ⟨.null, rfl⟩
  | some a =>
    obtain ⟨legible, decoded⟩ := each a rfl
    refine ⟨legible, ?_⟩
    change toOption? decode (encode a) = _
    unfold toOption?
    split
    · next null =>
      rw [null, refuses] at decoded
      cases decoded
    · rw [decoded]
      rfl

theorem means_array {items : List α} {js : List Json} (each : List.Forall₂ (Means decode) items js) :
    Means (toList? decode) items (.array js) := by
  have both : (∀ j ∈ js, j.Legible) ∧ js.mapM decode = some items := by
    induction each with
    | nil => exact ⟨nofun, rfl⟩
    | cons first _ ih =>
      obtain ⟨legible, decoded⟩ := ih
      refine ⟨List.forall_mem_cons.2 ⟨first.legible, legible⟩, ?_⟩
      rw [List.mapM_cons, first.decoded, decoded]
      rfl
  exact ⟨.array both.1, both.2⟩

theorem means_list {items : List α} (each : ∀ a ∈ items, Means decode a (encode a)) :
    Means (toList? decode) items (list encode items) :=
  means_array (List.forall₂_map_right_iff.2 (List.forall₂_same.2 each))

theorem means_pair {decode' : Json → Option β} {j j' : Json} (first : Means decode a j)
    (second : Means decode' b j') : Means (toPair? decode decode') (a, b) (.array [j, j']) := by
  refine ⟨.array (by simp [first.legible, second.legible]), ?_⟩
  simp [toPair?, first.decoded, second.decoded]

/-! Records -/

theorem legible_record {fields : List (String × Json)} (each : ∀ field ∈ fields, field.2.Legible) :
    (record fields).Legible := by
  refine .object fun field member => ?_
  obtain ⟨source, known, rfl⟩ := List.mem_map.1 member
  exact each source known

theorem known?_record {names : List String} {fields : List (String × Json)}
    (known : ∀ field ∈ fields, field.1 ∈ names) (distinct : (fields.map (·.1)).Nodup) :
    known? names (fields.map fun field => (some field.1, field.2)) = some fields := by
  induction fields with
  | nil => rfl
  | cons field fields ih =>
    obtain ⟨first, others⟩ := List.forall_mem_cons.1 known
    obtain ⟨fresh, distinct⟩ := List.nodup_cons.1 distinct
    have absent : fields.any (·.1 == field.1) = false := by
      simp only [List.any_eq_false, beq_iff_eq]
      exact fun other member same => fresh (List.mem_map.2 ⟨other, member, same⟩)
    simp [known?, ih others distinct, first, absent]

theorem toFields?_record {names : List String} {fields : List (String × Json)}
    (same : fields.map (·.1) = names) (distinct : names.Nodup) :
    toFields? names (record fields) = some ⟨true, fields⟩ := by
  have known (field : String × Json) (member : field ∈ fields) : field.1 ∈ names :=
    same ▸ List.mem_map_of_mem member
  change (known? names _).map _ = _
  rw [known?_record known (same ▸ distinct)]
  rfl

namespace Fields

variable {named : Bool} {name : String} {j : Json} {fields : List (String × Json)}

@[simp] theorem get?_head : (Fields.mk named ((name, j) :: fields)).get? name = some j := if_pos rfl

@[simp] theorem get?_tail {other : String} (different : other ≠ name) :
    (Fields.mk named ((other, j) :: fields)).get? name = (Fields.mk named fields).get? name :=
  if_neg different

end Fields

/-- A record is decoded from its fields, by their names. -/
theorem means_record {names : List String} {fields : List (String × Json)}
    {make : Fields → Option α} (same : fields.map (·.1) = names) (distinct : names.Nodup)
    (legible : ∀ field ∈ fields, field.2.Legible) (made : make ⟨true, fields⟩ = some a) :
    Means (fun j => j.toFields? names >>= make) a (record fields) := by
  refine ⟨legible_record legible, ?_⟩
  change (toFields? names (record fields)).bind make = some a
  rw [toFields?_record same distinct]
  exact made

theorem toTable?_entries {listed : List (String × α)}
    (each : ∀ entry ∈ listed, decode (encode entry.2) = some entry.2) :
    toTable? decode (entries encode listed) = some (.ofList listed) := by
  have decoded : ((listed.map fun entry => (entry.1, encode entry.2)).map
      fun field => (some field.1, field.2)).mapM
      (fun (name, value) => do return (← name, ← decode value)) = some listed := by
    induction listed with
    | nil => rfl
    | cons entry listed ih =>
      obtain ⟨first, others⟩ := List.forall_mem_cons.1 each
      rw [List.map_cons, List.map_cons, List.mapM_cons, ih others]
      simp [first]
  exact Option.bind_eq_some_iff.2 ⟨listed, decoded, rfl⟩

theorem means_entries {t : Table α} {listed : List (String × α)} (order : listed.Perm t.toList)
    (each : ∀ entry ∈ t.toList, Means decode entry.2 (encode entry.2)) :
    Means (toTable? decode) t (entries encode listed) := by
  have each (entry : String × α) (member : entry ∈ listed) :
      Means decode entry.2 (encode entry.2) := each entry (order.subset member)
  constructor
  · refine legible_record fun field member => ?_
    obtain ⟨entry, known, rfl⟩ := List.mem_map.1 member
    exact (each entry known).legible
  · rw [toTable?_entries fun entry member => (each entry member).decoded,
      Table.ofList_of_perm order]

end Colloquy.Json
