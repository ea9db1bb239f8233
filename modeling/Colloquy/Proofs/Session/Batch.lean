import Mathlib.Data.List.Induction
import Mathlib.Data.List.Perm.Basic
import Colloquy.Proofs.Session.Memoryless
import Colloquy.Proofs.Session.Script
import Colloquy.Proofs.Table
import Colloquy.Session.Pool

/-!
Batches of turns. Sessions share nothing but a backend; if that remembers nothing, a batch brings
each session to what its own turns alone bring it to, in whatever order the sessions are gone
through.
-/

set_option autoImplicit false

namespace Colloquy

variable {σ α : Type}

/-- What is listed under a name, in its order. -/
def under (pairs : List (String × α)) (id : String) : List α :=
  (pairs.filter (·.1 = id)).map (·.2)

section

variable {pairs pairs' : List (String × α)} {id : String}

theorem under_cons (pair : String × α) (pairs : List (String × α)) (id : String) :
    under (pair :: pairs) id =
      if pair.1 = id then pair.2 :: under pairs id else under pairs id := by
  by_cases same : pair.1 = id <;> simp [under, same]

theorem under_append (pairs pairs' : List (String × α)) (id : String) :
    under (pairs ++ pairs') id = under pairs id ++ under pairs' id := by
  simp [under]

theorem under_map_mk (name : String) (items : List α) (id : String) :
    under (items.map (name, ·)) id = if name = id then items else [] := by
  induction items with
  | nil => simp [under]
  | cons item items ih =>
    rw [List.map_cons, under_cons, ih]
    split <;> rfl

theorem count_under [DecidableEq α] (pairs : List (String × α)) (id : String) (item : α) :
    (under pairs id).count item = pairs.count (id, item) := by
  induction pairs with
  | nil => rfl
  | cons pair pairs ih =>
    obtain ⟨name, other⟩ := pair
    rw [under_cons, List.count_cons, ← ih]
    by_cases same : name = id
    · simp [same, List.count_cons]
    · simp [same]

theorem perm_of_under [DecidableEq α] (same : ∀ id, under pairs id = under pairs' id) :
    pairs.Perm pairs' := by
  refine List.perm_iff_count.2 fun pair => ?_
  rw [← count_under, ← count_under, same]

end

namespace Pool

variable {engine : Engine σ} {p : Pool} {world : σ} {id : String}

def handleEach (p : Pool) (engine : Engine σ) (world : σ) :
    List (String × String) → Reply σ (List (String × Except TurnError Outcome))
  | [] => ⟨[], p, world⟩
  | (id, text) :: turns =>
    let first := p.handleTurn engine world id text
    let rest := first.pool.handleEach engine first.world turns
    { rest with result := (id, first.result) :: rest.result }

theorem handleEach_append (p : Pool) (engine : Engine σ) (world : σ)
    (turns turns' : List (String × String)) :
    p.handleEach engine world (turns ++ turns') =
      let first := p.handleEach engine world turns
      let rest := first.pool.handleEach engine first.world turns'
      { rest with result := first.result ++ rest.result } := by
  induction turns generalizing p world with
  | nil => rfl
  | cons turn turns ih =>
    simp only [List.cons_append, handleEach]
    rw [ih]

theorem names_handleEach (p : Pool) (engine : Engine σ) (world : σ)
    (turns : List (String × String)) :
    (p.handleEach engine world turns).result.map (·.1) = turns.map (·.1) := by
  induction turns generalizing p world with
  | nil => rfl
  | cons turn turns ih => exact congrArg (turn.1 :: ·) (ih _ _)

theorem session_put (p : Pool) (engine : Engine σ) (id other : String) (s : Session) :
    (p.put id s).session engine other = if id = other then s else p.session engine other := by
  simp only [session, put, Table.get?_insert]
  split <;> rfl

theorem enroll_put (p : Pool) (engine : Engine σ) (id : String) (s : Session) :
    (p.put id s).enroll engine id = p.put id s := by
  have kept : (p.put id s).session engine id = s := by rw [session_put, if_pos rfl]
  rw [enroll, kept]
  refine congrArg Pool.mk (Table.ext_get? fun name => ?_)
  simp only [put, Table.get?_insert]
  split <;> rfl

theorem handleTurns_eq {texts : List String} (some : texts ≠ []) (p : Pool) (world : σ) :
    p.handleTurns engine world id texts = p.handleEach engine world (texts.map (id, ·)) := by
  induction texts generalizing p world with
  | nil => exact absurd rfl some
  | cons text texts ih =>
    cases texts with
    | nil =>
      simp only [handleTurns, handleEach, List.map_cons, List.map_nil, handleTurn, enroll_put]
    | cons next texts =>
      rw [handleTurns, List.map_cons, handleEach, ih (by simp)]

def spread (groups : List (String × List String)) : List (String × String) :=
  groups.flatMap fun group => group.2.map (group.1, ·)

theorem handleGroups_eq {groups : List (String × List String)}
    (some : ∀ group ∈ groups, group.2 ≠ []) (p : Pool) (world : σ) :
    p.handleGroups engine world groups = p.handleEach engine world (spread groups) := by
  induction groups generalizing p world with
  | nil => rfl
  | cons group groups ih =>
    obtain ⟨first, others⟩ := List.forall_mem_cons.1 some
    rw [handleGroups, spread, List.flatMap_cons, handleEach_append, handleTurns_eq first]
    simp only [ih others]
    rfl

section

variable {groups groups' : List (String × List String)} {turns : List (String × String)}

theorem under_spread_cons (group : String × List String) (groups : List (String × List String))
    (id : String) :
    under (spread (group :: groups)) id =
      (if group.1 = id then group.2 else []) ++ under (spread groups) id := by
  rw [spread, List.flatMap_cons, under_append, under_map_mk]
  rfl

theorem under_spread_eq_nil (missing : id ∉ groups.map (·.1)) : under (spread groups) id = [] := by
  induction groups with
  | nil => rfl
  | cons group groups ih =>
    obtain ⟨other, missing⟩ := not_or.1 (mt List.mem_cons.2 missing)
    rw [under_spread_cons, if_neg (Ne.symm other), ih missing, List.append_nil]

structure Grouped (groups : List (String × List String)) : Prop where
  nodup : (groups.map (·.1)).Nodup
  some : ∀ group ∈ groups, group.2 ≠ []

theorem Grouped.perm (grouped : Grouped groups) (ordered : groups'.Perm groups) :
    Grouped groups' :=
  ⟨(ordered.map _).nodup_iff.2 grouped.nodup, fun group member =>
    grouped.some group (ordered.subset member)⟩

theorem Grouped.under_spread (grouped : Grouped groups) (ordered : groups'.Perm groups)
    (id : String) : under (spread groups') id = under (spread groups) id := by
  replace grouped := (grouped.perm ordered).nodup
  induction ordered with
  | nil => rfl
  | cons group _ ih =>
    rw [under_spread_cons, under_spread_cons, ih (List.nodup_cons.1 grouped).2]
  | swap first second groups =>
    have other : second.1 ≠ first.1 := fun same =>
      (List.nodup_cons.1 grouped).1 (List.mem_cons.2 (.inl same))
    rw [under_spread_cons, under_spread_cons, under_spread_cons, under_spread_cons]
    by_cases same : first.1 = id
    · rw [if_neg fun same' => other (same'.trans same.symm), List.nil_append, List.nil_append]
    · rw [if_neg same, List.nil_append, List.nil_append]
  | trans first _ ih ih' =>
    rw [ih grouped, ih' ((first.map _).nodup_iff.1 grouped)]

theorem names_addTo (groups : List (String × List String)) (id text : String) :
    (addTo groups id text).map (·.1) =
      if id ∈ groups.map (·.1) then groups.map (·.1) else groups.map (·.1) ++ [id] := by
  induction groups with
  | nil => rfl
  | cons group groups ih =>
    unfold addTo
    split
    · next same => simp [same]
    · next other =>
      rw [List.map_cons, ih, List.map_cons]
      split <;> simp_all [Ne.symm other]

theorem some_addTo (some : ∀ group ∈ groups, group.2 ≠ []) (id text : String) :
    ∀ group ∈ addTo groups id text, group.2 ≠ [] := by
  induction groups with
  | nil => simp [addTo]
  | cons group groups ih =>
    obtain ⟨first, others⟩ := List.forall_mem_cons.1 some
    unfold addTo
    split
    · exact List.forall_mem_cons.2 ⟨by simp, others⟩
    · exact List.forall_mem_cons.2 ⟨first, ih others⟩

theorem Grouped.addTo (grouped : Grouped groups) (id text : String) :
    Grouped (addTo groups id text) := by
  refine ⟨?_, some_addTo grouped.some id text⟩
  rw [names_addTo]
  split
  · exact grouped.nodup
  · next missing => exact List.concat_eq_append ▸ grouped.nodup.concat missing

theorem under_addTo (nodup : (groups.map (·.1)).Nodup) (id text other : String) :
    under (spread (addTo groups id text)) other =
      under (spread groups) other ++ if id = other then [text] else [] := by
  induction groups with
  | nil => exact (under_spread_cons (id, [text]) [] other).trans (List.append_nil _)
  | cons group groups ih =>
    obtain ⟨missing, nodup⟩ := List.nodup_cons.1 nodup
    unfold addTo
    split
    · next same =>
      rw [under_spread_cons, under_spread_cons, ← same]
      split
      · next here =>
        rw [under_spread_eq_nil (here ▸ missing), List.append_nil, List.append_nil]
      · simp
    · rw [under_spread_cons, under_spread_cons, ih nodup, List.append_assoc]

theorem grouped_group (turns : List (String × String)) :
    Grouped (group turns) ∧ ∀ id, under (spread (group turns)) id = under turns id := by
  induction turns using List.reverseRecOn with
  | nil => exact ⟨⟨.nil, by simp [group]⟩, fun _ => rfl⟩
  | append_singleton turns turn ih =>
    obtain ⟨grouped, same⟩ := ih
    rw [group, List.foldl_append, List.foldl_cons, List.foldl_nil, ← group]
    refine ⟨grouped.addTo _ _, fun id => ?_⟩
    rw [under_addTo grouped.nodup, same, under_append, under_cons]
    rfl

end

variable {c : Conversation σ} {turns : List (String × String)}

/-- A turn of another session leaves a session as it is; and its own comes to what it comes to with
the backend in any other state. -/
theorem handleTurn_alone (memoryless : c.engine.backend.Memoryless)
    (same : c.session = p.session c.engine id) (world : σ) (text : String) :
    (p.handleTurn c.engine world id text).result = (c.reply (.turn text)).result ∧
      (c.next (.turn text)).session =
        (p.handleTurn c.engine world id text).pool.session c.engine id := by
  obtain ⟨last, alike⟩ := Session.handleTurn_unworldly memoryless c.session c.world world text
  have reply : c.reply (.turn text) = c.session.handleTurn c.engine c.world text := rfl
  simp only [handleTurn, Conversation.next, session_put, if_true, ← same, alike, reply]
  exact ⟨trivial, trivial⟩

/-- However the turns of several sessions alternate, each session comes to what its own turns alone
bring it to. -/
theorem handleEach_alone (memoryless : c.engine.backend.Memoryless)
    (same : c.session = p.session c.engine id) (world : σ) (turns : List (String × String)) :
    let reply := p.handleEach c.engine world turns
    let calls := (under turns id).map Call.turn
    under reply.result id = c.results calls ∧
      (c.after calls).session = reply.pool.session c.engine id := by
  induction turns generalizing p c world with
  | nil => exact ⟨rfl, same⟩
  | cons turn turns ih =>
    obtain ⟨other, text⟩ := turn
    simp only [handleEach, under_cons]
    by_cases here : other = id
    · subst here
      obtain ⟨result, same'⟩ := handleTurn_alone memoryless same world text
      obtain ⟨results, after⟩ := ih (c := c.next (.turn text)) memoryless same'
        (p.handleTurn c.engine world other text).world
      simp only [if_true, List.map_cons, Conversation.results]
      exact ⟨congrArg₂ _ result results, after⟩
    · simp only [if_neg here]
      refine ih memoryless ?_ _
      rw [handleTurn, session_put, if_neg here]
      exact same

theorem get?_handleEach (missing : id ∉ turns.map (·.1)) :
    (p.handleEach engine world turns).pool.sessions.get? id = p.sessions.get? id := by
  induction turns generalizing p world with
  | nil => rfl
  | cons turn turns ih =>
    obtain ⟨other, missing⟩ := not_or.1 (mt List.mem_cons.2 missing)
    exact (ih missing).trans (Table.get?_insert_ne _ _ (Ne.symm other))

theorem isSome_get?_handleEach
    (known : id ∈ turns.map (·.1) ∨ (p.sessions.get? id).isSome) :
    ((p.handleEach engine world turns).pool.sessions.get? id).isSome := by
  induction turns generalizing p world with
  | nil => exact known.resolve_left (by simp)
  | cons turn turns ih =>
    refine ih ?_
    rw [handleTurn, put, Table.get?_insert]
    split
    · exact .inr rfl
    · next other => exact known.imp_left fun member =>
        (List.mem_cons.1 member).resolve_left fun same => other same.symm

theorem get?_eq_some (p : Pool) (engine : Engine σ) (known : (p.sessions.get? id).isSome) :
    p.sessions.get? id = some (p.session engine id) := by
  obtain ⟨s, found⟩ := Option.isSome_iff_exists.1 known
  rw [session, found]
  rfl

/-- What a batch is to come to: the turns of each session give what they give one after the other
in a conversation of their own, and lead the session where that leads it. -/
structure Alone (p : Pool) (engine : Engine σ) (turns : List (String × String))
    (reply : Reply σ (List (String × Except TurnError Outcome))) : Prop where
  results (id : String) (start : σ) (trail : List Event) :
    let alone : Conversation σ := ⟨engine, p.session engine id, start, trail⟩
    under reply.result id = alone.results ((under turns id).map Call.turn)
  session (id : String) (start : σ) (trail : List Event) : id ∈ turns.map (·.1) →
    let alone : Conversation σ := ⟨engine, p.session engine id, start, trail⟩
    reply.pool.sessions.get? id = some (alone.after ((under turns id).map Call.turn)).session
  others (id : String) : id ∉ turns.map (·.1) →
    reply.pool.sessions.get? id = p.sessions.get? id
  names : (reply.result.map (·.1)).Perm (turns.map (·.1))
  length : reply.result.length = turns.length

theorem alone_handleGroups (memoryless : engine.backend.Memoryless) (p : Pool) (world : σ)
    {turns : List (String × String)} {groups : List (String × List String)}
    (ordered : groups.Perm (group turns)) :
    p.Alone engine turns (p.handleGroups engine world groups) := by
  obtain ⟨grouped, kept⟩ := grouped_group turns
  have same (id : String) : under (spread groups) id = under turns id :=
    (grouped.under_spread ordered id).trans (kept id)
  have listed : (spread groups).Perm turns := perm_of_under same
  have member (id : String) : id ∈ (spread groups).map (·.1) ↔ id ∈ turns.map (·.1) :=
    (listed.map _).mem_iff
  have names : ((p.handleEach engine world (spread groups)).result.map (·.1)).Perm
      (turns.map (·.1)) := by
    rw [names_handleEach]
    exact listed.map _
  have alone (id : String) (start : σ) (trail : List Event) :=
    handleEach_alone (c := ⟨engine, p.session engine id, start, trail⟩) memoryless rfl world
      (spread groups)
  rw [handleGroups_eq (grouped.perm ordered).some]
  constructor
  case results =>
    intro id start trail
    rw [← same id]
    exact (alone id start trail).1
  case session =>
    intro id start trail named
    rw [← same id]
    dsimp only
    rw [(alone id start trail).2]
    exact get?_eq_some _ _ (isSome_get?_handleEach (.inl ((member id).2 named)))
  case others => exact fun id missing => get?_handleEach (mt (member id).1 missing)
  case names => exact names
  case length => simpa using names.length_eq

/-- With a backend that remembers nothing, the sessions of a batch do not notice one another, and
those that are new begin afresh. That holds in whatever order the groups of the batch are gone
through. -/
theorem batch_alone (memoryless : engine.backend.Memoryless) (p : Pool) (world : σ)
    (turns : List (String × String)) :
    p.Alone engine turns (p.handleBatch engine world turns) ∧
      (∀ groups, groups.Perm (group turns) →
        p.Alone engine turns (p.handleGroups engine world groups)) ∧
      ∀ id, p.sessions.get? id = none → p.session engine id = .new id engine := by
  refine ⟨alone_handleGroups memoryless p world (.refl _),
    fun groups ordered => alone_handleGroups memoryless p world ordered, fun id missing => ?_⟩
  rw [session, missing]
  rfl

def counting : Backend Nat where
  classify request count :=
    (.ok (if request.text = "order" then Script.wants "order" else Script.continues), count + 1)
  act _ _ count := (.ok [], count + 1)
  render message := message.template

def orders : List (String × String) :=
  [("ana", "order"), ("zoe", "order"), ("ana", "tea"), ("zoe", "milk"), ("ana", "order")]

theorem batch_alone_orders :
    let engine : Engine Nat := ⟨⟨.standard .lenient, .of [Script.ordering] 0⟩, counting, {}⟩
    let reply := empty.handleBatch engine 0 orders
    let groups := [("zoe", ["order", "milk"]), ("ana", ["order", "tea", "order"])]
    let reversed := empty.handleGroups engine 0 groups
    let zoe : Conversation Nat := ⟨engine, .new "zoe" engine, 7, []⟩
    let calls := [Call.turn "order", .turn "milk"]
    engine.backend.Memoryless ∧ groups.Perm (group orders) ∧
      under reply.result "zoe" = zoe.results calls ∧
      under reversed.result "zoe" = zoe.results calls ∧
      reply.pool.sessions.get? "zoe" = some (zoe.after calls).session ∧
      reversed.pool.sessions.get? "zoe" = some (zoe.after calls).session ∧
      reply.result.length = 5 := by
  intro engine reply groups reversed zoe calls
  have memoryless : engine.backend.Memoryless := ⟨fun _ _ _ => rfl, fun _ _ _ _ => rfl⟩
  have ordered : groups.Perm (group orders) := .swap _ _ _
  obtain ⟨batch, others, -⟩ := batch_alone memoryless .empty 0 orders
  have other := others groups ordered
  exact ⟨memoryless, ordered, batch.results "zoe" 7 [], other.results "zoe" 7 [],
    batch.session "zoe" 7 [] (by decide), other.session "zoe" 7 [] (by decide), batch.length⟩

end Pool

end Colloquy
