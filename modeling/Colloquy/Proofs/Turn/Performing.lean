import Colloquy.Proofs.Turn.Responding

/-!
Carrying out a decision is made of moves: strides through flows, and what the decision itself does
to the stack and to an open change of flow, which comes before all strides.
-/

set_option autoImplicit false

namespace Colloquy

open Colloquy.Graph (Node)

variable {σ α : Type} {l : Library} {t t' : Turn σ}

def Decision.goesOn : Decision → Bool
  | proceed | revise _ | answer _ => true
  | _ => false

/-- What a turn may do to carry out a decision, when it began with the question open whether to
change to the flow `asked`, and when a flow that it begins is given some slots. -/
inductive Move (l : Library) (backend : Backend σ) (asked : Option String) (given : Slots) :
    Decision → Turn σ → Turn σ → Prop where
  | shown {d : Decision} {t t' : Turn σ} : t.Shows t' → Move l backend asked given d t t'
  | stride {d : Decision} {t t' : Turn σ} :
      d.goesOn = true ∨ t.trail ≠ [] → Stride l backend t t' → Move l backend asked given d t t'
  /-- The answer to a question is kept in a slot. -/
  | recorded {t : Turn σ} {top : Frame} {below : List Frame} {node : Node} {slot prompt : String}
      {affirmed : Bool} :
      t.stack.frames = top :: below → t.trail = [] → l.node? top = some node →
      node.activity = .confirm (some slot) prompt →
      Move l backend asked given (.answer affirmed) t { t with
        stack := ⟨{ top with slots := top.slots.insert slot (.truth affirmed) } :: below,
          t.stack.nextId⟩ }
  | began {t : Turn σ} {flow : String} :
      t.stack.frames = [] → t.trail = [] → (l.get? flow).isSome →
      Move l backend asked given (.startFlow flow) t
        (t.onto (t.stack.push flow given []) [.began ⟨flow, t.stack.nextId⟩])
  | proposed {t : Turn σ} {flow : String} :
      t.trail = [] → (l.get? flow).isSome →
      Move l backend asked given (.proposeChange flow) t { t with pending := some flow }
  | withdrawn {t : Turn σ} {accepted : Bool} :
      t.trail = [] →
      Move l backend asked given (.answerChange accepted) t { t with pending := none }
  | changed {t : Turn σ} {top : Frame} {below : List Frame} {flow : String} :
      t.stack.frames = top :: below → top.status = .active → t.pending = none → t.trail = [] →
      asked = some flow → (l.get? flow).isSome →
      Move l backend asked given (.answerChange true) t
        (t.onto (t.stack.push flow .empty below) [.changed top.invocation ⟨flow, t.stack.nextId⟩])
  | cancelled {t : Turn σ} :
      t.trail = [] →
      Move l backend asked given .cancel t
        { t.onto ⟨[], t.stack.nextId⟩
            (t.stack.top?.map fun f => Event.cancelled f.invocation).toList with
          pending := none }

abbrev Moves (l : Library) (backend : Backend σ) (asked : Option String) (given : Slots)
    (d : Decision) : Turn σ → Turn σ → Prop :=
  Relation.ReflTransGen (Move l backend asked given d)

namespace Turn

variable {backend : Backend σ} {asked : Option String} {given : Slots} {d : Decision} {s : Stage σ}
  {m : Machine}

theorem Kept.move (kept : t.Kept m) (move : Move l backend asked given d t t') : t'.Kept m := by
  cases move with
  | stride _ stride => exact kept.stride stride
  | shown shows' => cases shows'; exact kept.of_eq rfl rfl
  | _ => exact kept.of_eq rfl rfl

theorem Kept.moves (kept : t.Kept m) (moves : Moves l backend asked given d t t') : t'.Kept m := by
  induction moves with
  | refl => exact kept
  | tail _ move ih => exact ih.move move

-- Messages alone are no stride, so that even a decision that goes through no flow may show some.
theorem along_quietly {steps : TurnM σ α}
    (shows' : t.Along Shows steps (fun _ _ => True) (Stuck l asked)) (begun : t.trail = [])
    (ready : t.failure = none) :
    t.Along (Move l backend asked given d) steps (fun _ t' => l.Rested t') (Stuck l asked) :=
  shows'.shown (fun _ _ => .shown) begun ready

theorem moves_of_strides (begun : d.goesOn = true ∨ t.trail ≠ [])
    (strides : Strides l backend t t') :
    Moves l backend asked given d t t' ∧ (d.goesOn = true ∨ t'.trail ≠ []) := by
  induction strides with
  | refl => exact ⟨.refl, begun⟩
  | tail _ stride ih =>
    obtain ⟨moves, begun'⟩ := ih
    exact ⟨moves.tail (.stride begun' stride), begun'.imp_right (trail_ne_nil stride)⟩

theorem Along.moving {steps : TurnM σ α} {done : α → Turn σ → Prop}
    {failed : TurnError → Turn σ → Prop} (begun : d.goesOn = true ∨ t.trail ≠ [])
    (strides : t.Along (Stride l backend) steps done failed) :
    t.Along (Move l backend asked given d) steps done failed :=
  ⟨(moves_of_strides begun strides.1).1, strides.2⟩

theorem along_answer {affirmed : Bool} (named : s.library.Named) (heard : m.Heard)
    (fresh : t.Fresh m) :
    t.Along (Move s.library s.backend asked given (.answer affirmed)) (TurnM.answer s affirmed)
      (fun _ t' => s.library.Rested t') (Stuck s.library asked) := by
  have again : t.Along (Move s.library s.backend asked given (.answer affirmed))
      (TurnM.reprompt s.library) (fun _ t' => s.library.Rested t') (Stuck s.library asked) :=
    along_quietly (along_reprompt fresh.begun) fresh.begun fresh.ready
  unfold TurnM.answer
  apply (along_position fresh.begun).bind
  intro place t' _ ends
  obtain ⟨rfl, placed⟩ := ends
  cases placed with
  | nowhere | before => exact again
  | @«at» top below graph index node frames found member stands =>
    apply along_nodeAt member
    cases activity : node.activity with
    | confirm slot prompt =>
      cases slot with
      | none =>
        exact .moving (.inl rfl)
          (along_leaveAnswered named heard fresh frames found stands activity)
      | some slot =>
        refine .bind_ok (run_onTop frames _)
          (.single (.recorded frames fresh.begun stands activity)) ?_
        exact .moving (.inl rfl)
          (along_leaveAnswered named heard (fresh.of_eq rfl rfl rfl) rfl found stands activity)
    | _ => exact again

theorem along_begin {flow : String} (named : s.library.Named) (heard : m.Heard) (fresh : t.Fresh m)
    (empty : t.stack.frames = []) :
    t.Along (Move s.library s.backend asked given (.startFlow flow)) (TurnM.begin s flow given)
      (fun _ t' => s.library.Rested t') (Stuck s.library asked) := by
  unfold TurnM.begin
  split
  next unknown =>
    exact along_quietly (along_say _) fresh.begun fresh.ready
  next graph known =>
    have started : t.stack.start flow given = .ok (t.stack.push flow given []) := by
      simp only [Stack.start, empty]
    have same : t.run (do
          TurnM.setStack (t.stack.push flow given [])
          TurnM.note .began
          TurnM.walkFrom s graph.entry) =
        (t.onto (t.stack.push flow given []) [.began ⟨flow, t.stack.nextId⟩]).run
          (TurnM.walkFrom s graph.entry) := by
      rw [TurnM.setStack, run_bind_ok (run_modify _), run_bind_ok (run_note rfl _)]
      rfl
    refine .get ?_
    rw [started]
    refine .bind_ok (run_ofExcept_ok _ _) .refl (.of_run_eq same (.single ?_) ?_)
    · exact .began empty fresh.begun (by simp [known])
    · exact .moving (.inr (by simp [onto])) (along_walkFrom named heard
        (fresh.kept.of_eq rfl rfl) fresh.ready (.of_has rfl known .entry))

theorem along_answerChange {accepted : Bool} (named : s.library.Named) (heard : m.Heard)
    (fresh : t.Fresh m) (backed : t.pending.isSome → t.stack.frames ≠ []) :
    t.Along (Move s.library s.backend t.pending given (.answerChange accepted))
      (TurnM.answerChange s accepted) (fun _ t' => s.library.Rested t')
      (Stuck s.library t.pending) := by
  unfold TurnM.answerChange
  refine .get ?_
  cases pending : t.pending with
  | none => exact along_quietly (along_reprompt fresh.begun) fresh.begun fresh.ready
  | some flow =>
    refine .bind_ok (run_modify _) (.single (.withdrawn fresh.begun)) ?_
    cases frames : t.stack.frames with
    | nil => simp [pending, frames] at backed
    | cons top below =>
      cases accepted with
      | false =>
        exact along_quietly (along_askAgain fresh.begun) fresh.begun fresh.ready
      | true =>
        have frames' : ({ t with pending := none } : Turn σ).stack.frames = top :: below := frames
        rw [if_neg (by simp)]
        refine .get ?_
        rw [if_neg (by simp [Stack.isEmpty, frames])]
        refine (along_handOver frames' (.unoffered frames' rfl) ?_ ?_).bind ?_
        · intro cause refused
          obtain ⟨inactive, rfl⟩ := Stack.link_eq_error frames' refused
          exact .inactive frames' inactive
        · intro stack linked known
          obtain ⟨active, rfl⟩ := Stack.link_eq_ok frames' linked
          exact ⟨.changed frames' active rfl fresh.begun rfl known, _, rfl, rfl⟩
        · intro target t' moves ends
          obtain ⟨same, leads, went⟩ := ends
          have kept := Kept.moves (t := { t with pending := none }) (fresh.kept.of_eq rfl rfl) moves
          exact .moving (.inr went) (along_walkFrom named heard kept (same.trans fresh.ready) leads)

theorem along_proposeChange {flow : String} (fresh : t.Fresh m) :
    t.Along (Move s.library s.backend asked given (.proposeChange flow))
      (TurnM.proposeChange s flow) (fun _ t' => s.library.Rested t') (Stuck s.library asked) := by
  unfold TurnM.proposeChange
  split
  next known =>
    refine .bind_ok (run_modify _) (.single (.proposed fresh.begun ?_)) ?_
    · exact known
    · exact .of_ok (run_modify _) (.single (.shown (.shown _))) (.inr ⟨fresh.begun, fresh.ready⟩)
  next => exact along_quietly (along_say _) fresh.begun fresh.ready

theorem along_cancel (fresh : t.Fresh m) :
    t.Along (Move s.library s.backend asked given .cancel) TurnM.cancel
      (fun _ t' => s.library.Rested t') (Stuck s.library asked) := by
  have same : t.run TurnM.cancel =
      Turn.run { t.onto ⟨[], t.stack.nextId⟩
        (t.stack.top?.map fun f => Event.cancelled f.invocation).toList with
        pending := none } (TurnM.say "cancelled") := rfl
  exact .of_run_eq same (.single (.cancelled fresh.begun))
    (.of_ok (run_modify _) (.single (.shown (.shown [_]))) (.inl (.finished rfl fresh.ready)))

/-- Carrying out a decision is made of moves, and unless it fails the turn comes to rest. -/
theorem along_perform {d : Decision} {r : Reading} {text : String} (named : s.library.Named)
    (heard : m.Heard) (fresh : t.Fresh m) (backed : t.pending.isSome → t.stack.frames ≠ [])
    (begins : ∀ flow, d = .startFlow flow → t.stack.frames = []) :
    t.Along (Move s.library s.backend t.pending (.ofList r.slots) d) (TurnM.perform s r text d)
      (fun _ t' => s.library.Rested t') (Stuck s.library t.pending) := by
  cases d with
  | proceed => exact .moving (.inl rfl) (along_proceed named heard fresh)
  | revise slots => exact .moving (.inl rfl) (along_revise named heard fresh)
  | answer affirmed => exact along_answer named heard fresh
  | answerChange accepted => exact along_answerChange named heard fresh backed
  | reprompt => exact along_quietly (along_reprompt fresh.begun) fresh.begun fresh.ready
  | digress depth | digressionLimit depth =>
    refine along_quietly ((along_say _).bind ?_) fresh.begun fresh.ready
    intro _ t' shown _
    rw [eq_of_shows shown]
    exact along_askAgain fresh.begun
  | proposeChange flow => exact along_proposeChange fresh
  | startFlow flow => exact along_begin named heard fresh (begins flow rfl)
  | cancel => exact along_cancel fresh

end Turn

end Colloquy
