import Colloquy.Proofs.Session.Carrying
import Colloquy.Proofs.Session.Lineage

/-!
What ends a row of digressions. A turn that gets somewhere starts the count again, with one
exception: an answer that leads straight back to the question goes unnoticed.
-/

set_option autoImplicit false

namespace Colloquy

open Colloquy.Graph (Activity Node Target)

variable {σ : Type} {l : Library} {backend : Backend σ} {t t' : Turn σ} {target : Target}
  {top : Frame} {below : List Frame} {n : Nat}

def Event.advances : Event → Bool
  | left .. | acted _ _ _ (some _) => true
  | _ => false

def Turn.Marks (t t' : Turn σ) : Prop :=
  ∃ events, t'.trail = t.trail ++ events ∧
    (t'.advanced = true ↔ t.advanced = true ∨ ∃ e ∈ events, e.advances = true)

theorem Turn.Marks.trans {t'' : Turn σ} (first : t.Marks t') (rest : t'.Marks t'') :
    t.Marks t'' := by
  obtain ⟨events, trail, marks⟩ := first
  obtain ⟨events', trail', marks'⟩ := rest
  refine ⟨events ++ events', by rw [trail', trail, List.append_assoc], ?_⟩
  rw [marks', marks, or_assoc]
  simp only [List.mem_append, or_and_right, exists_or]

theorem Round.marks {next : Option Target} (round : Round l backend t target next t') :
    t.Marks t' := by
  cases round with
  | idle => exact ⟨[], by simp, by simp⟩
  | ended | restarted | asked | resumed =>
    exact ⟨_, rfl, by simp [Event.advances, Turn.onto, Turn.entering]⟩
  | called | linked | left | failed =>
    exact ⟨_, List.append_assoc .., by simp [Event.advances, Turn.onto, Turn.entering]⟩
  | acted =>
    exact ⟨_, (List.append_assoc ..).trans (List.append_assoc ..), by simp [Event.advances]⟩

theorem Course.marks (course : Course l backend t target t') : t.Marks t' := by
  induction course with
  | stops round => exact round.marks
  | goesOn round _ ih => exact round.marks.trans ih

/-- The turn has got somewhere, or no flow is left, or one runs that was not there before. -/
def Turn.Beyond (n : Nat) (t : Turn σ) : Prop :=
  t.advanced = true ∨ t.stack.frames = [] ∨
    ∃ top below, t.stack.frames = top :: below ∧ n ≤ top.id ∧ n ≤ t.stack.nextId ∧
      ∀ f ∈ below, f.resume.isSome

theorem Turn.Beyond.mono {n' : Nat} (beyond : t.Beyond n') (le : n ≤ n') : t.Beyond n := by
  rcases beyond with advanced | empty | ⟨top, below, frames, new, grown, asleep⟩
  · exact .inl advanced
  · exact .inr (.inl empty)
  · exact .inr (.inr ⟨top, below, frames, le.trans new, le.trans grown, asleep⟩)

/-- A round stops at the step it comes to, or gets somewhere. -/
theorem Round.stops_or_beyond {next : Option Target} (round : Round l backend t target next t')
    (frames : t.stack.frames = top :: below) (asleep : ∀ f ∈ below, f.resume.isSome) :
    t'.Beyond t.stack.nextId ∨ next = none ∧ t'.stack.nextId = t.stack.nextId ∧
      ∃ graph index node, target = .step index ∧ l.get? top.flow = some graph ∧
        graph.nodes[index]? = some node ∧
        t'.stack.frames = { top with step := some node.name } :: below := by
  have same {top' : Frame} {below' : List Frame} (frames' : t.stack.frames = top' :: below') :
      top' = top ∧ below' = below := List.cons.inj (frames'.symm.trans frames)
  cases round with
  | idle empty => cases empty.symm.trans frames
  | ended => exact .inl (.inr (.inl rfl))
  | resumed | left | acted => exact .inl (.inl rfl)
  | restarted frames' resume =>
    obtain ⟨rfl, rfl⟩ := same frames'
    have sleeps := asleep _ List.mem_cons_self
    rw [resume] at sleeps
    cases sleeps
  | asked _ frames' known member | failed _ _ _ frames' known member =>
    obtain ⟨rfl, rfl⟩ := same frames'
    exact .inr ⟨rfl, rfl, _, _, _, rfl, known, member, rfl⟩
  | called frames' | linked frames' =>
    obtain ⟨rfl, rfl⟩ := same frames'
    refine .inl (.inr (.inr ⟨_, _, rfl, le_rfl, Nat.le_succ _, ?_⟩))
    simpa [Frame.suspend] using asleep

theorem Round.eq_of_nil {next : Option Target} (round : Round l backend t target next t')
    (empty : t.stack.frames = []) : t' = t := by
  cases round with
  | idle => rfl
  | ended frames | resumed frames | restarted frames | asked _ frames | left _ frames
  | acted _ _ frames | failed _ _ _ frames | called frames | linked frames =>
    cases empty.symm.trans frames

theorem Round.beyond {next : Option Target} (round : Round l backend t target next t')
    (beyond : t.Beyond n) : t'.Beyond n := by
  rcases beyond with advanced | empty | ⟨top, below, frames, new, grown, asleep⟩
  · obtain ⟨events, -, marks⟩ := round.marks
    exact .inl (marks.2 (.inl advanced))
  · rw [round.eq_of_nil empty]
    exact .inr (.inl empty)
  · rcases round.stops_or_beyond frames asleep with beyond | ⟨-, same, _, _, _, -, -, -, frames'⟩
    · exact beyond.mono grown
    · exact .inr (.inr ⟨_, _, frames', new, same.symm ▸ grown, asleep⟩)

theorem Course.beyond (course : Course l backend t target t') (beyond : t.Beyond n) :
    t'.Beyond n := by
  induction course with
  | stops round => exact round.beyond beyond
  | goesOn round _ ih => exact ih (round.beyond beyond)

theorem Course.stops_or_beyond (course : Course l backend t target t')
    (frames : t.stack.frames = top :: below) (asleep : ∀ f ∈ below, f.resume.isSome) :
    t'.Beyond t.stack.nextId ∨ ∃ graph index node, target = .step index ∧
      l.get? top.flow = some graph ∧ graph.nodes[index]? = some node ∧
      t'.stack.frames = { top with step := some node.name } :: below := by
  cases course with
  | stops round => exact (round.stops_or_beyond frames asleep).imp_right fun stops => stops.2.2
  | goesOn round course =>
    rcases round.stops_or_beyond frames asleep with beyond | ⟨none, -⟩
    · exact .inl (course.beyond beyond)
    · cases none

/-- At a question a course stops at once. -/
theorem Course.stops_at_question {graph : Graph} {index : Nat} {node : Node} {slot : Option String}
    {prompt : String} (course : Course l backend t (.step index) t')
    (frames : t.stack.frames = top :: below) (known : l.get? top.flow = some graph)
    (member : graph.nodes[index]? = some node) (question : node.activity = .confirm slot prompt) :
    t'.advanced = t.advanced ∧ t'.stack.frames = { top with step := some node.name } :: below := by
  cases course with
  | stops round =>
    cases round with
    | idle empty => cases empty.symm.trans frames
    | asked _ frames' known' member' =>
      obtain ⟨rfl, rfl, rfl⟩ := Turn.same_node frames known member frames' known' member'
      exact ⟨rfl, rfl⟩
    | failed _ _ _ frames' known' member' activity =>
      obtain ⟨-, -, rfl⟩ := Turn.same_node frames known member frames' known' member'
      cases question.symm.trans activity
  | goesOn round =>
    cases round with
    | left _ frames' known' member' statement =>
      obtain ⟨-, -, rfl⟩ := Turn.same_node frames known member frames' known' member'
      simp [question, Activity.isQuestion] at statement
    | acted _ _ frames' known' member' activity | called frames' known' member' activity
    | linked frames' known' member' activity =>
      obtain ⟨-, -, rfl⟩ := Turn.same_node frames known member frames' known' member'
      cases question.symm.trans activity

/-- The decision answers a question, and the answer leads straight back to it. -/
def Library.Returns (l : Library) (stack : Stack) (d : Decision) : Prop :=
  ∃ top graph index node slot prompt affirmed, stack.top? = some top ∧
    l.get? top.flow = some graph ∧ l.node? top = some node ∧
    node.activity = .confirm slot prompt ∧ d = .answer affirmed ∧
    graph.answered node.name affirmed = some (.step index) ∧ graph.nodes[index]? = some node

theorem Library.Asleep.resumes {f : Frame} (asleep : l.Asleep f) : f.resume.isSome := by
  obtain ⟨node, callee, stands, -⟩ := asleep.calls
  obtain ⟨graph, step, -, here, -⟩ := Library.node?_eq_some.1 stands
  rw [asleep.resume, here]
  rfl

namespace Upshot

variable {s : Stage σ} {r : Reading} {text : String} {d : Decision}

theorem place_ne_of_beyond (frames : t.stack.frames = top :: below)
    (fresh : top.id < t.stack.nextId) (beyond : t'.Beyond t.stack.nextId) :
    t'.advanced = true ∨ t'.stack.place ≠ t.stack.place := by
  rcases beyond with advanced | empty | ⟨top', below', frames', new, -, -⟩
  · exact .inl advanced
  · refine .inr fun same => ?_
    have depth := congrArg Place.depth same
    simp [Stack.place, Stack.depth, empty, frames] at depth
  · refine .inr fun same => ?_
    have frame := congrArg Place.frame same
    simp only [Stack.place, Stack.top?, frames, frames', List.head?_cons, Option.map_some,
      Option.some.injEq] at frame
    omega

/-- An answer is noticed unless it leads straight back. -/
theorem answered_noticed_iff {graph : Graph} {index : Nat} {node : Node} {slot : Option String}
    {prompt : String} {affirmed : Bool} {slots : Slots} (named : l.Named)
    (asleep : ∀ f ∈ below, f.resume.isSome) (fresh : top.id < t.stack.nextId)
    (unmarked : t.advanced = false)
    (place : t.Stands l top below graph index node)
    (activity : node.activity = .confirm slot prompt)
    (answered : graph.answered node.name affirmed = some target)
    (course : Course l backend (t.onto ⟨{ top with slots } :: below, t.stack.nextId⟩
      [.left top.invocation node.name]) target t') :
    t'.advanced = true ∨ t'.stack.place ≠ t.stack.place ↔
      ¬ l.Returns t.stack (.answer affirmed) := by
  have here : top.step = some node.name := Library.step_of_node? place.node
  have back {node' : Node} (name : node'.name = node.name)
      (frames : t'.stack.frames = { top with slots, step := some node'.name } :: below) :
      t'.stack.place = t.stack.place := by
    simp [Stack.place, Stack.top?, Stack.depth, frames, place.frames, here, name]
  constructor
  · rintro noticed ⟨top', graph', index', node', _, _, _, found, known, stands, question, same,
      leads, member⟩
    cases same
    cases found.symm.trans (Turn.top?_eq place.frames)
    cases known.symm.trans place.known
    cases stands.symm.trans place.node
    cases leads.symm.trans answered
    obtain ⟨advanced, frames⟩ := course.stops_at_question rfl place.known member question
    rcases noticed with marked | moved
    · rw [advanced] at marked
      cases unmarked.symm.trans marked
    · exact moved (back rfl frames)
  · intro straight
    rcases course.stops_or_beyond rfl asleep with
      beyond | ⟨graph', index', node', rfl, known, member, frames⟩
    · exact place_ne_of_beyond place.frames fresh beyond
    · refine .inr fun same => straight ?_
      have name : node'.name = node.name := by
        have step := congrArg Place.step same
        simpa [Stack.place, Stack.top?, frames, place.frames, here] using step
      obtain rfl : graph = graph' := Option.some.inj (place.known.symm.trans known)
      -- names are unique in a flow, so that it is the same question
      have unique := named _ _ place.known
      have found := Graph.node?_name unique (List.mem_of_getElem? member)
      rw [name, Graph.node?_name unique (List.mem_of_getElem? place.member)] at found
      cases found
      exact ⟨top, graph, index', _, slot, prompt, affirmed, Turn.top?_eq place.frames, known,
        place.node, activity, rfl, answered, member⟩

theorem noticed_iff (upshot : Upshot s r text d t t') (named : s.library.Named)
    (upright : s.library.Upright t.stack.frames)
    (fresh : ∀ f ∈ t.stack.frames, f.id < t.stack.nextId) (begun : t.trail = [])
    (unmarked : t.advanced = false) :
    t'.advanced = true ∨ t'.stack.place ≠ t.stack.place ↔
      (s.library.Fills t.stack d r text ∨ (∃ e ∈ t'.trail, e.advances = true) ∨
        t'.stack.place ≠ t.stack.place) ∧ ¬ s.library.Returns t.stack d := by
  have other (unanswered : ∀ affirmed, d ≠ .answer affirmed) :
      ¬ s.library.Returns t.stack d := by
    rintro ⟨_, _, _, _, _, _, affirmed, -, -, -, -, same, -⟩
    exact unanswered affirmed same
  cases upshot with
  | stayed shown stays unfilled =>
    simp [stays.advanced, stays.place, stays.trail, unmarked, unfilled, begun]
  | cancelled cancels empty advanced failure trail =>
    subst cancels
    have quiet : ¬ ∃ e ∈ t'.trail, e.advances = true := by
      cases found : t.stack.top? <;> simp [trail, begun, found, Event.advances]
    have unfilled : ¬ s.library.Fills t.stack .cancel r text := not_fills_of_offer fun _ => rfl
    simp [advanced, unmarked, quiet, unfilled, other]
  | @went t₁ _ target outset _ walked =>
    have course := Course.of_walk walked
    obtain ⟨events, trail, marks⟩ := course.marks
    -- otherwise nothing that comes before the walk gets anywhere
    have walks (mark : t₁.advanced = false) (quiet : ¬ ∃ e ∈ t₁.trail, e.advances = true)
        (unfilled : ¬ s.library.Fills t.stack d r text) (straight : ¬ s.library.Returns t.stack d) :
        t'.advanced = true ∨ t'.stack.place ≠ t.stack.place ↔
          (s.library.Fills t.stack d r text ∨ (∃ e ∈ t'.trail, e.advances = true) ∨
            t'.stack.place ≠ t.stack.place) ∧ ¬ s.library.Returns t.stack d := by
      have marked : t'.advanced = true ↔ ∃ e ∈ t'.trail, e.advances = true := by
        rw [marks, trail]
        simp only [mark, Bool.false_eq_true, false_or, List.mem_append, or_and_right, exists_or,
          quiet]
      rw [marked]
      simp [unfilled, straight]
    cases outset with
    | filled slots messages place fills =>
      have marked : t'.advanced = true := marks.2 (.inl rfl)
      have straight : ¬ s.library.Returns t.stack d := by
        apply other
        rintro affirmed rfl
        exact not_fills_of_offer (fun _ => rfl) fills
      simp [marked, fills, straight]
    | @answered top below _ _ node _ _ _ _ slots place activity answered =>
      rw [place.frames] at upright fresh
      have asleep (f : Frame) (member : f ∈ below) : f.resume.isSome :=
        ((Library.upright_cons.1 upright).2 f member).resumes
      rw [answered_noticed_iff named asleep (fresh _ List.mem_cons_self) unmarked place activity
        answered course]
      have left : .left top.invocation node.name ∈ t'.trail := by
        rw [trail]
        exact List.mem_append_left _ (List.mem_append_right _ (List.mem_singleton_self _))
      have advances : ∃ e ∈ t'.trail, e.advances = true := ⟨_, left, rfl⟩
      simp [advances]
    | retried place activity =>
      have unfilled : ¬ s.library.Fills t.stack .proceed r text :=
        not_fills_of_asked place (by rw [activity]; rfl)
      exact walks unmarked (by simp [begun]) unfilled (other (by simp))
    | began | changed =>
      exact walks unmarked (by simp [Turn.onto, begun, Event.advances])
        (not_fills_of_offer fun _ => rfl) (other (by simp))

end Upshot

theorem Turn.digressions_eq {before : State} {d : Decision} (other : d.depth? = none) :
    t.digressions before d =
      if t.advanced = true ∨ t.stack.place ≠ before.stack.place then 0
      else t.machine.state.digressions := by
  cases d with
  | digress | digressionLimit => cases other
  | _ => simp [digressions]

namespace Conversation

open Script

variable {c : Conversation σ} {call : Call} {d : Decision}

theorem next_numbered (named : c.engine.registry.current.Named)
    (rests : c.engine.registry.current.Rests c.state) (numbered : c.state.stack.Numbered)
    (call : Call) : (c.next call).state.stack.Numbered := by
  obtain ⟨d, t₀, t, goes⟩ := Session.exists_goes named rests c.world call
  rcases next_cases goes with ⟨stack, -⟩ | ⟨stack, -⟩ <;> rw [stack]
  · exact numbered
  · apply Turn.numbered_of_moves goes.moves
    rw [goes.stack]
    exact numbered

theorem after_numbered (named : c.engine.registry.current.Named)
    (rests : c.engine.registry.current.Rests c.state) (numbered : c.state.stack.Numbered)
    (calls : List Call) : (c.after calls).state.stack.Numbered := by
  induction calls generalizing c with
  | nil => exact numbered
  | cons call calls ih =>
    exact ih (c := c.next call) named (next_rests named rests call)
      (next_numbered named rests numbered call)

/-- What counts as progress in a call that carries out a decision. -/
inductive Progresses (c : Conversation σ) (call : Call) (d : Decision) : Prop where
  /-- The message gives the slot asked for a value that is accepted. -/
  | filled {text : String} {r : Reading} : call = .turn text →
      c.session.Reads c.engine c.world text r →
      c.engine.registry.current.Fills c.state.stack d r text → Progresses c call d
  | acted {flow : Invocation} {action : String} {slots : Slots} {values : List (String × Value)} :
      .acted flow action slots (some values) ∈ (c.reply call).trail → Progresses c call d
  /-- Control goes on from a step, be it one that asks for a confirmation. -/
  | left {flow : Invocation} {step : String} :
      .left flow step ∈ (c.reply call).trail → Progresses c call d
  | moved : (c.next call).state.stack.place ≠ c.state.stack.place → Progresses c call d

theorem progresses_iff {r : Reading} {text : String} {m : Machine} {world' : σ} {t : Turn σ}
    {outcome : Outcome}
    (carries : c.session.Carries c.engine c.world call d r text m world')
    (comes : c.session.Comes c.engine c.world call d t outcome) :
    c.Progresses call d ↔ c.engine.registry.current.Fills c.state.stack d r text ∨
      (∃ e ∈ t.trail, e.advances = true) ∨ t.stack.place ≠ c.state.stack.place := by
  have trail : (c.reply call).trail = t.trail := comes.trail
  have stack : (c.next call).state.stack = t.stack := comes.stack
  constructor
  · intro progresses
    cases progresses with
    | filled same reads fills =>
      subst same
      rcases carries.origin with ⟨same, reads', -⟩ | ⟨_, _, same, -⟩
      · cases same
        cases reads.symm.trans reads'
        exact .inl fills
      · cases same
    | acted member | left member => exact .inr (.inl ⟨_, trail ▸ member, rfl⟩)
    | moved moved => exact .inr (.inr (stack ▸ moved))
  · rintro (fills | ⟨e, member, advances⟩ | moved)
    · rcases carries.origin with ⟨same, reads, -⟩ | ⟨_, _, -, rfl⟩
      · exact .filled same reads fills
      · exact absurd fills (Upshot.not_fills_of_offer fun _ => rfl)
    · rw [← trail] at member
      cases e with
      | left => exact .left member
      | acted _ _ _ given =>
        cases given with
        | some => exact .acted member
        | none => cases advances
      | _ => cases advances
    · exact .moved (stack ▸ moved)

/-- Of the calls that do not digress, one that makes progress ends the row of digressions, and one
that makes none leaves it as long as it was. So does one kind of progress: an answer that leads
straight back to its own question. -/
theorem digressions_after {dialect : Dialect} {flows : List Flow} {engine : Engine σ}
    (compiled : dialect.compileAll flows = .ok engine.registry.current.graphs) (id : String)
    (world : σ) (calls : List Call) (call : Call) {outcome : Outcome} {d : Decision} :
    let c := (opened id engine world).after calls
    (c.reply call).result = .ok outcome → outcome.decision = some d → d.depth? = none →
      (c.Progresses call d ∧ ¬ engine.registry.current.Returns c.state.stack d →
        (c.next call).state.digressions = 0) ∧
      (¬ c.Progresses call d ∨ engine.registry.current.Returns c.state.stack d →
        (c.next call).state.digressions = c.state.digressions) := by
  intro c done decided other
  obtain ⟨named, rests⟩ := sound_of_calls compiled id world calls
  have same : c.engine = engine := after_engine calls
  have numbered : c.state.stack.Numbered :=
    after_numbered (c := opened id engine world) (Library.named_of_compileAll compiled)
      (opened_rests id engine world) (fun _ member => nomatch member) calls
  rw [← same]
  obtain ⟨r, text, m, world', carries⟩ := Session.exists_carries rests done decided
  obtain ⟨t, upshot, comes⟩ := carries.comes done
  have begins : (Turn.start m world').stack = c.state.stack := carries.stack
  have noticed := upshot.noticed_iff named (by rw [begins]; exact rests.upright)
    (by rw [begins]; exact numbered) rfl rfl
  rw [begins, ← progresses_iff carries comes] at noticed
  have counted : (c.next call).state.digressions =
      if t.advanced = true ∨ t.stack.place ≠ c.state.stack.place then 0
      else c.state.digressions := by
    have digressions : (c.next call).state.digressions = t.digressions c.session.state d :=
      comes.digressions
    rw [digressions, Turn.digressions_eq other, comes.counted]
    rfl
  rw [counted]
  constructor
  · intro progress
    rw [if_pos (noticed.2 progress)]
  · intro still
    rw [if_neg fun notices => ?_]
    obtain ⟨progresses, straight⟩ := noticed.1 notices
    exact still.elim (· progresses) straight

def digressed (flow : Flow) (r : Reading) : Conversation (List Reading) :=
  (scripted [flow] [digresses, r]).after [.start flow.id .empty, .turn "why"]

theorem digressions_after_listing :
    let c := digressed listing continues
    (Dialect.standard .lenient).compileAll [listing] = .ok c.engine.registry.current.graphs ∧
      c.Progresses (.turn "milk") .proceed ∧
      ¬ c.engine.registry.current.Returns c.state.stack .proceed ∧
      (c.next (.turn "milk")).state.stack.place = c.state.stack.place ∧
      c.state.digressions = 1 ∧ (c.next (.turn "milk")).state.digressions = 0 := by
  intro c
  have compiled : (Dialect.standard .lenient).compileAll [listing] =
      .ok (Engine.scripted [listing]).registry.current.graphs := rfl
  have filled : .left ⟨"list", 0⟩ "item" ∈ (c.reply (.turn "milk")).trail := by decide
  have straight : ¬ c.engine.registry.current.Returns c.state.stack .proceed := by
    rintro ⟨_, _, _, _, _, _, _, -, -, -, -, same, -⟩
    cases same
  have done : (c.reply (.turn "milk")).result = .ok _ := rfl
  have progresses : c.Progresses (.turn "milk") .proceed := .left filled
  have counted : c.state.digressions = 1 := rfl
  have before : c.state.stack.place = ⟨some 0, some "item", 1⟩ := rfl
  have after : (c.next (.turn "milk")).state.stack.place = ⟨some 0, some "item", 1⟩ := rfl
  have ended : (c.next (.turn "milk")).state.digressions = 0 :=
    (digressions_after (d := .proceed) compiled "script" [digresses, continues]
      [.start "list" .empty, .turn "why"] (.turn "milk") done rfl rfl).1 ⟨progresses, straight⟩
  exact ⟨compiled, progresses, straight, after.trans before.symm, counted, ended⟩

/-- The user says no and is asked again: the question has been answered, but the digression before
it still counts. -/
theorem answer_unnoticed :
    let c := digressed insisting denies
    (Dialect.standard .lenient).compileAll [insisting] = .ok c.engine.registry.current.graphs ∧
      (∃ outcome, (c.reply (.turn "no")).result = .ok outcome ∧
        outcome.decision = some (.answer false)) ∧
      c.Progresses (.turn "no") (.answer false) ∧ (c.next (.turn "no")).state.digressions = 1 := by
  intro c
  have done : (c.reply (.turn "no")).result = .ok _ := rfl
  have answered : .left ⟨"insist", 0⟩ "sure" ∈ (c.reply (.turn "no")).trail := by decide
  exact ⟨rfl, ⟨_, done, rfl⟩, .left answered, rfl⟩

end Conversation

end Colloquy
