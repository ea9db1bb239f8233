import Colloquy.Graph.Basic

/-! Graphs as text: a line for the flow, one for its entry, and one or more for each step. -/

set_option autoImplicit false

namespace Colloquy.Graph

def Guard.display : Guard → String
  | .always => "always"
  | .when p => "when " ++ p.source
  | .unless p => "unless " ++ p.source
  | .affirmed => "affirmed"
  | .denied => "denied"
  | .otherwise => "otherwise"

def Activity.detail : Activity → String
  | .collect slot .. => " " ++ slot
  | .action name => " " ++ name
  | .confirm (some slot) _ => " " ++ slot
  | .loop _ body => " do [" ++ String.intercalate ", " body ++ "]"
  | .call flow | .link flow => " " ++ flow
  | .say template => " " ++ template
  | .branch | .confirm none _ => ""

def Node.title (node : Node) : String :=
  "  " ++ node.name ++ " [" ++ node.activity.type.tag ++ node.activity.detail ++ "]"

/-- The lines of a step: a single edge without condition stands on the first. -/
def nodeLines (g : Graph) (node : Node) : List String :=
  match node.edges with
  | [⟨.always, target⟩] => [node.title ++ " -> " ++ g.targetName target]
  | edges =>
    node.title :: edges.map fun edge =>
      "    " ++ edge.guard.display ++ " -> " ++ g.targetName edge.target

def lines (g : Graph) : List String :=
  let head := if g.description = "" then "flow " ++ g.flow
    else "flow " ++ g.flow ++ ": " ++ g.description
  head :: ("  START -> " ++ g.targetName g.entry) :: g.nodes.flatMap g.nodeLines

def display (g : Graph) : String :=
  String.join (g.lines.map (· ++ "\n"))

end Colloquy.Graph
