import Stylesheet.Scope.Store

/-!
# Evaluation

Evaluation carries out what a document says about scopes. An assignment sets its variable, a block
definition is bound together with the frame it stands in, and both are gone from the result, as are
silent comments. Rulesets and general directives are scopes of their own. Every other node is kept
whole.
-/

namespace Stylesheet

mutual

/-- Evaluates a node in a frame, to the nodes that remain of it. -/
def Node.evaluate : Node → Env → StateM Store (List Node)
  | ⟨kind, line, children⟩, env =>
    match kind with
    | .definition block => do
      modify fun s =>
        { s.bind env block.name ⟨block.name, block.parameters, children, env⟩ with
          events := s.events ++ [.bound block.name block.parameters.length] }
      return []
    | .assignment name value guarded => do
      modify fun s => if guarded && s.hasVariable env name then s else s.set env name value
      return []
    | .comment _ true => return []
    | .root => do
      let remaining ← Node.evaluateAll children env
      return [⟨kind, line, remaining⟩]
    | .ruleset _ | .atRule _ _ => do
      let scope ← modifyGet fun s => s.newChild env
      let remaining ← Node.evaluateAll children scope
      return [⟨kind, line, remaining⟩]
    | _ => return [⟨kind, line, children⟩]

/-- Evaluates nodes one after the other. -/
def Node.evaluateAll : List Node → Env → StateM Store (List Node)
  | [], _ => return []
  | node :: nodes, env => do
    let first ← node.evaluate env
    let others ← Node.evaluateAll nodes env
    return first ++ others

end

end Stylesheet
