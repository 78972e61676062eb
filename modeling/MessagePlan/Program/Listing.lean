import MessagePlan.Program.Basic

/-!
# Listings of Programs

A program as an indented listing: a block for each step, with the terminal, the rule and the
family of the message in its first line and a line for each argument below it. Arguments
that are absent have no line.

## Main definitions

* `argumentText`: Where an input comes from.
* `argumentLines`: The arguments of a step, under the roles of the terminals.
* `branches`: Lines drawn as branches.
* `Program.listing`: The listing of a program.
-/

namespace MessagePlan

variable {ε : Type}

/-- Where an input of a rule comes from. -/
def argumentText (g : Graph) (program : Program) : Argument → Except (Failure ε) String
  | .absent => return "-"
  | .literal value => return value.text
  | .step i =>
    match program.steps[i]? with
    | some source => do
      return "#" ++ Nat.repr i ++ " (" ++ (← g.label source.terminal) ++ ")"
    | none => return "#" ++ Nat.repr i ++ " (?)"
  | .stored p => do return "stored " ++ (← g.label p)
  | .marginal e => do return "marginal " ++ (← g.edge e).name
  | .param name value => return name ++ ": " ++ value.text

/-- The arguments of a step from one place on, each under the role of the terminal in its place;
    behind the last terminal there are only parameters. -/
def argumentLines (g : Graph) (program : Program) :
    List TerminalId → List Argument → Except (Failure ε) (List String)
  | _, [] => return []
  | terminals, .absent :: rest => argumentLines g program terminals.tail rest
  | terminals, argument :: rest => do
    let name ← match terminals with
      | p :: _ => do pure (← g.terminal p).role
      | [] => pure "param"
    let line := name ++ " = " ++ (← argumentText g program argument)
    return line :: (← argumentLines g program terminals.tail rest)

/-- Some lines drawn as branches, the last one as a corner. -/
def branches : List String → List String
  | [] => []
  | [line] => ["   `-- " ++ line]
  | line :: rest => ("   |-- " ++ line) :: branches rest

/-- A step and the branches below it, as lines. -/
def stepLines (g : Graph) (c : Catalog) (program : Program) (place : Nat) (s : Step) :
    Except (Failure ε) (List String) := do
  let rule ← handled (c.rule? s.rule)
  let heading := "[" ++ Nat.repr place ++ "] " ++ (← g.label s.terminal) ++ " <- " ++ rule.name
    ++ " : " ++ s.produces.name
  let terminals := (← g.ownerOf s.terminal).terminals
  return heading :: branches (← argumentLines g program terminals s.arguments)

/-- The first two lines of a listing. -/
def headingLines (program : Program) : List String :=
  let scope := match program.region with
    | some r => "subgraph " ++ Nat.repr r.index
    | none => "whole graph"
  ["PROGRAM (" ++ scope ++ ", " ++ Nat.repr program.steps.size ++ " entries):",
    String.ofList (List.replicate 50 '-')]

/-- The listing of a program, each line with an end. -/
def Program.listing (program : Program) (g : Graph) (c : Catalog) :
    Except (Failure ε) String := do
  let blocks ← program.steps.toList.zipIdx.mapM fun entry =>
    stepLines g c program entry.2 entry.1
  return String.join ((headingLines program ++ blocks.flatten).map (· ++ "\n"))

end MessagePlan
