import MessagePlan.Handle
import MessagePlan.Rule.Error
import MessagePlan.Rule.Pattern

/-!
# The Catalog of Rules

A rule says how the message out of a terminal is computed, for nodes of one kind and
terminals of one role, when what arrives at the other terminals fits its patterns. Of all
rules that fit, the most specific one is taken: the one whose patterns the others contain.

Two rules that overlap without one containing the other would leave that choice open where
they overlap. A catalog is therefore built from a list of rules only if, for every such
pair, some rule has exactly what they share as its patterns. Then the rules that fit a
signature have a least one among them.

All rules are looked through for those of a kind and a role. A table of their handles by kind
and role would find the same ones in the same order, and is left out.

## Main definitions

* `Fallback`, `Rule`: What a rule is.
* `Registry.register`: A list of rules grown by one.
* `Registry.conflict?`: Two rules that would leave a choice open.
* `Catalog`, `Registry.build`: A list of rules without such a pair.
* `Catalog.resolve`: The most specific rule that fits.

## Theorems

* `build_eq_ok`: A catalog has the rules of its registry.
* `mem_candidates`: The candidates are the rules for a task that fit.
-/

namespace MessagePlan

/-- Where a node has the parameter `param`, the rule is given it; where it has not, what
    arrives at the terminal with the role `requiredRole` is needed, even if that terminal is
    the one computed. -/
structure Fallback where
  param : String
  requiredRole : String
deriving DecidableEq, Inhabited, Repr

/-- A rule for the message out of a terminal. -/
structure Rule where
  name : String
  kind : String
  role : String
  inbounds : List Pattern
  produces : Family
  fallback : Option Fallback
deriving DecidableEq, Inhabited, Repr

namespace Rule

/-- Whether a rule is for nodes of a kind and terminals of a role. -/
def isFor (r : Rule) (kind role : String) : Bool := r.kind == kind && r.role == role

/-- Whether two rules are for the same terminals. -/
def sameTask (r s : Rule) : Bool := r.isFor s.kind s.role

/-- Whether a rule fits what arrives. -/
def fits (r : Rule) (signature : Signature) : Bool := acceptsAll r.inbounds signature

/-- Whether a rule fits wherever another does. -/
def covers (r s : Rule) : Bool := containsAll r.inbounds s.inbounds

/-- What two rules both fit, if there is anything. -/
def overlap? (r s : Rule) : Option (List Pattern) := meetAll? r.inbounds s.inbounds

end Rule

/-- Rules in the order in which they were registered. -/
structure Registry where
  rules : Array Rule
deriving DecidableEq, Inhabited

namespace Registry

/-- The registry without rules. -/
def empty : Registry := ⟨#[]⟩

/-- The registry grown by a rule, and the handle of the rule. -/
def register (reg : Registry) (r : Rule) : Except RuleError (RuleId × Registry) :=
  if r.kind.isEmpty || r.role.isEmpty then
    .error (.invalid r.name "kind and outbound role must be non-empty")
  else if reg.rules.any fun s => s.sameTask r && s.inbounds == r.inbounds then
    .error (.duplicate r.name)
  else .ok (⟨reg.rules.size⟩, ⟨reg.rules.push r⟩)

/-- The registry grown by some rules. -/
def registerAll (reg : Registry) : List Rule → Except RuleError Registry
  | [] => .ok reg
  | r :: rs => do
    let (_, reg) ← reg.register r
    reg.registerAll rs

/-- Whether two rules leave a choice open that no rule of a list closes. -/
def conflicts (rules : List Rule) (r s : Rule) : Bool :=
  r.sameTask s && !r.covers s && !s.covers r &&
    match r.overlap? s with
    | none => false
    | some shared => !rules.any fun t => t.sameTask r && t.inbounds == shared

/-- The first rule of a list that leaves a choice open with a later one. -/
def firstConflict (rules : List Rule) : List Rule → Option (Rule × Rule)
  | [] => none
  | r :: rs =>
    match rs.find? (conflicts rules r) with
    | some s => some (r, s)
    | none => firstConflict rules rs

/-- Two registered rules that leave a choice open. -/
def conflict? (reg : Registry) : Option (Rule × Rule) :=
  firstConflict reg.rules.toList reg.rules.toList

end Registry

/-- A list of rules among which the choice is never open. -/
structure Catalog where
  rules : Array Rule
deriving DecidableEq, Inhabited

/-- The catalog of the registered rules, if they leave no choice open. -/
def Registry.build (reg : Registry) : Except RuleError Catalog :=
  match reg.conflict? with
  | some (r, s) => .error (.ambiguous r.kind r.role [r.name, s.name])
  | none => .ok ⟨reg.rules⟩

namespace Catalog

/-- The catalog without rules. -/
def empty : Catalog := ⟨#[]⟩

/-- The rule that a handle names. -/
def rule? (c : Catalog) (id : RuleId) : Option Rule := c.rules[id.index]?

/-- The rules for a kind and a role that fit what arrives, with their handles. -/
def candidates (c : Catalog) (kind role : String) (signature : Signature) :
    List (Rule × RuleId) :=
  (c.rules.toList.zipIdx.map fun entry => (entry.1, RuleId.mk entry.2)).filter fun entry =>
    entry.1.isFor kind role && entry.1.fits signature

/-- The rules of a list that cover no other rule of it. -/
def mostSpecific (rules : List (Rule × RuleId)) : List (Rule × RuleId) :=
  rules.filter fun c => !rules.any fun d => d.2 != c.2 && c.1.covers d.1

/-- The most specific rule for a kind and a role that fits what arrives. -/
def resolve (c : Catalog) (kind role : String) (signature : Signature) :
    Except RuleError (Rule × RuleId) :=
  match mostSpecific (c.candidates kind role signature) with
  | [found] => .ok found
  | [] => .error (.noneApplies kind role signature.text)
  | many => .error (.ambiguous kind role (many.map fun m => m.1.name))

/-- The candidates are the rules for a kind and a role that fit. -/
theorem mem_candidates {c : Catalog} {kind role : String} {s : Signature} {r : Rule}
    {id : RuleId} : (r, id) ∈ c.candidates kind role s ↔
      c.rule? id = some r ∧ r.isFor kind role = true ∧ r.fits s = true := by
  simp only [candidates, List.mem_filter, List.mem_map, Bool.and_eq_true, rule?]
  constructor
  · rintro ⟨⟨⟨r', i⟩, hm, he⟩, hf⟩
    obtain ⟨rfl, rfl⟩ := Prod.mk.inj he
    have := List.mem_zipIdx_iff_getElem?.1 hm
    exact ⟨by simpa using this, hf⟩
  · rintro ⟨hr, hf⟩
    exact ⟨⟨(r, id.index), List.mem_zipIdx_iff_getElem?.2 (by simpa using hr), rfl⟩, hf⟩

end Catalog

/-- A catalog has the rules of its registry, and these leave no choice open. -/
theorem Registry.build_eq_ok {reg : Registry} {c : Catalog} (h : reg.build = .ok c) :
    c.rules = reg.rules ∧ reg.conflict? = none := by
  unfold Registry.build at h
  split at h
  · exact nomatch h
  · rename_i hc
    obtain rfl := Except.ok.inj h
    exact ⟨rfl, hc⟩

end MessagePlan
