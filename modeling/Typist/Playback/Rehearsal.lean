import Typist.Playback.Journal

/-!
# Rehearsing faults

For trying out what playing does when calls fail, faults are laid down by rules. A rule counts the
calls of one kind, with one key if it names one, and gives its fault to the call of a given number,
or to each of them if it names no number. Rules are tried in order, and a rule that gives its fault
keeps the rules after it from counting the call.
-/

namespace Typist

/-- The kinds of calls that rules tell apart. -/
inductive CallKind
  | press | release | click | type | focus | sleep | controllerPress | controllerRelease | input
  deriving DecidableEq, Repr

/-- The kind of a call. -/
def Call.kind : Call → CallKind
  | press _ => .press
  | release _ => .release
  | click _ => .click
  | type _ => .type
  | focus => .focus
  | sleep _ => .sleep
  | controllerPress _ => .controllerPress
  | controllerRelease _ => .controllerRelease
  | input => .input

/-- The key of a call as rules name it: by a name or typed text, or as the key that types a text. -/
inductive CallKey
  | plain (t : CodePoints)
  | typing (t : CodePoints)
  deriving DecidableEq, Repr

/-- How rules name a key. -/
def Key.callKey : Key → CallKey
  | code c => .plain (.ofText c.name.toList)
  | char t => .typing t

/-- The key of a call, if it has one. -/
def Call.key? : Call → Option CallKey
  | press key => some key.callKey
  | release key => some key.callKey
  | click key => some key.callKey
  | type t => some (.plain (.ofText t))
  | controllerPress stroke => some (.plain stroke.shown)
  | controllerRelease stroke => some (.plain stroke.shown)
  | focus => none
  | sleep _ => none
  | input => none

/-- The fault that a rule gives. -/
inductive RuleFault
  | interrupt
  /-- The key of the call is unsupported. -/
  | unsupported
  | hardware (message : String)
  deriving DecidableEq, Repr

/-- The fault that a rule gives to a call. -/
def RuleFault.fault (call : Call) : RuleFault → Fault
  | interrupt => .interrupt
  | hardware message => .hardware message
  | unsupported =>
    match call with
    | .press key => .unsupported key
    | .release key => .unsupported key
    | .click key => .unsupported key
    | .type t => .unsupported (.char (.ofText t))
    | .controllerPress stroke => .unsupported (.char stroke.shown)
    | .controllerRelease stroke => .unsupported (.char stroke.shown)
    | _ => .unsupported (.char [])

/-- A rule, with the number of calls it has counted. -/
structure Rule where
  kind : CallKind
  key : Option CallKey
  number : Option Nat
  fault : RuleFault
  counted : Nat := 0

/-- Does the rule count the call? -/
def Rule.counts (rule : Rule) (call : Call) : Bool :=
  rule.kind = call.kind && (rule.key.isNone || rule.key = call.key?)

/-- The rules after a call, and the fault they give it. -/
def applyRules (call : Call) : List Rule → List Rule × Option Fault
  | [] => ([], none)
  | rule :: rules =>
    if rule.counts call then
      let rule := { rule with counted := rule.counted + 1 }
      if rule.number.isNone || rule.number = some rule.counted then
        (rule :: rules, some (rule.fault.fault call))
      else
        let (rules, fault) := applyRules call rules
        (rule :: rules, fault)
    else
      let (rules, fault) := applyRules call rules
      (rule :: rules, fault)

/-- The faults that rules lay down. -/
def Faults.ofRules (rules : List Rule) : Faults := fun journal call =>
  if rules.isEmpty then Option.none
  else
    let rules := journal.calls.foldl (fun rules made => (applyRules made.1 rules).1) rules
    (applyRules call rules).2

end Typist
