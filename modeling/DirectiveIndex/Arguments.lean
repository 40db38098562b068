import DirectiveIndex.Arguments.Token
import DirectiveIndex.Text.Integer

namespace DirectiveIndex

/-- Why a command line gives no settings: it asks for help, or it is wrong. -/
inductive ArgumentStop where
  | help
  | wrong (error : ArgumentError)
deriving DecidableEq, Repr

/-- A switch with the values given to it. -/
structure Setting where
  switch : Switch
  values : List Text
deriving DecidableEq, Repr

namespace Setting

/-- The choice that a value names. -/
def choose {α : Type} (switch : Switch) (choices : List (Text × α)) (value : Text) :
    Except ArgumentStop α :=
  match choices.lookup value with
  | some choice => .ok choice
  | none => .error (.wrong (.invalidChoice switch value (choices.map (·.1))))

/-- Settings changed by a switch. -/
def apply (settings : Settings) (setting : Setting) : Except ArgumentStop Settings :=
  let value := setting.values.headD []
  match setting.switch with
  | .help => .error .help
  | .output => .ok { settings with output := some value }
  | .format => return { settings with format := ← choose .format Format.names value }
  | .style => return { settings with style := ← choose .style OutlineStyle.names value }
  | .suffixes => .ok { settings with suffixes := some setting.values }
  | .excluded => .ok { settings with excluded := some setting.values }
  | .maxDepth =>
    match Text.readInt? value with
    | some depth => .ok { settings with maxDepth := some depth }
    | none => .error (.wrong (.invalidInteger .maxDepth value))
  | .relativeTo => .ok { settings with relativeTo := some value }
  | .hideEmpty => .ok { settings with hideEmpty := true }
  | .verbose => .ok { settings with verbose := true }

end Setting

/-- The texts of the values at the beginning of some arguments. -/
def leadingValues : List Token → List Text
  | .plain text :: tokens => text :: leadingValues tokens
  | _ => []

/-- Gives a switch the values that follow it. -/
def Switch.takeValues (switch : Switch) (tokens : List Token) : Except ArgumentError Setting :=
  match switch.arity with
  | .zero => .ok ⟨switch, []⟩
  | .one =>
    match leadingValues tokens with
    | [] => .error (.missingValue switch)
    | value :: _ => .ok ⟨switch, [value]⟩
  | .several =>
    match leadingValues tokens with
    | [] => .error (.missingValues switch)
    | values => .ok ⟨switch, values⟩

/-- Gives a switch the value that stands in the same argument. -/
def Switch.takeValue (switch : Switch) (value : Text) : Except ArgumentError Setting :=
  if switch.arity = .zero then .error (.unexpectedValue switch value) else .ok ⟨switch, [value]⟩

/-- What an argument with switches amounts to: the switches with their values, the letters that are
left if one of them names no switch, and how many of the following arguments are used up. -/
structure SwitchGroup where
  settings : List Setting
  leftover : List Text
  used : Nat
deriving DecidableEq, Repr

namespace SwitchGroup

/-- One switch, which takes the values that follow it. -/
def ofFollowing (switch : Switch) (tokens : List Token) : Except ArgumentError SwitchGroup := do
  let setting ← switch.takeValues tokens
  return ⟨[setting], [], setting.values.length⟩

/-- One switch with a value in the same argument. -/
def ofValue (switch : Switch) (value : Text) : Except ArgumentError SwitchGroup := do
  return ⟨[← switch.takeValue value], [], 0⟩

/-- The switches that a letter and what stands behind it amount to. Behind a switch that takes no
value stand more letters. -/
def ofLetters (switch : Switch) (tokens : List Token) (tail : Tail) : Except ArgumentError SwitchGroup :=
  match tail with
  | .nothing => ofFollowing switch tokens
  | .value value => ofValue switch value
  | .bundle first rest =>
    if switch.arity ≠ .zero ∨ first = '-' then
      ofValue switch (first :: rest)
    else
      match Switch.ofLetter? first with
      | none => .ok ⟨[⟨switch, []⟩], ['-' :: first :: rest], 0⟩
      | some next => do
        let group ← ofLetters next tokens (Token.tailOf rest)
        return { group with settings := ⟨switch, []⟩ :: group.settings }
termination_by tail.length
decreasing_by
  change (Token.tailOf rest).length < rest.length + 1
  simp

end SwitchGroup

/-- A run of values that belong to no switch: the values, and the arguments as they are given, the
separator among them. -/
structure ValueRun where
  values : List Text
  arguments : List Text
  after : List Token

/-- The run of values at the beginning of some arguments, and what comes after it. -/
def ValueRun.ofTokens : List Token → ValueRun
  | .plain text :: tokens =>
    let run := ofTokens tokens
    ⟨text :: run.values, text :: run.arguments, run.after⟩
  | .separator :: tokens =>
    let run := ofTokens tokens
    ⟨run.values, Token.separatorText :: run.arguments, run.after⟩
  | tokens => ⟨[], [], tokens⟩

theorem ValueRun.length_after_le (tokens : List Token) :
    (ValueRun.ofTokens tokens).after.length ≤ tokens.length := by
  fun_induction ValueRun.ofTokens tokens with
  | case1 text tokens run ih => exact Nat.le_succ_of_le ih
  | case2 tokens run ih => exact Nat.le_succ_of_le ih
  | case3 => exact Nat.le.refl

/-- The state of reading a command line: the settings so far, whether the paths have been named, and
the arguments left over. -/
structure ReadingState where
  settings : Settings
  pathsNamed : Bool
  leftover : List Text

namespace ReadingState

/-- The state before the first argument. -/
def initial : ReadingState :=
  ⟨{}, false, []⟩

/-- Takes in a group of switches. -/
def addGroup (state : ReadingState) (group : SwitchGroup) : Except ArgumentStop ReadingState := do
  let settings ← group.settings.foldlM Setting.apply state.settings
  return { state with settings, leftover := state.leftover ++ group.leftover }

/-- Takes in a run of values: the first one names the paths, unless it is empty. -/
def addRun (state : ReadingState) (run : ValueRun) : ReadingState :=
  if state.pathsNamed then
    { state with leftover := state.leftover ++ run.arguments }
  else if run.values = [] then
    { state with pathsNamed := true }
  else
    { state with settings := { state.settings with paths := run.values }, pathsNamed := true }

/-- Reads arguments from left to right. A switch takes the values behind it that it needs, and the first other run of
values names the paths. -/
def read (state : ReadingState) (tokens : List Token) : Except ArgumentStop ReadingState :=
  match tokens with
  | [] => .ok state
  | .short switch tail :: rest => do
    let group ← (SwitchGroup.ofLetters switch rest tail).mapError .wrong
    let state ← state.addGroup group
    read state (rest.drop group.used)
  | .long switch none :: rest => do
    let group ← (SwitchGroup.ofFollowing switch rest).mapError .wrong
    let state ← state.addGroup group
    read state (rest.drop group.used)
  | .long switch (some value) :: rest => do
    let group ← (SwitchGroup.ofValue switch value).mapError .wrong
    let state ← state.addGroup group
    read state rest
  | .unknown text :: rest => read { state with leftover := state.leftover ++ [text] } rest
  | .plain text :: rest =>
    let run := ValueRun.ofTokens rest
    read (state.addRun ⟨text :: run.values, text :: run.arguments, run.after⟩) run.after
  | .separator :: rest =>
    let run := ValueRun.ofTokens rest
    read (state.addRun ⟨run.values, Token.separatorText :: run.arguments, run.after⟩) run.after
termination_by tokens.length
decreasing_by
  · simp only [List.length_cons, List.length_drop]
    omega
  · simp only [List.length_cons, List.length_drop]
    omega
  · simp
  · simp
  · have := ValueRun.length_after_le rest
    simp only [List.length_cons]
    omega
  · have := ValueRun.length_after_le rest
    simp only [List.length_cons]
    omega

end ReadingState

/-- The settings that the arguments of a command line ask for. What is left over in the end is an error, but only if
nothing else is wrong before. -/
def Settings.ofArguments (arguments : List Text) : Except ArgumentStop Settings := do
  let tokens ← (Token.ofArguments arguments).mapError .wrong
  let state ← ReadingState.initial.read tokens
  if state.leftover = [] then
    return state.settings
  else
    throw (.wrong (.unrecognized state.leftover))

end DirectiveIndex
