import DirectiveIndex.Arguments
import DirectiveIndex.Proofs.Decimals
import DirectiveIndex.Proofs.Outcomes

namespace DirectiveIndex

/-- The name by which a format is chosen. -/
def Format.word : Format → Text
  | ascii => "ascii".toList
  | json => "json".toList
  | yaml => "yaml".toList

/-- The name by which a style is chosen. -/
def OutlineStyle.word : OutlineStyle → Text
  | tree => "tree".toList
  | ascii => "ascii".toList

/-- Whether texts can be listed behind a switch: there are some, and none of them starts with a dash. -/
def CanBeListed (values : List Text) : Prop :=
  values ≠ [] ∧ ∀ value ∈ values, value.head? ≠ some '-'

/-- What is wanted of a run. A part that is absent is left at its default. -/
structure Request where
  paths : List Text
  output : Option Text := none
  format : Option Format := none
  style : Option OutlineStyle := none
  suffixes : Option (List Text) := none
  excluded : Option (List Text) := none
  maxDepth : Option Int := none
  relativeTo : Option Text := none
  hideEmpty : Bool := false
  verbose : Bool := false
  paths_ne_nil : paths ≠ []
  suffixes_listed : ∀ values ∈ suffixes, CanBeListed values
  excluded_listed : ∀ values ∈ excluded, CanBeListed values
  /-- The depth has no more digits than are read. -/
  maxDepth_length : ∀ depth ∈ maxDepth, (Text.ofNat depth.natAbs).length ≤ Text.maxDigits

/-- A switch and its values as arguments: a single value stands behind an equals sign, several ones follow. -/
def Setting.arguments (setting : Setting) : List Text :=
  match setting.switch.arity with
  | .zero => [setting.switch.longName]
  | .one => [setting.switch.longName ++ '=' :: setting.values.headD []]
  | .several => setting.switch.longName :: setting.values

namespace Request

/-- The settings of a request. -/
def settings (request : Request) : Settings where
  paths := request.paths
  output := request.output
  format := request.format.getD .ascii
  style := request.style.getD .tree
  suffixes := request.suffixes
  excluded := request.excluded
  maxDepth := request.maxDepth
  relativeTo := request.relativeTo
  hideEmpty := request.hideEmpty
  verbose := request.verbose

/-- The values that a request has for a switch, if it needs the switch. -/
def values? (request : Request) : Switch → Option (List Text)
  | .help => none
  | .output => request.output.map fun file => [file]
  | .format => request.format.map fun format => [format.word]
  | .style => request.style.map fun style => [style.word]
  | .suffixes => request.suffixes
  | .excluded => request.excluded
  | .maxDepth => request.maxDepth.map fun depth => [Text.ofInt depth]
  | .relativeTo => request.relativeTo.map fun directory => [directory]
  | .hideEmpty => if request.hideEmpty then some [] else none
  | .verbose => if request.verbose then some [] else none

/-- The switches that a request needs, with their values. -/
def groups (request : Request) : List Setting :=
  Switch.all.filterMap fun switch => (request.values? switch).map fun values => ⟨switch, values⟩

/-- A command line that gives the groups of a request in some order, and then the paths. -/
def arguments (request : Request) (groups : List Setting) : List Text :=
  groups.flatMap Setting.arguments ++ Token.separatorText :: request.paths

end Request

/-- Every switch is told by its word. -/
theorem Switch.ofWord?_word (switch : Switch) : ofWord? switch.word = some switch := by
  cases switch <;> rfl

/-- The word of a switch ends before the value that is attached to it. -/
theorem Switch.equals_not_mem_word (switch : Switch) : '=' ∉ switch.word := by
  cases switch <;> decide

/-- No switch has a word with an equals sign. -/
theorem Switch.ofWord?_eq_none {word : Text} (h : '=' ∈ word) : ofWord? word = none := by
  refine List.find?_eq_none.2 fun switch _ heq => switch.equals_not_mem_word ?_
  rwa [beq_iff_eq.1 heq]

/-- A text is cut at the first separator. -/
theorem Text.cutAt_append {separator : Char} {text : Text} (h : separator ∉ text) (rest : Text) :
    cutAt separator (text ++ separator :: rest) = (text, some rest) := by
  have hbefore : ∀ c ∈ text, (c != separator) = true := fun c hc => bne_iff_ne.2 fun heq => h (heq ▸ hc)
  have hdrop : (text ++ separator :: rest).dropWhile (· != separator) = separator :: rest := by
    rw [List.dropWhile_append_of_pos hbefore]
    simp
  have htake : (text ++ separator :: rest).takeWhile (· != separator) = text := by
    rw [List.takeWhile_append_of_pos hbefore]
    simp
  simp only [cutAt, hdrop, htake]

namespace Token

/-- A switch that is written in full is told as itself. -/
theorem ofArgument_longName (switch : Switch) : ofArgument switch.longName = .ok (.long switch none) := by
  rw [Switch.longName, ofArgument, ofLong, Switch.ofWord?_word]

/-- What stands behind the first equals sign is the value, whatever it is. -/
theorem ofArgument_longName_append (switch : Switch) (value : Text) :
    ofArgument (switch.longName ++ '=' :: value) = .ok (.long switch (some value)) := by
  have hnone : Switch.ofWord? (switch.word ++ '=' :: value) = none := Switch.ofWord?_eq_none (by simp)
  have hcut := Text.cutAt_append switch.equals_not_mem_word value
  rw [Switch.longName, List.cons_append, List.cons_append, ofArgument, ofLong, hnone, hcut]
  simp [Switch.ofWord?_word]

/-- What does not begin with a dash is plain. -/
theorem ofArgument_of_head?_ne {argument : Text} (h : argument.head? ≠ some '-') :
    ofArgument argument = .ok (.plain argument) := by
  unfold ofArgument
  split
  · exact absurd rfl h
  · exact absurd rfl h
  · rfl

variable {argument : Text} {arguments : List Text} {token : Token} {tokens : List Token}

theorem ofArguments_cons (hfirst : ofArgument argument = .ok token) (hrest : ofArguments arguments = .ok tokens) :
    ofArguments (argument :: arguments) = .ok (token :: tokens) := by
  have hne : argument ≠ separatorText := by
    rintro rfl
    -- by themselves the two dashes would abbreviate every switch
    have hambiguous : ofArgument separatorText = .error (.ambiguous separatorText Switch.all) := rfl
    cases hfirst.symm.trans hambiguous
  rw [ofArguments, if_neg hne, hfirst, hrest]
  rfl

/-- Texts that do not start with a dash are values. -/
theorem ofArguments_append {values : List Text} (hvalues : ∀ value ∈ values, value.head? ≠ some '-')
    (hrest : ofArguments arguments = .ok tokens) :
    ofArguments (values ++ arguments) = .ok (values.map .plain ++ tokens) := by
  induction values with
  | nil => exact hrest
  | cons value values ih =>
    obtain ⟨hvalue, hvalues⟩ := List.forall_mem_cons.1 hvalues
    exact ofArguments_cons (ofArgument_of_head?_ne hvalue) (ih hvalues)

end Token

namespace Setting

/-- Whether a switch has as many values as it takes, and they can be written as arguments. -/
inductive IsWritable : Setting → Prop where
  | bare {switch : Switch} (harity : switch.arity = .zero) : IsWritable ⟨switch, []⟩
  | single {switch : Switch} (harity : switch.arity = .one) (value : Text) : IsWritable ⟨switch, [value]⟩
  | listed {switch : Switch} (harity : switch.arity = .several) {values : List Text} (hvalues : CanBeListed values) :
    IsWritable ⟨switch, values⟩

/-- What the arguments of a switch are one by one. -/
def tokens (setting : Setting) : List Token :=
  match setting.switch.arity with
  | .zero => [.long setting.switch none]
  | .one => [.long setting.switch (some (setting.values.headD []))]
  | .several => .long setting.switch none :: setting.values.map .plain

/-- A setting is told as its tokens, whatever arguments follow it. -/
theorem ofArguments_append {setting : Setting} (hsetting : setting.IsWritable) {arguments : List Text}
    {tokens : List Token} (hrest : Token.ofArguments arguments = .ok tokens) :
    Token.ofArguments (setting.arguments ++ arguments) = .ok (setting.tokens ++ tokens) := by
  cases hsetting with
  | @bare switch harity =>
    simp only [Setting.arguments, Setting.tokens, harity]
    exact Token.ofArguments_cons (Token.ofArgument_longName switch) hrest
  | @single switch harity value =>
    simp only [Setting.arguments, Setting.tokens, harity]
    exact Token.ofArguments_cons (Token.ofArgument_longName_append switch value) hrest
  | @listed switch harity values hvalues =>
    simp only [Setting.arguments, Setting.tokens, harity]
    exact Token.ofArguments_cons (Token.ofArgument_longName switch) (Token.ofArguments_append hvalues.2 hrest)

end Setting

/-- Plain tokens lead what follows them. -/
theorem leadingValues_append (values : List Text) (tokens : List Token) :
    leadingValues (values.map .plain ++ tokens) = values ++ leadingValues tokens := by
  induction values with
  | nil => rfl
  | cons value values ih => exact congrArg (value :: ·) ih

/-- Plain tokens are one run of values. -/
theorem ValueRun.ofTokens_plain (values : List Text) : ofTokens (values.map .plain) = ⟨values, values, []⟩ := by
  induction values with
  | nil => rfl
  | cons value values ih =>
    rw [List.map_cons, ofTokens]
    simp only [ih]

/-- No values lead the tokens of a setting, since a switch stands first. -/
theorem Setting.leadingValues_tokens (setting : Setting) (tokens : List Token) :
    leadingValues (setting.tokens ++ tokens) = [] := by
  unfold Setting.tokens
  split <;> rfl

namespace ReadingState

variable {settings next : Settings} {setting : Setting}

/-- A group of one setting applies it. -/
theorem addGroup_singleton (h : setting.apply settings = .ok next) (used : Nat) :
    (⟨settings, false, []⟩ : ReadingState).addGroup ⟨[setting], [], used⟩ = .ok ⟨next, false, []⟩ := by
  simp only [addGroup, List.foldlM_cons, List.foldlM_nil, h]
  rfl

/-- A switch is read with the values behind it. -/
theorem read_long {switch : Switch} {tokens : List Token} {used : Nat} (happly : setting.apply settings = .ok next)
    (hgroup : SwitchGroup.ofFollowing switch tokens = .ok ⟨[setting], [], used⟩) :
    (⟨settings, false, []⟩ : ReadingState).read (.long switch none :: tokens) =
      (⟨next, false, []⟩ : ReadingState).read (tokens.drop used) := by
  have hread : (SwitchGroup.ofFollowing switch tokens).mapError ArgumentStop.wrong = .ok ⟨[setting], [], used⟩ :=
    mapError_eq_ok_iff.2 hgroup
  simp only [read, hread, bind, Except.bind, addGroup_singleton happly]

/-- A switch is read with the value that is attached to it. -/
theorem read_long_value {switch : Switch} {value : Text} (happly : setting.apply settings = .ok next)
    (hgroup : SwitchGroup.ofValue switch value = .ok ⟨[setting], [], 0⟩) (tokens : List Token) :
    (⟨settings, false, []⟩ : ReadingState).read (.long switch (some value) :: tokens) =
      (⟨next, false, []⟩ : ReadingState).read tokens := by
  have hread : (SwitchGroup.ofValue switch value).mapError ArgumentStop.wrong = .ok ⟨[setting], [], 0⟩ :=
    mapError_eq_ok_iff.2 hgroup
  simp only [read, hread, bind, Except.bind, addGroup_singleton happly]

/-- A switch that has all its values is applied to the settings, if no other value follows. -/
theorem read_tokens_append (hsetting : setting.IsWritable) (happly : setting.apply settings = .ok next)
    {tokens : List Token} (htokens : leadingValues tokens = []) :
    (⟨settings, false, []⟩ : ReadingState).read (setting.tokens ++ tokens) =
      (⟨next, false, []⟩ : ReadingState).read tokens := by
  cases hsetting with
  | @bare switch harity =>
    have hgroup : SwitchGroup.ofFollowing switch tokens = .ok ⟨[⟨switch, []⟩], [], 0⟩ := by
      simp only [SwitchGroup.ofFollowing, Switch.takeValues, harity]
      rfl
    simp only [Setting.tokens, harity]
    exact read_long happly hgroup
  | @single switch harity value =>
    have hgroup : SwitchGroup.ofValue switch value = .ok ⟨[⟨switch, [value]⟩], [], 0⟩ := by
      simp only [SwitchGroup.ofValue, Switch.takeValue, harity]
      rfl
    simp only [Setting.tokens, harity]
    exact read_long_value happly hgroup tokens
  | @listed switch harity values hvalues =>
    have hleading : leadingValues (values.map .plain ++ tokens) = values := by
      rw [leadingValues_append, htokens, List.append_nil]
    have hgroup : SwitchGroup.ofFollowing switch (values.map .plain ++ tokens) =
        .ok ⟨[⟨switch, values⟩], [], values.length⟩ := by
      obtain ⟨value, others, rfl⟩ := List.exists_cons_of_ne_nil hvalues.1
      simp only [SwitchGroup.ofFollowing, Switch.takeValues, harity, hleading]
      rfl
    have hdrop : (values.map Token.plain ++ tokens).drop values.length = tokens :=
      List.drop_left' (List.length_map _)
    simp only [Setting.tokens, harity]
    rw [List.cons_append, read_long happly hgroup, hdrop]

end ReadingState

namespace Request

variable {request : Request} {switch : Switch} {values : List Text}

/-- The settings of a request of which only some switches have been given yet. -/
def settingsGiven (request : Request) (given : List Switch) : Settings where
  output := if .output ∈ given then request.output else none
  format := if .format ∈ given then request.format.getD .ascii else .ascii
  style := if .style ∈ given then request.style.getD .tree else .tree
  suffixes := if .suffixes ∈ given then request.suffixes else none
  excluded := if .excluded ∈ given then request.excluded else none
  maxDepth := if .maxDepth ∈ given then request.maxDepth else none
  relativeTo := if .relativeTo ∈ given then request.relativeTo else none
  hideEmpty := .hideEmpty ∈ given && request.hideEmpty
  verbose := .verbose ∈ given && request.verbose

/-- A switch with the values of a request can be written. It brings in its part of the request and leaves all others as
they are. -/
theorem apply_of_values? (h : request.values? switch = some values) :
    Setting.IsWritable ⟨switch, values⟩ ∧ ∀ given,
      Setting.apply (request.settingsGiven given) ⟨switch, values⟩ = .ok (request.settingsGiven (switch :: given)) := by
  cases switch with
  | help => cases h
  | output =>
    obtain ⟨file, hfile, rfl⟩ := Option.map_eq_some_iff.1 h
    exact ⟨.single rfl file, fun given => by simp [Setting.apply, settingsGiven, hfile]⟩
  | format =>
    obtain ⟨format, hformat, rfl⟩ := Option.map_eq_some_iff.1 h
    have hchoose : Setting.choose .format Format.names format.word = .ok format := by cases format <;> rfl
    refine ⟨.single rfl format.word, fun given => ?_⟩
    simp [Setting.apply, settingsGiven, hformat, hchoose, bind, Except.bind, pure, Except.pure]
  | style =>
    obtain ⟨style, hstyle, rfl⟩ := Option.map_eq_some_iff.1 h
    have hchoose : Setting.choose .style OutlineStyle.names style.word = .ok style := by cases style <;> rfl
    refine ⟨.single rfl style.word, fun given => ?_⟩
    simp [Setting.apply, settingsGiven, hstyle, hchoose, bind, Except.bind, pure, Except.pure]
  | suffixes =>
    have hsuffixes : request.suffixes = some values := h
    refine ⟨.listed rfl (request.suffixes_listed values hsuffixes), fun given => ?_⟩
    simp [Setting.apply, settingsGiven, hsuffixes]
  | excluded =>
    have hexcluded : request.excluded = some values := h
    refine ⟨.listed rfl (request.excluded_listed values hexcluded), fun given => ?_⟩
    simp [Setting.apply, settingsGiven, hexcluded]
  | maxDepth =>
    obtain ⟨depth, hdepth, rfl⟩ := Option.map_eq_some_iff.1 h
    have hread := Text.readInt?_ofInt (request.maxDepth_length depth hdepth)
    exact ⟨.single rfl (Text.ofInt depth), fun given => by simp [Setting.apply, settingsGiven, hdepth, hread]⟩
  | relativeTo =>
    obtain ⟨directory, hdirectory, rfl⟩ := Option.map_eq_some_iff.1 h
    exact ⟨.single rfl directory, fun given => by simp [Setting.apply, settingsGiven, hdirectory]⟩
  | hideEmpty =>
    obtain ⟨hhide, hvalues⟩ := Option.ite_none_right_eq_some.1 h
    cases hvalues
    exact ⟨.bare rfl, fun given => by simp [Setting.apply, settingsGiven, hhide]⟩
  | verbose =>
    obtain ⟨hverbose, hvalues⟩ := Option.ite_none_right_eq_some.1 h
    cases hvalues
    exact ⟨.bare rfl, fun given => by simp [Setting.apply, settingsGiven, hverbose]⟩

/-- What is there only if it has been asked for is there if it has. -/
theorem ite_isSome {α β : Type} {part : Option α} (asked : β) (default : β) (h : part = none → asked = default) :
    (if part.isSome = true then asked else default) = asked := by
  cases part with
  | none => exact (h rfl).symm
  | some a => rfl

/-- When every switch that a request needs has been given, and no other, only the paths are missing. -/
theorem settingsGiven_eq {given : List Switch} (h : ∀ switch, switch ∈ given ↔ (request.values? switch).isSome = true) :
    { request.settingsGiven given with paths := request.paths } = request.settings := by
  simp only [settingsGiven, h, values?, Option.isSome_map, settings]
  simp (disch := simp +contextual) [ite_isSome]

/-- Reading groups of a request gives the settings of which their switches have been given. -/
theorem read_groups {groups : List Setting}
    (hgroups : ∀ setting ∈ groups, request.values? setting.switch = some setting.values) {tokens : List Token}
    (htokens : leadingValues tokens = []) (given : List Switch) :
    (⟨request.settingsGiven given, false, []⟩ : ReadingState).read (groups.flatMap Setting.tokens ++ tokens) =
      (⟨request.settingsGiven ((groups.map (·.switch)).reverse ++ given), false, []⟩ : ReadingState).read tokens := by
  induction groups generalizing given with
  | nil => rfl
  | cons setting groups ih =>
    obtain ⟨hsetting, hgroups⟩ := List.forall_mem_cons.1 hgroups
    obtain ⟨hwritable, happly⟩ := apply_of_values? hsetting
    have hnext : leadingValues (groups.flatMap Setting.tokens ++ tokens) = [] := by
      cases groups with
      | nil => exact htokens
      | cons next groups =>
        rw [List.flatMap_cons, List.append_assoc]
        exact next.leadingValues_tokens _
    rw [List.flatMap_cons, List.append_assoc, ReadingState.read_tokens_append hwritable (happly given) hnext,
      ih hgroups, List.map_cons, List.reverse_cons, List.append_assoc, List.singleton_append]

/-- The arguments of a request are told as its groups, the separator and its paths. -/
theorem ofArguments_groups {groups : List Setting}
    (hgroups : ∀ setting ∈ groups, request.values? setting.switch = some setting.values) :
    Token.ofArguments (request.arguments groups) =
      .ok (groups.flatMap Setting.tokens ++ .separator :: request.paths.map .plain) := by
  rw [arguments]
  induction groups with
  | nil => rfl
  | cons setting groups ih =>
    obtain ⟨hsetting, hgroups⟩ := List.forall_mem_cons.1 hgroups
    rw [List.flatMap_cons, List.flatMap_cons, List.append_assoc, List.append_assoc]
    exact Setting.ofArguments_append (apply_of_values? hsetting).1 (ih hgroups)

/-- The groups of a request are what it says for each switch. -/
theorem mem_groups_iff {setting : Setting} :
    setting ∈ request.groups ↔ request.values? setting.switch = some setting.values := by
  have hall : ∀ switch, switch ∈ Switch.all := by
    intro switch
    cases switch <;> decide
  constructor
  · intro h
    obtain ⟨switch, -, hsetting⟩ := List.mem_filterMap.1 h
    obtain ⟨values, hvalues, rfl⟩ := Option.map_eq_some_iff.1 hsetting
    exact hvalues
  · intro h
    exact List.mem_filterMap.2 ⟨setting.switch, hall _, Option.map_eq_some_iff.2 ⟨setting.values, h, rfl⟩⟩

/-- The paths behind the two dashes are taken as they are. -/
theorem read_paths (request : Request) (settings : Settings) :
    (⟨settings, false, []⟩ : ReadingState).read (.separator :: request.paths.map .plain) =
      .ok ⟨{ settings with paths := request.paths }, true, []⟩ := by
  simp only [ReadingState.read, ValueRun.ofTokens_plain, ReadingState.addRun, Bool.false_eq_true, if_false,
    request.paths_ne_nil]

/-- The settings of a request are read back from every command line that gives its groups in some order and then its
paths. -/
theorem ofArguments_arguments (request : Request) {groups : List Setting} (h : groups.Perm request.groups) :
    Settings.ofArguments (request.arguments groups) = .ok request.settings := by
  have hgroups : ∀ setting ∈ groups, request.values? setting.switch = some setting.values :=
    fun setting hsetting => mem_groups_iff.1 (h.mem_iff.1 hsetting)
  have hgiven (switch : Switch) :
      switch ∈ (groups.map (·.switch)).reverse ++ [] ↔ (request.values? switch).isSome = true := by
    rw [List.append_nil, List.mem_reverse, List.mem_map, Option.isSome_iff_exists]
    constructor
    · rintro ⟨setting, hsetting, rfl⟩
      exact ⟨setting.values, hgroups setting hsetting⟩
    · rintro ⟨values, hvalues⟩
      exact ⟨⟨switch, values⟩, h.mem_iff.2 (mem_groups_iff.2 hvalues), rfl⟩
  have hread : ReadingState.initial.read (groups.flatMap Setting.tokens ++ .separator :: request.paths.map .plain) =
      .ok ⟨request.settings, true, []⟩ := by
    have hinitial : ReadingState.initial = ⟨request.settingsGiven [], false, []⟩ := rfl
    rw [hinitial, read_groups hgroups rfl, read_paths, settingsGiven_eq hgiven]
  refine bind_eq_ok_iff.2 ⟨_, mapError_eq_ok_iff.2 (ofArguments_groups hgroups), ?_⟩
  exact bind_eq_ok_iff.2 ⟨_, hread, rfl⟩

/-- A request for paths, texts and suffixes that look like something else. -/
def twistedRequest : Request where
  paths := ["--".toList, "-v".toList, []]
  output := some "--format=yaml".toList
  format := some .json
  suffixes := some [[], "=x y".toList]
  maxDepth := some (-7)
  relativeTo := some []
  hideEmpty := true
  paths_ne_nil := by decide
  suffixes_listed := by
    rintro values ⟨⟩
    exact ⟨by decide, by decide⟩
  excluded_listed := by rintro values ⟨⟩
  maxDepth_length := by
    rintro depth ⟨⟩
    decide

theorem ofArguments_arguments_twisted :
    Settings.ofArguments
        (["--hide-empty", "--output=--format=yaml", "--max-depth=-7", "--format=json", "--relative-to=", "--include-ext", "",
          "=x y", "--", "--", "-v", ""].map String.toList) =
      .ok { paths := ["--".toList, "-v".toList, []], output := some "--format=yaml".toList, format := .json,
            suffixes := some [[], "=x y".toList], maxDepth := some (-7), relativeTo := some [], hideEmpty := true } := by
  have hperm : [⟨.hideEmpty, []⟩, ⟨.output, ["--format=yaml".toList]⟩, ⟨.maxDepth, ["-7".toList]⟩,
      ⟨.format, ["json".toList]⟩, ⟨.relativeTo, [[]]⟩, ⟨.suffixes, [[], "=x y".toList]⟩].Perm twistedRequest.groups := by
    decide
  exact ofArguments_arguments twistedRequest hperm

end Request

end DirectiveIndex
