import DirectiveIndex.Arguments
import DirectiveIndex.Proofs.Outcomes

namespace DirectiveIndex

/-- What stands behind the letter or the word of a switch. -/
def Tail.text : Tail → Text
  | nothing => []
  | value text => text
  | bundle first rest => first :: rest

namespace Token

variable {argument : Text} {token : Token} {tokens : List Token}

/-- The part of an argument that can become a value. -/
def text : Token → Text
  | plain text | unknown text => text
  | short _ tail => tail.text
  | long _ value? => value?.getD []
  | separator => []

/-- The tail of short switches is an end of their argument. -/
theorem text_tailOf (rest : Text) : (tailOf rest).text <:+ rest := by
  unfold tailOf
  split
  · exact List.suffix_refl _
  · exact List.suffix_cons _ _
  · exact List.suffix_refl _

/-- What is unknown is an end of its argument. -/
theorem text_ofUnknown (argument : Text) : (ofUnknown argument).text <:+ argument := by
  unfold ofUnknown
  split
  · exact List.suffix_refl _
  · exact List.suffix_refl _

/-- What stands behind the first occurrence of a character stands at the end. -/
theorem cutAt_suffix (separator : Char) (text : Text) : (Text.cutAt separator text).2.getD [] <:+ text := by
  have hrest : text.dropWhile (· != separator) <:+ text := List.dropWhile_suffix _
  unfold Text.cutAt
  split
  · exact List.nil_suffix
  · rename_i hdrop
    rw [hdrop] at hrest
    exact (List.suffix_cons _ _).trans hrest

/-- The text of a long switch is an end of its argument. -/
theorem text_ofLong {body : Text} (hbody : body <:+ argument) (h : ofLong argument body = .ok token) :
    token.text <:+ argument := by
  have hvalue := (cutAt_suffix '=' body).trans hbody
  unfold ofLong at h
  split at h
  · cases h
    exact List.nil_suffix
  · dsimp only at h
    split at h
    · cases h
      exact hvalue
    · split at h
      · cases h
        exact text_ofUnknown argument
      · cases h
        exact hvalue
      · cases h

/-- The text of a token is an end of its argument. -/
theorem text_ofArgument (h : ofArgument argument = .ok token) : token.text <:+ argument := by
  unfold ofArgument at h
  split at h
  · exact text_ofLong ((List.suffix_cons _ _).trans (List.suffix_cons _ _)) h
  · split at h
    · cases h
      exact (text_tailOf _).trans ((List.suffix_cons _ _).trans (List.suffix_cons _ _))
    · cases h
      exact text_ofUnknown _
  · cases h
    exact List.suffix_refl _

/-- The texts of tokens are ends of the arguments. -/
theorem text_ofArguments {arguments : List Text} (h : ofArguments arguments = .ok tokens) :
    ∀ token ∈ tokens, ∃ argument ∈ arguments, token.text <:+ argument := by
  induction arguments generalizing tokens with
  | nil =>
    cases h
    exact nofun
  | cons argument arguments ih =>
    rw [ofArguments] at h
    intro token htoken
    split at h
    · cases h
      rcases List.mem_cons.1 htoken with rfl | hplain
      · exact ⟨argument, List.mem_cons_self, List.nil_suffix⟩
      · obtain ⟨value, hvalue, rfl⟩ := List.mem_map.1 hplain
        exact ⟨value, List.mem_cons_of_mem _ hvalue, List.suffix_refl _⟩
    · obtain ⟨first, hfirst, h⟩ := bind_eq_ok_iff.1 h
      obtain ⟨others, hothers, h⟩ := bind_eq_ok_iff.1 h
      cases h
      rcases List.mem_cons.1 htoken with rfl | hother
      · exact ⟨argument, List.mem_cons_self, text_ofArgument hfirst⟩
      · obtain ⟨given, hgiven, hsuffix⟩ := ih hothers token hother
        exact ⟨given, List.mem_cons_of_mem _ hgiven, hsuffix⟩

end Token

/-- A leading value is a plain token. -/
theorem mem_of_mem_leadingValues {tokens : List Token} {value : Text} (h : value ∈ leadingValues tokens) :
    .plain value ∈ tokens := by
  fun_induction leadingValues tokens with
  | case1 text tokens ih =>
    rcases List.mem_cons.1 h with rfl | hmem
    · exact List.mem_cons_self
    · exact List.mem_cons_of_mem _ (ih hmem)
  | case2 => cases h

/-- A switch takes values from the arguments behind it. -/
theorem Switch.mem_of_takeValues {switch : Switch} {tokens : List Token} {setting : Setting}
    (h : switch.takeValues tokens = .ok setting) : ∀ value ∈ setting.values, .plain value ∈ tokens := by
  intro value hvalue
  unfold takeValues at h
  split at h
  · cases h
    cases hvalue
  · split at h
    · cases h
    · rename_i hleading
      cases h
      rw [List.mem_singleton.1 hvalue]
      exact mem_of_mem_leadingValues (hleading ▸ List.mem_cons_self)
  · split at h
    · cases h
    · cases h
      exact mem_of_mem_leadingValues hvalue

namespace SwitchGroup

variable {switch : Switch} {tokens : List Token} {group : SwitchGroup}

/-- The values of a switch are plain tokens behind it. -/
theorem mem_of_ofFollowing (h : ofFollowing switch tokens = .ok group) :
    ∀ setting ∈ group.settings, ∀ value ∈ setting.values, .plain value ∈ tokens := by
  obtain ⟨taken, htaken, h⟩ := bind_eq_ok_iff.1 h
  cases h
  intro setting hsetting
  rw [List.mem_singleton.1 hsetting]
  exact Switch.mem_of_takeValues htaken

/-- The value that is attached to a switch is the only one it gets. -/
theorem eq_of_ofValue {given : Text} (h : ofValue switch given = .ok group) :
    ∀ setting ∈ group.settings, ∀ value ∈ setting.values, value = given := by
  obtain ⟨taken, htaken, h⟩ := bind_eq_ok_iff.1 h
  cases h
  intro setting hsetting value hvalue
  rw [List.mem_singleton.1 hsetting] at hvalue
  unfold Switch.takeValue at htaken
  split at htaken
  · cases htaken
  · cases htaken
    exact List.mem_singleton.1 hvalue

/-- The values of some switches stand behind a letter in the same argument, or they are arguments behind it. -/
theorem suffix_or_mem_of_ofLetters {tail : Tail} (h : ofLetters switch tokens tail = .ok group) :
    ∀ setting ∈ group.settings, ∀ value ∈ setting.values, value <:+ tail.text ∨ .plain value ∈ tokens := by
  fun_induction ofLetters switch tokens tail generalizing group with
  | case1 switch => exact fun setting hsetting value hvalue => .inr (mem_of_ofFollowing h setting hsetting value hvalue)
  | case2 switch given =>
    intro setting hsetting value hvalue
    rw [eq_of_ofValue h setting hsetting value hvalue]
    exact .inl (List.suffix_refl _)
  | case3 switch first rest _ =>
    intro setting hsetting value hvalue
    rw [eq_of_ofValue h setting hsetting value hvalue]
    exact .inl (List.suffix_refl _)
  | case4 switch first rest _ _ =>
    cases h
    intro setting hsetting value hvalue
    rw [List.mem_singleton.1 hsetting] at hvalue
    cases hvalue
  | case5 switch first rest _ next _ ih =>
    obtain ⟨others, hothers, h⟩ := bind_eq_ok_iff.1 h
    cases h
    intro setting hsetting value hvalue
    rcases List.mem_cons.1 hsetting with rfl | hother
    · cases hvalue
    · refine (ih hothers setting hother value hvalue).imp_left fun hsuffix => ?_
      exact (hsuffix.trans (Token.text_tailOf rest)).trans (List.suffix_cons _ _)

end SwitchGroup

/-- A run of values is made of the arguments at its beginning. -/
theorem ValueRun.mem_of_ofTokens (tokens : List Token) :
    (∀ value ∈ (ofTokens tokens).values, .plain value ∈ tokens) ∧ (ofTokens tokens).after <:+ tokens := by
  fun_induction ofTokens tokens with
  | case1 text tokens run ih =>
    refine ⟨fun value hvalue => ?_, ih.2.trans (List.suffix_cons _ _)⟩
    rcases List.mem_cons.1 hvalue with rfl | hmem
    · exact List.mem_cons_self
    · exact List.mem_cons_of_mem _ (ih.1 value hmem)
  | case2 tokens run ih =>
    exact ⟨fun value hvalue => List.mem_cons_of_mem _ (ih.1 value hvalue), ih.2.trans (List.suffix_cons _ _)⟩
  | case3 => exact ⟨fun value hvalue => absurd hvalue List.not_mem_nil, List.suffix_refl _⟩

/-- Whether all texts of some settings that name files and directories are admitted. -/
structure Settings.Admits (admits : Text → Prop) (settings : Settings) : Prop where
  paths : ∀ given ∈ settings.paths, admits given
  output : ∀ given ∈ settings.output, admits given
  relativeTo : ∀ given ∈ settings.relativeTo, admits given

section Reading

variable {admits : Text → Prop} {settings next : Settings}

/-- A setting whose values are admitted leaves settings that admit. -/
theorem Setting.admits_apply {setting : Setting} (hempty : admits []) (hsettings : settings.Admits admits)
    (hvalues : ∀ value ∈ setting.values, admits value) (h : Setting.apply settings setting = .ok next) :
    next.Admits admits := by
  obtain ⟨hpaths, houtput, hrelative⟩ := hsettings
  have hvalue : admits (setting.values.headD []) := by
    cases hlist : setting.values with
    | nil => exact hempty
    | cons value values => exact hvalues value (hlist ▸ List.mem_cons_self)
  have hgiven : ∀ given ∈ some (setting.values.headD []), admits given := by
    intro given hmem
    rwa [← Option.mem_some.1 hmem]
  unfold Setting.apply at h
  dsimp only at h
  split at h
  · cases h
  · cases h
    exact ⟨hpaths, hgiven, hrelative⟩
  · obtain ⟨format, -, h⟩ := bind_eq_ok_iff.1 h
    cases h
    exact ⟨hpaths, houtput, hrelative⟩
  · obtain ⟨style, -, h⟩ := bind_eq_ok_iff.1 h
    cases h
    exact ⟨hpaths, houtput, hrelative⟩
  · cases h
    exact ⟨hpaths, houtput, hrelative⟩
  · cases h
    exact ⟨hpaths, houtput, hrelative⟩
  · split at h
    · cases h
      exact ⟨hpaths, houtput, hrelative⟩
    · cases h
  · cases h
    exact ⟨hpaths, houtput, hgiven⟩
  · cases h
    exact ⟨hpaths, houtput, hrelative⟩
  · cases h
    exact ⟨hpaths, houtput, hrelative⟩

/-- Settings whose values are admitted leave settings that admit. -/
theorem Setting.admits_foldlM {list : List Setting} (hempty : admits []) (hsettings : settings.Admits admits)
    (hvalues : ∀ setting ∈ list, ∀ value ∈ setting.values, admits value)
    (h : list.foldlM Setting.apply settings = .ok next) : next.Admits admits := by
  induction list generalizing settings with
  | nil =>
    cases h
    exact hsettings
  | cons setting list ih =>
    rw [List.foldlM_cons] at h
    obtain ⟨middle, hmiddle, h⟩ := bind_eq_ok_iff.1 h
    have hstep := setting.admits_apply hempty hsettings (hvalues setting List.mem_cons_self) hmiddle
    exact ih hstep (fun other hother => hvalues other (List.mem_cons_of_mem _ hother)) h

namespace ReadingState

variable {state last : ReadingState} {tokens : List Token}

/-- A group whose values are admitted leaves settings that admit. -/
theorem admits_addGroup {group : SwitchGroup} (hempty : admits []) (hstate : state.settings.Admits admits)
    (hvalues : ∀ setting ∈ group.settings, ∀ value ∈ setting.values, admits value)
    (h : state.addGroup group = .ok last) : last.settings.Admits admits := by
  obtain ⟨settings, hsettings, h⟩ := bind_eq_ok_iff.1 h
  cases h
  exact Setting.admits_foldlM hempty hstate hvalues hsettings

/-- A run whose values are admitted leaves settings that admit. -/
theorem admits_addRun {run : ValueRun} (hstate : state.settings.Admits admits)
    (hvalues : ∀ value ∈ run.values, admits value) : (state.addRun run).settings.Admits admits := by
  unfold addRun
  split
  · exact hstate
  · split
    · exact hstate
    · exact ⟨hvalues, hstate.output, hstate.relativeTo⟩

/-- Reading arguments keeps to what holds of them and passes to the ends of texts. -/
theorem admits_read (hsuffix : ∀ text ending, ending <:+ text → admits text → admits ending) (hempty : admits [])
    (hstate : state.settings.Admits admits) (htokens : ∀ token ∈ tokens, admits token.text)
    (h : state.read tokens = .ok last) : last.settings.Admits admits := by
  fun_induction read state tokens with
  | case1 state =>
    cases h
    exact hstate
  | case2 state switch tail rest ih =>
    obtain ⟨htail, hrest⟩ := List.forall_mem_cons.1 htokens
    obtain ⟨group, hgroup, h⟩ := bind_eq_ok_iff.1 h
    obtain ⟨next, hnext, h⟩ := bind_eq_ok_iff.1 h
    refine ih group next (admits_addGroup hempty hstate (fun setting hsetting value hvalue => ?_) hnext)
      (fun token htoken => hrest token (List.mem_of_mem_drop htoken)) h
    rcases SwitchGroup.suffix_or_mem_of_ofLetters (mapError_eq_ok_iff.1 hgroup) setting hsetting value hvalue with
      hend | hmem
    · exact hsuffix _ _ hend htail
    · exact hrest _ hmem
  | case3 state switch rest ih =>
    obtain ⟨-, hrest⟩ := List.forall_mem_cons.1 htokens
    obtain ⟨group, hgroup, h⟩ := bind_eq_ok_iff.1 h
    obtain ⟨next, hnext, h⟩ := bind_eq_ok_iff.1 h
    refine ih group next (admits_addGroup hempty hstate (fun setting hsetting value hvalue => ?_) hnext)
      (fun token htoken => hrest token (List.mem_of_mem_drop htoken)) h
    exact hrest _ (SwitchGroup.mem_of_ofFollowing (mapError_eq_ok_iff.1 hgroup) setting hsetting value hvalue)
  | case4 state switch given rest ih =>
    obtain ⟨hgiven, hrest⟩ := List.forall_mem_cons.1 htokens
    obtain ⟨group, hgroup, h⟩ := bind_eq_ok_iff.1 h
    obtain ⟨next, hnext, h⟩ := bind_eq_ok_iff.1 h
    refine ih next (admits_addGroup hempty hstate (fun setting hsetting value hvalue => ?_) hnext) hrest h
    rw [SwitchGroup.eq_of_ofValue (mapError_eq_ok_iff.1 hgroup) setting hsetting value hvalue]
    exact hgiven
  | case5 state text rest ih => exact ih hstate (List.forall_mem_cons.1 htokens).2 h
  | case6 state text rest run ih =>
    obtain ⟨htext, hrest⟩ := List.forall_mem_cons.1 htokens
    obtain ⟨hvalues, hafter⟩ := ValueRun.mem_of_ofTokens rest
    refine ih (admits_addRun hstate fun value hvalue => ?_) (fun token htoken => hrest token (hafter.mem htoken)) h
    rcases List.mem_cons.1 hvalue with rfl | hmem
    · exact htext
    · exact hrest _ (hvalues value hmem)
  | case7 state rest run ih =>
    obtain ⟨-, hrest⟩ := List.forall_mem_cons.1 htokens
    obtain ⟨hvalues, hafter⟩ := ValueRun.mem_of_ofTokens rest
    refine ih (admits_addRun hstate fun value hvalue => ?_) (fun token htoken => hrest token (hafter.mem htoken)) h
    exact hrest _ (hvalues value hvalue)

end ReadingState

/-- What holds of the arguments and passes to the ends of texts holds of the texts of the settings; the path that stands
for none given is the current directory. -/
theorem Settings.admits_ofArguments {arguments : List Text}
    (hsuffix : ∀ text ending, ending <:+ text → admits text → admits ending) (hself : admits Path.selfName)
    (harguments : ∀ argument ∈ arguments, admits argument) (h : Settings.ofArguments arguments = .ok settings) :
    settings.Admits admits := by
  have hempty : admits [] := hsuffix _ _ List.nil_suffix hself
  have hinitial : ReadingState.initial.settings.Admits admits := by
    refine ⟨fun given hgiven => ?_, nofun, nofun⟩
    rwa [List.mem_singleton.1 hgiven]
  obtain ⟨tokens, htokens, h⟩ := bind_eq_ok_iff.1 h
  obtain ⟨state, hstate, h⟩ := bind_eq_ok_iff.1 h
  have hadmitted : state.settings.Admits admits := by
    refine ReadingState.admits_read hsuffix hempty hinitial (fun token htoken => ?_) hstate
    obtain ⟨argument, hargument, hend⟩ := Token.text_ofArguments (mapError_eq_ok_iff.1 htokens) token htoken
    exact hsuffix _ _ hend (harguments argument hargument)
  split at h
  · cases h
    exact hadmitted
  · cases h

end Reading

end DirectiveIndex
