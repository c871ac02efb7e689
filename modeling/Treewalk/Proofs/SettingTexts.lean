import Mathlib.Data.List.DropRight
import Mathlib.Data.List.Forall2
import Mathlib.Data.Nat.Digits.Defs
import Treewalk.Config

/-!
# The grammar of settings

What a text has to look like to give a setting, said apart from the functions that read it.

* **White space** at either end is taken away (`Stripped`). There is only one way to do so, and `Text.trim` finds it
  (`stripped_iff`).
* **A depth** (`IsDepth`) is a number of one or more decimal digits after at most one plus sign. Leading zeros do not
  matter, and the number has to be positive and below 2^64.
* **A strategy** (`IsStrategy`) is one of four words, in which the case of ASCII letters does not matter.

Hence **settings are read by exactly this grammar** (`settings_follow_grammar`), each variable by a rule of its own and
the depth before the strategy.
-/

namespace Treewalk

/-! ## White space -/

section WhiteSpace

/-- The code points with the property White_Space. -/
def whiteSpace : List Nat :=
  [0x9, 0xa, 0xb, 0xc, 0xd, 0x20, 0x85, 0xa0, 0x1680, 0x2000, 0x2001, 0x2002, 0x2003, 0x2004, 0x2005, 0x2006, 0x2007,
   0x2008, 0x2009, 0x200a, 0x2028, 0x2029, 0x202f, 0x205f, 0x3000]

/-- Every character is white space. -/
def IsWhite (cs : List Char) : Prop :=
  ∀ c ∈ cs, c.toNat ∈ whiteSpace

/-- What is left of the characters when white space is taken away at both ends, as far as there is any. -/
def Stripped (cs core : List Char) : Prop :=
  ∃ before after, cs = before ++ core ++ after ∧ IsWhite before ∧ IsWhite after ∧
    (∀ c ∈ core.head?, c.toNat ∉ whiteSpace) ∧ ∀ c ∈ core.getLast?, c.toNat ∉ whiteSpace

variable {cs core : List Char} {s : String}

theorem isBlank_iff (c : Char) : Text.isBlank c = true ↔ c.toNat ∈ whiteSpace := by
  have hcontrols (n : Nat) : 0x9 ≤ n ∧ n ≤ 0xd ↔ n = 0x9 ∨ n = 0xa ∨ n = 0xb ∨ n = 0xc ∨ n = 0xd := by omega
  have hspaces (n : Nat) : 0x2000 ≤ n ∧ n ≤ 0x200a ↔ n = 0x2000 ∨ n = 0x2001 ∨ n = 0x2002 ∨ n = 0x2003 ∨ n = 0x2004 ∨
      n = 0x2005 ∨ n = 0x2006 ∨ n = 0x2007 ∨ n = 0x2008 ∨ n = 0x2009 ∨ n = 0x200a := by omega
  simp only [Text.isBlank, whiteSpace, List.mem_cons, List.not_mem_nil, or_false, Bool.or_eq_true, Bool.and_eq_true,
    decide_eq_true_eq, beq_iff_eq, hcontrols, hspaces, or_assoc]

theorem isAllBlank_iff : Text.isAllBlank s = true ↔ IsWhite s.toList := by
  simp only [Text.isAllBlank, List.all_eq_true, isBlank_iff, IsWhite]

theorem trim_eq (cs : List Char) : Text.trim cs = (cs.dropWhile Text.isBlank).rdropWhile Text.isBlank := rfl

/-- Blanks at either end make no difference to what is left. -/
theorem trim_append {before after : List Char} (hbefore : IsWhite before) (hafter : IsWhite after)
    (hhead : ∀ c ∈ core.head?, c.toNat ∉ whiteSpace) (hlast : ∀ c ∈ core.getLast?, c.toNat ∉ whiteSpace) :
    Text.trim (before ++ core ++ after) = core := by
  have hblank : ∀ {cs : List Char}, IsWhite cs → ∀ c ∈ cs, Text.isBlank c = true :=
    fun h c hc => (isBlank_iff c).2 (h c hc)
  have hright : (core ++ after).rdropWhile Text.isBlank = core := by
    rw [List.rdropWhile, List.reverse_append,
      List.dropWhile_append_of_pos fun c hc => hblank hafter c (List.mem_reverse.1 hc)]
    refine (List.rdropWhile_eq_self_iff).2 fun hne hc => ?_
    exact hlast _ (List.getLast?_eq_some_getLast hne) ((isBlank_iff _).1 hc)
  rw [trim_eq, List.append_assoc, List.dropWhile_append_of_pos (hblank hbefore)]
  cases core with
  | nil =>
    rw [List.nil_append, List.dropWhile_eq_nil_iff.2 (hblank hafter)]
    rfl
  | cons c core =>
    have hc : ¬Text.isBlank c = true := fun hc => hhead c rfl ((isBlank_iff c).1 hc)
    rw [List.cons_append, List.dropWhile_cons_of_neg hc]
    exact hright

/-- **White space is taken away in one way only**, the one that `trim` finds. -/
theorem stripped_iff : Stripped cs core ↔ Text.trim cs = core := by
  constructor
  · rintro ⟨before, after, rfl, hbefore, hafter, hhead, hlast⟩
    exact trim_append hbefore hafter hhead hlast
  · rintro rfl
    refine ⟨cs.takeWhile Text.isBlank, (cs.dropWhile Text.isBlank).rtakeWhile Text.isBlank, ?_, ?_, ?_, ?_, ?_⟩
    · rw [trim_eq, List.append_assoc, List.rdropWhile_append_rtakeWhile, List.takeWhile_append_dropWhile]
    · exact fun c hc => (isBlank_iff c).1 (List.mem_takeWhile_imp hc)
    · exact fun c hc => (isBlank_iff c).1 (List.mem_rtakeWhile_imp hc)
    · -- the first character that is left stood first also before blanks were taken away at the end
      intro c hc hwhite
      obtain ⟨rest, hrest⟩ := List.head?_eq_some_iff.1 hc
      obtain ⟨after, hafter⟩ := List.rdropWhile_prefix Text.isBlank (l := cs.dropWhile Text.isBlank)
      rw [← trim_eq, hrest] at hafter
      have hnot := List.head?_dropWhile_not Text.isBlank cs
      rw [← hafter] at hnot
      exact absurd ((isBlank_iff c).2 hwhite) (by simpa using hnot)
    · intro c hc hwhite
      obtain ⟨hne, rfl⟩ := List.mem_getLast?_eq_getLast hc
      exact List.rdropWhile_last_not _ _ hne ((isBlank_iff _).2 hwhite)

end WhiteSpace

/-! ## Depths -/

section Depths

/-- The characters are one or more digits, which write the number. -/
def Writes (cs : List Char) (n : Nat) : Prop :=
  ∃ digits : List Nat, digits ≠ [] ∧ (∀ d ∈ digits, d < 10) ∧ cs = digits.map Nat.digitChar ∧
    n = Nat.ofDigits 10 digits.reverse

/-- The characters give the depth: digits after at most one plus sign, for a number between 1 and 2^64 - 1. -/
def IsDepth (cs : List Char) (n : Nat) : Prop :=
  ∃ sign digits, cs = sign ++ digits ∧ (sign = [] ∨ sign = ['+']) ∧ Writes digits n ∧ 1 ≤ n ∧ n ≤ 2 ^ 64 - 1

/-- The text gives the depth, with white space around it. -/
def DepthText (s : String) (n : Nat) : Prop :=
  ∃ core, Stripped s.toList core ∧ IsDepth core n

variable {cs : List Char} {s : String} {n : Nat}

theorem isDigit_digitChar {d : Nat} (h : d < 10) : (Nat.digitChar d).isDigit = true := by
  rw [Char.isDigit_iff_toNat, Nat.toNat_digitChar_of_lt_ten h]
  show 48 ≤ 48 + d ∧ 48 + d ≤ 57
  omega

/-- A digit is the character of its value. -/
theorem digitChar_of_isDigit {c : Char} (h : c.isDigit = true) :
    c.toNat - 48 < 10 ∧ Nat.digitChar (c.toNat - 48) = c := by
  have hrange : 48 ≤ c.toNat ∧ c.toNat ≤ 57 := Char.isDigit_iff_toNat.1 h
  have hlt : c.toNat - 48 < 10 := by omega
  refine ⟨hlt, Char.toNat_inj.1 ?_⟩
  rw [Nat.toNat_digitChar_of_lt_ten hlt]
  omega

theorem all_isDigit_iff : cs.all Char.isDigit = true ↔
    ∃ digits : List Nat, (∀ d ∈ digits, d < 10) ∧ cs = digits.map Nat.digitChar := by
  rw [List.all_eq_true]
  constructor
  · intro h
    refine ⟨cs.map fun c => c.toNat - 48, fun d hd => ?_, ?_⟩
    · obtain ⟨c, hc, rfl⟩ := List.mem_map.1 hd
      exact (digitChar_of_isDigit (h c hc)).1
    calc cs = cs.map id := (List.map_id cs).symm
      _ = cs.map (Nat.digitChar ∘ fun c => c.toNat - 48) :=
        List.map_congr_left fun c hc => (digitChar_of_isDigit (h c hc)).2.symm
      _ = (cs.map fun c => c.toNat - 48).map Nat.digitChar := List.map_map.symm
  · rintro ⟨digits, hlt, rfl⟩
    exact List.forall_mem_map.2 fun d hd => isDigit_digitChar (hlt d hd)

/-- Reading digits from left to right gives their value. By induction from the last digit. -/
theorem natOfDigits_map_digitChar {digits : List Nat} (h : ∀ d ∈ digits, d < 10) :
    Text.natOfDigits 0 (digits.map Nat.digitChar) = Nat.ofDigits 10 digits.reverse := by
  induction digits using List.reverseRecOn with
  | nil => rfl
  | append_singleton digits d ih =>
    have hd : d < 10 := h d (by simp)
    have hvalue : (Nat.digitChar d).toNat - '0'.toNat = d := by
      rw [Nat.toNat_digitChar_of_lt_ten hd]
      exact Nat.add_sub_cancel_left 48 d
    have hdigits := ih fun d hd => h d (List.mem_append_left _ hd)
    rw [Text.natOfDigits] at hdigits ⊢
    rw [List.map_append, List.foldl_append, hdigits, List.reverse_append]
    show 10 * Nat.ofDigits 10 digits.reverse + ((Nat.digitChar d).toNat - '0'.toNat) = _
    rw [hvalue, List.reverse_singleton, List.singleton_append, Nat.ofDigits_cons, Nat.add_comm]

theorem natOfDigits?_eq_some_iff : Text.natOfDigits? cs = some n ↔ Writes cs n := by
  unfold Text.natOfDigits?
  constructor
  · intro h
    split at h
    · next hdigits =>
      obtain ⟨digits, hlt, rfl⟩ := all_isDigit_iff.1 hdigits.2
      cases h
      exact ⟨digits, fun hnil => hdigits.1 (by rw [hnil]; rfl), hlt, rfl, natOfDigits_map_digitChar hlt⟩
    · cases h
  · rintro ⟨digits, hne, hlt, rfl, rfl⟩
    rw [if_pos ⟨by simpa using hne, all_isDigit_iff.2 ⟨digits, hlt, rfl⟩⟩, natOfDigits_map_digitChar hlt]

/-- A number begins with a digit, so it cannot be taken for a signed one. -/
theorem Writes.ne_plus {rest : List Char} (h : Writes cs n) : cs ≠ '+' :: rest := by
  rintro rfl
  obtain ⟨digits, -, hlt, heq, -⟩ := h
  have hall := all_isDigit_iff.2 ⟨digits, hlt, heq⟩
  cases List.all_eq_true.1 hall '+' List.mem_cons_self

/-- **A depth is read by exactly its grammar.** -/
theorem parseDepth?_eq_some_iff : parseDepth? s = some n ↔ DepthText s n := by
  simp only [DepthText, stripped_iff, exists_eq_left', parseDepth?, Option.bind_eq_bind, Option.bind_eq_some_iff,
    natOfDigits?_eq_some_iff, Option.ite_none_right_eq_some, Option.some.injEq]
  generalize Text.trim s.toList = core
  constructor
  · rintro ⟨_, hwrites, ⟨hpos, hlt⟩, rfl⟩
    split at hwrites
    · next digits => exact ⟨['+'], digits, rfl, Or.inr rfl, hwrites, hpos, by omega⟩
    · exact ⟨[], core, rfl, Or.inl rfl, hwrites, hpos, by omega⟩
  · rintro ⟨sign, digits, rfl, rfl | rfl, hwrites, hpos, hle⟩
    · refine ⟨n, ?_, ⟨hpos, by omega⟩, rfl⟩
      split
      · next heq => exact absurd heq hwrites.ne_plus
      · exact hwrites
    · exact ⟨n, hwrites, ⟨hpos, by omega⟩, rfl⟩

/-- The greatest limit, with a sign, zeros and wide spaces, and the number after it. -/
example : parseDepth? "\u2003+0018446744073709551615\n" = some (2 ^ 64 - 1) ∧
    parseDepth? "18446744073709551616" = none := by
  decide +kernel

end Depths

/-! ## Strategies -/

section Strategies

/-- Folding the case of ASCII letters takes the first character to the second. -/
def Folds (c d : Char) : Prop :=
  if 'A' ≤ c ∧ c ≤ 'Z' then d.toNat = c.toNat + 32 else d = c

/-- The words for a strategy. -/
def Strategy.spellings : Strategy → List String
  | .byName => ["name", "by-name"]
  | .byNeed => ["need", "by-need"]

/-- The characters give the strategy, in upper or lower case. -/
def IsStrategy (cs : List Char) (strategy : Strategy) : Prop :=
  ∃ word ∈ strategy.spellings, List.Forall₂ Folds cs word.toList

/-- The text gives the strategy, with white space around it. -/
def StrategyText (s : String) (strategy : Strategy) : Prop :=
  ∃ core, Stripped s.toList core ∧ IsStrategy core strategy

variable {cs : List Char} {s : String} {strategy : Strategy}

theorem folds_iff {c d : Char} : Folds c d ↔ c.toLower = d := by
  unfold Folds Char.toLower
  by_cases h : 'A' ≤ c ∧ c ≤ 'Z'
  · have hle : c.val.toNat ≤ 90 := h.2
    have htoNat : (c.val + 32).toNat = c.toNat + 32 := by
      rw [UInt32.toNat_add]
      exact Nat.mod_eq_of_lt (show c.val.toNat + 32 < 2 ^ 32 by omega)
    rw [if_pos h, dif_pos (show c.val ≥ 'A'.val ∧ c.val ≤ 'Z'.val from h), ← Char.toNat_inj, ← htoNat]
    exact eq_comm
  · rw [if_neg h, dif_neg (show ¬(c.val ≥ 'A'.val ∧ c.val ≤ 'Z'.val) from h)]
    exact eq_comm

theorem forall₂_folds_iff {ds : List Char} : List.Forall₂ Folds cs ds ↔ cs.map Char.toLower = ds := by
  have hfolds : Folds = fun c d => c.toLower = d := funext₂ fun c d => propext folds_iff
  rw [← List.forall₂_eq_eq_eq, List.forall₂_map_left_iff, hfolds]

/-- **A strategy is read by exactly its grammar.** -/
theorem Strategy.parse?_eq_some_iff : Strategy.parse? s = some strategy ↔ StrategyText s strategy := by
  simp only [StrategyText, stripped_iff, exists_eq_left', IsStrategy, forall₂_folds_iff, Strategy.parse?]
  generalize (Text.trim s.toList).map Char.toLower = folded
  have hword : (∃ word ∈ strategy.spellings, folded = word.toList) ↔ String.ofList folded ∈ strategy.spellings := by
    constructor
    · rintro ⟨word, hword, rfl⟩
      rwa [String.ofList_toList]
    · exact fun h => ⟨_, h, String.toList_ofList.symm⟩
  rw [hword]
  generalize String.ofList folded = word
  split
  case h_5 hname hbyName hneed hbyNeed => cases strategy <;> simp_all [Strategy.spellings]
  all_goals cases strategy <;> simp [Strategy.spellings]

end Strategies

/-! ## Variables -/

section Variables

variable {α : Type}

/-- What a variable gives: nothing if it is unset or blank, and else what its text says. -/
def Gives (Says : String → α → Prop) : Option String → Option α → Prop
  | none, given => given = none
  | some text, none => IsWhite text.toList
  | some text, some a => ¬IsWhite text.toList ∧ Says text a

/-- The variable is set to the text, which is not blank and says nothing. -/
def Misspelt (Says : String → α → Prop) (var : Option String) (text : String) : Prop :=
  var = some text ∧ ¬IsWhite text.toList ∧ ∀ a, ¬Says text a

variable {Says : String → α → Prop} {read : String → Option α} {wrong : String → ConfigError} {var : Option String}
  {given : Option α} {error : ConfigError} {text : String}

theorem setting_of_white (h : IsWhite text.toList) : Config.setting read wrong (some text) = .ok none :=
  if_pos (isAllBlank_iff.2 h)

theorem setting_of_not_white (h : ¬IsWhite text.toList) : Config.setting read wrong (some text) =
    match read text with
    | some a => .ok (some a)
    | none => .error (wrong text) :=
  if_neg fun hblank => h (isAllBlank_iff.1 hblank)

/-- A variable gives what the grammar of its texts says. -/
theorem setting_eq_ok_iff (hread : ∀ text a, read text = some a ↔ Says text a) :
    Config.setting read wrong var = .ok given ↔ Gives Says var given := by
  cases var with
  | none => simp [Config.setting, Gives, eq_comm]
  | some text =>
    by_cases hwhite : IsWhite text.toList
    · rw [setting_of_white hwhite]
      cases given <;> simp [Gives, hwhite]
    · rw [setting_of_not_white hwhite]
      cases given with
      | none => cases read text <;> simp [Gives, hwhite]
      | some a =>
        rw [Gives, ← hread]
        cases read text <;> simp [hwhite]

/-- A variable is refused for a text outside the grammar only. -/
theorem setting_eq_error_iff (hread : ∀ text a, read text = some a ↔ Says text a) :
    Config.setting read wrong var = .error error ↔ ∃ text, Misspelt Says var text ∧ error = wrong text := by
  cases var with
  | none => simp [Config.setting, Misspelt]
  | some text =>
    simp only [Misspelt, Option.some.injEq, ← hread, ← Option.eq_none_iff_forall_ne_some, and_assoc, exists_eq_left']
    by_cases hwhite : IsWhite text.toList
    · rw [setting_of_white hwhite]
      simp [hwhite]
    · rw [setting_of_not_white hwhite]
      cases read text <;> simp [hwhite, eq_comm]

/-- A variable gives something, unless it is misspelt. -/
theorem exists_gives_iff : (∃ given, Gives Says var given) ↔ ∀ text, ¬Misspelt Says var text := by
  cases var with
  | none => simp [Gives, Misspelt]
  | some text =>
    by_cases hwhite : IsWhite text.toList
    · exact iff_of_true ⟨none, hwhite⟩ (by simp [Misspelt, hwhite])
    · simp [Option.exists, Gives, Misspelt, hwhite]

/-- The variables are refused for the depth, or else for the strategy. -/
theorem ofVariables_eq_error_iff {vars : String → Option String} : Config.ofVariables vars = .error error ↔
    Config.setting parseDepth? .depth (vars Config.depthVariable) = .error error ∨
      (∃ depth, Config.setting parseDepth? .depth (vars Config.depthVariable) = .ok depth) ∧
        Config.setting Strategy.parse? .strategy (vars Config.strategyVariable) = .error error := by
  unfold Config.ofVariables
  cases Config.setting parseDepth? .depth (vars Config.depthVariable) with
  | error => simp [bind, Except.bind]
  | ok depth =>
    cases Config.setting Strategy.parse? .strategy (vars Config.strategyVariable) <;>
      simp [bind, Except.bind, pure, Except.pure]

theorem ofVariables_eq_ok_iff {vars : String → Option String} {config : Config} :
    Config.ofVariables vars = .ok config ↔
      Config.setting parseDepth? .depth (vars Config.depthVariable) = .ok config.maxDepth ∧
        ∃ strategy, Config.setting Strategy.parse? .strategy (vars Config.strategyVariable) = .ok strategy ∧
          config.strategy = strategy.getD .byName := by
  unfold Config.ofVariables
  obtain ⟨maxDepth, strategy⟩ := config
  cases Config.setting parseDepth? .depth (vars Config.depthVariable) with
  | error => simp [bind, Except.bind]
  | ok depth =>
    cases Config.setting Strategy.parse? .strategy (vars Config.strategyVariable) <;>
      simp [bind, Except.bind, pure, Except.pure, eq_comm]

end Variables

/-! ## Settings -/

section Main

/-- **Settings are read by exactly their grammar**, the depth before the strategy. What is unset or blank has its
default. -/
theorem settings_follow_grammar :
    (∀ s n, parseDepth? s = some n ↔ DepthText s n) ∧
    (∀ s strategy, Strategy.parse? s = some strategy ↔ StrategyText s strategy) ∧
    ∀ vars : String → Option String,
      (∀ text, Config.ofVariables vars = .error (.depth text) ↔ Misspelt DepthText (vars "MINICAML_MAX_DEPTH") text) ∧
      (∀ text, Config.ofVariables vars = .error (.strategy text) ↔
        (∀ other, ¬Misspelt DepthText (vars "MINICAML_MAX_DEPTH") other) ∧
          Misspelt StrategyText (vars "MINICAML_LAZY") text) ∧
      ∀ config, Config.ofVariables vars = .ok config ↔
        Gives DepthText (vars "MINICAML_MAX_DEPTH") config.maxDepth ∧
          ∃ strategy, Gives StrategyText (vars "MINICAML_LAZY") strategy ∧
            config.strategy = strategy.getD .byName := by
  have hdepth : ∀ s n, parseDepth? s = some n ↔ DepthText s n := fun _ _ => parseDepth?_eq_some_iff
  have hstrategy : ∀ s strategy, Strategy.parse? s = some strategy ↔ StrategyText s strategy :=
    fun _ _ => Strategy.parse?_eq_some_iff
  refine ⟨hdepth, hstrategy, fun vars => ⟨fun text => ?_, fun text => ?_, fun config => ?_⟩⟩
  · rw [ofVariables_eq_error_iff, setting_eq_error_iff hdepth, setting_eq_error_iff hstrategy]
    simp [Config.depthVariable]
  · rw [ofVariables_eq_error_iff, setting_eq_error_iff hdepth, setting_eq_error_iff hstrategy, ← exists_gives_iff]
    simp [setting_eq_ok_iff hdepth, Config.depthVariable, Config.strategyVariable]
  · rw [ofVariables_eq_ok_iff, setting_eq_ok_iff hdepth]
    simp [setting_eq_ok_iff hstrategy, Config.depthVariable, Config.strategyVariable]

end Main

end Treewalk
