import Mathlib.Data.List.Induction
import Treewalk.Proofs.ExitContract

/-!
# The words after `run`

What a word is can be told from the word alone, but for a second path, which depends on the words before it
(`Refused`).

* One word is read as its kind says (`WordsRead.of_word`), so **all words that nothing is wrong with are read as a
  whole** (`WordsRead.of_words`): the path, the last limit, and whether `--by-need` is among them.
* The words are read up to **the first one that is refused** (`refused_or_sound`), whose error is reported.
* Nothing is wrong if and only if every word is understood and at most one is a path (`sound_iff`), which does not
  depend on their order.

Together: **what the words ask for** (`run_words_meaning`).
-/

namespace Treewalk.CommandLine

/-! ## Kinds of words -/

section Kinds

/-- A word that does not begin with a dash is a path. -/
def isPath (word : String) : Bool :=
  word.toList.head? != some '-'

/-- The word begins as one that gives a limit. -/
def isDepthWord (word : String) : Bool :=
  depthFlag.isPrefixOf word.toList

/-- The limit that the word gives. -/
def depth? (word : String) : Option Nat :=
  (depthFlag.isPrefixOf? word.toList).bind fun text => parseDepth? (String.ofList text)

/-- The word makes sense by itself. -/
def Understood (word : String) : Prop :=
  word = "--by-need" ∨ (∃ m, IsDepthFlag m word) ∨ isPath word = true

/-- The word is refused after the words before it. -/
inductive Refused (before : List String) (word : String) : UsageError → Prop
  | depth {text : List Char} : word.toList = depthFlag ++ text → parseDepth? (String.ofList text) = none →
      Refused before word (.invalidDepth (String.ofList text))
  | option : isPath word = false → isDepthWord word = false → word ≠ "--by-need" →
      Refused before word (.unknownOption word)
  | path : isPath word = true → (∃ earlier ∈ before, isPath earlier = true) →
      Refused before word (.unexpectedArgument word)

variable {word : String} {text : List Char} {m : Nat}

theorem isPrefixOf?_of_eq (h : word.toList = depthFlag ++ text) : depthFlag.isPrefixOf? word.toList = some text := by
  rw [h]
  rfl

theorem isPath_of_depth (h : word.toList = depthFlag ++ text) : isPath word = false := by
  rw [isPath, h]
  rfl

/-- A word that does not begin as one that gives a limit gives none. -/
theorem isPrefixOf?_eq_none (h : isDepthWord word = false) : depthFlag.isPrefixOf? word.toList = none := by
  rw [isDepthWord, ← List.isSome_isPrefixOf?_eq_isPrefixOf] at h
  exact Option.isSome_eq_false_iff.1 h |> Option.isNone_iff_eq_none.1

theorem isDepthWord_iff : isDepthWord word = true ↔ ∃ text, word.toList = depthFlag ++ text := by
  rw [isDepthWord, List.isPrefixOf_iff_prefix]
  exact ⟨fun ⟨text, h⟩ => ⟨text, h.symm⟩, fun ⟨text, h⟩ => ⟨text, h.symm⟩⟩

theorem isDepthWord_of_isPath (h : isPath word = true) : isDepthWord word = false := by
  rw [Bool.eq_false_iff, ne_eq, isDepthWord_iff]
  rintro ⟨text, htext⟩
  rw [isPath_of_depth htext] at h
  cases h

theorem depth?_of_eq (h : word.toList = depthFlag ++ text) : depth? word = parseDepth? (String.ofList text) := by
  rw [depth?, isPrefixOf?_of_eq h, Option.bind_some]

theorem depth?_eq_none (h : isDepthWord word = false) : depth? word = none := by
  rw [depth?, isPrefixOf?_eq_none h, Option.bind_none]

/-- **Every word is of one kind.** -/
theorem kinds (word : String) : (∃ text, word.toList = depthFlag ++ text) ∨ word = "--by-need" ∨
    (isPath word = false ∧ isDepthWord word = false ∧ word ≠ "--by-need") ∨ isPath word = true := by
  cases hdepth : isDepthWord word with
  | true => exact Or.inl (isDepthWord_iff.1 hdepth)
  | false =>
    cases hpath : isPath word with
    | true => exact Or.inr (Or.inr (Or.inr rfl))
    | false =>
      by_cases hneed : word = "--by-need"
      · exact Or.inr (Or.inl hneed)
      · exact Or.inr (Or.inr (Or.inl ⟨rfl, rfl, hneed⟩))

end Kinds

/-! ## Reading -/

section Reading

/-- What the words ask for as a whole. -/
def WordsRead.of (words : List String) : WordsRead where
  path := (words.filter isPath).head?
  maxDepth := (words.filterMap depth?).getLast?
  byNeed := words.contains "--by-need"

/-- Nothing is wrong with the words. -/
def Sound (words : List String) : Prop :=
  ∀ before word after, words = before ++ word :: after → ∀ error, ¬Refused before word error

variable {read : WordsRead} {before after words : List String} {word : String} {error : UsageError}

namespace WordsRead

theorem word_of_depth {text : List Char} {m : Nat} (h : word.toList = depthFlag ++ text)
    (hm : parseDepth? (String.ofList text) = some m) : read.word word = .ok { read with maxDepth := some m } := by
  simp only [WordsRead.word, isPrefixOf?_of_eq h, hm]

theorem word_of_no_depth {text : List Char} (h : word.toList = depthFlag ++ text)
    (hm : parseDepth? (String.ofList text) = none) :
    read.word word = .error (.invalidDepth (String.ofList text)) := by
  simp only [WordsRead.word, isPrefixOf?_of_eq h, hm]

theorem word_byNeed : read.word "--by-need" = .ok { read with byNeed := true } :=
  rfl

theorem word_of_option (hpath : isPath word = false) (hdepth : isDepthWord word = false) (hneed : word ≠ "--by-need") :
    read.word word = .error (.unknownOption word) := by
  have hhead : word.toList.head? = some '-' := by simpa [isPath] using hpath
  simp only [WordsRead.word, isPrefixOf?_eq_none hdepth, hneed, hhead, if_true, if_false]

/-- A path that has passed the tests for options. -/
theorem word_of_path (hpath : isPath word = true) :
    (read.path = none → read.word word = .ok { read with path := some word }) ∧
      ∀ first, read.path = some first → read.word word = .error (.unexpectedArgument word) := by
  have hhead : word.toList.head? ≠ some '-' := by simpa [isPath] using hpath
  have hneed : word ≠ "--by-need" := by
    rintro rfl
    cases hpath
  have hdepth := isPrefixOf?_eq_none (isDepthWord_of_isPath hpath)
  refine ⟨fun hnone => ?_, fun first hfirst => ?_⟩
  · simp only [WordsRead.word, hdepth, hneed, hhead, if_false, hnone]
  · simp only [WordsRead.word, hdepth, hneed, hhead, if_false, hfirst]

/-- A word that is not refused is read, and then the words have been read together with it. By its kind. -/
theorem of_word (h : ∀ error, ¬Refused before word error) :
    (WordsRead.of before).word word = .ok (.of (before ++ [word])) := by
  simp only [WordsRead.of, List.filter_append, List.filterMap_append, List.contains_append]
  rcases kinds word with ⟨text, htext⟩ | rfl | ⟨hpath, hdepth, hneed⟩ | hpath
  · -- a word that gives a limit
    have hdepth := depth?_of_eq htext
    have hneed : "--by-need" ≠ word := by
      rintro rfl
      exact absurd (isPrefixOf?_of_eq htext) nofun
    cases hparse : parseDepth? (String.ofList text) with
    | none => exact absurd (.depth htext hparse) (h _)
    | some m =>
      rw [word_of_depth htext hparse]
      simp [hparse, isPath_of_depth htext, hdepth, hneed]
  · have hdepth : depth? "--by-need" = none := depth?_eq_none rfl
    have hpath : isPath "--by-need" = false := rfl
    rw [word_byNeed]
    simp [hdepth, hpath]
  · exact absurd (.option hpath hdepth hneed) (h _)
  · -- the first path
    have hdepth : depth? word = none := depth?_eq_none (isDepthWord_of_isPath hpath)
    have hneed : "--by-need" ≠ word := by
      rintro rfl
      cases hpath
    have hnone : before.filter isPath = [] :=
      List.filter_eq_nil_iff.2 fun earlier hmem hearlier => h _ (.path hpath ⟨earlier, hmem, hearlier⟩)
    rw [(word_of_path hpath).1 (by rw [hnone]; rfl), hnone]
    simp [hdepth, hneed, hpath]

/-- A word that is refused is reported. -/
theorem of_word_refused (h : Refused before word error) : (WordsRead.of before).word word = .error error := by
  cases h with
  | depth htext hparse => exact word_of_no_depth htext hparse
  | option hpath hdepth hneed => exact word_of_option hpath hdepth hneed
  | path hpath hearlier =>
    obtain ⟨earlier, hmem, hearlier⟩ := hearlier
    have hne : before.filter isPath ≠ [] := List.ne_nil_of_mem (List.mem_filter.2 ⟨hmem, hearlier⟩)
    exact (word_of_path hpath).2 _ (List.head?_eq_some_head hne)

end WordsRead

theorem sound_append_word : Sound (words ++ [word]) ↔ Sound words ∧ ∀ error, ¬Refused words word error := by
  constructor
  · intro h
    exact ⟨fun before other after heq => h before other (after ++ [word]) (by simp [heq]), h words word [] rfl⟩
  · rintro ⟨hwords, hword⟩ before other after heq
    rcases List.eq_nil_or_concat after with rfl | ⟨after, last, rfl⟩
    · obtain ⟨rfl, hlast⟩ := List.append_inj' heq rfl
      cases hlast
      exact hword
    · rw [List.concat_eq_append, ← List.cons_append, ← List.append_assoc] at heq
      exact hwords before other after (List.append_inj' heq rfl).1

/-- **Words that nothing is wrong with are read as a whole.** By induction from the last word. -/
theorem WordsRead.of_words (h : Sound words) : words.foldlM WordsRead.word {} = .ok (.of words) := by
  induction words using List.reverseRecOn with
  | nil => rfl
  | append_singleton words word ih =>
    obtain ⟨hwords, hword⟩ := sound_append_word.1 h
    rw [List.foldlM_append, ih hwords]
    show WordsRead.word (.of words) word >>= pure = _
    rw [WordsRead.of_word hword]
    rfl

/-- The first word that is refused is reported, whatever comes after it. -/
theorem WordsRead.of_words_refused (hbefore : Sound before) (h : Refused before word error) :
    (before ++ word :: after).foldlM WordsRead.word {} = .error error := by
  rw [List.foldlM_append, WordsRead.of_words hbefore]
  show WordsRead.word (.of before) word >>= _ = _
  rw [WordsRead.of_word_refused h]
  rfl

/-- **Nothing is wrong with the words, or there is a first one that is refused.** -/
theorem refused_or_sound (words : List String) : Sound words ∨
    ∃ before word after error, words = before ++ word :: after ∧ Sound before ∧ Refused before word error := by
  induction words using List.reverseRecOn with
  | nil => exact Or.inl fun before word after heq => absurd heq (by simp)
  | append_singleton words word ih =>
    rcases ih with hwords | ⟨before, other, after, error, rfl, hbefore, hother⟩
    · by_cases hword : ∀ error, ¬Refused words word error
      · exact Or.inl (sound_append_word.2 ⟨hwords, hword⟩)
      · obtain ⟨error, hrefused⟩ := not_forall_not.1 hword
        exact Or.inr ⟨words, word, [], error, rfl, hwords, hrefused⟩
    · exact Or.inr ⟨before, other, after ++ [word], error, by simp, hbefore, hother⟩

end Reading

/-! ## What is asked for -/

section Asked

variable {before after words words' : List String} {word : String} {error : UsageError} {options : RunOptions}

/-- When a word is not refused. -/
theorem not_refused_iff : (∀ error, ¬Refused before word error) ↔
    Understood word ∧ (isPath word = true → before.filter isPath = []) := by
  constructor
  · intro h
    refine ⟨?_, fun hpath => List.filter_eq_nil_iff.2 fun earlier hmem hearlier =>
      h _ (.path hpath ⟨earlier, hmem, hearlier⟩)⟩
    rcases kinds word with ⟨text, htext⟩ | hneed | ⟨hpath, hdepth, hneed⟩ | hpath
    · cases hparse : parseDepth? (String.ofList text) with
      | none => exact absurd (.depth htext hparse) (h _)
      | some m => exact Or.inr (Or.inl ⟨m, text, htext, hparse⟩)
    · exact Or.inl hneed
    · exact absurd (.option hpath hdepth hneed) (h _)
    · exact Or.inr (Or.inr hpath)
  · rintro ⟨hunderstood, hfirst⟩ error hrefused
    cases hrefused with
    | depth htext hparse =>
      rcases hunderstood with rfl | ⟨m, text, htext', hm⟩ | hpath
      · exact absurd (isPrefixOf?_of_eq htext) nofun
      · cases List.append_cancel_left (htext.symm.trans htext')
        rw [hparse] at hm
        cases hm
      · rw [isPath_of_depth htext] at hpath
        cases hpath
    | option hpath hdepth hneed =>
      rcases hunderstood with hneed' | ⟨m, text, htext, hm⟩ | hpath'
      · exact hneed hneed'
      · rw [isDepthWord_iff.2 ⟨text, htext⟩] at hdepth
        cases hdepth
      · rw [hpath] at hpath'
        cases hpath'
    | path hpath hearlier =>
      obtain ⟨earlier, hmem, hearlier⟩ := hearlier
      exact List.filter_eq_nil_iff.1 (hfirst hpath) earlier hmem hearlier

/-- **Nothing is wrong with words that are understood and of which at most one is a path.** Their order plays no
part. -/
theorem sound_iff : Sound words ↔ (∀ word ∈ words, Understood word) ∧ (words.filter isPath).length ≤ 1 := by
  induction words using List.reverseRecOn with
  | nil => simp [Sound]
  | append_singleton words word ih =>
    rw [sound_append_word, ih, not_refused_iff, List.forall_mem_append, List.forall_mem_singleton, List.filter_append,
      List.length_append]
    cases hpath : isPath word with
    | false => simp [hpath, and_right_comm]
    | true =>
      simp only [hpath, List.filter_cons_of_pos, List.filter_nil, List.length_singleton, forall_const,
        ← List.length_eq_zero_iff]
      constructor
      · rintro ⟨⟨hwords, hle⟩, hword, hnone⟩
        exact ⟨⟨hwords, hword⟩, by omega⟩
      · rintro ⟨⟨hwords, hword⟩, hle⟩
        exact ⟨⟨hwords, by omega⟩, hword, by omega⟩

namespace RunOptions

theorem parse_of_sound (h : Sound words) : parse words = match (words.filter isPath).head? with
    | some path => .ok ⟨path, (words.filterMap depth?).getLast?, words.contains "--by-need"⟩
    | none => .error .missingPath := by
  unfold parse
  rw [WordsRead.of_words h]
  rfl

theorem parse_of_refused (hbefore : Sound before) (h : Refused before word error) :
    parse (before ++ word :: after) = .error error := by
  unfold parse
  rw [WordsRead.of_words_refused hbefore h]
  rfl

/-- Options are given for words that nothing is wrong with, and are what these ask for as a whole. -/
theorem parse_eq_ok_iff : parse words = .ok options ↔ (∀ word ∈ words, Understood word) ∧
    words.filter isPath = [options.path] ∧ options.maxDepth = (words.filterMap depth?).getLast? ∧
    options.byNeed = words.contains "--by-need" := by
  rcases refused_or_sound words with h | ⟨before, word, after, error, rfl, hbefore, hword⟩
  · obtain ⟨hunderstood, hle⟩ := sound_iff.1 h
    rw [parse_of_sound h]
    match hpaths : words.filter isPath with
    | [] => exact iff_of_false nofun fun h => by cases h.2.1
    | [path] =>
      constructor
      · intro hparse
        cases hparse
        exact ⟨hunderstood, rfl, rfl, rfl⟩
      · rintro ⟨_, hpath, hdepth, hneed⟩
        obtain ⟨_, _, _⟩ := options
        cases hpath
        cases hdepth
        cases hneed
        rfl
    | _ :: _ :: _ =>
      rw [hpaths] at hle
      exact absurd hle (by simp)
  · rw [parse_of_refused hbefore hword]
    refine iff_of_false nofun fun ⟨hunderstood, hpath, _⟩ => ?_
    have hsound : Sound (before ++ word :: after) := sound_iff.2 ⟨hunderstood, by rw [hpath]; rfl⟩
    exact hsound before word after rfl error hword

/-- The error of words that are not accepted is that of the first one that is refused, or that the path is missing. -/
theorem parse_eq_error_iff : parse words = .error error ↔
    (∃ before word after, words = before ++ word :: after ∧ Sound before ∧ Refused before word error) ∨
      error = .missingPath ∧ Sound words ∧ words.filter isPath = [] := by
  rcases refused_or_sound words with h | ⟨before, word, after, error', rfl, hbefore, hword⟩
  · rw [parse_of_sound h, or_iff_right fun ⟨before, word, after, heq, _, hword⟩ => h before word after heq error hword]
    match words.filter isPath with
    | [] => exact ⟨fun herror => by cases herror; exact ⟨rfl, h, rfl⟩, fun ⟨herror, _⟩ => herror ▸ rfl⟩
    | _ :: _ => exact iff_of_false nofun fun h => by cases h.2.2
  · have hparse : parse (before ++ word :: after) = .error error' := parse_of_refused hbefore hword
    constructor
    · intro herror
      cases hparse.symm.trans herror
      exact Or.inl ⟨before, word, after, rfl, hbefore, hword⟩
    · rintro (⟨before', word', after', heq, hbefore', hword'⟩ | ⟨_, hsound, _⟩)
      · rw [heq]
        exact parse_of_refused hbefore' hword'
      · exact absurd hword (hsound before word after rfl error')

end RunOptions

/-- The limits among the words are those of the words that begin as such. -/
theorem filterMap_depth? (words : List String) :
    words.filterMap depth? = (words.filter isDepthWord).filterMap depth? := by
  rw [List.filterMap_filter]
  refine List.filterMap_congr fun word _ => ?_
  cases h : isDepthWord word with
  | true => rfl
  | false => exact depth?_eq_none h

end Asked

/-! ## The meaning of the words -/

section Main

/-- **What the words after `run` ask for**, in whatever order they stand but for those that give limits, and which of
them is refused first. -/
theorem run_words_meaning (words : List String) :
    ((∃ options, RunOptions.parse words = .ok options) ↔
      (∀ word ∈ words, Understood word) ∧ (words.filter isPath).length = 1) ∧
    (∀ options, RunOptions.parse words = .ok options → words.filter isPath = [options.path] ∧
      (options.byNeed = true ↔ "--by-need" ∈ words) ∧ options.maxDepth = (words.filterMap depth?).getLast?) ∧
    (∀ words' : List String, words.Perm words' → words.filter isDepthWord = words'.filter isDepthWord →
      (RunOptions.parse words).toOption = (RunOptions.parse words').toOption) ∧
    (∀ error, RunOptions.parse words = .error error ↔
      (∃ before word after, words = before ++ word :: after ∧ Sound before ∧ Refused before word error) ∨
        error = .missingPath ∧ Sound words ∧ ∀ word ∈ words, isPath word = false) ∧
    ∀ (options : RunOptions) (base : Config),
      (∀ m, options.maxDepth = some m → (options.config base).maxDepth = some m) ∧
      (options.maxDepth = none → (options.config base).maxDepth = base.maxDepth) ∧
      (options.byNeed = true → (options.config base).strategy = .byNeed) ∧
      (options.byNeed = false → (options.config base).strategy = base.strategy) := by
  refine ⟨?_, fun options h => ?_, fun words' hperm hdepths => ?_, fun error => ?_, fun options base => ?_⟩
  · constructor
    · rintro ⟨options, h⟩
      obtain ⟨hunderstood, hpath, -⟩ := RunOptions.parse_eq_ok_iff.1 h
      exact ⟨hunderstood, by rw [hpath, List.length_singleton]⟩
    · rintro ⟨hunderstood, hone⟩
      obtain ⟨path, hpath⟩ := List.length_eq_one_iff.1 hone
      exact ⟨⟨path, _, _⟩, RunOptions.parse_eq_ok_iff.2 ⟨hunderstood, hpath, rfl, rfl⟩⟩
  · obtain ⟨-, hpath, hdepth, hneed⟩ := RunOptions.parse_eq_ok_iff.1 h
    exact ⟨hpath, by rw [hneed, List.contains_iff_mem], hdepth⟩
  · -- none of the conditions depends on the order, but for the last limit
    refine Option.ext fun options => ?_
    have hok : ∀ words : List String, (RunOptions.parse words).toOption = some options ↔
        RunOptions.parse words = .ok options := fun words => by cases RunOptions.parse words <;> simp [Except.toOption]
    rw [hok, hok, RunOptions.parse_eq_ok_iff, RunOptions.parse_eq_ok_iff, filterMap_depth? words, hdepths,
      ← filterMap_depth?, hperm.contains_eq]
    have hpaths : words.filter isPath = [options.path] ↔ words'.filter isPath = [options.path] := by
      rw [← List.perm_singleton, ← List.perm_singleton, (hperm.filter isPath).congr_left]
    have hunderstood : (∀ word ∈ words, Understood word) ↔ ∀ word ∈ words', Understood word :=
      forall_congr' fun word => by rw [hperm.mem_iff]
    rw [hpaths, hunderstood]
  · simp only [RunOptions.parse_eq_error_iff, List.filter_eq_nil_iff, Bool.not_eq_true]
  · refine ⟨fun m h => ?_, fun h => ?_, fun h => ?_, fun h => ?_⟩
    · rw [RunOptions.config, h, Option.some_or]
    · rw [RunOptions.config, h, Option.none_or]
    · rw [RunOptions.config, h, if_pos rfl]
    · rw [RunOptions.config, h]
      rfl

/-- The second limit holds, and `-` alone is not a path. -/
example : RunOptions.parse ["--max-depth=3", "a", "--max-depth=5"] = .ok ⟨"a", some 5, false⟩ ∧
    RunOptions.parse ["a", "-", "b"] = .error (.unknownOption "-") := by
  decide

end Main

end Treewalk.CommandLine
