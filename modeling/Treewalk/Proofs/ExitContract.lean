import Mathlib.Data.List.Basic
import Treewalk.CommandLine
import Treewalk.Proofs.DepthLimit

/-!
# How the command `run` ends

What can be wrong with a run is a `Fault`: the words, a setting, reading the file, decoding it, or its evaluation. Each
is said of its own subject, whatever else is wrong (`Fault.Present`), so several may be present at once.

* One run asks for one evaluation at most (`Asks`), and has one answer if that ends (`answers_of_results`).
* Faults of one rank are the same (`Fault.Present.unique`), and **the first one is reported** (`exists_answer`).
* Only a limit that was given can be exhausted (`Results.limit_given`): a flag among the words gives it, or a variable.
  No other failure is fatal.

Hence **the contract of the exit code** (`run_exit_contract`).
-/

namespace Treewalk.CommandLine

variable (vars : String → Option String) (files : Files) (explain : String → String) (words : List String)

/-! ## Faults -/

section Faults

/-- The words are answered with the output, whatever fuel it takes. -/
def Answers (output : Output) : Prop :=
  ∃ fuel, respond fuel vars files words explain = some output

/-- The words after `run` ask for the evaluation of an expression under these settings, and nothing keeps it from being
started. -/
def Asks (config : Config) (e : Expr) : Prop :=
  ∃ options base contents, RunOptions.parse words = .ok options ∧ Config.ofVariables vars = .ok base ∧
    files options.path = .ok contents ∧ Expr.decode? contents = some e ∧ config = options.config base

/-- The evaluation that the words after `run` ask for has this outcome. -/
def Results (outcome : Outcome Value) : Prop :=
  ∃ config e, Asks vars files words config e ∧ Evaluates config e Env.withBuiltins CallStack.empty {} outcome

/-- What can be wrong with a run. -/
inductive Fault where
  | usage (error : UsageError)
  | setting (error : ConfigError)
  | reading (path : String) (reason : ReadError)
  | decoding (path reason : String)
  | evaluation (failure : Failure)

namespace Fault

/-- The place of a fault in the order in which faults are looked for. -/
def rank : Fault → Nat
  | .usage _ => 0
  | .setting _ => 1
  | .reading _ _ => 2
  | .decoding _ _ => 3
  | .evaluation _ => 4

/-- How a fault is reported. -/
def output : Fault → Output
  | .usage error =>
    .refusal (error.message ++ "\nUsage: minicaml run <file.json> [--max-depth=N] [--by-need]\n")
  | .setting error => .refusal (error.message ++ "\n")
  | .reading path reason => .refusal (LoadError.read path reason).message
  | .decoding path reason => .refusal (LoadError.decode path reason).message
  | .evaluation failure => { stderr := failure.report, code := if failure.isFatal then 2 else 1 }

/-- The fault is there, whatever else is wrong. -/
def Present : Fault → Prop
  | .usage error => RunOptions.parse words = .error error
  | .setting error => Config.ofVariables vars = .error error
  | .reading path reason =>
    (∃ options, RunOptions.parse words = .ok options ∧ options.path = path) ∧ files path = .error reason
  | .decoding path reason =>
    (∃ options, RunOptions.parse words = .ok options ∧ options.path = path) ∧
      ∃ contents, files path = .ok contents ∧ Expr.decode? contents = none ∧ reason = explain contents
  | .evaluation failure => ∃ after, Results vars files words (.failed failure after)

/-- Every fault has a code other than 0 and says something, on the error stream only. -/
theorem output_code (fault : Fault) :
    (fault.output.code = 1 ∨ fault.output.code = 2) ∧ fault.output.stdout = "" ∧ fault.output.stderr ≠ "" := by
  cases fault with
  | evaluation failure =>
    refine ⟨?_, rfl, by simp [output, Failure.report]⟩
    show (if failure.isFatal then 2 else 1) = 1 ∨ (if failure.isFatal then 2 else 1) = 2
    cases failure.isFatal
    · exact Or.inl rfl
    · exact Or.inr rfl
  | _ => exact ⟨Or.inl rfl, rfl, by simp [output, Output.refusal]⟩

/-- Only a fatal failure has the code 2. -/
theorem output_code_eq_two {fault : Fault} :
    fault.output.code = 2 ↔ ∃ failure, fault = .evaluation failure ∧ failure.isFatal := by
  cases fault with
  | evaluation failure =>
    show (if failure.isFatal then 2 else 1) = 2 ↔ _
    cases h : failure.isFatal <;> simp [h]
  | _ => simp [output, Output.refusal]

end Fault

variable {vars files explain words} {config config' : Config} {e e' : Expr} {outcome outcome' : Outcome Value}

/-- One evaluation is asked for at most. -/
theorem Asks.unique (h : Asks vars files words config e) (h' : Asks vars files words config' e') :
    config = config' ∧ e = e' := by
  obtain ⟨options, base, contents, hparse, hvars, hread, hdecode, rfl⟩ := h
  obtain ⟨options', base', contents', hparse', hvars', hread', hdecode', rfl⟩ := h'
  cases hparse.symm.trans hparse'
  cases hvars.symm.trans hvars'
  cases hread.symm.trans hread'
  cases hdecode.symm.trans hdecode'
  exact ⟨rfl, rfl⟩

theorem Results.unique (h : Results vars files words outcome) (h' : Results vars files words outcome') :
    outcome = outcome' := by
  obtain ⟨config, e, hasks, heval⟩ := h
  obtain ⟨config', e', hasks', heval'⟩ := h'
  obtain ⟨rfl, rfl⟩ := hasks.unique hasks'
  exact heval.unique heval'

/-- Faults of one rank are the same. -/
theorem Fault.Present.unique {fault fault' : Fault} (h : fault.Present vars files explain words)
    (h' : fault'.Present vars files explain words) (hrank : fault.rank = fault'.rank) : fault = fault' := by
  cases fault <;> cases fault' <;> cases hrank
  case usage.usage => cases h.symm.trans h'; rfl
  case setting.setting => cases h.symm.trans h'; rfl
  case reading.reading =>
    obtain ⟨⟨options, hparse, rfl⟩, hread⟩ := h
    obtain ⟨⟨options', hparse', rfl⟩, hread'⟩ := h'
    cases hparse.symm.trans hparse'
    cases hread.symm.trans hread'
    rfl
  case decoding.decoding =>
    obtain ⟨⟨options, hparse, rfl⟩, contents, hread, _, rfl⟩ := h
    obtain ⟨⟨options', hparse', rfl⟩, contents', hread', _, rfl⟩ := h'
    cases hparse.symm.trans hparse'
    cases hread.symm.trans hread'
    rfl
  case evaluation.evaluation =>
    obtain ⟨after, hresults⟩ := h
    obtain ⟨after', hresults'⟩ := h'
    cases hresults.unique hresults'
    rfl

end Faults

/-! ## Which faults come first -/

section Ranks

variable {vars files explain words} {fault : Fault} (h : fault.Present vars files explain words) {options : RunOptions}
  {base : Config} {contents : String} (hparse : RunOptions.parse words = .ok options)
include h hparse

theorem Fault.Present.one_le_rank : 1 ≤ fault.rank := by
  cases fault with
  | usage error => cases hparse.symm.trans h
  | _ => exact Nat.le_add_left 1 _

theorem Fault.Present.two_le_rank (hvars : Config.ofVariables vars = .ok base) : 2 ≤ fault.rank := by
  have hrank := h.one_le_rank hparse
  cases fault with
  | usage error => cases hrank
  | setting error => cases hvars.symm.trans h
  | _ => exact Nat.le_add_left 2 _

theorem Fault.Present.three_le_rank (hvars : Config.ofVariables vars = .ok base)
    (hread : files options.path = .ok contents) : 3 ≤ fault.rank := by
  have hrank := h.two_le_rank hparse hvars
  cases fault with
  | usage | setting => contradiction
  | reading path reason =>
    obtain ⟨⟨options', hparse', rfl⟩, hread'⟩ := h
    cases hparse.symm.trans hparse'
    cases hread.symm.trans hread'
  | _ => exact Nat.le_add_left 3 _

theorem Fault.Present.four_le_rank (hvars : Config.ofVariables vars = .ok base)
    (hread : files options.path = .ok contents) {e : Expr} (hdecode : Expr.decode? contents = some e) :
    4 ≤ fault.rank := by
  have hrank := h.three_le_rank hparse hvars hread
  cases fault with
  | usage | setting | reading => contradiction
  | decoding path reason =>
    obtain ⟨⟨options', hparse', rfl⟩, contents', hread', hdecode', _⟩ := h
    cases hparse.symm.trans hparse'
    cases hread.symm.trans hread'
    cases hdecode.symm.trans hdecode'
  | evaluation failure => exact le_rfl

end Ranks

/-! ## Answers -/

section Answers

variable {vars files explain words} {config : Config} {e : Expr} {outcome : Outcome Value} {output output' : Output}

/-- What is answered before an evaluation starts does not depend on the fuel. -/
theorem answers_of_forall (h : ∀ fuel, respond fuel vars files words explain = some output) :
    Answers vars files explain words output' ↔ output' = output := by
  constructor
  · rintro ⟨fuel, hfuel⟩
    rw [h fuel] at hfuel
    exact (Option.some.inj hfuel).symm
  · rintro rfl
    exact ⟨0, h 0⟩

/-- The answer of an evaluation that ends. -/
theorem answers_of_results (hresults : Results vars files words outcome)
    (houtput : Output.ofOutcome outcome = some output) :
    Answers vars files explain ("run" :: words) output' ↔ output' = output := by
  obtain ⟨config, e, ⟨options, base, contents, hparse, hvars, hread, hdecode, rfl⟩, heval⟩ := hresults
  have hrespond : ∀ fuel, respond fuel vars files ("run" :: words) explain =
      Output.ofOutcome (evalProgram (options.config base) fuel e {}) := by
    intro fuel
    show run fuel vars files explain words = _
    simp only [run, hparse, hvars, load, hread, hdecode]
  constructor
  · rintro ⟨fuel, hfuel⟩
    rw [hrespond] at hfuel
    rcases heval.eval_eq_or fuel with hn | hn
    · rw [show evalProgram (options.config base) fuel e {} = _ from hn] at hfuel
      cases hfuel
    · rw [show evalProgram (options.config base) fuel e {} = _ from hn, houtput] at hfuel
      exact (Option.some.inj hfuel).symm
  · rintro rfl
    obtain ⟨-, fuel, hn⟩ := heval
    exact ⟨fuel, (hrespond fuel).trans ((congrArg Output.ofOutcome hn).trans houtput)⟩

/-- The fault is there, and none that would be reported before it. -/
def Fault.First (vars : String → Option String) (files : Files) (explain : String → String) (words : List String)
    (fault : Fault) : Prop :=
  fault.Present vars files explain words ∧
    ∀ other : Fault, other.Present vars files explain words → fault.rank ≤ other.rank

theorem Fault.First.unique {fault fault' : Fault} (h : fault.First vars files explain words)
    (h' : fault'.First vars files explain words) : fault = fault' :=
  h.1.unique h'.1 (Nat.le_antisymm (h.2 fault' h'.1) (h'.2 fault h.1))

/-- **A run that ends has a value, or a first fault, and answers with it.** -/
theorem exists_answer (hends : ∀ config e, Asks vars files words config e →
      ∃ outcome, Evaluates config e Env.withBuiltins CallStack.empty {} outcome) :
    (∃ v after, Results vars files words (.done v after) ∧
      ∀ output, Answers vars files explain ("run" :: words) output ↔ output = { stdout := v.display ++ "\n" }) ∨
    ∃ fault : Fault, fault.First vars files explain words ∧
      ∀ output, Answers vars files explain ("run" :: words) output ↔ output = fault.output := by
  cases hparse : RunOptions.parse words with
  | error error =>
    refine Or.inr ⟨.usage error, ⟨hparse, fun _ _ => Nat.zero_le _⟩, fun output => answers_of_forall fun fuel => ?_⟩
    show run fuel vars files explain words = _
    simp only [run, hparse]
    rfl
  | ok options =>
  cases hvars : Config.ofVariables vars with
  | error error =>
    refine Or.inr ⟨.setting error, ⟨hvars, fun _ h => h.one_le_rank hparse⟩, fun output =>
      answers_of_forall fun fuel => ?_⟩
    show run fuel vars files explain words = _
    simp only [run, hparse, hvars]
    rfl
  | ok base =>
  cases hread : files options.path with
  | error reason =>
    refine Or.inr ⟨.reading options.path reason, ⟨⟨⟨options, hparse, rfl⟩, hread⟩, fun _ h =>
      h.two_le_rank hparse hvars⟩, fun output => answers_of_forall fun fuel => ?_⟩
    show run fuel vars files explain words = _
    simp only [run, hparse, hvars, load, hread]
    rfl
  | ok contents =>
  cases hdecode : Expr.decode? contents with
  | none =>
    refine Or.inr ⟨.decoding options.path (explain contents), ⟨⟨⟨options, hparse, rfl⟩, contents, hread, hdecode, rfl⟩,
      fun _ h => h.three_le_rank hparse hvars hread⟩, fun output => answers_of_forall fun fuel => ?_⟩
    show run fuel vars files explain words = _
    simp only [run, hparse, hvars, load, hread, hdecode]
    rfl
  | some e =>
  have hasks : Asks vars files words (options.config base) e :=
    ⟨options, base, contents, hparse, hvars, hread, hdecode, rfl⟩
  obtain ⟨outcome, heval⟩ := hends _ e hasks
  cases outcome with
  | outOfFuel => exact absurd rfl heval.1
  | done v after =>
    have hresults : Results vars files words (.done v after) := ⟨_, e, hasks, heval⟩
    exact Or.inl ⟨v, after, hresults, fun output => answers_of_results hresults rfl⟩
  | failed failure after =>
    have hresults : Results vars files words (.failed failure after) := ⟨_, e, hasks, heval⟩
    exact Or.inr ⟨.evaluation failure, ⟨⟨after, hresults⟩, fun _ h => h.four_le_rank hparse hvars hread hdecode⟩,
      fun output => answers_of_results hresults rfl⟩

/-- Where the evaluation has a value, nothing is wrong. -/
theorem Results.not_present {v : Value} {after : Store} (hresults : Results vars files words (.done v after))
    (fault : Fault) : ¬fault.Present vars files explain words := by
  intro h
  have ⟨_, e, ⟨options, base, contents, hparse, hvars, hread, hdecode, _⟩, _⟩ := hresults
  have hrank := h.four_le_rank hparse hvars hread hdecode
  cases fault with
  | evaluation failure =>
    obtain ⟨after', hfailed⟩ := h
    cases hresults.unique hfailed
  | _ => contradiction

end Answers

/-! ## Limits -/

section Limits

/-- The word is a flag that gives the limit. -/
def IsDepthFlag (m : Nat) (word : String) : Prop :=
  ∃ text, word.toList = depthFlag ++ text ∧ parseDepth? (String.ofList text) = some m

/-- The limit is given by a flag among the words, or by a variable that is not blank. -/
def LimitGiven (m : Nat) : Prop :=
  (∃ word ∈ words, IsDepthFlag m word) ∨
    ∃ text, vars Config.depthVariable = some text ∧ Text.isAllBlank text = false ∧ parseDepth? text = some m

variable {vars files explain words} {m : Nat}

/-- What one word does to the limit. -/
theorem WordsRead.word_maxDepth {read read' : WordsRead} {word : String} (h : read.word word = .ok read')
    (hm : read'.maxDepth = some m) : read.maxDepth = some m ∨ IsDepthFlag m word := by
  unfold WordsRead.word at h
  split at h
  · next text hflag =>
    split at h
    · next depth hdepth =>
      cases h
      cases hm
      exact Or.inr ⟨text, (List.append_eq_of_isPrefixOf?_eq_some hflag).symm, hdepth⟩
    · cases h
  · split at h
    · cases h
      exact Or.inl hm
    · split at h
      · cases h
      · split at h
        · cases h
          exact Or.inl hm
        · cases h

/-- What all words do to the limit, by induction on them. -/
theorem WordsRead.words_maxDepth {read read' : WordsRead} (h : words.foldlM WordsRead.word read = .ok read')
    (hm : read'.maxDepth = some m) : read.maxDepth = some m ∨ ∃ word ∈ words, IsDepthFlag m word := by
  induction words generalizing read with
  | nil =>
    cases h
    exact Or.inl hm
  | cons word words ih =>
    rw [List.foldlM_cons] at h
    cases hnext : read.word word with
    | error error =>
      rw [hnext] at h
      cases h
    | ok next =>
      rw [hnext] at h
      rcases ih h with hm' | ⟨other, hmem, hflag⟩
      · rcases WordsRead.word_maxDepth hnext hm' with hm | hflag
        · exact Or.inl hm
        · exact Or.inr ⟨word, List.mem_cons_self, hflag⟩
      · exact Or.inr ⟨other, List.mem_cons_of_mem word hmem, hflag⟩

theorem RunOptions.parse_maxDepth {options : RunOptions} (h : RunOptions.parse words = .ok options)
    (hm : options.maxDepth = some m) : ∃ word ∈ words, IsDepthFlag m word := by
  unfold RunOptions.parse at h
  cases hread : words.foldlM WordsRead.word {} with
  | error error =>
    rw [hread] at h
    cases h
  | ok read =>
    rw [hread] at h
    have hdepth : read.maxDepth = options.maxDepth := by
      obtain ⟨path, depth, byNeed⟩ := read
      cases path with
      | none => cases h
      | some path =>
        cases h
        rfl
    rcases WordsRead.words_maxDepth hread (hdepth.trans hm) with hnone | hflag
    · cases hnone
    · exact hflag

theorem ofVariables_maxDepth {base : Config} (h : Config.ofVariables vars = .ok base) (hm : base.maxDepth = some m) :
    ∃ text, vars Config.depthVariable = some text ∧ Text.isAllBlank text = false ∧ parseDepth? text = some m := by
  unfold Config.ofVariables at h
  cases hdepth : Config.setting parseDepth? .depth (vars Config.depthVariable) with
  | error error =>
    rw [hdepth] at h
    cases h
  | ok depth =>
    rw [hdepth] at h
    cases hstrategy : Config.setting Strategy.parse? .strategy (vars Config.strategyVariable) with
    | error error =>
      simp only [hstrategy] at h
      cases h
    | ok strategy =>
      simp only [hstrategy] at h
      cases h
      cases hm
      unfold Config.setting at hdepth
      split at hdepth
      · cases hdepth
      · next text htext =>
        split at hdepth
        · cases hdepth
        · next hblank =>
          split at hdepth
          · next hparse =>
            cases hdepth
            exact ⟨text, htext, Bool.eq_false_iff.2 hblank, hparse⟩
          · cases hdepth

/-- **Only a limit that was given can be exhausted**, and no other failure is fatal. -/
theorem Results.limit_given {failure : Failure} {after : Store}
    (h : Results vars files words (.failed failure after)) (hfatal : failure.isFatal) :
    ∃ m, failure.cause = .recursionLimit m ∧ LimitGiven vars words m := by
  have hfatal : failure.cause.category = .fatal := by simpa [Failure.isFatal] using hfatal
  obtain ⟨_, e, ⟨options, base, contents, hparse, hvars, hread, hdecode, rfl⟩, heval⟩ := h
  cases hlimit : (options.config base).maxDepth with
  | none =>
    have hconfig : options.config base = ⟨none, (options.config base).strategy⟩ := by rw [← hlimit]
    rw [hconfig] at heval
    exact absurd hfatal heval.not_fatal
  | some m =>
    have hconfig : options.config base = ⟨some m, (options.config base).strategy⟩ := by rw [← hlimit]
    rw [hconfig] at heval
    refine ⟨m, heval.eq_recursionLimit (Nat.zero_le m) hfatal, ?_⟩
    rcases Option.or_eq_some_iff.1 hlimit with hflag | ⟨_, hvar⟩
    · exact Or.inl (RunOptions.parse_maxDepth hparse hflag)
    · exact Or.inr (ofVariables_maxDepth hvars hvar)

theorem isFatal_of_recursionLimit {failure : Failure} (h : failure.cause = .recursionLimit m) : failure.isFatal := by
  simp [Failure.isFatal, h, Cause.category]

end Limits

/-! ## The contract -/

section Contract

/-- What the output of `run` tells. -/
structure ExitContract (output : Output) : Prop where
  /-- The command has this output and no other. -/
  answers : ∀ output', Answers vars files explain ("run" :: words) output' ↔ output' = output
  /-- A value is written on a line, and nothing else is. -/
  success : ∀ v after, Results vars files words (.done v after) → output = { stdout := v.display ++ "\n" }
  code_zero : output.code = 0 ↔ ∃ v after, Results vars files words (.done v after)
  code_two : output.code = 2 ↔ ∃ failure after m, Results vars files words (.failed failure after) ∧
    failure.cause = .recursionLimit m
  /-- The limit was given, and the message names it. -/
  limit : ∀ failure after m, Results vars files words (.failed failure after) → failure.cause = .recursionLimit m →
    LimitGiven vars words m ∧
      ∃ trace, output.stderr = "error[fatal]: maximum recursion depth exceeded (limit: " ++ toString m ++ ")\n" ++ trace
  code_one : output.code ≠ 0 → output.code ≠ 2 → output.code = 1
  explained : output.code ≠ 0 → output.stdout = "" ∧ output.stderr ≠ ""
  /-- Of several faults the first one is reported: the usage, a setting, reading, decoding, the evaluation. -/
  first : ∀ fault : Fault, fault.Present vars files explain words →
    (∀ other : Fault, other.Present vars files explain words → fault.rank ≤ other.rank) → output = fault.output

variable {vars files explain words}

/-- A run whose evaluation has a value. -/
theorem exitContract_success {v : Value} {after : Store} (hresults : Results vars files words (.done v after))
    (hanswers : ∀ output, Answers vars files explain ("run" :: words) output ↔
      output = { stdout := v.display ++ "\n" }) :
    ExitContract vars files explain words { stdout := v.display ++ "\n" } where
  answers := hanswers
  success v' after' h := by
    cases hresults.unique h
    rfl
  code_zero := ⟨fun _ => ⟨v, after, hresults⟩, fun _ => rfl⟩
  code_two := by
    refine ⟨nofun, ?_⟩
    rintro ⟨failure, after', m, h, _⟩
    cases hresults.unique h
  limit failure after' m h := by cases hresults.unique h
  code_one h := absurd rfl h
  explained h := absurd rfl h
  first fault h := absurd h (hresults.not_present fault)

/-- The message of an exhausted limit. -/
theorem report_recursionLimit {failure : Failure} {m : Nat} (h : failure.cause = .recursionLimit m) :
    ∃ trace, failure.report =
      "error[fatal]: maximum recursion depth exceeded (limit: " ++ toString m ++ ")\n" ++ trace := by
  have hassoc : ∀ a b c d e f : String, a ++ (b ++ c ++ d) ++ e ++ f = a ++ b ++ c ++ (d ++ e) ++ f := by
    intro a b c d e f
    simp only [String.append_assoc]
  have hhead : "error[" ++ "fatal" ++ "]: " ++ "maximum recursion depth exceeded (limit: " =
      "error[fatal]: maximum recursion depth exceeded (limit: " := by decide
  have htail : ")" ++ "\n" = ")\n" := by decide
  refine ⟨(failure.backtrace.map Backtrace.display).getD "", ?_⟩
  rw [← hhead, ← htail, ← hassoc, Failure.report, h]
  rfl

/-- A run with a first fault. -/
theorem exitContract_fault {fault : Fault} (hfirst : fault.First vars files explain words)
    (hanswers : ∀ output, Answers vars files explain ("run" :: words) output ↔ output = fault.output) :
    ExitContract vars files explain words fault.output := by
  obtain ⟨hcode, hsilent⟩ := fault.output_code
  have hnone : ∀ v after, ¬Results vars files words (.done v after) := fun v after h => h.not_present fault hfirst.1
  -- a failure of the evaluation is the first fault
  have hlast : ∀ failure after, Results vars files words (.failed failure after) → fault = .evaluation failure := by
    rintro failure after ⟨config, e, hasks, heval⟩
    obtain ⟨options, base, contents, hparse, hvars, hread, hdecode, hconfig⟩ := hasks
    have hpresent : (Fault.evaluation failure).Present vars files explain words :=
      ⟨after, config, e, ⟨options, base, contents, hparse, hvars, hread, hdecode, hconfig⟩, heval⟩
    exact hfirst.1.unique hpresent
      (Nat.le_antisymm (hfirst.2 _ hpresent) (hfirst.1.four_le_rank hparse hvars hread hdecode))
  constructor
  case answers => exact hanswers
  case success => exact fun v after h => absurd h (hnone v after)
  case code_zero =>
    refine ⟨fun hzero => ?_, fun ⟨v, after, h⟩ => absurd h (hnone v after)⟩
    rcases hcode with h | h <;> rw [h] at hzero <;> cases hzero
  case code_two =>
    rw [Fault.output_code_eq_two]
    constructor
    · rintro ⟨failure, rfl, hfatal⟩
      obtain ⟨after, hresults⟩ := hfirst.1
      obtain ⟨m, hcause, _⟩ := hresults.limit_given hfatal
      exact ⟨failure, after, m, hresults, hcause⟩
    · rintro ⟨failure, after, m, hresults, hcause⟩
      exact ⟨failure, hlast failure after hresults, isFatal_of_recursionLimit hcause⟩
  case limit =>
    intro failure after m hresults hcause
    obtain ⟨m', hcause', hgiven⟩ := hresults.limit_given (isFatal_of_recursionLimit hcause)
    cases hcause.symm.trans hcause'
    rw [hlast failure after hresults]
    exact ⟨hgiven, report_recursionLimit hcause⟩
  case code_one => exact fun _ htwo => hcode.resolve_right htwo
  case explained => exact fun _ => hsilent
  case first =>
    intro other hpresent hleast
    rw [hfirst.unique ⟨hpresent, hleast⟩]

/-- **The exit contract of `run`**: if the evaluation that the words ask for ends, the command has an output that keeps
the contract. -/
theorem run_exit_contract (vars : String → Option String) (files : Files) (explain : String → String)
    (words : List String) (hends : ∀ config e, Asks vars files words config e →
      ∃ outcome, Evaluates config e Env.withBuiltins CallStack.empty {} outcome) :
    ∃ output, ExitContract vars files explain words output := by
  rcases exists_answer hends with ⟨v, after, hresults, hanswers⟩ | ⟨fault, hfirst, hanswers⟩
  · exact ⟨_, exitContract_success hresults hanswers⟩
  · exact ⟨fault.output, exitContract_fault hfirst hanswers⟩

/-- A program that needs two frames, with one allowed: the code is 2. -/
theorem run_exit_contract_exhausted :
    let vars : String → Option String := fun _ => none
    let files : Files := fun _ => .ok "\x7b\"Sequence\":[\"Unit\"]\x7d"
    let explain : String → String := fun _ => "expected value\n"
    let words : List String := ["--max-depth=1", "program.json"]
    ∃ output, ExitContract vars files explain words output ∧ output.code = 2 := by
  intro vars files explain words
  have hparse : RunOptions.parse words = .ok ⟨"program.json", some 1, false⟩ := by decide
  have hdecode : Expr.decode? "\x7b\"Sequence\":[\"Unit\"]\x7d" = some (.sequence [.unit]) := by rfl
  have hasks : Asks vars files words ⟨some 1, .byName⟩ (.sequence [.unit]) :=
    ⟨_, _, _, hparse, rfl, rfl, hdecode, rfl⟩
  have heval : Evaluates ⟨some 1, .byName⟩ (.sequence [.unit]) Env.withBuiltins CallStack.empty {}
      (.failed ⟨.recursionLimit 1, some (CallStack.empty.push (.sequence [.unit])).capture⟩ {}) := ⟨nofun, 2, rfl⟩
  obtain ⟨output, hcontract⟩ := run_exit_contract vars files explain words fun config e h => by
    obtain ⟨rfl, rfl⟩ := hasks.unique h
    exact ⟨_, heval⟩
  exact ⟨output, hcontract, hcontract.code_two.2 ⟨_, _, 1, ⟨_, _, hasks, heval⟩, rfl⟩⟩

end Contract

end Treewalk.CommandLine
