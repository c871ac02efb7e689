import Treewalk.Proofs.RoundTrip

/-!
# Where a document ends

What a text leaves the scanner in the middle of is a state (`Scan.run`), and what follows the text is scanned from that
state on (`scan_append_run`).

* The text of an expression ends in a quote or a brace, so it leaves the scanner between tokens (`run_of_decode?`): a
  number or a word could go on, but where one comes last it is the whole document (`Reader.step_done`).
* From between tokens, **nothing but blanks is without a token** (`scan_eq_nil`), and a reader that is done takes no
  other token.

Together: **a document ends where its expression ends** (`decode?_append_iff`).
-/

namespace Treewalk.Json

/-! ## What follows a text -/

section Following

/-- The tokens that the characters complete, and the state after them. -/
def Scan.run (state : Scan) : List Char → Option (List Token × Scan)
  | [] => some ([], state)
  | c :: cs => do
    let (tokens, next) ← state.step c
    let (others, last) ← next.run cs
    return (tokens ++ others, last)

variable {state last : Scan} {p : List Char} {ts us : List Token}

/-- What follows a text is scanned from the state after it. -/
theorem scan_append_run (hp : state.run p = some (ts, last)) (r : List Char) :
    scan (p ++ r) state [] = (scan r last []).map (ts ++ ·) := by
  induction p generalizing state ts with
  | nil =>
    cases hp
    simp
  | cons c p ih =>
    obtain ⟨⟨tokens, next⟩, hnext, hp⟩ := Option.bind_eq_some_iff.1 hp
    obtain ⟨⟨others, last⟩, hothers, hp⟩ := Option.bind_eq_some_iff.1 hp
    cases hp
    rw [List.cons_append, scan_cons, hnext, Option.bind_some, ih hothers, Option.map_map]
    simp [Function.comp_def]

/-- A text that has tokens leaves the scanner in a state in which it may end. -/
theorem exists_run_of_scan (h : scan p state [] = some us) :
    ∃ ts last pending, state.run p = some (ts, last) ∧ last.finish = some pending ∧ us = ts ++ pending := by
  induction p generalizing state us with
  | nil =>
    obtain ⟨pending, hpending, rfl⟩ := Option.map_eq_some_iff.1 h
    exact ⟨[], state, pending, rfl, hpending, rfl⟩
  | cons c p ih =>
    rw [scan_cons] at h
    obtain ⟨⟨tokens, next⟩, hnext, h⟩ := Option.bind_eq_some_iff.1 h
    obtain ⟨others, hothers, rfl⟩ := Option.map_eq_some_iff.1 h
    obtain ⟨ts, last, pending, hrun, hpending, rfl⟩ := ih hothers
    refine ⟨tokens ++ ts, last, pending, ?_, hpending, (List.append_assoc _ _ _).symm⟩
    rw [Scan.run, hnext]
    show (next.run p).bind _ = _
    rw [hrun]
    rfl

end Following

/-! ## The last token -/

section LastToken

/-- A token that a later character could still be part of: a word or a number. -/
def Token.isOpenEnded : Token → Bool
  | .null | .bool _ | .number _ => true
  | _ => false

/-- The words of the language are `null`, `true` and `false`. -/
def Scan.Proper : Scan → Prop
  | .word _ token => token.isOpenEnded = true
  | _ => True

variable {state next : Scan} {c : Char} {cs : List Char} {tokens : List Token}

theorem Scan.proper_start (h : start c = some (tokens, next)) : next.Proper := by
  unfold start at h
  split at h
  · cases h
    trivial
  · split at h
    · cases h
      trivial
    · split at h <;> cases h <;> trivial

/-- **What one character can do**: it begins something after what the text before it could end with, or the token before
it goes on, or it is the quote that ends a text. -/
theorem Scan.step_cases (h : state.step c = some (tokens, next)) :
    (∃ pending more, state.finish = some pending ∧ start c = some (more, next) ∧ tokens = pending ++ more) ∨
      (tokens = [] ∧ next ≠ .between ∧ (state.Proper → next.Proper)) ∨ ∃ s, tokens = [.text s] ∧ next = .between := by
  cases state with
  | between => exact Or.inl ⟨[], tokens, rfl, h, rfl⟩
  | word rest token =>
    cases rest with
    | nil =>
      obtain ⟨⟨more, _⟩, hstart, heq⟩ := Option.map_eq_some_iff.1 h
      cases heq
      exact Or.inl ⟨[token], more, rfl, hstart, rfl⟩
    | cons d rest =>
      rw [step] at h
      split at h
      · cases h
        exact Or.inr (Or.inl ⟨rfl, by simp, id⟩)
      · cases h
  | number part seen =>
    rw [step] at h
    split at h
    · cases h
      exact Or.inr (Or.inl ⟨rfl, by simp, id⟩)
    · split at h
      · next hcomplete =>
        obtain ⟨⟨more, _⟩, hstart, heq⟩ := Option.map_eq_some_iff.1 h
        cases heq
        exact Or.inl ⟨[.number (String.ofList seen.reverse)], more, if_pos hcomplete, hstart, rfl⟩
      · cases h
  | text seen =>
    rw [step.eq_def] at h
    dsimp only at h
    split at h
    · cases h
      exact Or.inr (Or.inr ⟨_, rfl, rfl⟩)
    · cases h
      exact Or.inr (Or.inl ⟨rfl, by simp, id⟩)
    · split at h
      · cases h
      · cases h
        exact Or.inr (Or.inl ⟨rfl, by simp, id⟩)
  | escape seen =>
    rw [step] at h
    split at h
    · cases h
      exact Or.inr (Or.inl ⟨rfl, by simp, id⟩)
    · obtain ⟨_, _, heq⟩ := Option.map_eq_some_iff.1 h
      cases heq
      exact Or.inr (Or.inl ⟨rfl, by simp, id⟩)
  | code seen missing value =>
    obtain ⟨_, _, heq⟩ := Option.map_eq_some_iff.1 h
    cases missing <;> cases heq <;> exact Or.inr (Or.inl ⟨rfl, by simp, id⟩)

/-- One character leads to such a word only. -/
theorem Scan.proper_step (hstate : state.Proper) (h : state.step c = some (tokens, next)) : next.Proper := by
  rcases step_cases h with ⟨_, _, _, hstart, _⟩ | ⟨_, _, hnext⟩ | ⟨_, _, rfl⟩
  · exact proper_start hstart
  · exact hnext hstate
  · trivial

/-- Any number of characters do. -/
theorem Scan.proper_run (hstate : state.Proper) (h : state.run cs = some (tokens, next)) : next.Proper := by
  induction cs generalizing state tokens with
  | nil =>
    cases h
    exact hstate
  | cons c cs ih =>
    obtain ⟨⟨_, mid⟩, hmid, h⟩ := Option.bind_eq_some_iff.1 h
    obtain ⟨⟨_, _⟩, hrest, h⟩ := Option.bind_eq_some_iff.1 h
    cases h
    exact ih (proper_step hstate hmid) hrest

/-- What the end of a text completes is nothing, or one token that could have gone on. -/
theorem Scan.finish_cases {pending : List Token} (hstate : state.Proper) (h : state.finish = some pending) :
    state = .between ∧ pending = [] ∨ ∃ token : Token, pending = [token] ∧ token.isOpenEnded = true := by
  cases state with
  | between =>
    cases h
    exact Or.inl ⟨rfl, rfl⟩
  | word rest token =>
    cases rest with
    | nil =>
      cases h
      exact Or.inr ⟨token, rfl, hstate⟩
    | cons d rest => cases h
  | number part seen =>
    rw [finish] at h
    split at h
    · cases h
      exact Or.inr ⟨_, rfl, rfl⟩
    · cases h
  | text seen => cases h
  | escape seen => cases h
  | code seen missing value => cases h

/-- A token that could go on completes a document only if it is all of it. -/
theorem Reader.step_done {reader : Reader} {token : Token} {j : Json} (htoken : token.isOpenEnded = true)
    (h : reader.step token = some (.done j)) : j.spelling = [token] := by
  have henter : ∀ around, enter around token = some (.done j) → j.spelling = [token] := by
    intro around h
    cases around with
    | nil => cases token <;> cases htoken <;> cases h <;> rfl
    | cons container around => cases container <;> cases token <;> cases htoken <;> cases h
  cases reader with
  | value around => exact henter around h
  | firstItem around => cases token <;> cases htoken <;> exact henter (.array [] :: around) h
  | _ => cases token <;> cases htoken <;> cases h

/-- A reader that is done takes no token. -/
theorem Reader.step_of_done (j : Json) (token : Token) : (Reader.done j).step token = none := by
  cases token <;> rfl

theorem ofTokens?_append_last {token : Token} {j : Json} (htoken : token.isOpenEnded = true)
    (h : ofTokens? (tokens ++ [token]) = some j) : j.spelling = [token] := by
  obtain ⟨last, hlast, hresult⟩ := Option.bind_eq_some_iff.1 h
  rw [List.foldlM_append] at hlast
  obtain ⟨reader, _, hlast⟩ := Option.bind_eq_some_iff.1 hlast
  cases last with
  | done j' =>
    cases hresult
    rw [List.foldlM_cons] at hlast
    obtain ⟨_, hstep, hnil⟩ := Option.bind_eq_some_iff.1 hlast
    cases hnil
    exact Reader.step_done htoken hstep
  | _ => cases hresult

/-- A complete document takes no further token. -/
theorem ofTokens?_append {more : List Token} {j : Json} (h : ofTokens? tokens = some j) (hmore : more ≠ []) :
    ofTokens? (tokens ++ more) = none := by
  obtain ⟨last, hlast, hresult⟩ := Option.bind_eq_some_iff.1 h
  cases last with
  | done j' =>
    obtain ⟨token, rest, rfl⟩ := List.exists_cons_of_ne_nil hmore
    rw [ofTokens?, List.foldlM_append, hlast]
    show ((token :: rest).foldlM Reader.step (.done j')).bind _ = none
    rw [List.foldlM_cons, Reader.step_of_done]
    rfl
  | _ => cases hresult

end LastToken

/-! ## Texts without tokens -/

section Blanks

variable {state : Scan} {c : Char} {cs : List Char}

theorem Scan.start_eq_nil (h : start c = some ([], .between)) : isSpace c = true := by
  unfold start at h
  split at h
  · next hspace => exact hspace
  · split at h
    · cases h
    · split at h <;> cases h

theorem Scan.finish_eq_nil (h : state.finish = some []) : state = .between := by
  cases state with
  | between => rfl
  | word rest token => cases rest <;> cases h
  | number part seen =>
    rw [finish] at h
    split at h <;> cases h
  | text seen => cases h
  | escape seen => cases h
  | code seen missing value => cases h

/-- A character that completes no token and after which none has begun is a blank between tokens. -/
theorem Scan.step_eq_nil (h : state.step c = some ([], .between)) : state = .between ∧ isSpace c = true := by
  rcases step_cases h with ⟨pending, more, hfinish, hstart, hnil⟩ | ⟨_, hnext, _⟩ | ⟨_, heq, _⟩
  · obtain ⟨rfl, rfl⟩ := List.append_eq_nil_iff.1 hnil.symm
    exact ⟨finish_eq_nil hfinish, start_eq_nil hstart⟩
  · exact absurd rfl hnext
  · cases heq

/-- **A text without tokens is blank.** By induction on it, from any state. -/
theorem scan_eq_nil (h : scan cs state [] = some []) : state = .between ∧ ∀ c ∈ cs, isSpace c = true := by
  induction cs generalizing state with
  | nil =>
    obtain ⟨pending, hpending, hnil⟩ := Option.map_eq_some_iff.1 h
    cases hnil
    exact ⟨Scan.finish_eq_nil hpending, nofun⟩
  | cons c cs ih =>
    rw [scan_cons] at h
    obtain ⟨⟨tokens, next⟩, hnext, h⟩ := Option.bind_eq_some_iff.1 h
    obtain ⟨others, hothers, hnil⟩ := Option.map_eq_some_iff.1 h
    obtain ⟨rfl, rfl⟩ := List.append_eq_nil_iff.1 hnil
    obtain ⟨rfl, hcs⟩ := ih hothers
    obtain ⟨rfl, hc⟩ := Scan.step_eq_nil hnext
    exact ⟨rfl, List.forall_mem_cons.2 ⟨hc, hcs⟩⟩

theorem isSpace_iff : isSpace c = true ↔ c = ' ' ∨ c = '\t' ∨ c = '\n' ∨ c = '\r' := by
  simp [isSpace, or_assoc]

end Blanks

end Treewalk.Json

/-! ## The end of a document -/

namespace Treewalk.Expr

open Json

variable {t s : String} {e : Expr}

/-- An expression is spelled by a text or an object, and so not by a token that could go on. -/
theorem spelling_ne_of_ofJson? {j : Json} {token : Token} (h : ofJson? j = some e) (htoken : token.isOpenEnded = true) :
    j.spelling ≠ [token] := by
  intro hspelling
  cases j with
  | text s =>
    cases hspelling
    cases htoken
  | object members =>
    obtain ⟨rfl, _⟩ := List.cons.inj hspelling
    cases htoken
  | _ => simp [ofJson?, Codec.Part.read] at h

/-- **The text of an expression leaves the scanner between tokens**, with the tokens of the expression. -/
theorem run_of_decode? (h : decode? t = some e) :
    ∃ ts j, Scan.between.run t.toList = some (ts, .between) ∧ ofTokens? ts = some j ∧ ofJson? j = some e := by
  obtain ⟨j, hparse, hread⟩ := Option.bind_eq_some_iff.1 h
  obtain ⟨us, htokens, hj⟩ := Option.bind_eq_some_iff.1 hparse
  obtain ⟨ts, last, pending, hrun, hfinish, rfl⟩ := exists_run_of_scan htokens
  have hproper : last.Proper := Scan.proper_run (show Scan.between.Proper from trivial) hrun
  rcases Scan.finish_cases hproper hfinish with ⟨rfl, rfl⟩ | ⟨token, rfl, hopen⟩
  · rw [List.append_nil] at hj
    exact ⟨ts, j, hrun, hj, hread⟩
  · -- a number or a word would be the whole document
    exact absurd (ofTokens?_append_last hopen hj) (spelling_ne_of_ofJson? hread hopen)

/-- What follows an expression is scanned by itself. -/
theorem tokens?_append {ts : List Token} (h : Scan.between.run t.toList = some (ts, .between)) (s : String) :
    tokens? (t ++ s) = (tokens? s).map (ts ++ ·) := by
  rw [tokens?, String.toList_append, scan_append_run h]
  rfl

theorem tokens?_of_blank (hs : ∀ c ∈ s.toList, isSpace c = true) : tokens? s = some [] := by
  have hscan := scan_spaces hs []
  rw [List.append_nil] at hscan
  exact hscan

theorem decode?_append_of_blank (h : decode? t = some e) (hs : ∀ c ∈ s.toList, isSpace c = true) :
    decode? (t ++ s) = some e := by
  obtain ⟨ts, j, hrun, hj, hread⟩ := run_of_decode? h
  rw [decode?, parse?, tokens?_append hrun, tokens?_of_blank hs, Option.map_some, List.append_nil]
  show (ofTokens? ts).bind _ = _
  rw [hj]
  exact hread

theorem decode?_blank_append (h : decode? t = some e) (hs : ∀ c ∈ s.toList, isSpace c = true) :
    decode? (s ++ t) = some e := by
  have htokens : tokens? (s ++ t) = tokens? t := by
    rw [tokens?, String.toList_append, scan_spaces hs]
    rfl
  rw [decode?, parse?, htokens]
  exact h

/-- Anything else after an expression is refused: it has no tokens, or too many. -/
theorem blank_of_decode?_append {e' : Expr} (h : decode? t = some e) (h' : decode? (t ++ s) = some e') :
    ∀ c ∈ s.toList, isSpace c = true := by
  obtain ⟨ts, j, hrun, hj, -⟩ := run_of_decode? h
  obtain ⟨j', hparse, -⟩ := Option.bind_eq_some_iff.1 h'
  obtain ⟨us, htokens, hj'⟩ := Option.bind_eq_some_iff.1 hparse
  rw [tokens?_append hrun] at htokens
  obtain ⟨more, hmore, rfl⟩ := Option.map_eq_some_iff.1 htokens
  cases more with
  | nil => exact (scan_eq_nil hmore).2
  | cons token more =>
    rw [ofTokens?_append hj (List.cons_ne_nil token more)] at hj'
    cases hj'

/-- **A document ends where its expression ends**: it decodes with something after it if and only if that is blank, and
then to the same expression. The same blanks may stand before it. -/
theorem decode?_append_iff (h : decode? t = some e) (s : String) :
    ((∃ e', decode? (t ++ s) = some e') ↔ ∀ c ∈ s.toList, c = ' ' ∨ c = '\t' ∨ c = '\n' ∨ c = '\r') ∧
      ((∀ c ∈ s.toList, c = ' ' ∨ c = '\t' ∨ c = '\n' ∨ c = '\r') →
        decode? (t ++ s) = some e ∧ decode? (s ++ t) = some e) := by
  simp only [← isSpace_iff]
  refine ⟨⟨fun ⟨e', h'⟩ => blank_of_decode?_append h h', fun hs => ⟨e, decode?_append_of_blank h hs⟩⟩, fun hs => ?_⟩
  exact ⟨decode?_append_of_blank h hs, decode?_blank_append h hs⟩

/-- An expression with a number in it, then a line feed, or one more brace. -/
theorem decode?_append_iff_integer :
    decode? "\x7b\"Integer\":7\x7d" = some (.integer 7) ∧ decode? "\x7b\"Integer\":7\x7d\n" = some (.integer 7) ∧
      decode? "\n\x7b\"Integer\":7\x7d" = some (.integer 7) ∧ ¬∃ e, decode? "\x7b\"Integer\":7\x7d\x7d" = some e := by
  have h : decode? "\x7b\"Integer\":7\x7d" = some (.integer 7) := decode?_encode (.integer 7)
  obtain ⟨hafter, hbefore⟩ := (decode?_append_iff h "\n").2 (by simp)
  refine ⟨h, hafter, hbefore, fun hbrace => ?_⟩
  have hblank := (decode?_append_iff h "\x7d").1.1 hbrace '\x7d' (by simp)
  exact absurd hblank (by decide)

end Treewalk.Expr
