import Treewalk.Json.Reader
import Treewalk.Json.Writer

/-!
# Reading back what was written

Two texts may be written one after the other, or with blanks between them, and their tokens are those of the first
followed by those of the second, as long as the second does not go on with a number that the first ends in
(`scan_append`, `scan_blanks`). So the tokens of a value's compact notation can be found value by value: they are its
`spelling` (`scan_compact`). The reader takes the spelling of a value to the place after that value
(`foldlM_spelling`), whatever containers are open around it.

Together: **what `compact` writes is read back as it was** (`parse?_compact`), for every value whose numbers are
numbers.
-/

namespace Treewalk.Json

/-! ## Texts one after the other -/

theorem scan_done (cs : List Char) (state : Scan) (done : List Token) :
    scan cs state done = (scan cs state []).map (done.reverse ++ ·) := by
  induction cs generalizing state done with
  | nil => cases h : state.finish <;> simp [scan, h]
  | cons c cs ih =>
    rw [scan, scan]
    cases state.step c with
    | none => rfl
    | some next =>
      obtain ⟨tokens, next⟩ := next
      simp only [List.append_nil]
      rw [ih next (tokens.reverse ++ done), ih next tokens.reverse, Option.map_map]
      congr 1
      funext rest
      simp

/-- One character, when nothing has been read. -/
theorem scan_cons (c : Char) (cs : List Char) (state : Scan) :
    scan (c :: cs) state [] = (state.step c).bind fun next => (scan cs next.2 []).map (next.1 ++ ·) := by
  rw [scan]
  cases state.step c with
  | none => rfl
  | some next =>
    simp only [Option.bind_some, List.append_nil]
    rw [scan_done, List.reverse_reverse]

/-- A character that is a token, or a blank. -/
theorem scan_cons_between {c : Char} {tokens : List Token} (h : Scan.start c = some (tokens, .between))
    (cs : List Char) : scan (c :: cs) .between [] = (scan cs .between []).map (tokens ++ ·) := by
  rw [scan_cons, Scan.step, h, Option.bind_some]

/-- A character that no number goes on with. -/
def Separates (c : Char) : Prop :=
  ∀ part : NumberPart, part.next? c = none

instance (c : Char) : Decidable (Separates c) :=
  decidable_of_iff (NumberPart.minus.next? c = none ∧ NumberPart.zero.next? c = none ∧
      NumberPart.whole.next? c = none ∧ NumberPart.point.next? c = none ∧ NumberPart.fraction.next? c = none ∧
      NumberPart.exponent.next? c = none ∧ NumberPart.exponentSign.next? c = none ∧
      NumberPart.power.next? c = none) <| by
    refine ⟨fun h part => ?_, fun h => ⟨h _, h _, h _, h _, h _, h _, h _, h _⟩⟩
    cases part <;> simp [h]

/-- A character that separates completes what the scanner could end with. -/
theorem Scan.step_of_finish {state : Scan} {pending : List Token} {c : Char} (h : state.finish = some pending)
    (hc : Separates c) : state.step c = (start c).map fun (tokens, next) => (pending ++ tokens, next) := by
  cases state with
  | between =>
    cases h
    rw [step]
    simp
  | word rest token =>
    cases rest with
    | nil =>
      cases h
      rfl
    | cons d rest => cases h
  | number part seen =>
    rw [finish] at h
    split at h
    · next hpart =>
      cases h
      rw [step, hc part]
      simp [hpart]
    · cases h
  | text seen => cases h
  | escape seen => cases h
  | code seen missing value => cases h

/-- The tokens of two texts, of which the second begins with a character that separates. -/
theorem scan_append {p r : List Char} {c : Char} {state : Scan} {ts us : List Token} (hc : Separates c)
    (hp : scan p state [] = some ts) (hr : scan (c :: r) .between [] = some us) :
    scan (p ++ c :: r) state [] = some (ts ++ us) := by
  induction p generalizing state ts with
  | nil =>
    obtain ⟨pending, hpending, rfl⟩ := Option.map_eq_some_iff.1 hp
    rw [scan_cons, Scan.step] at hr
    rw [List.nil_append, scan_cons, Scan.step_of_finish hpending hc]
    obtain ⟨next, hnext, hr⟩ := Option.bind_eq_some_iff.1 hr
    obtain ⟨rest, hrest, rfl⟩ := Option.map_eq_some_iff.1 hr
    simp [hnext, hrest]
  | cons d p ih =>
    rw [scan_cons] at hp
    obtain ⟨next, hnext, hp⟩ := Option.bind_eq_some_iff.1 hp
    obtain ⟨rest, hrest, rfl⟩ := Option.map_eq_some_iff.1 hp
    rw [List.cons_append, scan_cons, hnext, Option.bind_some, ih hrest, List.append_assoc]
    rfl

/-! ## Blanks -/

theorem isSpace_cases {c : Char} (h : isSpace c) : c = ' ' ∨ c = '\t' ∨ c = '\n' ∨ c = '\r' := by
  simpa [isSpace, or_assoc] using h

theorem separates_of_isSpace {c : Char} (h : isSpace c) : Separates c := by
  rcases isSpace_cases h with rfl | rfl | rfl | rfl <;> decide

/-- Blanks before a text. -/
theorem scan_spaces {ws : List Char} (hws : ∀ c ∈ ws, isSpace c) (cs : List Char) :
    scan (ws ++ cs) .between [] = scan cs .between [] := by
  induction ws with
  | nil => rfl
  | cons c ws ih =>
    have hc : Scan.start c = some ([], .between) := by
      rcases isSpace_cases (hws c List.mem_cons_self) with rfl | rfl | rfl | rfl <;> rfl
    rw [List.cons_append, scan_cons_between hc, ih fun d hd => hws d (List.mem_cons_of_mem c hd)]
    simp

/-- Blanks between two texts keep their tokens apart. -/
theorem scan_blanks {p ws r : List Char} {ts us : List Token} (hws : ∀ c ∈ ws, isSpace c) (hne : ws ≠ [])
    (hp : scan p .between [] = some ts) (hr : scan r .between [] = some us) :
    scan (p ++ ws ++ r) .between [] = some (ts ++ us) := by
  obtain ⟨c, ws, rfl⟩ := List.exists_cons_of_ne_nil hne
  have hr' : scan (c :: (ws ++ r)) .between [] = some us := by
    rw [← List.cons_append, scan_spaces hws, hr]
  rw [List.append_assoc, List.cons_append]
  exact scan_append (separates_of_isSpace (hws c List.mem_cons_self)) hp hr'

/-! ## Texts in quotes -/

/-- The code of a control character has two digits that are not zero. -/
theorem toList_codeEscape :
    ∀ n < 0x20, (codeEscape n).toList = ['\\', 'u', '0', '0', (n / 16).digitChar, (n % 16).digitChar] := by
  decide

theorem hexValue?_digitChar : ∀ d < 16, hexValue? d.digitChar = some d := by
  decide

/-- A character in its escaped form adds itself to the text that is being read. -/
theorem scan_escapeChar (c : Char) (seen : List TextUnit) (cs : List Char) :
    ∃ unit, (∀ units later, decodeUnits (unit :: units) later = decodeUnits units (c :: later)) ∧
      scan ((escapeChar c).toList ++ cs) (.text seen) [] = scan cs (.text (unit :: seen)) [] := by
  rw [escapeChar.eq_def]
  split
  iterate 7 exact ⟨.char _, fun _ _ => rfl, rfl⟩
  next h₁ h₂ h₃ h₄ h₅ h₆ h₇ =>
  split
  · next hc =>
    have hcode : c.toNat / 16 * 16 + c.toNat % 16 = c.toNat := by omega
    refine ⟨.code c.toNat, fun units later => ?_, ?_⟩
    · rw [decodeUnits.eq_def]
      simp only [Char.ofNat_toNat]
      rw [if_pos (by omega)]
    · rw [toList_codeEscape _ hc]
      have hhigh := hexValue?_digitChar (c.toNat / 16) (by omega)
      have hlow := hexValue?_digitChar (c.toNat % 16) (by omega)
      have hzero : hexValue? '0' = some 0 := rfl
      simp [scan, Scan.step, hhigh, hlow, hzero, hcode]
  · next hc =>
    refine ⟨.char c, fun _ _ => rfl, ?_⟩
    have hstep : Scan.step (.text seen) c = some ([], .text (.char c :: seen)) := by
      rw [Scan.step.eq_def]
      simp only
      rw [if_neg hc]
    simp [scan, hstep]

/-- The characters of a string in their escaped form. -/
theorem scan_escaped (l : List Char) (seen : List TextUnit) (cs : List Char) :
    ∃ units, (∀ later, decodeUnits units later = decodeUnits seen (l ++ later)) ∧
      scan ((String.join (l.map escapeChar)).toList ++ cs) (.text seen) [] = scan cs (.text units) [] := by
  induction l generalizing seen with
  | nil => exact ⟨seen, fun _ => rfl, by simp⟩
  | cons c l ih =>
    obtain ⟨unit, hunit, hscan⟩ := scan_escapeChar c seen ((String.join (l.map escapeChar)).toList ++ cs)
    obtain ⟨units, hunits, hrest⟩ := ih (unit :: seen)
    refine ⟨units, fun later => ?_, ?_⟩
    · rw [hunits, hunit]
      rfl
    · rw [List.map_cons, String.join_cons, String.toList_append, List.append_assoc, hscan, hrest]

/-- A string in quotes is one token. -/
theorem scan_quote (s : String) (cs : List Char) :
    scan ((quote s).toList ++ cs) .between [] = (scan cs .between []).map (.text (some s) :: ·) := by
  obtain ⟨units, hunits, hscan⟩ := scan_escaped s.toList [] ('"' :: cs)
  have hdecode : (decodeUnits units []).map String.ofList = some s := by
    rw [hunits, List.append_nil, decodeUnits, Option.map_some, String.ofList_toList]
  have hquote : (quote s).toList ++ cs = '"' :: ((String.join (s.toList.map escapeChar)).toList ++ '"' :: cs) := by
    simp [quote]
  rw [hquote, scan_cons]
  have hstart : Scan.step .between '"' = some ([], .text []) := rfl
  have hend : Scan.step (.text units) '"' = some ([.text (some s)], .between) := by
    rw [Scan.step.eq_def]
    simp only
    rw [hdecode]
  rw [hstart, Option.bind_some, hscan, scan_cons, hend, Option.bind_some, Option.map_map]
  rfl

theorem scan_writeText (s : Option String) (cs : List Char) :
    scan ((writeText s).toList ++ cs) .between [] = (scan cs .between []).map (.text s :: ·) := by
  cases s with
  | none =>
    have h : scan ((writeText none).toList ++ cs) .between [] = scan cs .between [.text none] := by
      simp [writeText, scan, Scan.step, Scan.start, isSpace, hexValue?, decodeUnits]
    rw [h, scan_done]
    rfl
  | some s => exact scan_quote s cs

/-! ## Whole numbers -/

/-- A number that goes on with digits to the end. -/
theorem scan_digits {digits : List Char} (h : ∀ d ∈ digits, d.isDigit) (seen : List Char) :
    scan digits (.number .whole seen) [] = some [.number (String.ofList (seen.reverse ++ digits))] := by
  induction digits generalizing seen with
  | nil => simp [scan, Scan.finish, NumberPart.isComplete]
  | cons d digits ih =>
    have hstep : Scan.step (.number .whole seen) d = some ([], .number .whole (d :: seen)) := by
      simp [Scan.step, NumberPart.next?, h d List.mem_cons_self]
    rw [scan_cons, hstep, Option.bind_some, ih fun c hc => h c (List.mem_cons_of_mem d hc)]
    simp

theorem isDigit_toDigits {n : Nat} {d : Char} (h : d ∈ Nat.toDigits 10 n) : d.isDigit :=
  Nat.isDigit_of_mem_toDigits (by decide) (by decide) h

/-- A number other than zero is not written with a leading zero. -/
theorem toDigits_eq_cons {n : Nat} (h : n ≠ 0) : ∃ d digits, Nat.toDigits 10 n = d :: digits ∧ d ≠ '0' := by
  induction n using Nat.strongRecOn with
  | ind n ih =>
    by_cases hlt : n < 10
    · have hdigit : ∀ m < 10, m ≠ 0 → m.digitChar ≠ '0' := by decide
      exact ⟨n.digitChar, [], Nat.toDigits_of_lt_base hlt, hdigit n hlt h⟩
    · obtain ⟨d, digits, hdigits, hd⟩ := ih (n / 10) (by omega) (by omega)
      refine ⟨d, digits ++ [(n % 10).digitChar], ?_, hd⟩
      rw [Nat.toDigits_of_base_le (by decide) (by omega), hdigits]
      rfl

/-- After the sign of a number, or without one. -/
theorem scan_toDigits {n : Nat} {state : Scan} {seen : List Char}
    (hzero : state.step '0' = some ([], .number .zero ('0' :: seen)))
    (hdigit : ∀ d : Char, d.isDigit → d ≠ '0' → state.step d = some ([], .number .whole (d :: seen))) :
    scan (Nat.toDigits 10 n) state [] = some [.number (String.ofList (seen.reverse ++ Nat.toDigits 10 n))] := by
  by_cases hn : n = 0
  · subst hn
    rw [Nat.toDigits_zero, scan_cons, hzero]
    simp [scan, Scan.finish, NumberPart.isComplete]
  · obtain ⟨d, digits, hdigits, hd⟩ := toDigits_eq_cons hn
    have hall : ∀ c ∈ d :: digits, c.isDigit := fun c hc => isDigit_toDigits (hdigits ▸ hc)
    rw [hdigits, scan_cons, hdigit d (hall d List.mem_cons_self) hd, Option.bind_some,
      scan_digits fun c hc => hall c (List.mem_cons_of_mem d hc)]
    simp

/-- The characters of a whole number. -/
theorem toList_toString (n : Int) :
    (toString n).toList = if n < 0 then '-' :: Nat.toDigits 10 n.natAbs else Nat.toDigits 10 n.natAbs := by
  rw [Int.toString_eq_repr]
  cases n with
  | ofNat m => simp [Int.repr, Nat.repr_eq_ofList_toDigits]
  | negSucc m =>
    have h : Int.negSucc m < 0 := Int.negSucc_lt_zero m
    simp [Int.repr, Nat.repr_eq_ofList_toDigits, h]

/-- A whole number is one token. -/
theorem tokens?_toString (n : Int) : tokens? (toString n) = some [.number (toString n)] := by
  have hstart : ∀ d : Char, d.isDigit → d ≠ '0' → Scan.step .between d = some ([], .number .whole [d]) := by
    intro d hd hne
    have hspace : isSpace d = false := by
      refine Bool.eq_false_iff.2 fun h => ?_
      rcases isSpace_cases h with rfl | rfl | rfl | rfl <;> cases hd
    simp [Scan.step, Scan.start.eq_def, hspace, hd, hne]
  have hsign : ∀ d : Char, d.isDigit → d ≠ '0' →
      Scan.step (.number .minus ['-']) d = some ([], .number .whole [d, '-']) := by
    intro d hd hne
    simp [Scan.step, NumberPart.next?, hd, hne]
  rw [tokens?, ← String.ofList_toList (s := toString n), String.toList_ofList, toList_toString]
  split
  · have hminus : Scan.step .between '-' = some ([], .number .minus ['-']) := rfl
    rw [scan_cons, hminus, Option.bind_some, scan_toDigits rfl hsign]
    rfl
  · exact scan_toDigits rfl hstart

/-! ## The spelling of a value -/

mutual

/-- The tokens of a value. -/
def spelling : Json → List Token
  | .null => [.null]
  | .bool b => [.bool b]
  | .number lexeme => [.number lexeme]
  | .text s => [.text s]
  | .array items => .openArray :: (spellItems items ++ [.closeArray])
  | .object members => .openObject :: (spellMembers members ++ [.closeObject])

/-- The tokens of the items of an array. -/
def spellItems : List Json → List Token
  | [] => []
  | [j] => spelling j
  | j :: js => spelling j ++ .comma :: spellItems js

/-- The tokens of the members of an object. -/
def spellMembers : List (Option String × Json) → List Token
  | [] => []
  | [(name, j)] => .text name :: .colon :: spelling j
  | (name, j) :: members => .text name :: .colon :: (spelling j ++ .comma :: spellMembers members)

end

mutual

/-- The numbers in a value are numbers: each is one token. -/
def Proper : Json → Prop
  | .number lexeme => tokens? lexeme = some [.number lexeme]
  | .array items => ProperItems items
  | .object members => ProperMembers members
  | _ => True

/-- The numbers in the items of an array are numbers. -/
def ProperItems : List Json → Prop
  | [] => True
  | j :: js => Proper j ∧ ProperItems js

/-- The numbers in the members of an object are numbers. -/
def ProperMembers : List (Option String × Json) → Prop
  | [] => True
  | (_, j) :: members => Proper j ∧ ProperMembers members

end

/-! ### Scanning -/

/-- A text before a token that is one character. -/
theorem scan_append_between {p r : List Char} {c : Char} {state : Scan} {ts tokens us : List Token} (hc : Separates c)
    (hstart : Scan.start c = some (tokens, .between)) (hp : scan p state [] = some ts)
    (hr : scan r .between [] = some us) : scan (p ++ c :: r) state [] = some (ts ++ (tokens ++ us)) := by
  refine scan_append hc hp ?_
  rw [scan_cons_between hstart, hr]
  rfl

mutual

/-- The tokens of a value's compact notation are its spelling. -/
theorem scan_compact : ∀ j : Json, j.Proper → scan (compact j).toList .between [] = some j.spelling
  | .null, _ => rfl
  | .bool true, _ => rfl
  | .bool false, _ => rfl
  | .number _, h => h
  | .text s, _ => by
    have h := scan_writeText s []
    rw [List.append_nil] at h
    exact h
  | .array items, h => by
    have hitems := scan_append_between (c := ']') (r := []) (by decide) rfl (scan_compactItems items h) rfl
    have htext : (compact (.array items)).toList = '[' :: ((compactItems items).toList ++ [']']) := by
      simp [compact]
    rw [htext, scan_cons_between rfl, hitems]
    rfl
  | .object members, h => by
    have hmembers := scan_append_between (c := '\x7d') (r := []) (by decide) rfl (scan_compactMembers members h) rfl
    have htext : (compact (.object members)).toList = '\x7b' :: ((compactMembers members).toList ++ ['\x7d']) := by
      simp [compact]
    rw [htext, scan_cons_between rfl, hmembers]
    rfl

theorem scan_compactItems : ∀ js : List Json, ProperItems js →
    scan (compactItems js).toList .between [] = some (spellItems js)
  | [], _ => rfl
  | [j], h => scan_compact j h.1
  | j :: k :: js, h => by
    have hrest := scan_compactItems (k :: js) h.2
    have hitem := scan_append_between (c := ',') (by decide) rfl (scan_compact j h.1) hrest
    have htext : (compactItems (j :: k :: js)).toList =
        (compact j).toList ++ ',' :: (compactItems (k :: js)).toList := by
      simp [compactItems]
    rw [htext, hitem]
    rfl

theorem scan_compactMembers : ∀ members : List (Option String × Json), ProperMembers members →
    scan (compactMembers members).toList .between [] = some (spellMembers members)
  | [], _ => rfl
  | [(name, j)], h => by
    have htext : (compactMembers [(name, j)]).toList = (writeText name).toList ++ ':' :: (compact j).toList := by
      simp [compactMembers]
    rw [htext, scan_writeText, scan_cons_between rfl, scan_compact j h.1]
    rfl
  | (name, j) :: m :: members, h => by
    have hrest := scan_compactMembers (m :: members) h.2
    have hvalue := scan_append_between (c := ',') (by decide) rfl (scan_compact j h.1) hrest
    have htext : (compactMembers ((name, j) :: m :: members)).toList =
        (writeText name).toList ++ ':' :: ((compact j).toList ++ ',' :: (compactMembers (m :: members)).toList) := by
      simp [compactMembers]
    rw [htext, scan_writeText, scan_cons_between rfl, hvalue]
    rfl

end

/-! ### Reading -/

/-- A token that fits. -/
theorem foldlM_cons_of_step {reader next : Reader} {token : Token} (h : reader.step token = some next)
    (rest : List Token) : (token :: rest).foldlM Reader.step reader = rest.foldlM Reader.step next := by
  rw [List.foldlM_cons, h]
  rfl

/-- The first item of an array is read as any other: it begins with a token that closes no array. -/
theorem foldlM_firstItem (j : Json) (rest : List Token) (around : List OpenContainer) :
    (j.spelling ++ rest).foldlM Reader.step (.firstItem around) =
      (j.spelling ++ rest).foldlM Reader.step (.value (.array [] :: around)) := by
  cases j <;> rfl

theorem spellItems_cons (j k : Json) (js : List Json) :
    spellItems (j :: k :: js) = j.spelling ++ .comma :: spellItems (k :: js) :=
  rfl

theorem spellMembers_cons (name : Option String) (j : Json) (m : Option String × Json)
    (members : List (Option String × Json)) :
    spellMembers ((name, j) :: m :: members) =
      .text name :: .colon :: (j.spelling ++ .comma :: spellMembers (m :: members)) :=
  rfl

/-- Some items begin with the first of them. -/
theorem spellItems_eq_append (j : Json) (js : List Json) : ∃ rest, spellItems (j :: js) = j.spelling ++ rest := by
  cases js with
  | nil => exact ⟨[], (List.append_nil _).symm⟩
  | cons k js => exact ⟨_, spellItems_cons j k js⟩

mutual

/-- The spelling of a value leads to the place after it. -/
theorem foldlM_spelling : ∀ (j : Json) (around : List OpenContainer) (rest : List Token),
    (j.spelling ++ rest).foldlM Reader.step (.value around) = rest.foldlM Reader.step (Reader.resume j around)
  | .null, _, _ => rfl
  | .bool _, _, _ => rfl
  | .number _, _, _ => rfl
  | .text _, _, _ => rfl
  | .array [], _, _ => rfl
  | .array (j :: js), around, rest => by
    have hitems := foldlM_spellItems (j :: js) (List.cons_ne_nil j js) [] around rest
    obtain ⟨others, hothers⟩ := spellItems_eq_append j js
    rw [hothers, List.append_assoc, ← foldlM_firstItem, ← List.append_assoc, ← hothers] at hitems
    rw [spelling, List.cons_append, List.append_assoc, foldlM_cons_of_step rfl]
    exact hitems
  | .object [], _, _ => rfl
  | .object ((name, j) :: members), around, rest => by
    rw [spelling, List.cons_append, List.append_assoc, foldlM_cons_of_step rfl]
    -- only a brace that closes tells the first name from the others
    have hfirst : ∀ others, (spellMembers ((name, j) :: members) ++ others).foldlM Reader.step (.firstName around) =
        (spellMembers ((name, j) :: members) ++ others).foldlM Reader.step (.nextName [] around) := by
      cases members <;> exact fun _ => rfl
    rw [hfirst]
    exact foldlM_spellMembers ((name, j) :: members) (List.cons_ne_nil _ _) [] around rest

/-- The items of an array, after those in `done`. -/
theorem foldlM_spellItems : ∀ js : List Json, js ≠ [] →
    ∀ (done : List Json) (around : List OpenContainer) (rest : List Token),
      (spellItems js ++ .closeArray :: rest).foldlM Reader.step (.value (.array done :: around)) =
        rest.foldlM Reader.step (Reader.resume (.array (done.reverse ++ js)) around)
  | [], h, _, _, _ => absurd rfl h
  | [j], _, done, around, rest => by
    rw [spellItems, foldlM_spelling j, Reader.resume, foldlM_cons_of_step rfl, List.reverse_cons]
  | j :: k :: js, _, done, around, rest => by
    rw [spellItems_cons, List.append_assoc, foldlM_spelling j, Reader.resume, List.cons_append,
      foldlM_cons_of_step rfl, foldlM_spellItems (k :: js) (List.cons_ne_nil k js), List.reverse_cons,
      List.append_assoc]
    rfl

/-- The members of an object, after those in `done`. -/
theorem foldlM_spellMembers : ∀ members : List (Option String × Json), members ≠ [] →
    ∀ (done : List (Option String × Json)) (around : List OpenContainer) (rest : List Token),
      (spellMembers members ++ .closeObject :: rest).foldlM Reader.step (.nextName done around) =
        rest.foldlM Reader.step (Reader.resume (.object (done.reverse ++ members)) around)
  | [], h, _, _, _ => absurd rfl h
  | [(name, j)], _, done, around, rest => by
    rw [spellMembers, List.cons_append, foldlM_cons_of_step rfl, List.cons_append, foldlM_cons_of_step rfl,
      foldlM_spelling j, Reader.resume, foldlM_cons_of_step rfl, List.reverse_cons]
  | (name, j) :: m :: members, _, done, around, rest => by
    rw [spellMembers_cons, List.cons_append, foldlM_cons_of_step rfl, List.cons_append, foldlM_cons_of_step rfl,
      List.append_assoc, foldlM_spelling j, Reader.resume, List.cons_append, foldlM_cons_of_step rfl,
      foldlM_spellMembers (m :: members) (List.cons_ne_nil m members), List.reverse_cons, List.append_assoc]
    rfl

end

/-- **What is written is read back.** -/
theorem parse?_compact {j : Json} (h : j.Proper) : parse? j.compact = some j := by
  have hread := foldlM_spelling j [] []
  rw [List.append_nil] at hread
  have htokens : tokens? j.compact = some j.spelling := scan_compact j h
  rw [parse?, htokens]
  simp [ofTokens?, hread, Reader.resume, Reader.result?]

end Treewalk.Json
