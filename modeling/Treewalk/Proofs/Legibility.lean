import Treewalk.Proofs.Resemblance
import Treewalk.Proofs.RoundTrip
import Treewalk.Value.Concrete

/-!
# The text of a value tells the value

Data that looks the same is the same. Every text is read from the left: whatever follows it, a text that begins with
that of a value tells the value and where its text ends.

* A run of characters of one kind ends where the kind changes (`append_cancel`). Integers have no other end, so what
  follows one must not go on with it (`Stops`); brackets and separators do not.
* A character inside quotes is one of three forms, and the text of each tells the character (`escaped_cancel`). It is
  never a quote, so a quoted string ends at the next quote (`flatMap_escaped_cancel`).
* The first character tells the type of the value (`sameType_of_spelled`), and the items of a list or dictionary are
  told one after the other (`spelled_cancel`).

It does not matter which characters are written by their code points, as long as the quote, the backslash and the other
short forms are kept: `Value.spelled` is the text of a value for any choice of them. Together: **data that looks the
same is equal** (`display_unambiguous`).
-/

namespace Treewalk

/-! ## Runs of characters -/

section Runs

/-- Two texts that begin with all that they have of one kind of character. -/
theorem append_cancel {p : Char → Bool} {as bs later later' : List Char} (has : ∀ c ∈ as, p c) (hbs : ∀ c ∈ bs, p c)
    (hlater : later.takeWhile p = []) (hlater' : later'.takeWhile p = []) (h : as ++ later = bs ++ later') :
    as = bs ∧ later = later' := by
  have htake := congrArg (List.takeWhile p) h
  rw [List.takeWhile_append_of_pos has, List.takeWhile_append_of_pos hbs, hlater, hlater', List.append_nil,
    List.append_nil] at htake
  subst htake
  exact ⟨rfl, List.append_cancel_left h⟩

end Runs

/-! ## Characters between quotes -/

section Quoted

/-- The characters with a short form, and what stands for them after a backslash. -/
def shortForms : List (Char × Char) :=
  [('"', '"'), ('\\', '\\'), ('\n', 'n'), ('\r', 'r'), ('\t', 't'), ('\x00', '0')]

/-- A character as it stands between quotes, where `graphic` tells which characters stand for themselves. -/
def escaped (graphic : Char → Bool) (c : Char) : List Char :=
  match shortForms.lookup c with
  | some s => ['\\', s]
  | none => if graphic c then [c] else '\\' :: 'u' :: '\x7b' :: (Nat.toDigits 16 c.toNat ++ ['\x7d'])

theorem toList_escapeChar (c : Char) : (Text.escapeChar c).toList = escaped Text.isGraphic c := by
  unfold Text.escapeChar
  split
  · rfl
  · rfl
  · rfl
  · rfl
  · rfl
  · rfl
  · next h₁ h₂ h₃ h₄ h₅ h₆ =>
    have hlong : shortForms.lookup c = none := by
      rw [List.lookup_eq_none_iff]
      simp only [shortForms, List.forall_mem_cons, bne_iff_ne]
      exact ⟨h₁, h₂, h₃, h₄, h₅, h₆, nofun⟩
    rw [escaped, hlong]
    by_cases hg : Text.isGraphic c
    · simp [hg, Char.toString]
    · simp [hg, Text.escapeCodePoint, Text.hexDigits]

/-- The three forms of a character between quotes. -/
theorem escaped_cases (graphic : Char → Bool) (c : Char) :
    (∃ s, (c, s) ∈ shortForms ∧ escaped graphic c = ['\\', s]) ∨
    escaped graphic c = '\\' :: 'u' :: '\x7b' :: (Nat.toDigits 16 c.toNat ++ ['\x7d']) ∨
    (c ≠ '\\' ∧ c ≠ '"' ∧ escaped graphic c = [c]) := by
  cases h : shortForms.lookup c with
  | some s =>
    obtain ⟨before, after, hforms, -⟩ := List.lookup_eq_some_iff.1 h
    refine .inl ⟨s, by rw [hforms]; simp, ?_⟩
    rw [escaped, h]
  | none =>
    by_cases hg : graphic c
    · refine .inr (.inr ⟨?_, ?_, by rw [escaped, h]; simp [hg]⟩) <;> rintro rfl <;> cases h
    · exact .inr (.inl (by rw [escaped, h]; simp [hg]))

theorem shortForms_inj : ∀ p ∈ shortForms, ∀ q ∈ shortForms, p.2 = q.2 → p.1 = q.1 := by
  decide

theorem shortForms_ne_u : ∀ p ∈ shortForms, p.2 ≠ 'u' := by
  decide

theorem digitChar_inj : ∀ m < 16, ∀ n < 16, m.digitChar = n.digitChar → m = n := by
  decide

theorem toDigits_of_not_lt {n : Nat} (h : ¬n < 16) :
    Nat.toDigits 16 n = Nat.toDigits 16 (n / 16) ++ [(n % 16).digitChar] :=
  Nat.toDigits_of_base_le (by decide) (Nat.not_lt.1 h)

theorem ne_brace_of_mem_toDigits {n : Nat} {d : Char} (h : d ∈ Nat.toDigits 16 n) : (d != '\x7d') = true := by
  have hdigit : ∀ n < 16, (n.digitChar != '\x7d') = true := by decide
  induction n using Nat.strongRecOn with
  | ind n ih =>
    by_cases hn : n < 16
    · rw [Nat.toDigits_of_lt_base hn, List.mem_singleton] at h
      exact h ▸ hdigit n hn
    · rw [toDigits_of_not_lt hn, List.mem_append, List.mem_singleton] at h
      rcases h with h | h
      · exact ih (n / 16) (by omega) h
      · exact h ▸ hdigit (n % 16) (by omega)

/-- Hexadecimal digits tell the number. -/
theorem toDigits_inj {m n : Nat} (h : Nat.toDigits 16 m = Nat.toDigits 16 n) : m = n := by
  induction m using Nat.strongRecOn generalizing n with
  | ind m ih =>
    -- a number of one digit is none of more, since those have digits before the last
    by_cases hm : m < 16 <;> by_cases hn : n < 16
    · rw [Nat.toDigits_of_lt_base hm, Nat.toDigits_of_lt_base hn, List.singleton_inj] at h
      exact digitChar_inj m hm n hn h
    · rw [Nat.toDigits_of_lt_base hm, toDigits_of_not_lt hn] at h
      exact absurd (List.append_inj' (show [] ++ [m.digitChar] = _ from h) rfl).1.symm Nat.toDigits_ne_nil
    · rw [Nat.toDigits_of_lt_base hn, toDigits_of_not_lt hm] at h
      exact absurd (List.append_inj' (show _ = [] ++ [n.digitChar] from h) rfl).1 Nat.toDigits_ne_nil
    · rw [toDigits_of_not_lt hm, toDigits_of_not_lt hn] at h
      obtain ⟨hinit, hlast⟩ := List.append_inj' h rfl
      have hquot := ih (m / 16) (by omega) hinit
      have hrem := digitChar_inj (m % 16) (by omega) (n % 16) (by omega) (List.singleton_inj.1 hlast)
      omega

variable {graphic : Char → Bool}

/-- A character between quotes is told whatever follows it. -/
theorem escaped_cancel {c d : Char} {later later' : List Char}
    (h : escaped graphic c ++ later = escaped graphic d ++ later') : c = d ∧ later = later' := by
  rcases escaped_cases graphic c with ⟨s, hs, hc⟩ | hc | ⟨hc₁, -, hc⟩ <;>
    rcases escaped_cases graphic d with ⟨t, ht, hd⟩ | hd | ⟨hd₁, -, hd⟩ <;>
    rw [hc, hd] at h <;> simp only [List.cons_append, List.nil_append, List.cons.injEq, true_and] at h
  · exact ⟨shortForms_inj _ hs _ ht h.1, h.2⟩
  · exact absurd h.1 (shortForms_ne_u _ hs)
  · exact absurd h.1.symm hd₁
  · exact absurd h.1.symm (shortForms_ne_u _ ht)
  · rw [List.append_assoc, List.append_assoc] at h
    obtain ⟨hdigits, hlater⟩ := append_cancel (p := (· != '\x7d')) (fun _ => ne_brace_of_mem_toDigits)
      (fun _ => ne_brace_of_mem_toDigits) rfl rfl h
    exact ⟨Char.toNat_inj.1 (toDigits_inj hdigits), List.cons.inj hlater |>.2⟩
  · exact absurd h.1.symm hd₁
  · exact absurd h.1 hc₁
  · exact absurd h.1 hc₁
  · exact h

theorem escaped_eq_cons (graphic : Char → Bool) (c : Char) : ∃ d ds, escaped graphic c = d :: ds ∧ d ≠ '"' := by
  rcases escaped_cases graphic c with ⟨s, -, hc⟩ | hc | ⟨-, hquote, hc⟩
  · exact ⟨_, _, hc, by decide⟩
  · exact ⟨_, _, hc, by decide⟩
  · exact ⟨_, _, hc, hquote⟩

/-- The text between quotes ends at the first quote that is not part of a character. -/
theorem flatMap_escaped_cancel : ∀ {cs ds later later' : List Char},
    cs.flatMap (escaped graphic) ++ '"' :: later = ds.flatMap (escaped graphic) ++ '"' :: later' →
      cs = ds ∧ later = later'
  | [], [], _, _, h => ⟨rfl, (List.cons.inj h).2⟩
  | [], d :: ds, _, _, h => by
    obtain ⟨e, es, hd, hne⟩ := escaped_eq_cons graphic d
    rw [List.flatMap_cons, hd] at h
    exact absurd (List.cons.inj h).1.symm hne
  | c :: cs, [], _, _, h => by
    obtain ⟨e, es, hc, hne⟩ := escaped_eq_cons graphic c
    rw [List.flatMap_cons, hc] at h
    exact absurd (List.cons.inj h).1 hne
  | c :: cs, d :: ds, _, _, h => by
    rw [List.flatMap_cons, List.flatMap_cons, List.append_assoc, List.append_assoc] at h
    obtain ⟨rfl, hrest⟩ := escaped_cancel h
    obtain ⟨rfl, hlater⟩ := flatMap_escaped_cancel hrest
    exact ⟨rfl, hlater⟩

end Quoted

/-! ## The text of a value -/

section Spelling

mutual

/-- The characters of a value's text, where `graphic` tells which characters stand for themselves between quotes. -/
def Value.spelled (graphic : Char → Bool) : Value → List Char
  | .unit => ['(', ')']
  | .int n => (displayInt n).toList
  | .bool b => (displayBool b).toList
  | .str s => '"' :: (s.toList.flatMap (escaped graphic) ++ ['"'])
  | .list [] => ['[', ']']
  | .list (v :: vs) => '[' :: (spelled graphic v ++ spelledItems graphic vs)
  | .dict [] => ['\x7b', '\x7d']
  | .dict ((k, v) :: ps) => '\x7b' :: (spelled graphic k ++ ':' :: (spelled graphic v ++ spelledPairs graphic ps))
  | .closure id self params body env => (Value.closure id self params body env).display.toList
  | .primitive builtin args => (Value.primitive builtin args).display.toList

/-- The further items of a list, to its end. -/
def Value.spelledItems (graphic : Char → Bool) : List Value → List Char
  | [] => [']']
  | v :: vs => ';' :: ' ' :: (spelled graphic v ++ spelledItems graphic vs)

/-- The further pairs of a dictionary, to its end. -/
def Value.spelledPairs (graphic : Char → Bool) : List (Value × Value) → List Char
  | [] => ['\x7d']
  | (k, v) :: ps => ',' :: ' ' :: (spelled graphic k ++ ':' :: (spelled graphic v ++ spelledPairs graphic ps))

end

namespace Value

mutual

/-- The text of a value is the one in which graphic characters stand for themselves. -/
theorem toList_display : ∀ v : Value, v.display.toList = v.spelled Text.isGraphic
  | .unit => rfl
  | .int _ => rfl
  | .bool _ => rfl
  | .str s => by
    have hchars : s.toList.flatMap (escaped Text.isGraphic) = (s.toList.map Text.escapeChar).flatMap String.toList := by
      rw [List.flatMap_map, funext toList_escapeChar]
    simp [display, spelled, Text.quote, hchars, String.toList_join]
  | .list [] => rfl
  | .list (v :: vs) => by
    have hitems := toList_displayItems vs ("[" ++ v.display)
    simpa [display, spelled, toList_display v] using hitems
  | .dict [] => rfl
  | .dict ((k, v) :: ps) => by
    have hpairs := toList_displayPairs ps ("\x7b" ++ k.display ++ ":" ++ v.display)
    simpa [display, spelled, toList_display k, toList_display v] using hpairs
  | .closure _ _ _ _ _ => rfl
  | .primitive _ _ => rfl

theorem toList_displayItems : ∀ (vs : List Value) (text : String),
    (displayItems vs text).toList ++ [']'] = text.toList ++ spelledItems Text.isGraphic vs
  | [], _ => rfl
  | v :: vs, text => by
    rw [displayItems, toList_displayItems vs]
    simp [spelledItems, toList_display v]

theorem toList_displayPairs : ∀ (ps : List (Value × Value)) (text : String),
    (displayPairs ps text).toList ++ ['\x7d'] = text.toList ++ spelledPairs Text.isGraphic ps
  | [], _ => rfl
  | (k, v) :: ps, text => by
    rw [displayPairs, toList_displayPairs ps]
    simp [spelledPairs, toList_display k, toList_display v]

end

end Value

end Spelling

/-! ## Reading a value back -/

section Reading

/-- Whether a character can stand in an integer. -/
def isNumeral (c : Char) : Bool :=
  c == '-' || c.isDigit

/-- A text that does not go on with an integer before it. -/
def Stops (later : List Char) : Prop :=
  later.takeWhile isNumeral = []

/-- The type of value that a character begins. -/
def leads (c : Char) : Option String :=
  if isNumeral c then some "int"
  else match c with
    | '(' => some "unit"
    | 't' | 'f' => some "bool"
    | '"' => some "string"
    | '[' => some "list"
    | '\x7b' => some "dict"
    | _ => none

theorem isNumeral_of_mem_displayInt {n : Int64} {c : Char} (h : c ∈ (displayInt n).toList) : isNumeral c = true := by
  have hdigits : ∀ c ∈ Nat.toDigits 10 n.toInt.natAbs, isNumeral c = true := fun c hc => by
    rw [isNumeral, Json.isDigit_toDigits hc, Bool.or_true]
  rw [displayInt, Json.toList_toString] at h
  split at h
  · rcases List.mem_cons.1 h with rfl | h
    · rfl
    · exact hdigits c h
  · exact hdigits c h

theorem displayInt_inj {m n : Int64} (h : (displayInt m).toList = (displayInt n).toList) : m = n := by
  have hread := Codec.int64OfLexeme?_toString n
  rw [← displayInt, ← String.toList_inj.1 h, displayInt, Codec.int64OfLexeme?_toString] at hread
  exact Option.some.inj hread

namespace Value

variable {graphic : Char → Bool}

/-- The first character of a value tells its type. -/
theorem spelled_eq_cons {v : Value} (hv : v.isData = true) (graphic : Char → Bool) :
    ∃ c cs, v.spelled graphic = c :: cs ∧ leads c = some v.typeName := by
  cases v with
  | unit => exact ⟨_, _, rfl, rfl⟩
  | int n =>
    have hne : (displayInt n).toList ≠ [] := by
      rw [displayInt, Json.toList_toString]
      split
      · exact List.cons_ne_nil _ _
      · exact Nat.toDigits_ne_nil
    obtain ⟨c, cs, hcs⟩ := List.exists_cons_of_ne_nil hne
    exact ⟨c, cs, hcs, if_pos (isNumeral_of_mem_displayInt (hcs ▸ List.mem_cons_self))⟩
  | bool b => cases b <;> exact ⟨_, _, rfl, rfl⟩
  | str s => exact ⟨_, _, rfl, rfl⟩
  | list vs => cases vs <;> exact ⟨_, _, rfl, rfl⟩
  | dict ps => cases ps <;> exact ⟨_, _, rfl, rfl⟩
  | closure | primitive => cases hv

/-- Data of one type. -/
inductive SameType : Value → Value → Prop
  | unit : SameType .unit .unit
  | int (m n : Int64) : SameType (.int m) (.int n)
  | bool (p q : Bool) : SameType (.bool p) (.bool q)
  | str (s t : String) : SameType (.str s) (.str t)
  | list (vs ws : List Value) : SameType (.list vs) (.list ws)
  | dict (ps qs : List (Value × Value)) : SameType (.dict ps) (.dict qs)

theorem sameType_of_spelled {v w : Value} {later later' : List Char} (hv : v.isData = true) (hw : w.isData = true)
    (h : v.spelled graphic ++ later = w.spelled graphic ++ later') : SameType v w := by
  obtain ⟨c, cs, hc, hleads⟩ := spelled_eq_cons hv graphic
  obtain ⟨d, ds, hd, hleads'⟩ := spelled_eq_cons hw graphic
  rw [hc, hd] at h
  rw [(List.cons.inj h).1, hleads'] at hleads
  cases v with
  | closure | primitive => cases hv
  | _ =>
    cases w with
    | closure | primitive => cases hw
    | _ => first | constructor | simp [typeName] at hleads

/-- What begins with a value does not begin with a closing bracket. -/
theorem spelled_append_ne_cons {v : Value} (hv : v.isData = true) {c : Char} (hc : leads c = none)
    (later cs : List Char) : v.spelled graphic ++ later ≠ c :: cs := by
  obtain ⟨d, ds, hd, hleads⟩ := spelled_eq_cons hv graphic
  rw [hd]
  rintro h
  rw [(List.cons.inj h).1, hc] at hleads
  cases hleads

theorem stops_nil : Stops [] :=
  rfl

theorem stops_colon (later : List Char) : Stops (':' :: later) :=
  rfl

theorem stops_spelledItems (vs : List Value) (later : List Char) : Stops (spelledItems graphic vs ++ later) := by
  cases vs <;> rfl

theorem stops_spelledPairs (ps : List (Value × Value)) (later : List Char) :
    Stops (spelledPairs graphic ps ++ later) := by
  cases ps <;> rfl

theorem spelled_list_append (v : Value) (vs : List Value) (later : List Char) :
    (Value.list (v :: vs)).spelled graphic ++ later =
      '[' :: (v.spelled graphic ++ (spelledItems graphic vs ++ later)) := by
  simp [spelled]

theorem spelledItems_append (v : Value) (vs : List Value) (later : List Char) :
    spelledItems graphic (v :: vs) ++ later =
      ';' :: ' ' :: (v.spelled graphic ++ (spelledItems graphic vs ++ later)) := by
  simp [spelledItems]

theorem spelled_dict_append (k v : Value) (ps : List (Value × Value)) (later : List Char) :
    (Value.dict ((k, v) :: ps)).spelled graphic ++ later =
      '\x7b' :: (k.spelled graphic ++ ':' :: (v.spelled graphic ++ (spelledPairs graphic ps ++ later))) := by
  simp [spelled]

theorem spelledPairs_append (k v : Value) (ps : List (Value × Value)) (later : List Char) :
    spelledPairs graphic ((k, v) :: ps) ++ later =
      ',' :: ' ' :: (k.spelled graphic ++ ':' :: (v.spelled graphic ++ (spelledPairs graphic ps ++ later))) := by
  simp [spelledPairs]

mutual

/-- The text of a value is told whatever follows it, if that does not go on with an integer. -/
theorem spelled_cancel : ∀ {v w : Value} {later later' : List Char}, v.isData = true → w.isData = true →
    Stops later → Stops later' → v.spelled graphic ++ later = w.spelled graphic ++ later' → v = w ∧ later = later'
  | .unit, _, _, _, hv, hw, _, _, h => by
    cases sameType_of_spelled hv hw h with
    | unit => exact ⟨rfl, by simpa [spelled] using h⟩
  | .int m, _, _, _, hv, hw, hl, hl', h => by
    cases sameType_of_spelled hv hw h with
    | int m n =>
      obtain ⟨hint, hlater⟩ := append_cancel (fun _ => isNumeral_of_mem_displayInt)
        (fun _ => isNumeral_of_mem_displayInt) hl hl' h
      exact ⟨congrArg Value.int (displayInt_inj hint), hlater⟩
  | .bool p, _, _, _, hv, hw, _, _, h => by
    cases sameType_of_spelled hv hw h with
    | bool p q => cases p <;> cases q <;> simp [spelled, displayBool] at h <;> exact ⟨rfl, h⟩
  | .str s, _, _, _, hv, hw, _, _, h => by
    cases sameType_of_spelled hv hw h with
    | str s t =>
      rw [spelled, spelled, List.cons_append, List.cons_append, List.append_assoc, List.append_assoc] at h
      obtain ⟨hchars, hlater⟩ := flatMap_escaped_cancel (List.cons.inj h).2
      exact ⟨congrArg Value.str (String.toList_inj.1 hchars), hlater⟩
  | .list [], _, _, _, hv, hw, _, _, h => by
    cases sameType_of_spelled hv hw h with
    | list _ ws =>
      cases ws with
      | nil => exact ⟨rfl, by simpa [spelled] using h⟩
      | cons w ws =>
        rw [spelled_list_append] at h
        exact absurd (List.cons.inj h).2.symm (spelled_append_ne_cons (Bool.and_eq_true_iff.1 hw).1 rfl _ _)
  | .list (v :: vs), _, _, _, hv, hw, _, _, h => by
    cases sameType_of_spelled hv hw h with
    | list _ ws =>
      obtain ⟨hv, hvs⟩ := Bool.and_eq_true_iff.1 hv
      rw [spelled_list_append] at h
      cases ws with
      | nil => exact absurd (List.cons.inj h).2 (spelled_append_ne_cons hv rfl _ _)
      | cons w ws =>
        obtain ⟨hw, hws⟩ := Bool.and_eq_true_iff.1 hw
        rw [spelled_list_append] at h
        obtain ⟨rfl, hitems⟩ := spelled_cancel hv hw (stops_spelledItems vs _) (stops_spelledItems ws _)
          (List.cons.inj h).2
        obtain ⟨rfl, hlater⟩ := spelledItems_cancel hvs hws hitems
        exact ⟨rfl, hlater⟩
  | .dict [], _, _, _, hv, hw, _, _, h => by
    cases sameType_of_spelled hv hw h with
    | dict _ qs =>
      cases qs with
      | nil => exact ⟨rfl, by simpa [spelled] using h⟩
      | cons q qs =>
        obtain ⟨hq, -⟩ := Bool.and_eq_true_iff.1 hw
        rw [spelled_dict_append] at h
        exact absurd (List.cons.inj h).2.symm (spelled_append_ne_cons (Bool.and_eq_true_iff.1 hq).1 rfl _ _)
  | .dict ((k, v) :: ps), _, _, _, hv, hw, _, _, h => by
    cases sameType_of_spelled hv hw h with
    | dict _ qs =>
      obtain ⟨hp, hps⟩ := Bool.and_eq_true_iff.1 hv
      obtain ⟨hk, hdv⟩ := Bool.and_eq_true_iff.1 hp
      rw [spelled_dict_append] at h
      cases qs with
      | nil => exact absurd (List.cons.inj h).2 (spelled_append_ne_cons hk rfl _ _)
      | cons q qs =>
        obtain ⟨l, w⟩ := q
        obtain ⟨hq, hqs⟩ := Bool.and_eq_true_iff.1 hw
        obtain ⟨hl, hdw⟩ := Bool.and_eq_true_iff.1 hq
        rw [spelled_dict_append] at h
        obtain ⟨rfl, hvalue⟩ := spelled_cancel hk hl (stops_colon _) (stops_colon _) (List.cons.inj h).2
        obtain ⟨rfl, hpairs⟩ := spelled_cancel hdv hdw (stops_spelledPairs ps _) (stops_spelledPairs qs _)
          (List.cons.inj hvalue).2
        obtain ⟨rfl, hlater⟩ := spelledPairs_cancel hps hqs hpairs
        exact ⟨rfl, hlater⟩
  | .closure _ _ _ _ _, _, _, _, hv, _, _, _, _ => by cases hv
  | .primitive _ _, _, _, _, hv, _, _, _, _ => by cases hv

theorem spelledItems_cancel : ∀ {vs ws : List Value} {later later' : List Char}, isDataAll vs = true →
    isDataAll ws = true → spelledItems graphic vs ++ later = spelledItems graphic ws ++ later' →
      vs = ws ∧ later = later'
  | [], [], _, _, _, _, h => ⟨rfl, (List.cons.inj h).2⟩
  | [], _ :: _, _, _, _, _, h => by cases (List.cons.inj h).1
  | _ :: _, [], _, _, _, _, h => by cases (List.cons.inj h).1
  | v :: vs, w :: ws, _, _, hvs, hws, h => by
    obtain ⟨hv, hdvs⟩ := Bool.and_eq_true_iff.1 hvs
    obtain ⟨hw, hdws⟩ := Bool.and_eq_true_iff.1 hws
    rw [spelledItems_append, spelledItems_append] at h
    obtain ⟨rfl, hitems⟩ := spelled_cancel hv hw (stops_spelledItems vs _) (stops_spelledItems ws _)
      (List.cons.inj (List.cons.inj h).2).2
    obtain ⟨rfl, hlater⟩ := spelledItems_cancel hdvs hdws hitems
    exact ⟨rfl, hlater⟩

theorem spelledPairs_cancel : ∀ {ps qs : List (Value × Value)} {later later' : List Char}, isDataPairs ps = true →
    isDataPairs qs = true → spelledPairs graphic ps ++ later = spelledPairs graphic qs ++ later' →
      ps = qs ∧ later = later'
  | [], [], _, _, _, _, h => ⟨rfl, (List.cons.inj h).2⟩
  | [], _ :: _, _, _, _, _, h => by cases (List.cons.inj h).1
  | _ :: _, [], _, _, _, _, h => by cases (List.cons.inj h).1
  | (k, v) :: ps, (l, w) :: qs, _, _, hps, hqs, h => by
    obtain ⟨hp, hdps⟩ := Bool.and_eq_true_iff.1 hps
    obtain ⟨hk, hv⟩ := Bool.and_eq_true_iff.1 hp
    obtain ⟨hq, hdqs⟩ := Bool.and_eq_true_iff.1 hqs
    obtain ⟨hl, hw⟩ := Bool.and_eq_true_iff.1 hq
    rw [spelledPairs_append, spelledPairs_append] at h
    obtain ⟨rfl, hvalue⟩ := spelled_cancel hk hl (stops_colon _) (stops_colon _) (List.cons.inj (List.cons.inj h).2).2
    obtain ⟨rfl, hpairs⟩ := spelled_cancel hv hw (stops_spelledPairs ps _) (stops_spelledPairs qs _)
      (List.cons.inj hvalue).2
    obtain ⟨rfl, hlater⟩ := spelledPairs_cancel hdps hdqs hpairs
    exact ⟨rfl, hlater⟩

end

/-- A whole text tells the value. -/
theorem spelled_inj {v w : Value} (hv : v.isData = true) (hw : w.isData = true)
    (h : v.spelled graphic = w.spelled graphic) : v = w :=
  (spelled_cancel hv hw stops_nil stops_nil (congrArg (· ++ []) h)).1

end Value

/-- **Data that looks the same is equal**, whichever characters are written by their code points. -/
theorem display_unambiguous {v w : Value} (hv : v.isData = true) (hw : w.isData = true) :
    (v.display = w.display → (v == w) = true) ∧
      ∀ graphic : Char → Bool, v.spelled graphic = w.spelled graphic → (v == w) = true := by
  have hspelled : ∀ graphic : Char → Bool, v.spelled graphic = w.spelled graphic → (v == w) = true := by
    intro graphic h
    rw [Value.spelled_inj hv hw h]
    exact Value.beq_refl w
  refine ⟨fun h => hspelled Text.isGraphic ?_, hspelled⟩
  rw [← Value.toList_display, ← Value.toList_display, h]

/-- A string with a quoted separator in it does not look like two strings. -/
theorem display_unambiguous_separator :
    (Value.list [.str "a\"; \"b"]).isData = true ∧ (Value.list [.str "a", .str "b"]).isData = true ∧
      (Value.list [.str "a\"; \"b"]).display ≠ (Value.list [.str "a", .str "b"]).display := by
  refine ⟨rfl, rfl, fun h => ?_⟩
  have hequal := (display_unambiguous rfl rfl).1 h
  cases hequal

end Reading

end Treewalk
