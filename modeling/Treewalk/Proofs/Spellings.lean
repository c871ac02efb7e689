import Mathlib.Data.List.Forall2
import Mathlib.Logic.Relation
import Treewalk.Proofs.RoundTrip

/-!
# The spellings of an expression

An encoded expression may be spelled in several ways, and the differences may stand at any place that the decoder looks
at. `Child` lists these places: what is read at a place is all that the whole depends on (`Child.read_eq`). `Respells`
lists the changes that keep what a text decodes to, and `Flawed` the mistakes that keep it from decoding, each at any
place. Between tokens a text may have any blanks (`Respelling.blanks`).

**Any number of changes leaves the decoded expression as it is, and one mistake is enough for there to be none**
(`decode?_respelled`).
-/

namespace Treewalk.Codec

/-! ## Where the decoder looks -/

/-- The kinds of data that are one of several constructors. -/
inductive Part.IsVariant : Part → Prop
  | expr : IsVariant .expr
  | chain : IsVariant .chain
  | operator : IsVariant .operator
  | sign : IsVariant .sign

/-- Data of a kind may be spelled by named fields, with a wrapping around them. -/
inductive Wraps : Part → Fields → (Json → Json) → Prop
  | constructor {name : String} {fields : Fields} {build : fields.Values → Expr}
      (h : shape? name = some (.fields fields build)) :
      Wraps .expr fields fun payload => .object [(some name, payload)]
  | binding : Wraps .binding bindingFields fun payload => payload

/-- A place in the spelling of data of one kind where the decoder looks for data of another. -/
inductive Child : Part → (Json → Json) → Part → Prop
  | argument {name : String} {part : Part} {build : part.Content → Expr} (h : shape? name = some (.single part build)) :
      Child .expr (fun j => .object [(some name, j)]) part
  | member {part p : Part} {fields : Fields} {wrap : Json → Json} {name : String} (h : Wraps part fields wrap)
      (hfield : (name, p) ∈ fields) (before after : List (Option String × Json)) :
      Child part (fun j => wrap (.object (before ++ (some name, j) :: after))) p
  | item {part p : Part} {fields : Fields} {wrap : Json → Json} {name : String} {before : List Json}
      (h : Wraps part fields wrap) (hfield : fields[before.length]? = some (name, p)) (after : List Json) :
      Child part (fun j => wrap (.array (before ++ j :: after))) p
  | first (rest : Json) : Child .chain (fun j => .object [(some "Cons", .array [j, rest])]) .expr
  | rest (first : Json) : Child .chain (fun j => .object [(some "Cons", .array [first, j])]) .chain
  | key (value : Json) : Child .pair (fun j => .array [j, value]) .expr
  | value (key : Json) : Child .pair (fun j => .array [key, j]) .expr
  | element (part : Part) (before after : List Json) :
      Child (.many part) (fun j => .array (before ++ j :: after)) part

/-! ## What the decoder sees there -/

/-- The values of named fields, in either spelling. -/
def Fields.readPayload (fields : Fields) : Json → Option fields.Values
  | .object members => fields.readMembers fields.noneRead members
  | .array items => fields.readItems items
  | _ => none

section Wraps

variable {part : Part} {fields : Fields} {wrap : Json → Json}

theorem Wraps.nodup (h : Wraps part fields wrap) : (fields.map (·.1)).Nodup := by
  cases h with
  | constructor h => exact shape?_nodup h
  | binding => decide

/-- What is read in the wrapping. -/
theorem Wraps.read_eq (h : Wraps part fields wrap) :
    ∃ build : fields.Values → part.Content,
      ∀ payload, part.read (wrap payload) = (fields.readPayload payload).map build := by
  cases h with
  | constructor h =>
    rename_i build
    refine ⟨build, fun payload => ?_⟩
    rw [Part.read, h]
    cases payload <;> rfl
  | binding =>
    refine ⟨fun values => (values.1, values.2.1), fun payload => ?_⟩
    cases payload <;> simp [Part.read, Fields.readPayload]

end Wraps

/-- All that `whole` depends on is what `part` reads, and it reads nothing where `part` does not. -/
def HingesOn {α β : Type} (whole : Json → Option β) (part : Json → Option α) : Prop :=
  ∃ f : α → Option β, ∀ j, whole j = (part j).bind f

namespace HingesOn

variable {α β γ : Type} {whole : Json → Option β} {part : Json → Option α}

theorem self (part : Json → Option α) : HingesOn part part :=
  ⟨some, fun j => by cases part j <;> rfl⟩

theorem never (part : Json → Option α) : HingesOn (fun _ => (none : Option β)) part :=
  ⟨fun _ => none, fun j => by simp⟩

theorem bind (h : HingesOn whole part) (k : β → Option γ) : HingesOn (fun j => (whole j).bind k) part := by
  obtain ⟨f, hf⟩ := h
  exact ⟨fun a => (f a).bind k, fun j => by simp only [hf, Option.bind_assoc]⟩

theorem map (h : HingesOn whole part) (k : β → γ) : HingesOn (fun j => (whole j).map k) part := by
  obtain ⟨f, hf⟩ := h
  exact ⟨fun a => (f a).map k, fun j => by simp only [hf, Option.map_bind, Function.comp_def]⟩

/-- After something that is the same for all. -/
theorem after {y : Option γ} {whole : γ → Json → Option β} (h : ∀ c, HingesOn (whole c) part) :
    HingesOn (fun j => y.bind fun c => whole c j) part := by
  cases y with
  | none => exact never part
  | some c => exact h c

theorem congr (h : HingesOn whole part) {j j' : Json} (heq : part j = part j') : whole j = whole j' := by
  obtain ⟨f, hf⟩ := h
  rw [hf, hf, heq]

theorem eq_none (h : HingesOn whole part) {j : Json} (hnone : part j = none) : whole j = none := by
  obtain ⟨f, hf⟩ := h
  rw [hf, hnone, Option.bind_none]

end HingesOn

section Places

variable {fields : Fields} {p : Part} {name : String}

/-- The value of one member. -/
theorem hinges_gather (hnodup : (fields.map (·.1)).Nodup) (hfield : (name, p) ∈ fields)
    (members : List (Option String × Json)) :
    HingesOn (fun j => fields.gather ((some name, j) :: members)) p.read := by
  induction fields with
  | nil => cases hfield
  | cons field fields ih =>
    obtain ⟨hname, hnodup⟩ := List.nodup_cons.1 hnodup
    rcases List.mem_cons.1 hfield with rfl | hfield
    · simp only [Fields.gather, Fields.gather_unknown hname, occurrences_cons_self]
      refine HingesOn.bind ?_ _
      cases occurrences name members with
      | nil => exact .self p.read
      | cons k ks => exact .never p.read
    · have hne : some name ≠ some field.1 := by
        rintro heq
        cases heq
        exact hname (List.mem_map.2 ⟨_, hfield, rfl⟩)
      simp only [Fields.gather, occurrences_cons_of_ne hne]
      exact .after fun _ => (ih hnodup hfield).bind _

theorem hinges_readMembers (hnodup : (fields.map (·.1)).Nodup) (hfield : (name, p) ∈ fields)
    (before after : List (Option String × Json)) :
    HingesOn (fun j => fields.readMembers fields.noneRead (before ++ (some name, j) :: after)) p.read := by
  have hmiddle : ∀ j, (before ++ (some name, j) :: after).Perm ((some name, j) :: (before ++ after)) :=
    fun _ => List.perm_middle
  simp only [Fields.readMembers_perm hnodup (hmiddle _), Fields.readMembers_eq hnodup, Fields.named_cons]
  by_cases h : Fields.Named (before ++ after)
  · simp only [if_pos h]
    exact hinges_gather hnodup hfield (before ++ after)
  · simp only [if_neg h]
    exact .never p.read

/-- One item. -/
theorem hinges_readItems {before : List Json} (hfield : fields[before.length]? = some (name, p)) (after : List Json) :
    HingesOn (fun j => fields.readItems (before ++ j :: after)) p.read := by
  induction before generalizing fields with
  | nil => 
    cases fields with
    | nil => cases hfield
    | cons field fields =>
      cases hfield
      simp only [List.nil_append, Fields.readItems]
      exact (HingesOn.self p.read).bind _
  | cons k before ih =>
    cases fields with
    | nil => cases hfield
    | cons field fields =>
      simp only [List.cons_append, Fields.readItems]
      exact .after fun _ => (ih hfield).bind _

theorem hinges_readAll (p : Part) (before after : List Json) :
    HingesOn (fun j => p.readAll (before ++ j :: after)) p.read := by
  induction before with
  | nil =>
    simp only [List.nil_append, Part.readAll]
    exact (HingesOn.self p.read).bind _
  | cons k before ih =>
    simp only [List.cons_append, Part.readAll]
    exact .after fun _ => ih.bind _

/-- The whole hinges on every place where the decoder looks. -/
theorem Child.hinges {part : Part} {plug : Json → Json} (h : Child part plug p) :
    HingesOn (fun j => part.read (plug j)) p.read := by
  cases h with
  | argument h =>
    simp only [read_argument h]
    exact (HingesOn.self p.read).map _
  | member h hfield before after =>
    obtain ⟨build, hbuild⟩ := h.read_eq
    simp only [hbuild]
    exact (hinges_readMembers h.nodup hfield before after).map build
  | item h hfield after =>
    obtain ⟨build, hbuild⟩ := h.read_eq
    simp only [hbuild]
    exact (hinges_readItems hfield after).map build
  | first rest =>
    simp only [Part.read, if_pos]
    exact (HingesOn.self _).bind _
  | rest first =>
    simp only [Part.read, if_pos]
    exact .after fun _ => (HingesOn.self _).bind _
  | key value =>
    simp only [Part.read]
    exact (HingesOn.self _).bind _
  | value key =>
    simp only [Part.read]
    exact .after fun _ => (HingesOn.self _).bind _
  | element _ before after =>
    simp only [Part.read]
    exact hinges_readAll p before after

end Places

/-! ## Changes that do not matter -/

/-- One change at a place where the decoder looks: fields in another order, an unknown field more, the fields without
their names in the declared order, or the other spelling of a constructor that holds nothing. -/
inductive Respells : Part → Json → Json → Prop
  | reorder {part : Part} {fields : Fields} {wrap : Json → Json} {members members' : List (Option String × Json)}
      (h : Wraps part fields wrap) (hperm : members.Perm members') :
      Respells part (wrap (.object members)) (wrap (.object members'))
  | unknown {part : Part} {fields : Fields} {wrap : Json → Json} {name : String} (h : Wraps part fields wrap)
      (hname : name ∉ fields.map (·.1)) (j : Json) (before after : List (Option String × Json)) :
      Respells part (wrap (.object (before ++ after))) (wrap (.object (before ++ (some name, j) :: after)))
  | positional {part : Part} {fields : Fields} {wrap : Json → Json} {members : List (Option String × Json)}
      {items : List Json} (h : Wraps part fields wrap)
      (hitems : List.Forall₂ (fun field j => (some field.1, j) ∈ members) fields items) :
      Respells part (wrap (.object members)) (wrap (.array items))
  | expand {part : Part} (h : part.IsVariant) (name : String) :
      Respells part (.ofString name) (.object [(some name, .null)])
  | contract {part : Part} (h : part.IsVariant) (name : String) :
      Respells part (.object [(some name, .null)]) (.ofString name)
  | inside {part p : Part} {plug : Json → Json} {j j' : Json} (h : Child part plug p) (hchange : Respells p j j') :
      Respells part (plug j) (plug j')

theorem read_null (part : Part) : part.read .null = none := by
  cases part <;> simp [Part.read, bareName?]

/-- The two spellings of a constructor that holds nothing. -/
theorem read_constant {part : Part} (h : part.IsVariant) (name : String) :
    part.read (.object [(some name, .null)]) = part.read (.ofString name) := by
  cases h with
  | expr =>
    rw [Part.read, Part.read]
    cases shape? name with
    | none => rfl
    | some shape =>
      cases shape with
      | bare e => rfl
      | single part build =>
        simp only [read_null]
        rfl
      | fields fields build => rfl
  | chain => rw [Part.read, Part.read]
  | operator =>
    rw [Part.read, Part.read]
    rfl
  | sign =>
    rw [Part.read, Part.read]
    rfl

section Fields

variable {fields : Fields} {values : fields.Values} {members : List (Option String × Json)}

/-- A field that is read is the name of one member only. -/
theorem fill_eq_some {p : Part} {x : p.Content} {js : List Json} {j : Json} (h : Fields.fill p none js = some x)
    (hj : j ∈ js) : p.read j = some x := by
  match js, h with
  | [k], h => rw [List.mem_singleton.1 hj]; exact h

theorem readItems_of_gather {items : List Json}
    (hitems : List.Forall₂ (fun field j => (some field.1, j) ∈ members) fields items)
    (h : fields.gather members = some values) : fields.readItems items = some values := by
  induction hitems with
  | nil =>
    rw [Fields.readItems]
  | cons hmem _ ih =>
    rw [Fields.gather] at h
    obtain ⟨x, hx, h⟩ := Option.bind_eq_some_iff.1 h
    obtain ⟨rest, hrest, h⟩ := Option.bind_eq_some_iff.1 h
    cases h
    rw [Fields.readItems, fill_eq_some hx (mem_occurrences.2 hmem), ih hrest]
    rfl

end Fields

/-- A change keeps what is read. -/
theorem Respells.read {part : Part} {j j' : Json} (h : Respells part j j') {x : part.Content}
    (hread : part.read j = some x) : part.read j' = some x := by
  induction h with
  | reorder h hperm =>
    obtain ⟨build, hbuild⟩ := h.read_eq
    rw [hbuild, Fields.readPayload] at hread ⊢
    rw [← Fields.readMembers_perm h.nodup hperm, hread]
  | unknown h hname j before after =>
    obtain ⟨build, hbuild⟩ := h.read_eq
    rw [hbuild, Fields.readPayload] at hread ⊢
    rw [Fields.readMembers_unknown h.nodup hname, hread]
  | positional h hitems =>
    obtain ⟨build, hbuild⟩ := h.read_eq
    rw [hbuild] at hread ⊢
    obtain ⟨values, hvalues, rfl⟩ := Option.map_eq_some_iff.1 hread
    rw [Fields.readPayload, Fields.readMembers_eq h.nodup] at hvalues
    split at hvalues
    · rw [Fields.readPayload, readItems_of_gather hitems hvalues, Option.map_some]
    · cases hvalues
  | expand h name => rw [read_constant h, hread]
  | contract h name => rw [← read_constant h, hread]
  | inside h _ ih =>
    rename_i p plug j j' _
    cases hj : p.read j with
    | none => cases hread.symm.trans (h.hinges.eq_none hj)
    | some y => exact (h.hinges.congr (hj.trans (ih hj).symm)).symm.trans hread

/-! ## Mistakes -/

/-- One mistake at a place where the decoder looks: a field that is missing or repeated, a wrong number of parts, or a
constructor that is not alone in its object. -/
inductive Flawed : Part → Json → Prop
  | missing {part : Part} {fields : Fields} {wrap : Json → Json} {name : String}
      {members : List (Option String × Json)} (h : Wraps part fields wrap) (hname : name ∈ fields.map (·.1))
      (hmissing : ∀ j, (some name, j) ∉ members) : Flawed part (wrap (.object members))
  | repeated {part : Part} {fields : Fields} {wrap : Json → Json} {name : String} {j j' : Json}
      {members : List (Option String × Json)} (h : Wraps part fields wrap) (hname : name ∈ fields.map (·.1))
      (htwice : [(some name, j), (some name, j')].Sublist members) : Flawed part (wrap (.object members))
  | miscounted {part : Part} {fields : Fields} {wrap : Json → Json} {items : List Json} (h : Wraps part fields wrap)
      (hlength : items.length ≠ fields.length) : Flawed part (wrap (.array items))
  | secondKey {part : Part} {members : List (Option String × Json)} (h : part.IsVariant)
      (hlength : 2 ≤ members.length) : Flawed part (.object members)
  | cell {items : List Json} (hlength : items.length ≠ 2) : Flawed .chain (.object [(some "Cons", .array items)])
  | pair {items : List Json} (hlength : items.length ≠ 2) : Flawed .pair (.array items)
  | inside {part p : Part} {plug : Json → Json} {j : Json} (h : Child part plug p) (hflaw : Flawed p j) :
      Flawed part (plug j)

section Fields

variable {fields : Fields} {members : List (Option String × Json)}

/-- A field has to be the name of exactly one member. -/
theorem gather_eq_none {name : String} (hname : name ∈ fields.map (·.1))
    (hcount : (occurrences name members).length ≠ 1) : fields.gather members = none := by
  induction fields with
  | nil => cases hname
  | cons field fields ih =>
    rw [Fields.gather]
    rcases List.mem_cons.1 hname with rfl | hname
    · have hfill : Fields.fill field.2 none (occurrences field.1 members) = none := by
        rcases hjs : occurrences field.1 members with _ | ⟨j, _ | ⟨_, _⟩⟩
        · rfl
        · exact absurd (congrArg List.length hjs) hcount
        · rfl
      rw [hfill]
      rfl
    · rw [ih hname]
      simp

theorem readMembers_eq_none (hnodup : (fields.map (·.1)).Nodup) {name : String} (hname : name ∈ fields.map (·.1))
    (hcount : (occurrences name members).length ≠ 1) : fields.readMembers fields.noneRead members = none := by
  rw [Fields.readMembers_eq hnodup, gather_eq_none hname hcount]
  exact ite_self none

theorem readItems_eq_none {items : List Json} (hlength : items.length ≠ fields.length) :
    fields.readItems items = none := by
  induction fields generalizing items with
  | nil =>
    cases items with
    | nil => contradiction
    | cons j items => simp [Fields.readItems]
  | cons field fields ih =>
    cases items with
    | nil => simp [Fields.readItems]
    | cons j items =>
      rw [Fields.readItems, ih fun heq => hlength (congrArg Nat.succ heq)]
      simp

end Fields

/-- A constructor stands alone in its object. -/
theorem read_object_eq_none {part : Part} (h : part.IsVariant) {members : List (Option String × Json)}
    (hlength : 2 ≤ members.length) : part.read (.object members) = none := by
  match members, hlength with
  | _ :: _ :: _, _ => cases h <;> simp [Part.read, bareName?]

/-- A mistake keeps data from being read. -/
theorem Flawed.read {part : Part} {j : Json} (h : Flawed part j) : part.read j = none := by
  induction h with
  | missing h hname hmissing =>
    obtain ⟨build, hbuild⟩ := h.read_eq
    have hcount := congrArg List.length (occurrences_eq_nil hmissing)
    rw [hbuild, Fields.readPayload, readMembers_eq_none h.nodup hname (by simp [hcount]), Option.map_none]
  | repeated h hname htwice =>
    obtain ⟨build, hbuild⟩ := h.read_eq
    have hcount := two_le_length_occurrences htwice
    rw [hbuild, Fields.readPayload, readMembers_eq_none h.nodup hname (by omega), Option.map_none]
  | miscounted h hlength =>
    obtain ⟨build, hbuild⟩ := h.read_eq
    rw [hbuild, Fields.readPayload, readItems_eq_none hlength, Option.map_none]
  | secondKey h hlength => exact read_object_eq_none h hlength
  | @cell items hlength | @pair items hlength =>
    rcases items with _ | ⟨_, _ | ⟨_, _ | ⟨_, _⟩⟩⟩
    · simp [Part.read]
    · simp [Part.read]
    · exact absurd rfl hlength
    · simp [Part.read]
  | inside h _ ih => exact h.hinges.eq_none ih

end Treewalk.Codec

/-! ## Texts -/

namespace Treewalk.Json

/-- The place between `p` and `r` is a place between tokens: cut there, the text has the same tokens. -/
def Between (p r : String) : Prop :=
  ∃ ts us, tokens? p = some ts ∧ tokens? r = some us ∧ tokens? (p ++ r) = some (ts ++ us)

/-- Blanks between tokens leave the tokens as they are. -/
theorem Between.tokens?_blanks {p r ws : String} (h : Between p r) (hws : ∀ c ∈ ws.toList, isSpace c) :
    tokens? (p ++ ws ++ r) = tokens? (p ++ r) := by
  obtain ⟨ts, us, hp, hr, happend⟩ := h
  by_cases hempty : ws.toList = []
  · rw [String.toList_eq_nil_iff.1 hempty, String.append_empty]
  · rw [happend, tokens?, String.toList_append, String.toList_append]
    exact scan_blanks hws hempty hp hr

end Treewalk.Json

namespace Treewalk.Codec

/-- One change of a text: at a place where the decoder looks, or by blanks between tokens. -/
inductive Respelling : String → String → Prop
  | node {s s' : String} {j j' : Json} (hs : Json.parse? s = some j) (hs' : Json.parse? s' = some j')
      (h : Respells .expr j j') : Respelling s s'
  | blanks {p r ws : String} (h : Json.Between p r) (hws : ∀ c ∈ ws.toList, Json.isSpace c) :
      Respelling (p ++ r) (p ++ ws ++ r)

theorem decode?_of_parse? {s : String} {j : Json} (h : Json.parse? s = some j) :
    Expr.decode? s = Part.expr.read j := by
  rw [Expr.decode?, h]
  rfl

theorem Respelling.decode? {s s' : String} {e : Expr} (h : Respelling s s') (he : Expr.decode? s = some e) :
    Expr.decode? s' = some e := by
  cases h with
  | node hs hs' h =>
    rw [decode?_of_parse? hs] at he
    rw [decode?_of_parse? hs', h.read he]
  | blanks h hws =>
    rw [Expr.decode?, Json.parse?] at he ⊢
    rw [h.tokens?_blanks hws, he]

/-- **The spellings of an expression.** If a text decodes to `e`, then so does every text that comes of it by any number
of changes; and a text with a mistake in it does not decode. -/
theorem decode?_respelled {s : String} {e : Expr} (he : Expr.decode? s = some e) :
    (∀ s', Relation.ReflTransGen Respelling s s' → Expr.decode? s' = some e) ∧
      ∀ s' j, Json.parse? s' = some j → Flawed .expr j → Expr.decode? s' = none := by
  refine ⟨fun s' h => ?_, fun s' j hj h => ?_⟩
  · induction h with
    | refl => exact he
    | tail _ hchange ih => exact hchange.decode? ih
  · rw [decode?_of_parse? hj, h.read]

/-- The fields of a negation in the other order, its sign as an object and a blank after the first brace; and the
negation without an operand. -/
theorem decode?_respelled_not :
    Expr.decode? "\x7b\"Unary\":\x7b\"op\":\"Not\",\"operand\":\"Unit\"\x7d\x7d" = some (.not .unit) ∧
      Expr.decode? "\x7b \"Unary\":\x7b\"operand\":\"Unit\",\"op\":\x7b\"Not\":null\x7d\x7d\x7d" =
        some (.not .unit) ∧
      Expr.decode? "\x7b\"Unary\":\x7b\"op\":\"Not\"\x7d\x7d" = none := by
  have hunary : Wraps .expr [("op", .sign), ("operand", .expr)] fun payload => .object [(some "Unary", payload)] :=
    .constructor rfl
  have hparse : Json.parse? "\x7b\"Unary\":\x7b\"op\":\"Not\",\"operand\":\"Unit\"\x7d\x7d" =
      some (.object [(some "Unary", .object [(some "op", .ofString "Not"), (some "operand", .ofString "Unit")])]) :=
    rfl
  have he : Expr.decode? "\x7b\"Unary\":\x7b\"op\":\"Not\",\"operand\":\"Unit\"\x7d\x7d" = some (.not .unit) := by
    rw [decode?_of_parse? hparse]
    exact Expr.read_outline (.not .unit)
  have hswap : Respelling "\x7b\"Unary\":\x7b\"op\":\"Not\",\"operand\":\"Unit\"\x7d\x7d"
      "\x7b\"Unary\":\x7b\"operand\":\"Unit\",\"op\":\"Not\"\x7d\x7d" :=
    .node hparse rfl
      (.reorder hunary (.swap (some "operand", Json.ofString "Unit") (some "op", Json.ofString "Not") []))
  have hsign : Respelling "\x7b\"Unary\":\x7b\"operand\":\"Unit\",\"op\":\"Not\"\x7d\x7d"
      "\x7b\"Unary\":\x7b\"operand\":\"Unit\",\"op\":\x7b\"Not\":null\x7d\x7d\x7d" :=
    .node rfl rfl (.inside (.member hunary List.mem_cons_self [(some "operand", .ofString "Unit")] [])
      (.expand .sign "Not"))
  have hbetween : Json.Between "\x7b"
      "\"Unary\":\x7b\"operand\":\"Unit\",\"op\":\x7b\"Not\":null\x7d\x7d\x7d" :=
    ⟨_, _, rfl, rfl, rfl⟩
  have hblank : Respelling "\x7b\"Unary\":\x7b\"operand\":\"Unit\",\"op\":\x7b\"Not\":null\x7d\x7d\x7d"
      "\x7b \"Unary\":\x7b\"operand\":\"Unit\",\"op\":\x7b\"Not\":null\x7d\x7d\x7d" :=
    Respelling.blanks hbetween (show ∀ c ∈ " ".toList, Json.isSpace c by simp [Json.isSpace])
  have hmissing : Flawed .expr (.object [(some "Unary", .object [(some "op", .ofString "Not")])]) :=
    .missing hunary (show "operand" ∈ _ by decide) (by simp)
  obtain ⟨hsame, hnone⟩ := decode?_respelled he
  exact ⟨he, hsame _ (.tail (.tail (.single hswap) hsign) hblank), hnone _ _ rfl hmissing⟩

end Treewalk.Codec
