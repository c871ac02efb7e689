import Treewalk.Proofs.Decoding
import Treewalk.Proofs.JsonText

/-!
# Encoding and decoding

What `Expr.encode` writes, `Expr.decode?` reads back. The text of an outline is read as the outline's JSON, since its
numbers are whole numbers (`Outline.toJson_proper`). The JSON of an expression's outline is then decoded by recursion
on the expression (`Expr.read_outline`): a constructor with named fields writes them in the order in which the schema
declares them, and so it is enough that each of them is read back (`read_fields`).
-/

namespace Treewalk

/-! ## Outlines as text -/

mutual

/-- The numbers in an outline are whole numbers. -/
theorem Outline.toJson_proper : ∀ o : Outline, o.toJson.Proper
  | .int n => by
    rw [Outline.toJson]
    exact Json.tokens?_toString n
  | .bool _ => trivial
  | .text _ => trivial
  | .list items => Outline.toJsonAll_proper items
  | .tuple items => Outline.toJsonAll_proper items
  | .ctor _ [] => trivial
  | .ctor _ [arg] => ⟨Outline.toJson_proper arg, trivial⟩
  | .ctor _ (arg :: arg' :: args) =>
    ⟨⟨Outline.toJson_proper arg, Outline.toJson_proper arg', Outline.toJsonAll_proper args⟩, trivial⟩
  | .fields _ parts _ => ⟨Outline.toJsonFields_proper parts, trivial⟩
  | .record _ parts => Outline.toJsonFields_proper parts

theorem Outline.toJsonAll_proper : ∀ os : List Outline, Json.ProperItems (Outline.toJsonAll os)
  | [] => trivial
  | o :: os => ⟨Outline.toJson_proper o, Outline.toJsonAll_proper os⟩

theorem Outline.toJsonFields_proper : ∀ parts : List (String × Outline),
    Json.ProperMembers (Outline.toJsonFields parts)
  | [] => trivial
  | (_, o) :: parts => ⟨Outline.toJson_proper o, Outline.toJsonFields_proper parts⟩

end

/-! ## Data without parts -/

namespace Codec

theorem natOfDigits?_toDigits (n : Nat) : Text.natOfDigits? (Nat.toDigits 10 n) = some n := by
  have hdigits : (Nat.toDigits 10 n).all Char.isDigit :=
    List.all_eq_true.2 fun _ hd => Json.isDigit_toDigits hd
  rw [Text.natOfDigits?, if_pos ⟨Nat.toDigits_ne_nil, hdigits⟩]
  exact congrArg some Nat.ofDigitChars_ten_toDigits

/-- Every integer is read back, the least and the greatest among them. -/
theorem int64OfLexeme?_toString (n : Int64) : int64OfLexeme? (toString n.toInt) = some n := by
  have hle := n.le_toInt
  have hlt := n.toInt_lt
  rw [int64OfLexeme?.eq_def, Json.toList_toString]
  by_cases hneg : n.toInt < 0
  · have habs : -(n.toInt.natAbs : Int) = n.toInt := by omega
    simp only [if_pos hneg, natOfDigits?_toDigits, Option.bind_eq_bind, Option.bind_some]
    rw [if_pos (by omega), habs, Int64.ofInt_toInt]
  · have habs : (n.toInt.natAbs : Int) = n.toInt := by omega
    rw [if_neg hneg]
    split
    · next digits hdigits =>
      -- no digit is a sign
      cases Json.isDigit_toDigits (hdigits ▸ List.mem_cons_self)
    · simp only [natOfDigits?_toDigits, Option.bind_eq_bind, Option.bind_some]
      rw [if_pos (by omega), ← Int64.ofInt_eq_ofNat, habs, Int64.ofInt_toInt]

/-! ## Constructors -/

section Constructors

variable {name : String} {e : Expr}

/-- A constructor with one argument, of which the schema knows the kind. -/
theorem read_single {part : Part} {build : part.Content → Expr} {arg : Outline} {value : part.Content}
    (h : shape? name = some (.single part build)) (hread : part.read arg.toJson = some value) (he : build value = e) :
    Part.expr.read (Outline.ctor name [arg]).toJson = some e := by
  rw [Outline.toJson, read_argument h, hread, Option.map_some, he]

theorem toJsonFields_eq_zip : ∀ {parts : List (String × Outline)} {fields : Fields},
    parts.map (·.1) = fields.map (·.1) →
      Outline.toJsonFields parts =
        (fields.zip (Outline.toJsonAll (parts.map (·.2)))).map fun (field, j) => (some field.1, j)
  | [], [], _ => rfl
  | (name, o) :: parts, field :: fields, h => by
    obtain ⟨hname, h⟩ := List.cons.inj h
    rw [Outline.toJsonFields, toJsonFields_eq_zip h, show name = field.1 from hname]
    rfl

theorem length_toJsonAll : ∀ os : List Outline, (Outline.toJsonAll os).length = os.length
  | [] => rfl
  | _ :: os => congrArg Nat.succ (length_toJsonAll os)

theorem named_toJsonFields : ∀ parts : List (String × Outline), Fields.Named (Outline.toJsonFields parts)
  | [] => nofun
  | (_, _) :: parts => List.forall_mem_cons.2 ⟨nofun, named_toJsonFields parts⟩

/-- Fields that are written in the declared order are read one after the other. -/
theorem readMembers_toJsonFields {parts : List (String × Outline)} {fields : Fields}
    (hnodup : (fields.map (·.1)).Nodup) (hnames : parts.map (·.1) = fields.map (·.1)) :
    fields.readMembers fields.noneRead (Outline.toJsonFields parts) =
      fields.readItems (Outline.toJsonAll (parts.map (·.2))) := by
  have hlength : (Outline.toJsonAll (parts.map (·.2))).length = fields.length := by
    simpa [length_toJsonAll] using congrArg List.length hnames
  rw [Fields.readMembers_eq hnodup, if_pos (named_toJsonFields parts), toJsonFields_eq_zip hnames,
    Fields.gather_zip hnodup hlength]

/-- A constructor with named arguments, which are written in the order in which the schema declares them. -/
theorem read_fields {fields : Fields} {build : fields.Values → Expr} {parts : List (String × Outline)}
    {values : fields.Values} {abridged : Bool} (h : shape? name = some (.fields fields build))
    (hnames : parts.map (·.1) = fields.map (·.1))
    (hread : fields.readItems (Outline.toJsonAll (parts.map (·.2))) = some values) (he : build values = e) :
    Part.expr.read (Outline.fields name parts abridged).toJson = some e := by
  rw [Outline.toJson, Part.read, h]
  simp only [readMembers_toJsonFields (shape?_nodup h) hnames, hread, Option.map_some, he]

/-- The binding of a name. -/
theorem read_binding {value : Outline} (h : Part.expr.read value.toJson = some e) :
    Part.binding.read (Expr.outlineBinding name value).toJson = some (name, e) := by
  have hitems : Fields.readItems bindingFields (Outline.toJsonAll [.text name, value]) = some (name, e, ()) := by
    simp [Outline.toJsonAll, Outline.toJson, Fields.readItems, Part.read, h]
  have hnames : [("name", Outline.text name), ("value", value)].map (·.1) = bindingFields.map (·.1) := rfl
  rw [Expr.outlineBinding, Outline.toJson, Part.read, readMembers_toJsonFields (by decide) hnames]
  exact congrArg (Option.map _) hitems

end Constructors

section Parts

variable {part : Part} {x : part.Content} {fields : Fields} {values : fields.Values} {o : Outline} {os : List Outline}

/-- The items of a list, all of one kind. -/
theorem read_list {xs : List part.Content} (h : part.readAll (Outline.toJsonAll os) = some xs) :
    part.many.read (Outline.list os).toJson = some xs := by
  rw [Outline.toJson, Part.read, h]

theorem readItems_nil : Fields.readItems [] (Outline.toJsonAll []) = some () := by
  rw [Outline.toJsonAll, Fields.readItems]

theorem readItems_cons {field : String} (hread : part.read o.toJson = some x)
    (hrest : fields.readItems (Outline.toJsonAll os) = some values) :
    Fields.readItems ((field, part) :: fields) (Outline.toJsonAll (o :: os)) = some (x, values) := by
  rw [Outline.toJsonAll, Fields.readItems, hread, hrest]
  rfl

/-- Two fields. -/
theorem readItems_pair {first second : String} {q : Part} {o' : Outline} {y : q.Content}
    (hx : part.read o.toJson = some x) (hy : q.read o'.toJson = some y) :
    Fields.readItems [(first, part), (second, q)] (Outline.toJsonAll [o, o']) = some (x, y, ()) :=
  readItems_cons hx (readItems_cons hy readItems_nil)

end Parts

theorem read_int (n : Int64) : Part.integer.read (Outline.int n.toInt).toJson = some n := by
  rw [Outline.toJson, Json.ofInt, Part.read, int64OfLexeme?_toString]

theorem read_bool (b : Bool) : Part.boolean.read (Outline.bool b).toJson = some b := by
  rw [Outline.toJson, Part.read]

theorem read_text (s : String) : Part.string.read (Outline.text s).toJson = some s := by
  rw [Outline.toJson, Part.read]

theorem read_texts (names : List String) :
    Part.string.readAll (Outline.toJsonAll (names.map .text)) = some names := by
  induction names with
  | nil => rw [List.map_nil, Outline.toJsonAll, Part.readAll]
  | cons name names ih =>
    rw [List.map_cons, Outline.toJsonAll, Part.readAll, read_text, ih]
    rfl

theorem read_operator (op : Operator) : Part.operator.read op.outline.toJson = some op := by
  rw [Operator.outline, Outline.toJson, Part.read]
  exact op.ofTag?_tag

theorem read_sign {tag : String} {op : Unary} (h : signOfTag? tag = some op) :
    Part.sign.read (Outline.ctor tag []).toJson = some op := by
  rw [Outline.toJson, Part.read]
  exact h

end Codec

/-! ## Expressions -/

namespace Expr

open Codec

mutual

/-- The JSON of an expression's outline is read as the expression. -/
theorem read_outline : ∀ e : Expr, Part.expr.read e.outline.toJson = some e
  | .unit => by
    rw [outline, Outline.toJson, Part.read]
    rfl
  | .integer n => read_single rfl (read_int n) rfl
  | .boolean b => read_single rfl (read_bool b) rfl
  | .string s => read_single rfl (read_text s) rfl
  | .list items => read_single rfl (read_outlineChain items) rfl
  | .dict pairs => read_single rfl (read_list (readAll_outlinePairs pairs)) rfl
  | .symbol name => read_single rfl (read_text name) rfl
  | .head e => read_single rfl (read_outline e) rfl
  | .tail e => read_single rfl (read_outline e) rfl
  | .not e => read_fields rfl rfl (readItems_pair (read_sign rfl) (read_outline e)) rfl
  | .neg e => read_fields rfl rfl (readItems_pair (read_sign rfl) (read_outline e)) rfl
  | .operator op l r =>
    read_fields rfl rfl (readItems_cons (read_operator op) (readItems_pair (read_outline l) (read_outline r))) rfl
  | .cons e l => read_fields rfl rfl (readItems_pair (read_outline e) (read_outline l)) rfl
  | .delete k d => read_fields rfl rfl (readItems_pair (read_outline k) (read_outline d)) rfl
  | .hasKey k d => read_fields rfl rfl (readItems_pair (read_outline k) (read_outline d)) rfl
  | .getKey k d => read_fields rfl rfl (readItems_pair (read_outline k) (read_outline d)) rfl
  | .insert k v d =>
    read_fields rfl rfl (readItems_cons (read_outline k) (readItems_pair (read_outline v) (read_outline d))) rfl
  | .map c f => read_fields rfl rfl (readItems_pair (read_outline c) (read_outline f)) rfl
  | .fold c f => read_fields rfl rfl (readItems_pair (read_outline c) (read_outline f)) rfl
  | .filter c f => read_fields rfl rfl (readItems_pair (read_outline c) (read_outline f)) rfl
  | .branch c y n =>
    read_fields rfl rfl (readItems_cons (read_outline c) (readItems_pair (read_outline y) (read_outline n))) rfl
  | .letIn (.eager bs) e =>
    read_fields rfl rfl (readItems_pair (read_list (readAll_outlineBindings bs)) (read_outline e)) rfl
  | .letIn (.lazy bs) e =>
    read_fields rfl rfl (readItems_pair (read_list (readAll_outlineBindings bs)) (read_outline e)) rfl
  | .letIn (.recursive _ v) e =>
    read_fields rfl rfl (readItems_pair (read_binding (read_outline v)) (read_outline e)) rfl
  | .letIn (.lazyRecursive _ v) e =>
    read_fields rfl rfl (readItems_pair (read_binding (read_outline v)) (read_outline e)) rfl
  | .declare (.eager bs) => read_single rfl (read_list (readAll_outlineBindings bs)) rfl
  | .declare (.lazy bs) => read_single rfl (read_list (readAll_outlineBindings bs)) rfl
  | .declare (.recursive _ v) => read_single rfl (read_binding (read_outline v)) rfl
  | .declare (.lazyRecursive _ v) => read_single rfl (read_binding (read_outline v)) rfl
  | .lambda params e => read_fields rfl rfl (readItems_pair (read_list (read_texts params)) (read_outline e)) rfl
  | .apply f es => read_fields rfl rfl (readItems_pair (read_outline f) (read_list (readAll_outlineAll es))) rfl
  | .sequence es => read_single rfl (read_list (readAll_outlineAll es)) rfl
  | .pipe f e => read_fields rfl rfl (readItems_pair (read_outline f) (read_outline e)) rfl

theorem readAll_outlineAll : ∀ es : List Expr, Part.expr.readAll (Outline.toJsonAll (outlineAll es)) = some es
  | [] => by rw [outlineAll, Outline.toJsonAll, Part.readAll]
  | e :: es => by
    simp [outlineAll, Outline.toJsonAll, Part.readAll, read_outline e, readAll_outlineAll es]

theorem read_outlineChain : ∀ es : List Expr, Part.chain.read (outlineChain es).toJson = some es
  | [] => by
    rw [outlineChain, Outline.toJson, Part.read]
    rfl
  | e :: es => by
    simp [outlineChain, Outline.toJson, Outline.toJsonAll, Part.read, read_outline e, read_outlineChain es]

theorem readAll_outlinePairs : ∀ pairs : List (Expr × Expr),
    Part.pair.readAll (Outline.toJsonAll (outlinePairs pairs)) = some pairs
  | [] => by rw [outlinePairs, Outline.toJsonAll, Part.readAll]
  | (k, v) :: pairs => by
    simp [outlinePairs, Outline.toJsonAll, Outline.toJson, Part.readAll, Part.read, read_outline k, read_outline v,
      readAll_outlinePairs pairs]

theorem readAll_outlineBindings : ∀ bindings : List (String × Expr),
    Part.binding.readAll (Outline.toJsonAll (outlineBindings bindings)) = some bindings
  | [] => by rw [outlineBindings, Outline.toJsonAll, Part.readAll]
  | (name, e) :: bindings => by
    simp [outlineBindings, Outline.toJsonAll, Part.readAll, read_binding (read_outline e),
      readAll_outlineBindings bindings]

end

/-- **Every expression is decoded from its own encoding.** -/
theorem decode?_encode (e : Expr) : decode? e.encode = some e := by
  rw [decode?, encode, Json.parse?_compact e.outline.toJson_proper]
  exact read_outline e

end Expr

end Treewalk
