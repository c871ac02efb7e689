import Mathlib.Tactic.SplitIfs
import Treewalk.Operation
import Treewalk.Proofs.ValueEquality

/-!
# Order, the ordering operators and equality

`Value.compare?` gives the order of two values of an ordered type. The operators `<`, `<=`, `>` and `>=` look at their
operands themselves, and equality is a third comparison. The three tell one story.

* On each ordered type an operator answers what the order of its operands says (`Operator.compares_eq`).
* Strings are ordered by their code points (`compare_codePoints`), and so are their bytes in UTF-8 (`compare_bytes`):
  a longer code has a greater first byte, and codes of one length give the bits of the code point from the highest to
  the lowest (`compare_octets_of_lt`).

Together: **order, the ordering operators and equality agree** (`ordering_tells_one_story`).
-/

namespace Treewalk

open Std

/-! ## Strings by code points -/

section CodePoints

/-- The code points of a string. -/
def codePoints (s : String) : List Nat :=
  s.toList.map Char.toNat

theorem lt_iff_compare_map_toNat : ∀ cs ds : List Char,
    cs < ds ↔ compare (cs.map Char.toNat) (ds.map Char.toNat) = .lt
  | [], [] => by simp
  | [], _ :: _ => by simp
  | _ :: _, [] => by simp
  | c :: cs, d :: ds => by
    have hlt : c < d ↔ c.toNat < d.toNat := Iff.rfl
    have heq : c = d ↔ c.toNat = d.toNat := Char.toNat_inj.symm
    rw [List.cons_lt_cons_iff, lt_iff_compare_map_toNat cs ds, List.map_cons, List.map_cons, List.compare_cons_cons,
      Ordering.then_eq_lt, Nat.compare_eq_lt, Nat.compare_eq_eq, hlt, heq]

/-- Strings are ordered by their code points. -/
theorem compare_codePoints (s t : String) : compare s t = compare (codePoints s) (codePoints t) := by
  have hlt : s < t ↔ compare (codePoints s) (codePoints t) = .lt := lt_iff_compare_map_toNat s.toList t.toList
  have heq : s = t ↔ compare (codePoints s) (codePoints t) = .eq := by
    rw [LawfulEqCmp.compare_eq_iff_eq, ← String.toList_inj]
    exact (List.map_inj_right fun _ _ => Char.toNat_inj.1).symm
  show (if s < t then Ordering.lt else if s = t then .eq else .gt) = _
  cases h : compare (codePoints s) (codePoints t) with
  | lt => rw [if_pos (hlt.2 h)]
  | eq => rw [if_neg (by rw [hlt, h]; nofun), if_pos (heq.2 h)]
  | gt => rw [if_neg (by rw [hlt, h]; nofun), if_neg (by rw [heq, h]; nofun)]

end CodePoints

/-! ## Strings by bytes -/

section Bytes

/-- The bytes of a string in UTF-8. -/
def bytes (s : String) : List Nat :=
  s.toByteArray.data.toList.map UInt8.toNat

/-- The bytes of a code point. The first tells how many there are, and each of the others has six bits. -/
def octets (n : Nat) : List Nat :=
  if n < 0x80 then [n]
  else if n < 0x800 then [n / 0x40 + 0xc0, n % 0x40 + 0x80]
  else if n < 0x10000 then [n / 0x1000 + 0xe0, n / 0x40 % 0x40 + 0x80, n % 0x40 + 0x80]
  else [n / 0x40000 + 0xf0, n / 0x1000 % 0x40 + 0x80, n / 0x40 % 0x40 + 0x80, n % 0x40 + 0x80]

theorem toNat_lt_of_char (c : Char) : c.toNat < 0x110000 := by
  have hvalid : c.toNat.isValidChar := c.valid
  unfold Nat.isValidChar at hvalid
  omega

theorem map_toNat_utf8EncodeChar (c : Char) : (String.utf8EncodeChar c).map UInt8.toNat = octets c.toNat := by
  have hc : c.val.toNat < 0x110000 := toNat_lt_of_char c
  unfold String.utf8EncodeChar octets
  simp only [Char.toNat]
  split_ifs <;> simp only [List.map_cons, List.map_nil, UInt8.toNat_ofNat', List.cons.injEq, and_true] <;> omega

theorem bytes_eq_flatMap (s : String) : bytes s = (codePoints s).flatMap octets := by
  have hencode : s.toByteArray = s.toList.utf8Encode := by
    rw [← String.toByteArray_ofList, String.ofList_toList]
  unfold bytes codePoints
  rw [hencode, List.utf8Encode, List.toList_data_toByteArray, List.map_flatMap, List.flatMap_map]
  exact congrArg (s.toList.flatMap ·) (funext map_toNat_utf8EncodeChar)

/-- The bytes of a code point come before those of any greater one, whatever follows either. -/
theorem compare_octets_of_lt {m n : Nat} (h : m < n) (hn : n < 0x110000) (later later' : List Nat) :
    compare (octets m ++ later) (octets n ++ later') = .lt := by
  unfold octets
  -- a first difference: in the first bytes if there are more of them, or else where the highest bits differ
  split_ifs <;> simp only [List.cons_append, List.nil_append, List.compare_cons_cons, Ordering.then_eq_lt,
    Nat.compare_eq_lt, Nat.compare_eq_eq] <;> omega

theorem compare_append_left (as : List Nat) (later later' : List Nat) :
    compare (as ++ later) (as ++ later') = compare later later' := by
  induction as with
  | nil => rfl
  | cons a as ih =>
    rw [List.cons_append, List.cons_append, List.compare_cons_cons, ih, Nat.compare_eq_eq.2 rfl]
    rfl

/-- Bytes tell two code points apart before anything that follows them. -/
theorem compare_octets_append {m n : Nat} (hm : m < 0x110000) (hn : n < 0x110000) (later later' : List Nat) :
    compare (octets m ++ later) (octets n ++ later') = (compare m n).then (compare later later') := by
  rcases Nat.lt_trichotomy m n with h | rfl | h
  · rw [compare_octets_of_lt h hn, Nat.compare_eq_lt.2 h]
    rfl
  · rw [compare_append_left, Nat.compare_eq_eq.2 rfl]
    rfl
  · rw [OrientedOrd.eq_swap, compare_octets_of_lt h hm, Nat.compare_eq_gt.2 h]
    rfl

theorem octets_eq_cons (n : Nat) : ∃ first rest, octets n = first :: rest := by
  unfold octets
  split_ifs <;> exact ⟨_, _, rfl⟩

theorem compare_flatMap_octets : ∀ {ms ns : List Nat}, (∀ m ∈ ms, m < 0x110000) → (∀ n ∈ ns, n < 0x110000) →
    compare (ms.flatMap octets) (ns.flatMap octets) = compare ms ns
  | [], [], _, _ => rfl
  | [], n :: ns, _, _ => by
    obtain ⟨first, rest, hn⟩ := octets_eq_cons n
    rw [List.flatMap_cons, hn]
    rfl
  | m :: ms, [], _, _ => by
    obtain ⟨first, rest, hm⟩ := octets_eq_cons m
    rw [List.flatMap_cons, hm]
    rfl
  | m :: ms, n :: ns, hms, hns => by
    obtain ⟨hm, hms⟩ := List.forall_mem_cons.1 hms
    obtain ⟨hn, hns⟩ := List.forall_mem_cons.1 hns
    rw [List.flatMap_cons, List.flatMap_cons, compare_octets_append hm hn, compare_flatMap_octets hms hns,
      List.compare_cons_cons]

/-- **UTF-8 keeps the order of code points.** -/
theorem compare_bytes (s t : String) : compare (bytes s) (bytes t) = compare (codePoints s) (codePoints t) := by
  have hvalid : ∀ s, ∀ n ∈ codePoints s, n < 0x110000 := by
    intro s n hn
    obtain ⟨c, -, rfl⟩ := List.mem_map.1 hn
    exact toNat_lt_of_char c
  rw [bytes_eq_flatMap, bytes_eq_flatMap, compare_flatMap_octets (hvalid s) (hvalid t)]

end Bytes

/-! ## The ordering operators -/

section Operators

/-- Whether a comparison holds of operands in the given order. -/
def Operator.holds : Operator → Ordering → Bool
  | .lt, o => o.isLT
  | .le, o => o.isLE
  | .gt, o => o.isGT
  | .ge, o => o.isGE
  | .eq, o => o.isEq
  | _, o => o.isNe

/-- The operators that ask for an order. -/
def Operator.ordering : List Operator :=
  [.lt, .le, .gt, .ge]

/-- An ordering operator answers what the order of the operands says, where `<` and `≤` are those of the order. -/
theorem Operator.compares_eq {α : Type} [LT α] [LE α] [DecidableLT α] [DecidableLE α] [BEq α] [Ord α] [OrientedOrd α]
    (hlt : ∀ a b : α, a < b ↔ compare a b = .lt) (hle : ∀ a b : α, a ≤ b ↔ ¬b < a) {op : Operator}
    (hop : op ∈ Operator.ordering) (a b : α) : op.compares a b = op.holds (compare a b) := by
  have hgt : b < a ↔ compare a b = .gt := by rw [hlt, OrientedOrd.eq_swap, Ordering.swap_eq_lt]
  simp only [Operator.ordering, List.mem_cons, List.not_mem_nil, or_false] at hop
  rcases hop with rfl | rfl | rfl | rfl
  · simp only [Operator.compares, Operator.holds, hlt]
    cases compare a b <;> rfl
  · simp only [Operator.compares, Operator.holds, hle, hgt]
    cases compare a b <;> rfl
  · simp only [Operator.compares, Operator.holds, hgt]
    cases compare a b <;> rfl
  · simp only [Operator.compares, Operator.holds, hle, hlt]
    cases compare a b <;> rfl

theorem Operator.compares_int {op : Operator} (hop : op ∈ Operator.ordering) (m n : Int64) :
    op.compares m n = op.holds (compare m n) :=
  Operator.compares_eq (fun _ _ => compare_eq_lt.symm) (fun _ _ => Std.not_lt.symm) hop m n

theorem Operator.compares_bool {op : Operator} (hop : op ∈ Operator.ordering) (p q : Bool) :
    op.compares p q = op.holds (compare p q) :=
  Operator.compares_eq (by decide) (by decide) hop p q

theorem Operator.compares_str {op : Operator} (hop : op ∈ Operator.ordering) (s t : String) :
    op.compares s t = op.holds (compare s t) := by
  have hlt : ∀ s t : String, s < t ↔ compare s t = .lt := by
    intro s t
    rw [compare_codePoints]
    exact lt_iff_compare_map_toNat s.toList t.toList
  exact Operator.compares_eq hlt (fun _ _ => String.not_lt.symm) hop s t

end Operators

/-! ## Values -/

section Values

/-- Values that have an order are two integers, two truth values or two strings. -/
theorem Value.compare?_cases {a b : Value} {o : Ordering} (h : a.compare? b = some o) :
    (∃ m n, a = .int m ∧ b = .int n ∧ o = compare m n) ∨
    (∃ p q, a = .bool p ∧ b = .bool q ∧ o = compare p q) ∨
    (∃ s t, a = .str s ∧ b = .str t ∧ o = compare s t) := by
  unfold Value.compare? at h
  split at h
  · exact .inl ⟨_, _, rfl, rfl, (Option.some.inj h).symm⟩
  · exact .inr (.inr ⟨_, _, rfl, rfl, (Option.some.inj h).symm⟩)
  · exact .inr (.inl ⟨_, _, rfl, rfl, (Option.some.inj h).symm⟩)
  · cases h

/-- What it is for two values to be in the given order: the operators answer accordingly, only equal values are at one
place of the order, and seen from the other side it is the reverse. -/
structure Value.OrderedAs (a b : Value) (o : Ordering) : Prop where
  answers : ∀ op ∈ Operator.ordering, op.apply a b = .ok (.bool (op.holds o))
  eq_iff : o = .eq ↔ (a == b) = true
  swap : b.compare? a = some o.swap

/-- An ordering operator looks at its operands as the order does. -/
theorem Operator.apply_ordering {op : Operator} (hop : op ∈ Operator.ordering) (a b : Value) :
    op.apply a b = match a, b with
      | .int m, .int n => .ok (.bool (op.compares m n))
      | .bool p, .bool q => .ok (.bool (op.compares p q))
      | .str s, .str t => .ok (.bool (op.compares s t))
      | _, _ => op.mismatch a b := by
  simp only [Operator.ordering, List.mem_cons, List.not_mem_nil, or_false] at hop
  rcases hop with rfl | rfl | rfl | rfl <;> rfl

theorem Value.orderedAs_of_compare? {a b : Value} {o : Ordering} (h : a.compare? b = some o) : a.OrderedAs b o := by
  obtain ⟨m, n, rfl, rfl, rfl⟩ | ⟨p, q, rfl, rfl, rfl⟩ | ⟨s, t, rfl, rfl, rfl⟩ := Value.compare?_cases h
  · refine ⟨fun op hop => ?_, ?_, ?_⟩
    · rw [Operator.apply_ordering hop, ← Operator.compares_int hop]
    · exact LawfulEqCmp.compare_eq_iff_eq.trans (beq_iff_eq (a := m) (b := n)).symm
    · exact congrArg some OrientedOrd.eq_swap
  · refine ⟨fun op hop => ?_, ?_, ?_⟩
    · rw [Operator.apply_ordering hop, ← Operator.compares_bool hop]
    · exact LawfulEqCmp.compare_eq_iff_eq.trans (beq_iff_eq (a := p) (b := q)).symm
    · exact congrArg some OrientedOrd.eq_swap
  · refine ⟨fun op hop => ?_, ?_, ?_⟩
    · rw [Operator.apply_ordering hop, ← Operator.compares_str hop]
    · exact LawfulEqCmp.compare_eq_iff_eq.trans (beq_iff_eq (a := s) (b := t)).symm
    · exact congrArg some OrientedOrd.eq_swap

/-- Where there is no order, the operator names itself and both types. -/
theorem Operator.apply_of_compare?_eq_none {op : Operator} (hop : op ∈ Operator.ordering) {a b : Value}
    (h : a.compare? b = none) : op.apply a b = .error (.operandMismatch op a.typeName b.typeName) := by
  rw [Operator.apply_ordering hop]
  split
  · cases h
  · cases h
  · cases h
  · rfl

theorem Operator.apply_ok_iff {op : Operator} (hop : op ∈ Operator.ordering) (a b : Value) :
    (∃ v, op.apply a b = .ok v) ↔ ∃ o, a.compare? b = some o := by
  constructor
  · rintro ⟨v, hv⟩
    cases h : a.compare? b with
    | some o => exact ⟨o, rfl⟩
    | none => rw [Operator.apply_of_compare?_eq_none hop h] at hv; cases hv
  · rintro ⟨o, ho⟩
    exact ⟨_, (Value.orderedAs_of_compare? ho).answers op hop⟩

theorem Value.compare?_lt_trans {a b c : Value} (hab : a.compare? b = some .lt) (hbc : b.compare? c = some .lt) :
    a.compare? c = some .lt := by
  obtain ⟨m, n, rfl, rfl, ho⟩ | ⟨p, q, rfl, rfl, ho⟩ | ⟨s, t, rfl, rfl, ho⟩ := Value.compare?_cases hab
  · obtain ⟨_, k, hb, rfl, ho'⟩ | ⟨_, _, hb, -⟩ | ⟨_, _, hb, -⟩ := Value.compare?_cases hbc <;> cases hb
    exact congrArg some (TransCmp.lt_trans ho.symm ho'.symm)
  · obtain ⟨_, _, hb, -⟩ | ⟨_, r, hb, rfl, ho'⟩ | ⟨_, _, hb, -⟩ := Value.compare?_cases hbc <;> cases hb
    exact congrArg some (TransCmp.lt_trans ho.symm ho'.symm)
  · obtain ⟨_, _, hb, -⟩ | ⟨_, _, hb, -⟩ | ⟨_, u, hb, rfl, ho'⟩ := Value.compare?_cases hbc <;> cases hb
    exact congrArg some (TransCmp.lt_trans ho.symm ho'.symm)

/-- **Order, the ordering operators and equality agree**, and the order of strings is that of their code points and of
their bytes. -/
theorem ordering_tells_one_story :
    (∀ op ∈ Operator.ordering, ∀ a b : Value,
      ((∃ v, op.apply a b = .ok v) ↔ ∃ o, a.compare? b = some o) ∧
      (a.compare? b = none → op.apply a b = .error (.operandMismatch op a.typeName b.typeName))) ∧
    (∀ (a b : Value) (o : Ordering), a.compare? b = some o → a.OrderedAs b o) ∧
    (∀ a b c : Value, a.compare? b = some .lt → b.compare? c = some .lt → a.compare? c = some .lt) ∧
    ∀ s t : String, ∃ o, (Value.str s).compare? (.str t) = some o ∧ o = compare (codePoints s) (codePoints t) ∧
      o = compare (bytes s) (bytes t) := by
  refine ⟨fun op hop a b => ⟨?_, ?_⟩, fun a b o => ?_, fun a b c => ?_, fun s t => ⟨compare s t, rfl, ?_, ?_⟩⟩
  · exact Operator.apply_ok_iff hop a b
  · exact Operator.apply_of_compare?_eq_none hop
  · exact Value.orderedAs_of_compare?
  · exact Value.compare?_lt_trans
  · exact compare_codePoints s t
  · rw [compare_bytes, compare_codePoints]

/-- A character of three bytes comes before one of four (in UTF-16 it would come after it). -/
theorem ordering_tells_one_story_across_planes :
    (Value.str "\uffff").compare? (.str "😀") = some .lt ∧ (Value.str "\uffff").OrderedAs (.str "😀") .lt := by
  have h : (Value.str "\uffff").compare? (.str "😀") = some .lt := by decide
  exact ⟨h, ordering_tells_one_story.2.1 _ _ _ h⟩

end Values

end Treewalk
