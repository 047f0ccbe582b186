import Dice.Json.Form
import Dice.Proofs.Json.Values
import Mathlib.Data.List.Nodup

namespace Dice.Json

open Dice.Notation Dice.Text

/-!
# JSON forms that are read back

A value is faithful to its JSON if the JSON is written so that the reader takes it back, and if it
then stands for the value.  Numbers are faithful where they fit the word they are read into, texts
and characters always are, and lists, options and structures are if what is in them is.

* `Faithful`, `Faithful.ofJson?_toJson` — the text of a faithful value is read as that value.
* `Recovered` — the floats that the text of their JSON is read as.
* `faithful_int`, `faithful_nat`, `faithful_float`, `faithful_char` and others — plain values.
* `Faithful.present`, `faithful_list` — options and lists.
* `Faithful.of_fields` — structures.
-/

/-- The JSON of the value is spelled as the reader expects it, and stands for the value. -/
structure Faithful {α : Type} [JsonForm α] (a : α) : Prop where
  wellSpelled : (encode a).WellSpelled
  decode : decode? (encode a) = some a

section Faithful

variable {α : Type} [JsonForm α]

/-- The text of a faithful value is read as that value, in either layout. -/
theorem Faithful.ofJson?_toJson {a : α} (h : Faithful a) (l : Layout) :
    ofJson? α (toJson l a) = some a := by
  rw [ofJson?, toJson, Value.read?_text h.wellSpelled l, Option.bind_some, h.decode]

/-! ### Numbers -/

/-- The number fits a word of 64 bits with a sign. -/
def IsSigned (n : Int) : Prop := Int64.minValue.toInt ≤ n ∧ n ≤ Int64.maxValue.toInt

instance (n : Int) : Decidable (IsSigned n) := inferInstanceAs (Decidable (_ ∧ _))

/-- Whole numbers are written as the reader expects them. -/
theorem wellSpelled_ofInt (n : Int) : (Value.ofInt n).WellSpelled :=
  .number (Numeral.wellSpelled_ofInt n)

/-- A whole number is read between bounds that it keeps. -/
theorem intWithin?_ofInt (low high : Int) {n : Int} (hlow : low ≤ n) (hhigh : n ≤ high)
    (hword : Int64.minValue.toInt ≤ n ∧ n < UInt64.size) :
    (Value.ofInt n).intWithin? low high = some n := by
  simp only [Value.ofInt, Value.intWithin?, Numeral.int?_ofInt hword.1 hword.2,
    if_pos (And.intro hlow hhigh)]

/-- Numbers of 64 bits with a sign are read back. -/
theorem faithful_int {n : Int} (h : IsSigned n) : Faithful n where
  wellSpelled := wellSpelled_ofInt n
  decode := by
    have hmax : Int64.maxValue.toInt < UInt64.size := by decide
    exact intWithin?_ofInt _ _ h.1 h.2 ⟨h.1, Int.lt_of_le_of_lt h.2 hmax⟩

/-- Numbers of 64 bits are read back. -/
theorem faithful_nat {n : Nat} (h : n < UInt64.size) : Faithful n where
  wellSpelled := wellSpelled_ofInt n
  decode := by
    have hmin : Int64.minValue.toInt ≤ 0 := by decide
    have hread := intWithin?_ofInt 0 (UInt64.size - 1) (n := n) (by omega) (by omega)
      ⟨by omega, by omega⟩
    exact congrArg (Option.map Int.toNat) hread

/-- Words of 32 bits are read back. -/
theorem faithful_uint32 (n : UInt32) : Faithful n where
  wellSpelled := wellSpelled_ofInt n.toNat
  decode := by
    have hn : n.toNat < UInt32.size := n.toNat_lt
    have hmin : Int64.minValue.toInt ≤ 0 := by decide
    have hmax : UInt32.size < UInt64.size := by decide
    have hread := intWithin?_ofInt 0 (UInt32.size - 1) (n := n.toNat) (by omega) (by omega)
      ⟨by omega, by omega⟩
    have hword := congrArg (Option.map fun n => UInt32.ofNat n.toNat) hread
    rwa [Option.map_some, Int.toNat_natCast, UInt32.ofNat_toNat] at hword

/-- Words of 32 bits with a sign are read back. -/
theorem faithful_int32 (n : Int32) : Faithful n where
  wellSpelled := wellSpelled_ofInt n.toInt
  decode := by
    have hmin : Int64.minValue.toInt ≤ Int32.minValue.toInt := by decide
    have hmax : Int32.maxValue.toInt < UInt64.size := by decide
    have hread := intWithin?_ofInt Int32.minValue.toInt Int32.maxValue.toInt n.minValue_le_toInt
      n.toInt_le ⟨Int.le_trans hmin n.minValue_le_toInt, Int.lt_of_le_of_lt n.toInt_le hmax⟩
    have hword := congrArg (Option.map Int32.ofInt) hread
    rwa [Option.map_some, Int32.ofInt_toInt] at hword

/-- The text of the float is read as that float.  An infinite float, or what is no number, has no
    such text. -/
def Recovered (x : Float) : Prop := ofJson? Float (toJson .compact x) = some x

instance (x : Float) : Decidable (Recovered x) := inferInstanceAs (Decidable (_ = _))

example : Recovered 0.1 ∧ Recovered (-0.0) ∧ ¬ Recovered (1 / 0) := by decide +kernel

/-- Every float is written as the reader expects it. -/
theorem wellSpelled_ofFloat (x : Float) : (Value.ofFloat x).WellSpelled := by
  unfold Value.ofFloat
  split
  · next h => exact .number (Numeral.wellSpelled_ofFloat? h)
  · exact .null

/-- A float is read back if the text of it is. -/
theorem faithful_float {x : Float} (h : Recovered x) : Faithful x where
  wellSpelled := wellSpelled_ofFloat x
  decode := by
    have hread : Value.read? ((encode x).text .compact) = some (encode x) :=
      Value.read?_text (wellSpelled_ofFloat x) .compact
    rwa [Recovered, ofJson?, toJson, hread, Option.bind_some] at h

/-! ### Texts -/

@[simp] theorem string?_ofString (text : String) : (Value.ofString text).string? = some text :=
  unspell?_spell text

@[simp] theorem name?_ofString (text : String) : (Value.ofString text).name? = some text :=
  unspell?_spell text

/-- Strings are written as the reader expects them. -/
theorem wellSpelled_ofString (text : String) : (Value.ofString text).WellSpelled :=
  .string (isSpelling_spell text)

/-- Every text is read back. -/
theorem faithful_string (text : String) : Faithful text where
  wellSpelled := wellSpelled_ofString text
  decode := string?_ofString text

/-- Every character is read back. -/
theorem faithful_char (c : Char) : Faithful c where
  wellSpelled := wellSpelled_ofString _
  decode := by simp [encode, decode?]

/-! ### Options and lists -/

/-- Nothing is read back as nothing. -/
theorem faithful_none : Faithful (none : Option α) where
  wellSpelled := .null
  decode := rfl

/-- What is there is not taken for nothing, unless its JSON is nothing. -/
theorem Faithful.present {a : α} (h : Faithful a) (hne : encode a ≠ .null) : Faithful (some a) where
  wellSpelled := h.wellSpelled
  decode := by
    show decode? (encode a) = some (some a)
    -- The reader looks for a value, because it does not find `null`.
    have hread : decode? (encode a) = (decode? (encode a) : Option α).map some := by
      simp only [decode?]
    rw [hread, h.decode, Option.map_some]

/-- What may be missing is read back if it can be told from nothing where it is there. -/
theorem faithful_option {o : Option α} (h : ∀ a ∈ o, Faithful a) (hne : ∀ a ∈ o, encode a ≠ .null) :
    Faithful o := by
  cases o with
  | none => exact faithful_none
  | some a => exact (h a rfl).present (hne a rfl)

/-- If a reader takes each item for what it should, it takes the list for the list of these. -/
theorem mapM_eq_some_map {α β : Type} {f : α → Option β} {g : α → β} {items : List α}
    (h : ∀ a ∈ items, f a = some (g a)) : items.mapM f = some (items.map g) := by
  induction items with
  | nil => rfl
  | cons a items ih =>
    rw [List.mapM_cons, h a List.mem_cons_self, ih fun b hb => h b (List.mem_cons_of_mem a hb)]
    rfl

/-- A list is read back if its items are. -/
theorem faithful_list {items : List α} (h : ∀ a ∈ items, Faithful a) : Faithful items where
  wellSpelled := by
    refine .array fun v hv => ?_
    obtain ⟨a, ha, rfl⟩ := List.mem_map.mp hv
    exact (h a ha).wellSpelled
  decode := by
    show (items.map encode).mapM decode? = some items
    rw [List.mapM_map]
    have hread := mapM_eq_some_map (f := decode? ∘ encode) (g := id) fun a ha => (h a ha).decode
    rwa [List.map_id] at hread

end Faithful

/-! ### Structures -/

/-- A record is written as the reader expects it if its fields are. -/
theorem wellSpelled_record {fields : List (String × Value)} (h : ∀ f ∈ fields, f.2.WellSpelled) :
    (Value.record fields).WellSpelled := by
  refine .object (fun m hm => ?_) fun m hm => ?_
  all_goals obtain ⟨f, hf, rfl⟩ := List.mem_map.mp hm
  · exact isSpelling_spell f.1
  · exact h f hf

/-- A name that comes once has its value. -/
theorem member?_of_mem {members : List (String × Value)} (hnodup : (members.map (·.1)).Nodup)
    {m : String × Value} (hm : m ∈ members) : member? members m.1 = some (some m.2) := by
  have hfilter : members.filter (fun x => x.1 == m.1) = [m] := by
    induction members with
    | nil => cases hm
    | cons head members ih =>
      obtain ⟨hhead, hrest⟩ := List.nodup_cons.mp hnodup
      rcases List.mem_cons.mp hm with rfl | hm
      · have hnone : members.filter (fun x => x.1 == m.1) = [] := by
          rw [List.filter_eq_nil_iff]
          intro x hx hname
          exact hhead (List.mem_map.mpr ⟨x, hx, by simpa using hname⟩)
        simp [hnone]
      · have hne : head.1 ≠ m.1 := fun heq => hhead (List.mem_map.mpr ⟨m, hm, heq.symm⟩)
        simpa [hne] using ih hrest hm
  rw [member?, hfilter]

/-- All fields of a structure are found. -/
theorem fieldsOf?_record {fields : List (String × Value)} {names : List String}
    (hnames : fields.map (·.1) = names) (hnodup : names.Nodup) :
    fieldsOf? names (Value.record fields) = some (fields.map fun f => some f.2) := by
  subst hnames
  have hmembers : namedMembers? (fields.map fun f => (spell f.1, f.2)) = some fields := by
    rw [namedMembers?, List.mapM_map]
    have hread : fields.mapM (fun f => (unspell? (spell f.1)).map (·, f.2)) =
        some (fields.map id) := mapM_eq_some_map fun f _ => by simp
    rwa [List.map_id] at hread
  show (namedMembers? _).bind _ = _
  rw [hmembers, Option.bind_some, List.mapM_map]
  exact mapM_eq_some_map fun f hf => member?_of_mem hnodup hf

/-- A structure is faithful if the values of its fields are spelled as the reader expects them, and
    make up the structure again. -/
theorem Faithful.of_fields {α : Type} [JsonForm α] {a : α} {fields : List (String × Value)}
    {names : List String} {assemble : List (Option Value) → Option α}
    (hencode : encode a = .record fields)
    (hdecode : ∀ v : Value, decode? v = (fieldsOf? names v).bind assemble)
    (hnames : fields.map (·.1) = names) (hnodup : names.Nodup)
    (hspelled : (encode a).WellSpelled)
    (hread : assemble (fields.map fun f => some f.2) = some a) : Faithful a where
  wellSpelled := hspelled
  decode := by rw [hencode, hdecode, fieldsOf?_record hnames hnodup, Option.bind_some, hread]

@[simp] theorem required?_some {α : Type} [JsonForm α] (v : Value) :
    (required? (some v) : Option α) = decode? v := rfl

@[simp] theorem optional?_some {α : Type} [JsonForm α] (v : Value) :
    (optional? (some v) : Option (Option α)) = decode? v := rfl

/-- A record can be told from nothing. -/
theorem record_ne_null (fields : List (String × Value)) : Value.record fields ≠ .null :=
  fun h => nomatch h

end Dice.Json
