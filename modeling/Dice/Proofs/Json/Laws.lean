import Dice.Proofs.Distribution.Finite
import Dice.Proofs.Json.Floats
import Dice.Proofs.Json.Sessions

namespace Dice

open Dice.Binary Dice.Json

/-!
# Laws are read back

The JSON of a law is read as a law with the same bounds and the same outcomes.  Its weights are the
floats that the weights in the text are read as, each by itself.

* `Json.readBack` — the float that the text of a float is read as.
* `Law.Readable`, `Law.ofJson?_toJson` — laws that are read back, and what they are read as.
* `Law.readBack_eq_self_iff` — when this is the law itself.
* `Pool.readable_law` — the laws of pools.
-/

/-- The float that the text of a float is read as, if it can be read. -/
def Json.readBack (x : Float) : Float := (decode? (encode x)).getD x

/-- The float that a text is read as is the one read back. -/
theorem Json.Reread.readBack_eq {x y : Float} (h : Reread x y) : readBack x = y := by
  have hread := h.read
  rw [ofJson?_toJson_float] at hread
  rw [readBack, hread, Option.getD_some]

/-! ### Distributions -/

namespace Distribution

/-- The distribution with its weights as they are read from their texts. -/
def readBack (d : Distribution Float) : Distribution Float := d.mapWeights Json.readBack

/-- Outcomes are read back as they were. -/
@[simp] theorem outcomes_readBack (d : Distribution Float) : d.readBack.outcomes = d.outcomes := by
  simp [outcomes, readBack, mapWeights]

/-- Every weight is the one read back from its text. -/
theorem weightOf_readBack {d : Distribution Float} {o : Int} (h : o ∈ d.outcomes) :
    d.readBack.weightOf o = Json.readBack (d.weightOf o) :=
  weightOf_eq (List.mem_map.mpr ⟨_, weightOf_mem_entries h, rfl⟩)

/-- Outcomes fit words of 64 bits with a sign, and the texts of weights can be read. -/
structure Readable (d : Distribution Float) : Prop where
  outcomes : ∀ e ∈ d.entries, IsSigned e.1
  weights : ∀ e ∈ d.entries, ∃ y, Reread e.2 y

/-- A distribution is read as the one with its weights read back. -/
theorem Readable.decode?_eq_readBack {d : Distribution Float} (h : d.Readable) :
    decode? (encode d) = some d.readBack := by
  refine decode?_encode h.outcomes fun e he => ?_
  obtain ⟨y, hy⟩ := h.weights e he
  rw [hy.readBack_eq, ← ofJson?_toJson_float e.2 .compact, hy.read]

/-- A distribution is read as itself exactly if every weight of it is recovered. -/
theorem readBack_eq_self_iff {d : Distribution Float} (h : d.Readable) :
    d.readBack = d ↔ ∀ o ∈ d.outcomes, Recovered (d.weightOf o) := by
  have hrecovered : ∀ e ∈ d.entries, Recovered e.2 ↔ Json.readBack e.2 = e.2 := by
    intro e he
    obtain ⟨y, hy⟩ := h.weights e he
    rw [hy.recovered_iff, hy.readBack_eq]
  constructor
  · intro heq o ho
    rw [hrecovered _ (weightOf_mem_entries ho), ← weightOf_readBack ho, heq]
  · intro hall
    refine ext_entries ((List.map_congr_left fun e he => ?_).trans (List.map_id _))
    have hweight : d.weightOf e.1 = e.2 := weightOf_eq he
    have he' := hall e.1 (mem_outcomes.mpr ⟨e.2, he⟩)
    rw [hweight, hrecovered e he] at he'
    rw [he']
    rfl

end Distribution

/-! ### Laws -/

namespace Law

/-- The law with its weights as they are read from their texts. -/
def readBack (l : Law Float) : Law Float := { l with distribution := l.distribution.readBack }

@[inherit_doc Distribution.Readable] structure Readable (l : Law Float) : Prop where
  lowest : IsSigned l.lowest
  highest : IsSigned l.highest
  distribution : l.distribution.Readable

/-- A law is read as the one with its weights read back. -/
theorem Readable.decode?_eq_readBack {l : Law Float} (h : l.Readable) :
    decode? (encode l) = some l.readBack :=
  decode?_encode h.lowest h.highest h.distribution.decode?_eq_readBack

/-- The text of a law is read as the law with its weights read back, also on a line of its own. -/
theorem ofJson?_toJson {l : Law Float} (h : l.Readable) (layout : Layout) :
    ofJson? (Law Float) (toJson layout l) = some l.readBack ∧
    ofJson? (Law Float) (toJson layout l ++ "\n") = some l.readBack := by
  constructor
  · rw [ofJson?, toJson, Value.read?_text l.wellSpelled, Option.bind_some,
      h.decode?_eq_readBack]
  · rw [ofJson?, toJson, Value.read?_line l.wellSpelled, Option.bind_some,
      h.decode?_eq_readBack]

/-- A law is read as itself exactly if every weight of it is recovered. -/
theorem readBack_eq_self_iff {l : Law Float} (h : l.Readable) :
    l.readBack = l ↔
      ∀ o ∈ l.distribution.outcomes, Recovered (l.distribution.weightOf o) := by
  rw [← Distribution.readBack_eq_self_iff h.distribution]
  constructor
  · intro heq
    exact congrArg Law.distribution heq
  · intro heq
    rw [readBack, heq]

end Law

/-! ### Pools -/

namespace Pool

variable {p : Pool} (hc : 1 ≤ p.count.toNat) (hf : 1 ≤ p.faces.toNat)
  (hmemory : 16 * (p.law : Law Float).distribution.size < UInt64.size)

include hc hf hmemory

/-- The bounds of a law with so few outcomes fit words of 64 bits with a sign. -/
theorem isSigned_of_between {o : Int} (hlow : p.lowest ≤ o) (hhigh : o ≤ p.highest) :
    IsSigned o := by
  have hsize : (p.law : Law Float).distribution.size = p.count.toNat * (p.faces.toNat - 1) + 1 :=
    (outcomes_law_eq_range p hc hf).2.2.2
  rw [hsize, show UInt64.size = 2 ^ 64 from rfl] at hmemory
  rw [highest_eq_lowest_add hf] at hhigh
  have hcount : p.count.toNat < 2 ^ 32 := p.count.toNat_lt
  have hleast : -2 ^ 31 ≤ p.offset.toInt := p.offset.le_toInt
  have hgreatest : p.offset.toInt < 2 ^ 31 := p.offset.toInt_lt
  have hlowest : p.lowest = p.count.toNat + p.offset.toInt := rfl
  have hmin : Int64.minValue.toInt = -2 ^ 63 := by decide
  have hmax : Int64.maxValue.toInt = 2 ^ 63 - 1 := by decide
  rw [IsSigned, hmin, hmax]
  generalize p.count.toNat * (p.faces.toNat - 1) = span at hmemory hhigh
  omega

/-- The law of a pool can be read back if its outcomes and their weights fit in memory. -/
theorem readable_law : (p.law : Law Float).Readable := by
  have hle : p.lowest ≤ p.highest := by
    rw [highest_eq_lowest_add hf]
    omega
  refine ⟨isSigned_of_between hc hf hmemory le_rfl hle,
    isSigned_of_between hc hf hmemory hle le_rfl, fun e he => ?_, fun e he => ?_⟩
  · obtain ⟨hlow, hhigh⟩ := (mem_outcomes_totals hc hf).mp (Distribution.mem_outcomes.mpr ⟨e.2, he⟩)
    exact isSigned_of_between hc hf hmemory hlow hhigh
  · obtain ⟨v, hv, hbound⟩ := bounded_totals hc hf hmemory e he
    exact exists_reread hv hbound

end Pool

end Dice
