import Dice.Json.Forms
import Dice.Proofs.Calendar.ReadBack
import Dice.Proofs.Json.Forms

namespace Dice

open Dice.Calendar Dice.Json Dice.Notation

/-!
# Sessions are read back

The JSON of a session, in either layout, is read as the same session, with its text, its fault, the
dice selected with their law, and all past rolls.  The numbers in it have to fit the words that they
are read into, and its floats have to be read back from their own texts.

* `Fault.Writable`, `Law.Writable`, `Record.Writable`, `Session.Writable` and others — these two
  conditions, for everything in a session.
* `Fault.faithful`, `Pool.faithful`, `Law.faithful` and others — what is in a session.
* `Session.recovered_from_json` — sessions, and all that is in them.
-/

/-! ### What can be written -/

/-- The position fits a word of 64 bits. -/
def Notation.Fault.Writable (f : Fault) : Prop := f.position < UInt64.size

/-- Outcomes fit words of 64 bits with a sign, and weights are read back from their texts. -/
structure Distribution.Writable (d : Distribution Float) : Prop where
  outcomes : ∀ e ∈ d.entries, IsSigned e.1
  weights : ∀ e ∈ d.entries, Recovered e.2

@[inherit_doc Distribution.Writable] structure Law.Writable (l : Law Float) : Prop where
  lowest : IsSigned l.lowest
  highest : IsSigned l.highest
  distribution : l.distribution.Writable

@[inherit_doc Distribution.Writable] def Selection.Writable (d : Selection) : Prop := d.law.Writable

/-- The outcome fits a word of 64 bits with a sign, and the probability is read back from its
    text. -/
structure Record.Writable (r : Record) : Prop where
  outcome : IsSigned r.outcome
  probability : Recovered r.probability

/-- The limit fits a word of 64 bits, and every record can be written.  There may be more records
    than the limit allows. -/
structure History.Writable (h : History) : Prop where
  limit : h.limit < UInt64.size
  records : ∀ r ∈ h.records, r.Writable

/-- All that is in the session can be written. -/
structure Session.Writable (s : Session) : Prop where
  fault : ∀ f ∈ s.fault, f.Writable
  selection : ∀ d ∈ s.selection, d.Writable
  history : s.history.Writable

/-! ### Notation -/

/-- The letter is read back. -/
theorem Mode.faithful (m : Mode) : Faithful m where
  wellSpelled := by cases m <;> exact wellSpelled_ofString _
  decode := by cases m <;> simp [encode, decode?]

/-- What was expected is read back. -/
theorem Notation.Expected.faithful (e : Expected) : Faithful e where
  wellSpelled := wellSpelled_ofString _
  decode := by cases e <;> simp [encode, decode?, expectedName, expectedOf?]

/-- A fault is read back if its position fits a word. -/
theorem Notation.Fault.faithful {f : Fault} (h : f.Writable) : Faithful f := by
  have hposition := faithful_nat h
  have hfound := faithful_option (o := f.found) (fun c _ => faithful_char c)
    fun _ _ heq => nomatch heq
  have hexpected := f.expected.faithful
  refine .of_fields rfl (fun _ => rfl) rfl (by decide) (wellSpelled_record ?_) ?_
  · simp [hposition.wellSpelled, hfound.wellSpelled, hexpected.wellSpelled]
  · simp [hposition.decode, hfound.decode, hexpected.decode]

/-- Every pool is faithful, also one without dice or with dice that have no faces. -/
theorem Pool.faithful (p : Pool) : Faithful p := by
  have hcount := faithful_uint32 p.count
  have hmode := p.mode.faithful
  have hfaces := faithful_uint32 p.faces
  have hoffset := faithful_int32 p.offset
  refine .of_fields rfl (fun _ => rfl) rfl (by decide) (wellSpelled_record ?_) ?_
  · simp [hcount.wellSpelled, hmode.wellSpelled, hfaces.wellSpelled, hoffset.wellSpelled]
  · simp [hcount.decode, hmode.decode, hfaces.decode, hoffset.decode]

/-! ### Laws -/

/-- Entries that ascend are kept as they are. -/
theorem Distribution.lastEntries_eq_self {W : Type} {entries : List (Int × W)}
    (h : entries.Pairwise (fun a b => a.1 < b.1)) : lastEntries entries = entries := by
  induction entries with
  | nil => rfl
  | cons e entries ih =>
    obtain ⟨hfirst, hrest⟩ := List.pairwise_cons.mp h
    show insertNew e.1 e.2 (lastEntries entries) = e :: entries
    rw [ih hrest]
    cases entries with
    | nil => rfl
    | cons head entries => rw [insertNew, if_pos (hfirst head List.mem_cons_self)]

/-- Entries that ascend make their distribution again. -/
@[simp] theorem Distribution.ofLast_entries {W : Type} (d : Distribution W) :
    ofLast d.entries = d :=
  ext_entries (lastEntries_eq_self d.ascending)

/-- The name of an outcome is read as the outcome. -/
theorem Json.outcomeOf?_print {n : Int} (h : IsSigned n) :
    outcomeOf? (Numeral.ofInt n).print = some n := by
  have hread := readNumeral?_print (Numeral.wellSpelled_ofInt n) endsNumber_nil
  rw [List.append_nil] at hread
  rw [outcomeOf?, hread]
  exact (faithful_int h).decode

/-- The same outcomes with other weights. -/
def Distribution.mapWeights {V W : Type} (f : V → W) (d : Distribution V) : Distribution W where
  entries := d.entries.map fun e => (e.1, f e.2)
  ascending := d.ascending.map _ fun _ _ h => h

@[simp] theorem Distribution.mapWeights_id {W : Type} (d : Distribution W) : d.mapWeights id = d :=
  ext_entries (List.map_id _)

/-- The JSON of every distribution is written as the reader expects it. -/
theorem Distribution.wellSpelled (d : Distribution Float) : (encode d).WellSpelled := by
  refine .object (fun m hm => ?_) fun m hm => ?_
  all_goals obtain ⟨e, he, rfl⟩ := List.mem_map.mp hm
  · exact isSpelling_print e.1
  · exact wellSpelled_ofFloat e.2

/-- Every member is read as the entry that it was written for, with the weight that is read. -/
theorem Distribution.decode?_encode {d : Distribution Float} {f : Float → Float}
    (houtcomes : ∀ e ∈ d.entries, IsSigned e.1)
    (hweights : ∀ e ∈ d.entries, decode? (encode e.2) = some (f e.2)) :
    decode? (encode d) = some (d.mapWeights f) := by
  have hread : d.entries.mapM (fun e => do
      some (← outcomeOf? (Numeral.ofInt e.1).print, ← decode? (encode e.2))) =
      some (d.entries.map fun e => (e.1, f e.2)) :=
    mapM_eq_some_map fun e he => by simp [outcomeOf?_print (houtcomes e he), hweights e he]
  show Option.map ofLast ((d.entries.map _).mapM _) = some (d.mapWeights f)
  rw [List.mapM_map]
  exact (congrArg (Option.map ofLast) hread).trans (congrArg some (d.mapWeights f).ofLast_entries)

/-- A distribution is read back if its outcomes fit words and its weights are read back. -/
theorem Distribution.faithful {d : Distribution Float} (h : d.Writable) : Faithful d where
  wellSpelled := d.wellSpelled
  decode := by
    have hread := @decode?_encode d id h.outcomes fun e he =>
      (faithful_float (h.weights e he)).decode
    rwa [mapWeights_id] at hread

/-- The JSON of every law is written as the reader expects it. -/
theorem Law.wellSpelled (l : Law Float) : (encode l).WellSpelled := by
  refine wellSpelled_record ?_
  simp [show (encode l.lowest).WellSpelled from wellSpelled_ofInt _,
    show (encode l.highest).WellSpelled from wellSpelled_ofInt _, l.distribution.wellSpelled]

/-- A law is read with its own bounds, and with the distribution that is read. -/
theorem Law.decode?_encode {l : Law Float} {d : Distribution Float} (hlowest : IsSigned l.lowest)
    (hhighest : IsSigned l.highest) (h : decode? (encode l.distribution) = some d) :
    decode? (encode l) = some { l with distribution := d } := by
  have hfields : fieldsOf? ["lower_bound", "upper_bound", "distribution"] (encode l) =
      some [some (encode l.lowest), some (encode l.highest), some (encode l.distribution)] :=
    fieldsOf?_record rfl (by decide)
  show (fieldsOf? _ (encode l)).bind _ = _
  rw [hfields, Option.bind_some]
  simp [(faithful_int hlowest).decode, (faithful_int hhighest).decode, h]

/-- A law is read back if its bounds and its distribution are. -/
theorem Law.faithful {l : Law Float} (h : l.Writable) : Faithful l where
  wellSpelled := l.wellSpelled
  decode := decode?_encode h.lowest h.highest (Distribution.faithful h.distribution).decode

/-- Dice that are selected are read back if their law is. -/
theorem Selection.faithful {d : Selection} (h : d.Writable) : Faithful d := by
  have hraw := faithful_string d.raw
  have hpool := d.pool.faithful
  have hlaw := Law.faithful h
  refine .of_fields rfl (fun _ => rfl) rfl (by decide) (wellSpelled_record ?_) ?_
  · simp [hraw.wellSpelled, hpool.wellSpelled, hlaw.wellSpelled]
  · simp [hraw.decode, hpool.decode, hlaw.decode]

/-! ### Past rolls -/

/-- Every point in time is faithful, also one within a leap second or in a year with a sign. -/
theorem Calendar.Timestamp.faithful (t : Timestamp) : Faithful t where
  wellSpelled := wellSpelled_ofString t.text
  decode := by
    show (Value.ofString t.text).string?.bind Timestamp.read? = some t
    rw [string?_ofString, Option.bind_some, t.read?_text]

/-- The JSON of every record is written as the reader expects it, whatever its numbers are. -/
theorem Record.wellSpelled (r : Record) : (encode r).WellSpelled := by
  have hfaces : Faithful r.faces := faithful_list fun n _ => faithful_uint32 n
  refine wellSpelled_record ?_
  simp [(faithful_string r.raw).wellSpelled, r.pool.faithful.wellSpelled, hfaces.wellSpelled,
    r.rolledAt.faithful.wellSpelled, show (encode r.outcome).WellSpelled from wellSpelled_ofInt _,
    show (encode r.probability).WellSpelled from wellSpelled_ofFloat _]

/-- A record is read back if its outcome fits a word and its probability is read back. -/
theorem Record.faithful {r : Record} (h : r.Writable) : Faithful r := by
  have hraw := faithful_string r.raw
  have hpool := r.pool.faithful
  have houtcome := faithful_int h.outcome
  have hfaces : Faithful r.faces := faithful_list fun n _ => faithful_uint32 n
  have hprobability := faithful_float h.probability
  have hrolledAt := r.rolledAt.faithful
  refine .of_fields rfl (fun _ => rfl) rfl (by decide) r.wellSpelled ?_
  simp [hraw.decode, hpool.decode, houtcome.decode, hfaces.decode, hprobability.decode,
    hrolledAt.decode]

/-- Records are read back with their limit, also if they are more than it allows. -/
theorem History.faithful {h : History} (hwritable : h.Writable) : Faithful h := by
  have hlimit := faithful_nat hwritable.limit
  have hrecords := faithful_list fun r hr => Record.faithful (hwritable.records r hr)
  refine .of_fields rfl (fun _ => rfl) rfl (by decide) (wellSpelled_record ?_) ?_
  · simp [hlimit.wellSpelled, hrecords.wellSpelled]
  · simp [hlimit.decode, hrecords.decode]

/-! ### Sessions -/

/-- A session is read back if all that is in it can be written. -/
theorem Session.faithful {s : Session} (h : s.Writable) : Faithful s := by
  have hraw := faithful_string s.raw
  have hfault := faithful_option (fun f hf => Fault.faithful (h.fault f hf))
    fun _ _ => record_ne_null _
  have hselection := faithful_option (fun d hd => Selection.faithful (h.selection d hd))
    fun _ _ => record_ne_null _
  have hhistory := History.faithful h.history
  refine .of_fields rfl (fun _ => rfl) rfl (by decide) (wellSpelled_record ?_) ?_
  · simp [hraw.wellSpelled, hfault.wellSpelled, hselection.wellSpelled, hhistory.wellSpelled]
  · simp [hraw.decode, hfault.decode, hselection.decode, hhistory.decode]

/-- Sessions, and all that is in them, are read back from their JSON in either layout. -/
theorem Session.recovered_from_json (l : Layout) :
    (∀ s : Session, s.Writable → ofJson? Session (toJson l s) = some s) ∧
    (∀ f : Fault, f.Writable → ofJson? Fault (toJson l f) = some f) ∧
    (∀ d : Selection, d.Writable → ofJson? Selection (toJson l d) = some d) ∧
    (∀ p : Pool, ofJson? Pool (toJson l p) = some p) ∧
    (∀ m : Law Float, m.Writable → ofJson? (Law Float) (toJson l m) = some m) ∧
    (∀ d : Distribution Float, d.Writable → ofJson? (Distribution Float) (toJson l d) = some d) ∧
    (∀ h : History, h.Writable → ofJson? History (toJson l h) = some h) ∧
    (∀ r : Record, r.Writable → ofJson? Record (toJson l r) = some r) :=
  ⟨fun _ h => (Session.faithful h).ofJson?_toJson l,
    fun _ h => (Fault.faithful h).ofJson?_toJson l,
    fun _ h => (Selection.faithful h).ofJson?_toJson l,
    fun p => p.faithful.ofJson?_toJson l,
    fun _ h => (Law.faithful h).ofJson?_toJson l,
    fun _ h => (Distribution.faithful h).ofJson?_toJson l,
    fun _ h => (History.faithful h).ofJson?_toJson l,
    fun _ h => (Record.faithful h).ofJson?_toJson l⟩

/-- A session whose text is refused at a control, with dice that have no faces and an outcome at the
    end of its range, and with a record more than its limit allows. -/
theorem Session.recovered_from_json_refused :
    let pool : Pool := ⟨0, .unique, 0, -2147483648⟩
    let law : Law Float :=
      ⟨-9223372036854775808, 9223372036854775807,
        ⟨[(-9223372036854775808, 0.1), (9223372036854775807, -0.0)], by decide⟩⟩
    let record : Record := ⟨"\u00e9", pool, -1, [0, 4294967295], 0.5, .epoch⟩
    let s : Session :=
      ⟨"d\"\\\x01", some ⟨1, some '\x01', .number⟩, some ⟨"u", pool, law⟩, ⟨0, [record]⟩⟩
    ofJson? Session (toJson .compact s) = some s ∧ ofJson? Session (toJson .pretty s) = some s := by
  intro pool law record s
  have hlaw : law.Writable := by
    refine ⟨by decide, by decide, fun e he => ?_, fun e he => ?_⟩
    all_goals
      simp only [law, List.mem_cons, List.not_mem_nil, or_false] at he
      rcases he with rfl | rfl <;> decide +kernel
  have hrecord : ∀ r ∈ [record], r.Writable := by
    intro r hr
    obtain rfl := List.mem_singleton.mp hr
    exact ⟨by decide, by decide +kernel⟩
  have hs : s.Writable := by
    refine ⟨fun f hf => ?_, fun d hd => ?_, by decide, hrecord⟩
    · obtain rfl := Option.some.inj hf
      exact (by decide : 1 < UInt64.size)
    · obtain rfl := Option.some.inj hd
      exact hlaw
  exact ⟨(recovered_from_json .compact).1 s hs, (recovered_from_json .pretty).1 s hs⟩

end Dice
