import Dice.Command.Reply
import Dice.Proofs.Command.CommandLines
import Dice.Proofs.Json.Laws

namespace Dice.Command

open Dice.Binary Dice.Calendar Dice.Json Dice.Notation Dice.Random

/-!
# Saved statistics

The JSON that is printed for the law of some dice can be read back.  The bounds and the outcomes come
back as they are; each probability comes back as the float that its own text is read as.

* `Request.read_statsArguments` — the command line that asks for the JSON of a law.
* `statsReply_of_read` — what is printed for it.
* `stats_json_read_back` — what it is read as.
-/

/-- The command line for the law of the dice that a text describes, as JSON. -/
def statsArguments (text : String) : List String := ["stats", text] ++ jsonArguments true

/-- The command line asks for the law, as JSON. -/
theorem Request.read_statsArguments {text : String} (h : Shape.of text = .word) :
    Request.read (statsArguments text) = .ok ⟨true, .stats text true defaultWidth⟩ := by
  have hread : readArguments .stats none (text :: jsonArguments true) {} =
      .ok ({ json := true }, [text]) := by
    rw [readArguments_word h]
    rfl
  exact read_cons (show Shape.of "stats" = .word from rfl) rfl hread rfl

/-- The law is printed on lines of its own. -/
theorem statsReply_of_read {text : String} {pool : Pool} (h : Pool.read text = .ok pool)
    (width : Nat) :
    statsReply text true width = .done (toJson .pretty (pool.law : Law Float) ++ "\n") := by
  simp only [statsReply, Selection.read, h, Except.map]
  rfl

/-- The JSON that is printed for the law of some dice, by any command line that asks for it, and the
    JSON on a single line, are read as the same law, as long as the outcomes and their weights, of
    64 bits each, fit in the memory of a machine with words of 64 bits.  It has the bounds and the
    outcomes of the law.  Each weight is the float that the text of the weight is read as, which is
    off by a few units of its last binary digit at most, and not at all if the text is short; so it
    is the law itself if and only if every weight is recovered from its own text. -/
theorem stats_json_read_back {text : String} {pool : Pool} (hread : Pool.read text = .ok pool)
    (hmemory : 16 * (pool.law : Law Float).distribution.size < UInt64.size) :
    ∃ m : Law Float,
      (∀ arguments color width,
        Request.read arguments = .ok ⟨color, .stats text true width⟩ →
        ∀ (fresh : Roller) (clock : Nat → Timestamp) (lines : List Line),
          (reply arguments fresh clock lines).ending = .done ∧
          ofJson? (Law Float) (reply arguments fresh clock lines).output = some m) ∧
      ofJson? (Law Float) (toJson .compact (pool.law : Law Float)) = some m ∧
      m.lowest = (pool.law : Law Float).lowest ∧ m.highest = (pool.law : Law Float).highest ∧
      m.distribution.outcomes = (pool.law : Law Float).distribution.outcomes ∧
      (∀ o ∈ m.distribution.outcomes,
        Reread ((pool.law : Law Float).distribution.weightOf o) (m.distribution.weightOf o)) ∧
      (m = pool.law ↔
        ∀ o ∈ m.distribution.outcomes,
          Recovered ((pool.law : Law Float).distribution.weightOf o)) := by
  obtain ⟨hc, hf⟩ := positive_of_readChars hread
  have hreadable := Pool.readable_law hc hf hmemory
  obtain ⟨hcompact, -⟩ := Law.ofJson?_toJson hreadable .compact
  obtain ⟨-, hline⟩ := Law.ofJson?_toJson hreadable .pretty
  have houtcomes : (pool.law : Law Float).readBack.distribution.outcomes =
      (pool.law : Law Float).distribution.outcomes :=
    Distribution.outcomes_readBack _
  refine ⟨(pool.law : Law Float).readBack, ?_, hcompact, rfl, rfl, houtcomes, ?_, ?_⟩
  · intro arguments color width hasked fresh clock lines
    have hreply : reply arguments fresh clock lines =
        .done (toJson .pretty (pool.law : Law Float) ++ "\n") := by
      simp only [reply, hasked]
      exact statsReply_of_read hread width
    rw [hreply]
    exact ⟨rfl, hline⟩
  · intro o ho
    rw [houtcomes] at ho
    obtain ⟨y, hy⟩ := hreadable.distribution.weights _ (Distribution.weightOf_mem_entries ho)
    have hweight : (pool.law : Law Float).readBack.distribution.weightOf o = y :=
      (Distribution.weightOf_readBack ho).trans hy.readBack_eq
    rwa [hweight]
  · rw [houtcomes]
    exact Law.readBack_eq_self_iff hreadable

/-- The law of a coin is read back as it was. -/
theorem stats_json_read_back_d2 :
    let pool : Pool := ⟨1, .standard, 2, 0⟩
    Pool.read "d2" = .ok pool ∧
      16 * (pool.law : Law Float).distribution.size < UInt64.size ∧
      Request.read ["stats", "d2", "--json"] = .ok ⟨true, .stats "d2" true 40⟩ ∧
      ∀ (fresh : Roller) (clock : Nat → Timestamp),
        ofJson? (Law Float) (reply ["stats", "d2", "--json"] fresh clock []).output =
          some pool.law := by
  intro pool
  have hread : Pool.read "d2" = .ok pool := by rfl
  have hmemory : 16 * (pool.law : Law Float).distribution.size < UInt64.size := by decide +kernel
  have hasked : Request.read ["stats", "d2", "--json"] = .ok ⟨true, .stats "d2" true 40⟩ :=
    Request.read_statsArguments (by rfl)
  refine ⟨hread, hmemory, hasked, fun fresh clock => ?_⟩
  obtain ⟨m, hprinted, -, -, -, houtcomes, -, hself⟩ := stats_json_read_back hread hmemory
  have hrecovered : m = pool.law := by
    rw [hself, houtcomes]
    decide +kernel
  rw [← hrecovered]
  exact (hprinted _ _ _ hasked fresh clock []).2

/-- The probability of a face of eleven is not recovered from its text, so the law of such a die is
    not read back as it was. -/
theorem not_forall_stats_json_recovered :
    ¬ ∀ (text : String) (pool : Pool), Pool.read text = .ok pool →
        16 * (pool.law : Law Float).distribution.size < UInt64.size →
        ∀ layout, ofJson? (Law Float) (toJson layout (pool.law : Law Float)) = some pool.law := by
  intro h
  have hread : Pool.read "d11" = .ok ⟨1, .standard, 11, 0⟩ := by rfl
  have hmemory :
      16 * (Pool.law ⟨1, .standard, 11, 0⟩ : Law Float).distribution.size < UInt64.size := by
    decide +kernel
  have hreadable := Pool.readable_law (by decide) (by decide) hmemory
  have hself := h _ _ hread hmemory .compact
  rw [(Law.ofJson?_toJson hreadable .compact).1, Option.some_inj,
    Law.readBack_eq_self_iff hreadable] at hself
  have hface := hself 1 (by decide +kernel)
  revert hface
  decide +kernel

end Dice.Command
