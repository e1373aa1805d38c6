import Mathlib.Data.List.Destutter
import Retint.Proofs.Text.Order
import Retint.Tree.Session

/-!
# The kinds of a grammar

A grammar numbers its kinds and may give several numbers the same name, some of them named and some
not. The names are filtered, sorted, and freed of repetitions. A repetition is an equal name right
behind, and behind the sort all equal names stand together, so each name is left once.
-/

namespace Retint

section Repetitions

variable {α : Type} [DecidableEq α] [BEq α] [LawfulBEq α] {l : List α}

theorem eraseReps_loop_eq (a : α) (l acc : List α) : List.eraseRepsBy.loop (· == ·) a l acc =
    acc.reverse ++ l.destutter' (· ≠ ·) a := by
  induction l generalizing a acc with
  | nil => simp [List.eraseRepsBy.loop]
  | cons b l ih =>
    by_cases hab : a = b
    · subst hab
      rw [List.destutter'_cons_neg _ (by simp), ← ih a acc]
      simp [List.eraseRepsBy.loop]
    · rw [List.destutter'_cons_pos _ hab, List.eraseRepsBy.loop, beq_false_of_ne hab]
      simp [ih b (a :: acc)]

theorem eraseReps_eq_destutter (l : List α) : l.eraseReps = l.destutter (· ≠ ·) := by
  cases l with
  | nil => rfl
  | cons a l => exact eraseReps_loop_eq a l []

/-- In an ordered list all repetitions are duplicates of what stands right in front of them. -/
theorem eraseReps_eq_dedup {r : α → α → Prop} [Std.Antisymm r] (h : l.Pairwise r) :
    l.eraseReps = l.dedup := by
  rw [eraseReps_eq_destutter, h.destutter_eq_dedup]

end Repetitions

namespace SymbolTable

variable {table : SymbolTable} {name : String}

/-- The names of the kinds that are named and have a name, with their repetitions. -/
def namedNames (table : SymbolTable) : List String :=
  table.filterMap fun (name, named) => if named then name else none

theorem mem_namedNames_iff : name ∈ table.namedNames ↔ (some name, true) ∈ table := by
  rw [namedNames, List.mem_filterMap]
  constructor
  · rintro ⟨⟨name', named⟩, hmem, hname⟩
    cases named with
    | false => contradiction
    | true => exact (show name' = some name from hname) ▸ hmem
  · intro hmem
    exact ⟨_, hmem, rfl⟩

/-- The kinds are the sorted names without duplicates, if every symbol has a number. -/
theorem kinds_eq_dedup (hsize : table.length ≤ 65536) :
    table.kinds = (table.namedNames.mergeSort fun a b => a ≤ b).dedup ∧
      (table.namedNames.mergeSort fun a b => a ≤ b).Pairwise (· ≤ ·) := by
  have hsorted : (table.namedNames.mergeSort fun a b => a ≤ b).Pairwise (· ≤ ·) := by
    have htrans : ∀ a b c : String, decide (a ≤ b) = true → decide (b ≤ c) = true →
        decide (a ≤ c) = true := by
      intro a b c hab hbc
      rw [decide_eq_true_eq] at hab hbc ⊢
      exact String.le_trans hab hbc
    have htotal : ∀ a b : String, (decide (a ≤ b) || decide (b ≤ a)) = true := by
      intro a b
      simpa using String.le_total a b
    simpa using List.pairwise_mergeSort htrans htotal table.namedNames
  refine ⟨?_, hsorted⟩
  rw [kinds, List.take_of_length_le hsize]
  exact eraseReps_eq_dedup hsorted

end SymbolTable

/-- **A grammar's kinds are listed once each, in the order of their bytes.** For the chosen
language, a table whose symbols all have numbers of sixteen bits is answered with a list of names.
They are strictly increasing by their bytes, and they are exactly the names that at least one named
symbol has. -/
theorem kinds_are_listed_once {symbols : Language → SymbolTable} {s : Session} {language : Language}
    (hlanguage : s.language = some language) (hsize : (symbols language).length ≤ 65536) :
    ∃ kinds, s.listKinds symbols = .ok kinds ∧
      kinds.Pairwise (fun a b => Text.bytesOf a < Text.bytesOf b) ∧
      ∀ name, name ∈ kinds ↔ (some name, true) ∈ symbols language := by
  obtain ⟨hkinds, hsorted⟩ := SymbolTable.kinds_eq_dedup hsize
  refine ⟨(symbols language).kinds, by rw [Session.listKinds, hlanguage], ?_, fun name => ?_⟩
  · rw [hkinds]
    have hle := hsorted.sublist (List.dedup_sublist _)
    have hne := List.nodup_dedup ((symbols language).namedNames.mergeSort fun a b => a ≤ b)
    exact (hle.and hne).imp fun ⟨hle, hne⟩ => Text.bytesOf_lt (lt_of_le_of_ne hle hne)
  · rw [hkinds, List.mem_dedup, List.mem_mergeSort, SymbolTable.mem_namedNames_iff]

/-- A table in which a name repeats, one has no named symbol, one symbol has no name, and one name
begins with a character of two bytes. -/
theorem kinds_are_listed_once_of_repetition :
    let table : SymbolTable := [(some "b", true), (none, true), (some "é", true), (some "a", false),
      (some "b", false), (some "a", true), (some "z", false), (some "b", true)]
    let s := Session.start.setLanguage .rust
    s.language = some .rust ∧ table.length ≤ 65536 ∧
      s.listKinds (fun _ => table) = .ok ["a", "b", "é"] ∧
      ["a", "b", "é"].Pairwise (fun a b => Text.bytesOf a < Text.bytesOf b) ∧
      ∀ name, name ∈ ["a", "b", "é"] ↔ (some name, true) ∈ table := by
  intro table s
  obtain ⟨kinds, hkinds, hincreasing, hmem⟩ :=
    @kinds_are_listed_once (fun _ => table) s .rust rfl (by decide)
  have hlisted : s.listKinds (fun _ => table) = .ok ["a", "b", "é"] := by
    simp +decide [s, table, Session.listKinds, SymbolTable.kinds, List.mergeSort, List.eraseReps]
  obtain rfl : kinds = ["a", "b", "é"] := by
    rw [hlisted] at hkinds
    exact (Except.ok.inj hkinds).symm
  exact ⟨rfl, by decide, hlisted, hincreasing, hmem⟩

end Retint
