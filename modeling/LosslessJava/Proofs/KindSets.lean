import LosslessJava.KindSet
import Mathlib.Data.Finset.Basic

/-! Sets of kinds as sets. Whichever way a set is put together, its bits are those of the kinds that were put in, and
no bit is set behind that of the last kind. So the two readings of a set agree: counting the bits of its words, and
asking for one kind after the other. -/

namespace LosslessJava

private theorem Kind.map_ordinal_all : Kind.all.map Kind.ordinal = List.range Kind.count := by decide +kernel

namespace KindSet

variable {s t : KindSet}

private theorem ext_bitAt (same : ∀ n, s.bitAt n = t.bitAt n) : s = t := by
  obtain ⟨s⟩ := s
  obtain ⟨t⟩ := t
  congr 1
  ext i inside : 1
  refine UInt64.toBitVec_inj.mp (BitVec.eq_of_getLsbD_eq fun n small => ?_)
  have here := same (64 * i + n)
  have word : (64 * i + n) / 64 = i := by omega
  have bit : (64 * i + n) % 64 = n := by omega
  simpa [bitAt, word, bit, inside] using here

/-! ### Counting bits -/

private theorem cpop_eq_countP (word : BitVec 64) : word.cpop.toNat = (List.range 64).countP word.getLsbD := by
  have counted : ∀ n, word.cpopNatRec n 0 = (List.range n).countP word.getLsbD := by
    intro n
    induction n with
    | zero => rfl
    | succ n ih =>
      rw [BitVec.cpopNatRec_succ, BitVec.cpopNatRec_eq, ih, List.range_succ, List.countP_append, List.countP_singleton]
      cases word.getLsbD n <;> rfl
  rw [BitVec.toNat_cpop, counted]

private theorem foldr_cpop (words : List UInt64) :
    words.foldr (fun word count => word.toBitVec.cpop.toNat + count) 0 =
      (List.range (64 * words.length)).countP fun n => words[n / 64]?.any (·.toBitVec.getLsbD (n % 64)) := by
  induction words with
  | nil => simp
  | cons word words ih =>
    have front : word.toBitVec.cpop.toNat =
        (List.range 64).countP fun n => (word :: words)[n / 64]?.any (·.toBitVec.getLsbD (n % 64)) := by
      rw [cpop_eq_countP]
      refine List.countP_congr fun n inside => ?_
      have small : n < 64 := List.mem_range.mp inside
      simp [Nat.div_eq_of_lt small, Nat.mod_eq_of_lt small]
    have back : (fun n => words[n / 64]?.any (·.toBitVec.getLsbD (n % 64))) =
        (fun n => (word :: words)[n / 64]?.any (·.toBitVec.getLsbD (n % 64))) ∘ (64 + ·) := by
      funext n
      have later : (64 + n) / 64 = n / 64 + 1 := by omega
      simp [later]
    rw [List.foldr_cons, ih, front, back, ← List.countP_map, ← List.countP_append, ← List.range_add]
    congr 2
    simp only [List.length_cons]
    omega

private theorem size_eq_countP (s : KindSet) : s.size = (List.range (64 * wordCount)).countP s.bitAt := by
  have counted := foldr_cpop s.words.toList
  rw [Vector.length_toList] at counted
  rw [size, counted]
  refine List.countP_congr fun n _ => ?_
  simp [bitAt, Vector.getElem?_toList]

private theorem isEmpty_iff_bitAt : s.isEmpty = true ↔ ∀ n, s.bitAt n = false := by
  constructor
  · intro clear n
    have zero : ∀ word ∈ s.words.toList, word = 0 := by
      simpa only [isEmpty, List.all_eq_true, beq_iff_eq] using clear
    cases found : s.words[n / 64]? with
    | none => simp [bitAt, found]
    | some word =>
      have member : word ∈ s.words.toList := Vector.mem_toList_iff.mpr (Vector.mem_of_getElem? found)
      simp [bitAt, found, zero word member]
  · intro clear
    have same : s = empty := ext_bitAt fun n => by rw [clear, bitAt_empty]
    simp [same, isEmpty, empty]

/-! ### Sets of kinds alone -/

def Clear (s : KindSet) : Prop := ∀ n, s.bitAt (Kind.count + n) = false

namespace Clear

private theorem ext_contains (clear : s.Clear) (clear' : t.Clear) (same : ∀ k, s.contains k = t.contains k) : s = t := by
  refine ext_bitAt fun n => ?_
  rcases Nat.lt_or_ge n Kind.count with inside | behind
  · have member : n ∈ Kind.all.map Kind.ordinal := by rw [Kind.map_ordinal_all]; exact List.mem_range.mpr inside
    obtain ⟨k, -, rfl⟩ := List.mem_map.mp member
    rw [← contains_eq_bitAt, ← contains_eq_bitAt, same]
  · have here : n = Kind.count + (n - Kind.count) := (Nat.add_sub_cancel' behind).symm
    rw [here, clear, clear']

private theorem size_eq (clear : s.Clear) : s.size = s.toList.length := by
  obtain ⟨spare, room⟩ : ∃ spare, 64 * wordCount = Kind.count + spare := by
    unfold wordCount
    exact Nat.exists_eq_add_of_le (by omega)
  have unused : (List.range spare).countP (s.bitAt ∘ (Kind.count + ·)) = 0 := by
    simp only [List.countP_eq_zero, Function.comp_apply]
    intro n _
    simp [clear n]
  have members : s.contains = s.bitAt ∘ Kind.ordinal := funext s.contains_eq_bitAt
  rw [size_eq_countP, room, List.range_add, List.countP_append, List.countP_map, unused, Nat.add_zero, toList,
    ← List.countP_eq_length_filter, members, ← List.countP_map, Kind.map_ordinal_all]

private theorem isEmpty_iff (clear : s.Clear) : s.isEmpty = true ↔ s.toList = [] := by
  have none : s.toList = [] ↔ ∀ k, s.contains k = empty.contains k := by
    simp [toList, List.filter_eq_nil_iff, Kind.mem_all]
  constructor
  · intro nothing
    refine none.mpr fun k => ?_
    rw [contains_eq_bitAt, isEmpty_iff_bitAt.mp nothing, contains_empty]
  · intro nothing
    have same : s = empty := clear.ext_contains (fun n => bitAt_empty _) (none.mp nothing)
    rw [same, isEmpty_iff_bitAt]
    exact bitAt_empty

end Clear

private theorem bitAt_insert (s : KindSet) (k : Kind) (n : Nat) :
    (s.insert k).bitAt n = (s.bitAt n || decide (k.ordinal = n)) := by
  rw [insert, bitAt_union, bitAt_singleton]

private theorem bitAt_ofList (kinds : List Kind) (n : Nat) :
    (ofList kinds).bitAt n = kinds.any fun k => decide (k.ordinal = n) := by
  have inserted : ∀ s : KindSet, (kinds.foldl insert s).bitAt n = (s.bitAt n || kinds.any fun k => decide (k.ordinal = n)) := by
    induction kinds with
    | nil => simp
    | cons k kinds ih =>
      intro s
      rw [List.foldl_cons, ih, bitAt_insert, List.any_cons, Bool.or_assoc]
  rw [ofList, inserted, bitAt_empty, Bool.false_or]

/-- A way to put a set together. -/
inductive Recipe where
  | empty
  | ofList (kinds : List Kind)
  | insert (set : Recipe) (kind : Kind)
  | union (left right : Recipe)

namespace Recipe

/-- The set that is put together. -/
def build : Recipe → KindSet
  | empty => .empty
  | ofList kinds => .ofList kinds
  | insert set kind => set.build.insert kind
  | union left right => left.build.union right.build

/-- The kinds that are put in. -/
def members : Recipe → Finset Kind
  | empty => ∅
  | ofList kinds => kinds.toFinset
  | insert set kind => Insert.insert kind set.members
  | union left right => left.members ∪ right.members

private theorem bitAt_build (recipe : Recipe) (n : Nat) :
    recipe.build.bitAt n = true ↔ ∃ k ∈ recipe.members, k.ordinal = n := by
  induction recipe with
  | empty => simp [build, members]
  | ofList kinds => simp [build, members, bitAt_ofList]
  | insert set kind ih => simp [build, members, bitAt_insert, ih, or_comm]
  | union left right ih ih' => simp [build, members, ih, ih', or_and_right, exists_or]

private theorem contains_build (recipe : Recipe) (k : Kind) : recipe.build.contains k = true ↔ k ∈ recipe.members := by
  simp [contains_eq_bitAt, bitAt_build, Kind.ordinal_inj]

private theorem clear_build (recipe : Recipe) : recipe.build.Clear := by
  intro n
  by_contra set
  obtain ⟨k, -, behind⟩ := (recipe.bitAt_build _).mp (Bool.not_eq_false _ ▸ set)
  have inside := k.ordinal_lt
  omega

private theorem ofList_toList (recipe : Recipe) : KindSet.ofList recipe.build.toList = recipe.build := by
  refine (clear_build (.ofList recipe.build.toList)).ext_contains recipe.clear_build fun k => ?_
  rw [Bool.eq_iff_iff]
  exact (contains_build (.ofList _) k).trans (List.mem_toFinset.trans mem_toList)

/-- A set has just the kinds that were put in, whichever way it is read, and is told apart from others by nothing
else. -/
theorem faithful (recipe : Recipe) :
    (∀ k, recipe.build.contains k = true ↔ k ∈ recipe.members) ∧
      recipe.build.size = recipe.build.toList.length ∧
      (recipe.build.isEmpty = true ↔ recipe.build.toList = []) ∧
      KindSet.ofList recipe.build.toList = recipe.build ∧
      (∀ other : Recipe, other.build = recipe.build ↔ ∀ k, other.build.contains k = recipe.build.contains k) ∧
      ∀ n, recipe.build.bitAt (Kind.count + n) = false := by
  have clear := recipe.clear_build
  refine ⟨recipe.contains_build, clear.size_eq, clear.isEmpty_iff, recipe.ofList_toList, fun other => ?_, clear⟩
  constructor
  · intro same k
    rw [same]
  · exact other.clear_build.ext_contains clear

end Recipe

end KindSet

end LosslessJava
