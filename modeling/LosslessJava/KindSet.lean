import LosslessJava.Kind

/-!
Sets of kinds, kept as one bit per kind in words of 64 bits. A set lists its members in declaration
order, whatever the order in which they were put in.
-/
namespace LosslessJava

/-- How many words it takes to have a bit for every kind. Irreducible, as no proof is to count the kinds. -/
@[irreducible] def KindSet.wordCount : Nat := (Kind.count + 63) / 64

/-- A set of kinds: the bit of a kind says whether it is a member. -/
structure KindSet where
  words : Vector UInt64 KindSet.wordCount
  deriving DecidableEq, Repr, Inhabited

namespace KindSet

/-- The word that has the bit of a kind. -/
def slot (k : Kind) : Fin wordCount :=
  ⟨k.ordinal / 64, by
    have inside := k.ordinal_lt
    unfold wordCount
    omega⟩

/-- The bit of a kind in its word. -/
def mask (k : Kind) : UInt64 := 1 <<< UInt64.ofNat (k.ordinal % 64)

def empty : KindSet := ⟨.replicate _ 0⟩

def singleton (k : Kind) : KindSet := ⟨empty.words.set (slot k) (mask k)⟩

def union (s t : KindSet) : KindSet := ⟨.ofFn fun slot => s.words[slot] ||| t.words[slot]⟩

def insert (s : KindSet) (k : Kind) : KindSet := s.union (singleton k)

def ofList (kinds : List Kind) : KindSet := kinds.foldl insert empty

def contains (s : KindSet) (k : Kind) : Bool := s.words[slot k] &&& mask k != 0

def isEmpty (s : KindSet) : Bool := s.words.toList.all (· == 0)

/-- How many members the set has: the number of bits that are set. -/
def size (s : KindSet) : Nat :=
  s.words.toList.foldr (fun word count => word.toBitVec.cpop.toNat + count) 0

/-- The members, in declaration order. -/
def toList (s : KindSet) : List Kind := Kind.all.filter s.contains

/-- What stands in front of a member: commas separate, and the last two are joined by "or". -/
def separator (size index : Nat) : String :=
  if index = 0 then "" else if index + 1 = size then " or " else ", "

/-- The members as a message lists them. -/
def describe (s : KindSet) : String :=
  String.join (s.toList.zipIdx.map fun (k, index) => separator s.size index ++ k.describe)

/-- The names of the members in braces. -/
def dump (s : KindSet) : String :=
  "\x7b" ++ ", ".intercalate (s.toList.map Kind.name) ++ "\x7d"

instance : Union KindSet := ⟨union⟩

@[simp] theorem union_eq (s t : KindSet) : s ∪ t = s.union t := rfl

/-- The bit of a number, counted from the first bit of the first word on. -/
def bitAt (s : KindSet) (n : Nat) : Bool := s.words[n / 64]?.any (·.toBitVec.getLsbD (n % 64))

theorem mask_toBitVec (k : Kind) : (mask k).toBitVec = .twoPow 64 (k.ordinal % 64) := by
  rw [BitVec.twoPow_eq, mask, UInt64.toBitVec_shiftLeft, BitVec.shiftLeft_eq']
  simp

theorem and_mask (word : UInt64) (k : Kind) :
    (word &&& mask k != 0) = word.toBitVec.getLsbD (k.ordinal % 64) := by
  have small : k.ordinal % 64 < 64 := Nat.mod_lt _ (by decide)
  have bit : BitVec.twoPow 64 (k.ordinal % 64) ≠ 0#64 := by
    intro clear
    simpa [BitVec.getLsbD_twoPow, small] using congrArg (BitVec.getLsbD · (k.ordinal % 64)) clear
  have masked : (word &&& mask k).toBitVec =
      if word.toBitVec.getLsbD (k.ordinal % 64) then .twoPow 64 (k.ordinal % 64) else 0#64 := by
    rw [UInt64.toBitVec_and, mask_toBitVec, BitVec.and_twoPow]
  rw [Bool.eq_iff_iff, bne_iff_ne, ne_eq, ← UInt64.toBitVec_inj, masked]
  generalize word.toBitVec.getLsbD (k.ordinal % 64) = member
  cases member <;> simp [bit]

theorem contains_eq_bitAt (s : KindSet) (k : Kind) : s.contains k = s.bitAt k.ordinal := by
  have inside : k.ordinal / 64 < wordCount := (slot k).isLt
  simp [contains, bitAt, and_mask, slot, inside]

@[simp] theorem bitAt_empty (n : Nat) : empty.bitAt n = false := by
  simp only [bitAt, empty, Vector.getElem?_replicate]
  split <;> simp

@[simp] theorem bitAt_singleton (k : Kind) (n : Nat) :
    (singleton k).bitAt n = decide (k.ordinal = n) := by
  have inside : k.ordinal / 64 < wordCount := (slot k).isLt
  simp only [bitAt, singleton, empty, slot, Vector.getElem?_set, Vector.getElem?_replicate]
  split
  · next same =>
    have small : k.ordinal % 64 < 64 := Nat.mod_lt _ (by decide)
    simp only [Option.any_some, mask_toBitVec, BitVec.getLsbD_twoPow, small, decide_true, Bool.true_and,
      decide_eq_decide]
    omega
  · next other =>
    have away : k.ordinal ≠ n := fun same => other (same ▸ rfl)
    split <;> simp [away]

@[simp] theorem bitAt_union (s t : KindSet) (n : Nat) :
    (s.union t).bitAt n = (s.bitAt n || t.bitAt n) := by
  simp only [bitAt, union, Vector.getElem?_ofFn]
  split
  · next inside => simp [inside]
  · next outside => simp [outside]

@[simp] theorem contains_empty (k : Kind) : empty.contains k = false := by
  simp [contains_eq_bitAt]

@[simp] theorem contains_singleton (k l : Kind) : (singleton k).contains l = decide (k = l) := by
  simp [contains_eq_bitAt, Kind.ordinal_inj]

@[simp] theorem contains_union (s t : KindSet) (k : Kind) :
    (s.union t).contains k = (s.contains k || t.contains k) := by
  simp [contains_eq_bitAt]

@[simp] theorem contains_insert (s : KindSet) (k l : Kind) :
    (s.insert k).contains l = (s.contains l || decide (k = l)) := by
  simp [insert]

theorem mem_toList {s : KindSet} {k : Kind} : k ∈ s.toList ↔ s.contains k = true := by
  simp [toList, Kind.mem_all]

end KindSet

end LosslessJava
