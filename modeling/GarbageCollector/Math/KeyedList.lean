import Mathlib.Data.List.Pairwise
import Mathlib.Data.List.Perm.Basic
import Mathlib.Order.Defs.Unbundled

/-! # Lists of keyed values

Keys are compared by a Boolean equivalence, which may be coarser than equality. A list with no two
entries of the same key is a finite map: what it stores for a key does not depend on the order of the
entries, so every fact about it survives a permutation.
-/

namespace KeyedList

variable {K V : Type*} (same : K → K → Bool)

/-- What the list stores for a key. -/
def find (contents : List (K × V)) (key : K) : Option V :=
  (contents.find? fun entry => same entry.1 key).map Prod.snd

/-- The list without the entries of a key. -/
def erase (contents : List (K × V)) (key : K) : List (K × V) :=
  contents.filter fun entry => !same entry.1 key

/-- No key has two entries. -/
def Distinct (contents : List (K × V)) : Prop :=
  contents.Pairwise fun first second => same first.1 second.1 = false

/-- The comparison is an equivalence. -/
abbrev IsComparison : Prop := Equivalence fun first second => same first second = true

variable {same} {contents other : List (K × V)} {key query stored : K} {value : V}

theorem IsComparison.comm (comparison : IsComparison same) (first second : K) :
    same first second = same second first := by
  rw [Bool.eq_iff_iff]
  exact ⟨fun holds => comparison.symm holds, fun holds => comparison.symm holds⟩

/-- Keys of one class are not told apart. -/
theorem IsComparison.congr (comparison : IsComparison same) (agree : same stored key = true) (query : K) :
    same stored query = same key query := by
  rw [Bool.eq_iff_iff]
  exact ⟨fun holds => comparison.trans (comparison.symm agree) holds, comparison.trans agree⟩

theorem find_cons : find same ((stored, value) :: contents) key =
    if same stored key then some value else find same contents key := by
  rw [find, List.find?_cons, find]
  cases same stored key <;> rfl

@[simp] theorem find_nil : find same ([] : List (K × V)) key = none := rfl

theorem find_eq_none_iff :
    find same contents key = none ↔ ∀ entry ∈ contents, same entry.1 key = false := by
  simp [find]

/-- In a list of distinct keys, an entry is found exactly under the keys of its class. -/
theorem find_eq_some_iff (comparison : IsComparison same) (distinct : Distinct same contents) :
    find same contents key = some value ↔ ∃ stored, (stored, value) ∈ contents ∧ same stored key = true := by
  induction contents with
  | nil => simp
  | cons head rest ih =>
    obtain ⟨first, held⟩ := head
    obtain ⟨apart, distinct⟩ := List.pairwise_cons.mp distinct
    rw [find_cons]
    cases here : same first key with
    | true =>
      rw [if_pos rfl, Option.some.injEq]
      constructor
      · rintro rfl
        exact ⟨first, List.mem_cons_self, here⟩
      · rintro ⟨stored, member, agree⟩
        rcases List.mem_cons.mp member with ⟨rfl, rfl⟩ | later
        · rfl
        · have clash := comparison.trans here (comparison.symm agree)
          rw [apart _ later] at clash
          cases clash
    | false =>
      rw [if_neg Bool.false_ne_true, ih distinct]
      constructor
      · rintro ⟨stored, member, agree⟩
        exact ⟨stored, List.mem_cons_of_mem _ member, agree⟩
      · rintro ⟨stored, member, agree⟩
        rcases List.mem_cons.mp member with ⟨rfl, rfl⟩ | later
        · rw [here] at agree
          cases agree
        · exact ⟨stored, later, agree⟩

theorem Distinct.perm (comparison : IsComparison same) (distinct : Distinct same contents)
    (permutation : contents.Perm other) : Distinct same other :=
  (permutation.pairwise_iff fun {first second} apart => by rwa [comparison.comm]).mp distinct

/-- What is stored for a key survives a permutation. -/
theorem find_perm (comparison : IsComparison same) (distinct : Distinct same contents)
    (permutation : contents.Perm other) : find same contents key = find same other key := by
  apply Option.ext
  intro value
  rw [find_eq_some_iff comparison distinct,
    find_eq_some_iff comparison (distinct.perm comparison permutation)]
  simp only [permutation.mem_iff]

theorem find_erase (comparison : IsComparison same) :
    find same (erase same contents key) query =
      if same key query then none else find same contents query := by
  induction contents with
  | nil => simp [erase]
  | cons head rest ih =>
    obtain ⟨first, held⟩ := head
    rw [erase, List.filter_cons]
    cases here : same first key with
    | true =>
      rw [Bool.not_true, if_neg Bool.false_ne_true, ← erase, ih, find_cons, comparison.congr here]
      cases same key query <;> rfl
    | false =>
      rw [Bool.not_false, if_pos rfl, ← erase, find_cons, find_cons, ih]
      cases agree : same key query with
      | false => rfl
      | true =>
        have apart : same first query = false := by
          rw [comparison.comm, ← comparison.congr agree, comparison.comm, here]
        rw [apart, if_neg Bool.false_ne_true, if_pos rfl, if_pos rfl]

theorem find_erase_self (comparison : IsComparison same) : find same (erase same contents key) key = none := by
  rw [find_erase comparison, if_pos (comparison.refl key)]

theorem Distinct.erase (distinct : Distinct same contents) (key : K) :
    Distinct same (KeyedList.erase same contents key) :=
  List.Pairwise.sublist List.filter_sublist distinct

/-- Entries of another class than the new one stay distinct from it. -/
theorem Distinct.cons_erase (comparison : IsComparison same) (distinct : Distinct same contents)
    (agree : same stored key = true) :
    Distinct same ((stored, value) :: KeyedList.erase same contents key) := by
  refine List.pairwise_cons.mpr ⟨fun entry member => ?_, distinct.erase key⟩
  have apart := (List.mem_filter.mp member).2
  rw [comparison.congr agree, comparison.comm]
  simpa using apart

/-- Writing a value for a key changes what is stored for its class. -/
theorem find_cons_erase (comparison : IsComparison same) (agree : same stored key = true) :
    find same ((stored, value) :: erase same contents key) query =
      if same key query then some value else find same contents query := by
  rw [find_cons, comparison.congr agree, find_erase comparison]
  cases same key query <;> rfl

/-- A list that stores nothing for a key has nothing to erase. -/
theorem erase_of_find_eq_none (absent : find same contents key = none) :
    erase same contents key = contents := by
  rw [erase, List.filter_eq_self]
  intro entry member
  rw [find_eq_none_iff.mp absent entry member, Bool.not_false]

/-- Erasing the key of the first of several distinct entries leaves the others. -/
theorem erase_cons (comparison : IsComparison same)
    (distinct : Distinct same ((stored, value) :: contents)) (agree : same stored key = true) :
    erase same ((stored, value) :: contents) key = contents := by
  rw [erase, List.filter_cons, agree, Bool.not_true, if_neg Bool.false_ne_true, List.filter_eq_self]
  intro entry member
  rw [comparison.comm, ← comparison.congr agree, (List.pairwise_cons.mp distinct).1 entry member,
    Bool.not_false]

theorem erase_perm (permutation : contents.Perm other) (key : K) :
    (erase same contents key).Perm (erase same other key) :=
  permutation.filter _

/-- The entry of a stored key comes first, up to the order, and erasing the key leaves the others. -/
theorem exists_cons_erase (comparison : IsComparison same) (distinct : Distinct same contents)
    (found : find same contents key = some value) :
    ∃ stored, same stored key = true ∧ contents.Perm ((stored, value) :: erase same contents key) := by
  obtain ⟨stored, member, agree⟩ := (find_eq_some_iff comparison distinct).mp found
  obtain ⟨front, back, split⟩ := List.append_of_mem member
  have first : contents.Perm ((stored, value) :: (front ++ back)) := split ▸ List.perm_middle
  refine ⟨stored, agree, first.trans (.cons _ ?_)⟩
  rw [← erase_cons comparison (distinct.perm comparison first) agree]
  exact (erase_perm first key).symm

theorem length_erase (comparison : IsComparison same) (distinct : Distinct same contents)
    (found : find same contents key = some value) :
    (erase same contents key).length + 1 = contents.length := by
  obtain ⟨stored, _, first⟩ := exists_cons_erase comparison distinct found
  exact first.length_eq.symm

end KeyedList
