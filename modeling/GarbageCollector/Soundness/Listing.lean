import GarbageCollector.Proofs.Rounds
import GarbageCollector.Proofs.StoreRuns
import GarbageCollector.Soundness.StockCovers

/-! # Listing the merchandise

`strcmp` orders the strings linearly, and a table has each of its names once. So there is one way to sort them,
and what `list_merchandise` prints is a number of whole pages of that list.
-/

namespace GarbageCollector.Soundness

open Model Proofs

variable {full : ℕ → ℕ → Bool} {db : Database} {calls : List StoreCall}

theorem strcmpLe_total (first second : List (BitVec 8)) :
    strcmpLe first second = true ∨ strcmpLe second first = true := by
  induction first generalizing second with
  | nil => exact .inl rfl
  | cons a first ih =>
    cases second with
    | nil => exact .inr rfl
    | cons b second =>
      simp only [strcmpLe, Bool.or_eq_true, Bool.and_eq_true, decide_eq_true_eq]
      rcases lt_trichotomy a.toNat b.toNat with less | same | more
      · exact .inl (.inl less)
      · obtain rfl := BitVec.eq_of_toNat_eq same
        rcases ih second with before | after
        · exact .inl (.inr ⟨rfl, before⟩)
        · exact .inr (.inr ⟨rfl, after⟩)
      · exact .inr (.inl more)

theorem strcmpLe_trans {first second third : List (BitVec 8)} (left : strcmpLe first second = true)
    (right : strcmpLe second third = true) : strcmpLe first third = true := by
  induction first generalizing second third with
  | nil => rfl
  | cons a first ih =>
    cases second with
    | nil => cases left
    | cons b second =>
      cases third with
      | nil => cases right
      | cons c third =>
        simp only [strcmpLe, Bool.or_eq_true, Bool.and_eq_true, decide_eq_true_eq] at left right ⊢
        rcases left with less | ⟨rfl, left⟩
        · rcases right with less' | ⟨rfl, _⟩
          · exact .inl (less.trans less')
          · exact .inl less
        · rcases right with less' | ⟨rfl, right⟩
          · exact .inl less'
          · exact .inr ⟨rfl, ih left right⟩

theorem strcmpLe_antisymm {first second : List (BitVec 8)} (left : strcmpLe first second = true)
    (right : strcmpLe second first = true) : first = second := by
  induction first generalizing second with
  | nil =>
    cases second with
    | nil => rfl
    | cons b second => cases right
  | cons a first ih =>
    cases second with
    | nil => cases left
    | cons b second =>
      simp only [strcmpLe, Bool.or_eq_true, Bool.and_eq_true, decide_eq_true_eq] at left right
      rcases left with less | ⟨rfl, left⟩
      · rcases right with less' | ⟨rfl, _⟩
        · exact absurd (less.trans less') (lt_irrefl _)
        · exact absurd less (lt_irrefl _)
      · rcases right with less' | ⟨_, right⟩
        · exact absurd less' (lt_irrefl _)
        · rw [ih left right]

instance : Std.Total cmpStringP := ⟨fun first second => strcmpLe_total first.chars second.chars⟩

instance : IsTrans CString cmpStringP := ⟨fun _ _ _ left right => strcmpLe_trans left right⟩

/-- `strcmp(first, second) < 0`. -/
def StrictlyBefore (first second : CString) : Prop := cmpStringP first second ∧ ¬ cmpStringP second first

theorem strictlyBefore_of_ne {first second : CString} (before : cmpStringP first second) (apart : first ≠ second) :
    StrictlyBefore first second := by
  refine ⟨before, fun after => apart ?_⟩
  have same := strcmpLe_antisymm before after
  cases first
  cases second
  cases same
  rfl

/-- A loop that appends each value to an array. -/
theorem foldlM_collect {α : Type} (values seen : List α) :
    values.foldlM (fun seen value => (.ok (seen ++ [value]) : Except DemoFault (List α))) seen =
      .ok (seen ++ values) := by
  induction values generalizing seen with
  | nil => rw [List.foldlM_nil, List.append_nil]; rfl
  | cons value values ih =>
    rw [List.foldlM_cons, Machine.ok_bind, ih, List.append_assoc]
    rfl

/-- The names of a table are sorted, and each is there once. -/
theorem sortedNames_ok {table : HashTable CString ℕ} {contents : List (CString × ℕ)}
    (names : HoldsNames full table contents) (few : contents.length < 2 ^ 31) :
    ∃ sorted, sortedNames table = .ok sorted ∧ sorted.Pairwise StrictlyBefore ∧
      sorted.Perm (contents.map Prod.fst) := by
  obtain ⟨list, listed, collected, stores, perm⟩ := names.holds.keys (stringFunctions_compares full) few
  have array : createArrayFromList list = .ok (listed.map Prod.fst) := by
    rw [createArrayFromList, stores.iterate, foldlM_collect, List.nil_append]
  have count : table.size = (listed.map Prod.fst).length := by
    rw [names.holds.size, List.length_map, perm.length_eq]
  have sort : ((listed.map Prod.fst).insertionSort cmpStringP).Perm (listed.map Prod.fst) :=
    List.perm_insertionSort _ _
  have distinct : (listed.map Prod.fst).Nodup := by
    have apart := KeyedList.Distinct.perm compareString_comparison names.distinct perm.symm
    rw [List.Nodup, List.pairwise_map]
    apply apart.imp
    intro first second different same
    rw [compareString_iff.mpr same] at different
    cases different
  refine ⟨(listed.map Prod.fst).insertionSort cmpStringP, ?_, ?_, sort.trans (perm.map Prod.fst)⟩
  · rw [sortedNames, collected, Machine.ok_bind, array, Machine.ok_bind, sortKeys, if_pos count.le, count,
      List.take_length, List.drop_length, List.append_nil, Machine.ok_bind, ← sort.length_eq, List.take_length]
  · apply ((List.pairwise_insertionSort cmpStringP (listed.map Prod.fst)).and (sort.nodup_iff.mpr distinct)).imp
    rintro first second ⟨before, apart⟩
    exact strictlyBefore_of_ne before apart

/-- After any calls, `list_merchandise` prints whole pages of the names that the store can look up, in strict
order: twenty, and twenty more for each line that says `y`, of which it reads no more than there are full
pages. -/
theorem listMerchandise_sorts (ran : Machine.run (Database.step full) Database.create calls = .ok db)
    (few : db.allMerch.size < 2 ^ 31) : ∃ names : List CString, names.Pairwise StrictlyBefore ∧
      (∀ name, name ∈ names ↔ ∃ address, db.allMerch.lookup (stringFunctions full) name = .ok (some address)) ∧
      ∀ input, listMerchandise db.allMerch input = .ok (names.take (20 * (agreed input + 1)),
        afterLines (min (agreed input + 1) (names.length / 20)) input) := by
  obtain ⟨v, kept⟩ := kept_of_run ran
  rw [kept.allMerch.holds.size] at few
  obtain ⟨names, sorted, ordered, perm⟩ := sortedNames_ok kept.allMerch few
  refine ⟨names, ordered, fun name => ?_, fun input => ?_⟩
  · rw [perm.mem_iff, List.mem_map]
    constructor
    · rintro ⟨⟨_, address⟩, member, rfl⟩
      exact ⟨address, kept.lookupMerch_iff.mpr member⟩
    · rintro ⟨address, looked⟩
      exact ⟨(name, address), kept.lookupMerch_iff.mp looked, rfl⟩
  · rw [listMerchandise_eq, sorted]
    rfl

theorem listMerchandise_two : ∃ db, Machine.run (Database.step loadFactor) Database.create
      [.addMerchandise shelfA apple 5, .addMerchandise apple apple 5] = .ok db ∧
    ∃ names : List CString, names.Pairwise StrictlyBefore ∧
      (∀ name, name ∈ names ↔
        ∃ address, db.allMerch.lookup (stringFunctions loadFactor) name = .ok (some address)) ∧
      ∀ input, listMerchandise db.allMerch input = .ok (names.take (20 * (agreed input + 1)),
        afterLines (min (agreed input + 1) (names.length / 20)) input) := by
  have added : ∃ db, Machine.run (Database.step loadFactor) Database.create
      [.addMerchandise shelfA apple 5, .addMerchandise apple apple 5] = .ok db :=
    Machine.exists_of_isOk (by decide +kernel)
  obtain ⟨db, ran⟩ := added
  have few : db.allMerch.size < 2 ^ 31 := by
    have counted : (Machine.run (Database.step loadFactor) Database.create
        [.addMerchandise shelfA apple 5, .addMerchandise apple apple 5]).map (·.allMerch.size) = .ok 2 := by
      decide +kernel
    rw [ran] at counted
    have two : db.allMerch.size = 2 := Except.ok.inj counted
    omega
  exact ⟨db, ran, listMerchandise_sorts ran few⟩

end GarbageCollector.Soundness
