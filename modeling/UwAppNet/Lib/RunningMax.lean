import Mathlib.Data.List.Induction
import Mathlib.Data.List.Sort
import Mathlib.Order.MinMax

/-!
Strict running maxima of a list, by a key and above a floor.

A filter that keeps one number, the largest key accepted so far, and one set, the
keys ever seen, sorts its input three ways: records, repetitions and late
arrivals. This module states that classification without the filter's state and
gives the laws a proof about such a filter needs: how records extend by one
element, that they increase, when nothing is filtered out.
-/

namespace RunningMax

variable {α β : Type*} [LinearOrder α]

/-! ### Peak and records -/

/-- The largest key, and at least the floor. -/
def peak (key : β → α) (floor : α) (xs : List β) : α :=
  xs.foldl (fun top x => max top (key x)) floor

/-- The elements whose key exceeds the floor and every earlier key. -/
def records (key : β → α) : α → List β → List β
  | _, [] => []
  | floor, x :: xs =>
      if floor < key x then x :: records key (key x) xs else records key floor xs

variable {key : β → α} {floor : α}

@[simp] theorem peak_nil : peak key floor [] = floor := rfl

theorem peak_cons (x : β) (xs : List β) :
    peak key floor (x :: xs) = peak key (max floor (key x)) xs := rfl

@[simp] theorem peak_concat (xs : List β) (x : β) :
    peak key floor (xs ++ [x]) = max (peak key floor xs) (key x) := by
  simp [peak]

/-- The peak lies below what the floor and all keys lie below. -/
theorem peak_lt_iff {xs : List β} {y : α} :
    peak key floor xs < y ↔ floor < y ∧ ∀ x ∈ xs, key x < y := by
  induction xs generalizing floor with
  | nil => simp
  | cons x xs ih =>
      rw [peak_cons, ih, max_lt_iff, List.forall_mem_cons, and_assoc]

/-- It is the least bound of the floor and the keys. -/
theorem peak_le_iff {xs : List β} {y : α} :
    peak key floor xs ≤ y ↔ floor ≤ y ∧ ∀ x ∈ xs, key x ≤ y := by
  induction xs generalizing floor with
  | nil => simp
  | cons x xs ih =>
      rw [peak_cons, ih, max_le_iff, List.forall_mem_cons, and_assoc]

theorem records_append (xs ys : List β) :
    records key floor (xs ++ ys) =
      records key floor xs ++ records key (peak key floor xs) ys := by
  induction xs generalizing floor with
  | nil => simp [records]
  | cons x xs ih =>
      simp only [List.cons_append, records, peak_cons]
      by_cases h : floor < key x
      · simp [h, ih, max_eq_right h.le]
      · simp [h, ih, max_eq_left (not_lt.mp h)]

/-- One more element is a record exactly when its key exceeds the peak. -/
theorem records_concat (xs : List β) (x : β) :
    records key floor (xs ++ [x]) =
      if peak key floor xs < key x then records key floor xs ++ [x]
      else records key floor xs := by
  rw [records_append]
  by_cases h : peak key floor xs < key x <;> simp [records, h]

theorem records_sublist (xs : List β) : (records key floor xs).Sublist xs := by
  induction xs generalizing floor with
  | nil => exact List.Sublist.slnil
  | cons x xs ih =>
      simp only [records]
      split
      · exact ih.cons_cons x
      · exact ih.cons x

theorem floor_lt_of_mem_records {xs : List β} {x : β} (h : x ∈ records key floor xs) :
    floor < key x := by
  induction xs generalizing floor with
  | nil => simp [records] at h
  | cons y xs ih =>
      simp only [records] at h
      split at h
      · rename_i hy
        rcases List.mem_cons.mp h with rfl | hx
        · exact hy
        · exact hy.trans (ih hx)
      · exact ih h

/-- Records increase strictly. -/
theorem records_increasing (xs : List β) :
    (records key floor xs).Pairwise (key · < key ·) := by
  induction xs generalizing floor with
  | nil => exact List.Pairwise.nil
  | cons x xs ih =>
      simp only [records]
      split
      · exact List.pairwise_cons.mpr ⟨fun y hy => floor_lt_of_mem_records hy, ih⟩
      · exact ih

/-- A list increasing strictly from above the floor loses nothing. -/
theorem records_eq_self {xs : List β} (above : ∀ x ∈ xs, floor < key x)
    (increasing : xs.Pairwise (key · < key ·)) : records key floor xs = xs := by
  induction xs generalizing floor with
  | nil => rfl
  | cons x xs ih =>
      obtain ⟨hx, hxs⟩ := List.pairwise_cons.mp increasing
      simp only [records, above x List.mem_cons_self, if_true]
      rw [ih hx hxs]

/-- Of two lists increasing by one key, the one whose members the other has is a
sublist of it. -/
theorem sublist_of_increasing (key : β → α) {xs ys : List β} (hx : xs.Pairwise (key · < key ·))
    (hy : ys.Pairwise (key · < key ·)) (sub : xs ⊆ ys) : xs.Sublist ys := by
  have : Std.Antisymm fun p q : β => key p < key q :=
    ⟨fun _ _ h h' => absurd h' h.asymm⟩
  have nodup : xs.Nodup := hx.imp fun h => fun e => absurd (congrArg key e) h.ne
  exact List.sublist_of_subperm_of_pairwise (List.subperm_of_subset nodup sub) hx hy

/-! ### The classification of arrivals -/

/-- How an arrival relates to the ones before it. -/
inductive Verdict where
  | record | repeated | late
deriving DecidableEq, Repr

/-- A record exceeds the floor and every earlier key; a repetition has the key of
an earlier arrival; anything else comes late. -/
def verdict (key : β → α) (floor : α) (earlier : List β) (x : β) : Verdict :=
  if floor < key x ∧ ∀ y ∈ earlier, key y < key x then .record
  else if ∃ y ∈ earlier, key y = key x then .repeated
  else .late

/-- The verdicts of a list, each against the arrivals before it. -/
def verdicts (key : β → α) (floor : α) : List β → List β → List Verdict
  | _, [] => []
  | earlier, x :: xs =>
      verdict key floor earlier x :: verdicts key floor (earlier ++ [x]) xs

/-- The number of arrivals with a verdict. -/
def tally (key : β → α) (floor : α) (xs : List β) (v : Verdict) : Nat :=
  (verdicts key floor [] xs).count v

theorem verdict_eq_record_iff {earlier : List β} {x : β} :
    verdict key floor earlier x = .record ↔
      floor < key x ∧ ∀ y ∈ earlier, key y < key x := by
  unfold verdict
  split <;> rename_i h
  · exact ⟨fun _ => h, fun _ => rfl⟩
  · split <;> simp [h]

/-- Two arrivals with one key are never both records. -/
theorem verdict_eq_repeated_iff {earlier : List β} {x : β} :
    verdict key floor earlier x = .repeated ↔ ∃ y ∈ earlier, key y = key x := by
  unfold verdict
  split <;> rename_i h
  · simp only [reduceCtorEq, false_iff]
    rintro ⟨y, hy, e⟩
    exact (h.2 y hy).ne e
  · split <;> rename_i h' <;> simp [h']

theorem verdicts_append (earlier xs ys : List β) :
    verdicts key floor earlier (xs ++ ys) =
      verdicts key floor earlier xs ++ verdicts key floor (earlier ++ xs) ys := by
  induction xs generalizing earlier with
  | nil => simp [verdicts]
  | cons x xs ih => simp [verdicts, ih]

/-- One more arrival adds one to the tally of its verdict. -/
theorem tally_concat (xs : List β) (x : β) (v : Verdict) :
    tally key floor (xs ++ [x]) v =
      tally key floor xs v + if verdict key floor xs x = v then 1 else 0 := by
  simp [tally, verdicts_append, verdicts, List.count_append, List.count_cons]

/-- Every arrival gets exactly one verdict. -/
theorem tally_total (key : β → α) (floor : α) (xs : List β) :
    tally key floor xs .record + tally key floor xs .repeated + tally key floor xs .late =
      xs.length := by
  induction xs using List.reverseRecOn with
  | nil => rfl
  | append_singleton xs x ih =>
      simp only [tally_concat, List.length_append, List.length_singleton]
      cases verdict key floor xs x <;> simp <;> omega

/-- The arrivals judged records are the records. -/
theorem tally_record (xs : List β) :
    tally key floor xs .record = (records key floor xs).length := by
  induction xs using List.reverseRecOn with
  | nil => rfl
  | append_singleton xs x ih =>
      rw [tally_concat, records_concat, ih]
      by_cases h : peak key floor xs < key x
      · simp [h, verdict_eq_record_iff.mpr (peak_lt_iff.mp h)]
      · have : ¬ verdict key floor xs x = .record := fun hv =>
          h (peak_lt_iff.mpr (verdict_eq_record_iff.mp hv))
        simp [h, this]

end RunningMax
