import Mathlib.Data.List.Basic

/-!
Self-delimiting codes: every code word is recognised in front of whatever follows.

A list of values is written as the words of its values, one behind the other.
`decodeAll` takes such a text apart again and accepts nothing else; `whole` says
which words are complete where the text is cut off.
-/

namespace SelfDelimiting

/-- Words over `β` for the valid values of `α`, with the function that takes one word
off the front of a text. -/
structure Code (α β : Type*) where
  encode : α → List β
  decode : List β → Option (α × List β)
  valid : α → Prop
  nonempty : ∀ a, encode a ≠ []
  decode_encode : ∀ a rest, valid a → decode (encode a ++ rest) = some (a, rest)
  encode_of_decode : ∀ text a rest, decode text = some (a, rest) →
    text = encode a ++ rest ∧ valid a

namespace Code

variable {α β : Type*} (c : Code α β)

/-- The words of a list of values. -/
def encodeAll (as : List α) : List β := as.flatMap c.encode

/-- Take at most `n` words off a text, to its very end. -/
def decodeUpTo : Nat → List β → Option (List α)
  | _, [] => some []
  | 0, _ :: _ => none
  | n + 1, x :: xs =>
      match c.decode (x :: xs) with
      | none => none
      | some (a, rest) => (decodeUpTo n rest).map (a :: ·)

/-- The values whose words make up the text, if there are such. -/
def decodeAll (text : List β) : Option (List α) := c.decodeUpTo text.length text

/-- The values whose words lie within the first `k` symbols. -/
def whole : Nat → List α → List α
  | _, [] => []
  | k, a :: as =>
      if (c.encode a).length ≤ k then a :: whole (k - (c.encode a).length) as else []

@[simp] theorem encodeAll_nil : c.encodeAll [] = [] := rfl

@[simp] theorem encodeAll_cons (a : α) (as : List α) :
    c.encodeAll (a :: as) = c.encode a ++ c.encodeAll as := rfl

theorem encodeAll_append (as bs : List α) :
    c.encodeAll (as ++ bs) = c.encodeAll as ++ c.encodeAll bs := by
  simp [encodeAll]

variable {c} {as : List α} {text : List β}

theorem decodeUpTo_encodeAll (valid : ∀ a ∈ as, c.valid a) {n : Nat}
    (enough : (c.encodeAll as).length ≤ n) : c.decodeUpTo n (c.encodeAll as) = some as := by
  induction as generalizing n with
  | nil => cases n <;> rfl
  | cons a as ih =>
      obtain ⟨first, others⟩ := List.forall_mem_cons.mp valid
      rw [encodeAll_cons, List.length_append] at enough
      rw [encodeAll_cons]
      have decoded := c.decode_encode a (c.encodeAll as) first
      cases word : c.encode a with
      | nil => exact absurd word (c.nonempty a)
      | cons x xs =>
          rw [word, List.cons_append] at decoded
          rw [word, List.length_cons] at enough
          cases n with
          | zero => omega
          | succ n =>
              rw [List.cons_append, decodeUpTo, decoded]
              dsimp only
              rw [ih others (by omega), Option.map_some]

theorem eq_of_decodeUpTo {n : Nat} (h : c.decodeUpTo n text = some as) :
    text = c.encodeAll as ∧ ∀ a ∈ as, c.valid a := by
  induction n generalizing text as with
  | zero =>
      cases text with
      | nil =>
          cases h
          exact ⟨rfl, by simp⟩
      | cons x xs => cases h
  | succ n ih =>
      cases text with
      | nil =>
          cases h
          exact ⟨rfl, by simp⟩
      | cons x xs =>
          rw [decodeUpTo] at h
          cases first : c.decode (x :: xs) with
          | none =>
              rw [first] at h
              cases h
          | some r =>
              obtain ⟨a, rest⟩ := r
              rw [first] at h
              obtain ⟨others, found, rfl⟩ := Option.map_eq_some_iff.mp h
              obtain ⟨split, valid⟩ := c.encode_of_decode _ _ _ first
              obtain ⟨later, laterValid⟩ := ih found
              refine ⟨by rw [encodeAll_cons, split, later], ?_⟩
              exact List.forall_mem_cons.mpr ⟨valid, laterValid⟩

/-- A text decodes to exactly the lists it is the text of. -/
theorem decodeAll_eq_some_iff :
    c.decodeAll text = some as ↔ text = c.encodeAll as ∧ ∀ a ∈ as, c.valid a := by
  constructor
  · exact eq_of_decodeUpTo
  · rintro ⟨rfl, valid⟩
    exact decodeUpTo_encodeAll valid (Nat.le_refl _)

/-- Either all words are complete, or the first one that is not contains the cut. -/
theorem whole_cases (c : Code α β) (k : Nat) (as : List α) :
    (c.whole k as = as ∧ (c.encodeAll as).length ≤ k) ∨
      ∃ a later, as = c.whole k as ++ a :: later ∧ (c.encodeAll (c.whole k as)).length ≤ k ∧
        k < (c.encodeAll (c.whole k as)).length + (c.encode a).length := by
  induction as generalizing k with
  | nil => exact .inl ⟨by cases k <;> rfl, Nat.zero_le _⟩
  | cons a as ih =>
      unfold whole
      split
      · rename_i inside
        rcases ih (k - (c.encode a).length) with ⟨all, total⟩ | ⟨b, later, split, before, cut⟩
        · refine .inl ⟨by rw [all], ?_⟩
          rw [encodeAll_cons, List.length_append]
          omega
        · refine .inr ⟨b, later, by rw [List.cons_append, ← split], ?_, ?_⟩ <;>
            rw [encodeAll_cons, List.length_append] <;> omega
      · rename_i outside
        refine .inr ⟨a, as, rfl, Nat.zero_le _, ?_⟩
        rw [encodeAll_nil, List.length_nil]
        omega

variable {before later : List α} {a : α} {k : Nat}

/-- The words in front of the one that contains the cut are the complete ones. -/
theorem whole_of_cut (start : (c.encodeAll before).length ≤ k)
    (cut : k < (c.encodeAll before).length + (c.encode a).length) :
    c.whole k (before ++ a :: later) = before := by
  induction before generalizing k with
  | nil =>
      have outside : ¬ (c.encode a).length ≤ k := by
        rw [encodeAll_nil, List.length_nil] at cut
        omega
      rw [List.nil_append, whole, if_neg outside]
  | cons b before ih =>
      rw [encodeAll_cons, List.length_append] at start cut
      have inside : (c.encode b).length ≤ k := by omega
      rw [List.cons_append, whole, if_pos inside, ih (by omega) (by omega)]

/-- A text cut inside a word is the words before it and the beginning of that word. -/
theorem take_encodeAll (start : (c.encodeAll before).length ≤ k)
    (cut : k < (c.encodeAll before).length + (c.encode a).length) :
    (c.encodeAll (before ++ a :: later)).take k =
      c.encodeAll before ++ (c.encode a).take (k - (c.encodeAll before).length) := by
  have inside : k - (c.encodeAll before).length ≤ (c.encode a).length := by omega
  rw [encodeAll_append, encodeAll_cons, List.take_append, List.take_of_length_le start,
    List.take_append_of_le_length inside]

/-- What follows a word does not change how it is read. -/
theorem decode_append (c : Code α β) {text rest : List β} {a : α}
    (h : c.decode text = some (a, rest)) (more : List β) :
    c.decode (text ++ more) = some (a, rest ++ more) := by
  obtain ⟨rfl, valid⟩ := c.encode_of_decode _ _ _ h
  rw [List.append_assoc]
  exact c.decode_encode a _ valid

/-! ### Reading as far as possible -/

/-- Take at most `n` words off a text, up to the first place where there is none, or one
whose value is not wanted. -/
def frontUpTo (wanted : α → Bool) : Nat → List β → List α
  | 0, _ => []
  | n + 1, text =>
      match c.decode text with
      | none => []
      | some (a, rest) => if wanted a then a :: frontUpTo wanted n rest else []

/-- The wanted values whose words a text begins with. -/
def front (wanted : α → Bool) (text : List β) : List α := c.frontUpTo wanted text.length text

section Front

variable {wanted : α → Bool} {rest : List β}

theorem frontUpTo_append (good : ∀ a ∈ as, c.valid a ∧ wanted a = true) (n : Nat) :
    c.frontUpTo wanted (as.length + n) (c.encodeAll as ++ rest) =
      as ++ c.frontUpTo wanted n rest := by
  induction as with
  | nil => simp
  | cons a as ih =>
      obtain ⟨⟨valid, want⟩, others⟩ := List.forall_mem_cons.mp good
      have decoded := c.decode_encode a (c.encodeAll as ++ rest) valid
      rw [List.length_cons, Nat.add_right_comm, encodeAll_cons, List.append_assoc, frontUpTo,
        decoded]
      dsimp only
      rw [if_pos want, ih others, List.cons_append]

/-- Words are at least one symbol long. -/
theorem length_le_encodeAll (c : Code α β) (as : List α) :
    as.length ≤ (c.encodeAll as).length := by
  induction as with
  | nil => exact Nat.le_refl _
  | cons a as ih =>
      have pos := List.length_pos_iff_ne_nil.mpr (c.nonempty a)
      rw [encodeAll_cons, List.length_append, List.length_cons]
      omega

/-- Wanted values whose words come first are all that is read where no wanted word follows. -/
theorem front_eq (good : ∀ a ∈ as, c.valid a ∧ wanted a = true)
    (ends : ∀ a later, c.decode rest = some (a, later) → wanted a = false) :
    c.front wanted (c.encodeAll as ++ rest) = as := by
  have enough := length_le_encodeAll c as
  obtain ⟨n, length⟩ := Nat.exists_eq_add_of_le
    (show as.length ≤ (c.encodeAll as ++ rest).length by rw [List.length_append]; omega)
  have none : c.frontUpTo wanted n rest = [] := by
    cases n with
    | zero => rfl
    | succ n =>
        rw [frontUpTo]
        split
        · rfl
        · rename_i a later decoded
          rw [ends a later decoded]
          rfl
  rw [front, length, frontUpTo_append good, none, List.append_nil]

/-- Reading on as long as values are wanted is reading everything up to the first that is not. -/
theorem takeWhile_front (wanted : α → Bool) (text : List β) :
    (c.front (fun _ => true) text).takeWhile wanted = c.front wanted text := by
  have general : ∀ (n : Nat) (text : List β),
      (c.frontUpTo (fun _ => true) n text).takeWhile wanted = c.frontUpTo wanted n text := by
    intro n
    induction n with
    | zero => exact fun _ => rfl
    | succ n ih =>
        intro text
        rw [frontUpTo, frontUpTo]
        split
        · rfl
        · rename_i a rest _
          rw [if_pos rfl, List.takeWhile_cons, ih rest]
  exact general _ text

/-- A longer text begins with the same values. -/
theorem front_mono {text more : List β} (start : text <+: more) :
    c.front wanted text <+: c.front wanted more := by
  have general : ∀ (n m : Nat) (text rest : List β), n ≤ m →
      c.frontUpTo wanted n text <+: c.frontUpTo wanted m (text ++ rest) := by
    intro n
    induction n with
    | zero => exact fun _ _ _ _ => List.nil_prefix
    | succ n ih =>
        intro m text rest le
        obtain ⟨m, rfl⟩ := Nat.exists_eq_add_of_le' (Nat.one_le_of_lt le)
        rw [frontUpTo, frontUpTo]
        cases decoded : c.decode text with
        | none => exact List.nil_prefix
        | some first =>
            obtain ⟨a, later⟩ := first
            rw [c.decode_append decoded rest]
            dsimp only
            split
            · exact (List.prefix_cons_inj a).mpr (ih m later rest (by omega))
            · exact List.nil_prefix
  obtain ⟨rest, rfl⟩ := start
  exact general _ _ text rest (by simp)

theorem frontUpTo_cut (valid : ∀ a ∈ as, c.valid a) (start : text <+: c.encodeAll as) (n : Nat) :
    c.frontUpTo wanted n text <+: as := by
  induction n generalizing text as with
  | zero => exact List.nil_prefix
  | succ n ih =>
      rw [frontUpTo]
      split
      · exact List.nil_prefix
      · rename_i a rest decoded
        split
        · obtain ⟨rfl, first⟩ := c.encode_of_decode _ _ _ decoded
          obtain ⟨more, whole⟩ := start
          cases as with
          | nil =>
              have none : c.encode a = [] := by simp_all
              exact absurd none (c.nonempty a)
          | cons b as =>
              obtain ⟨head, others⟩ := List.forall_mem_cons.mp valid
              -- both words are in front of the same text
              have taken := c.decode_encode a (rest ++ more) first
              rw [← List.append_assoc, whole, encodeAll_cons, c.decode_encode b _ head] at taken
              obtain ⟨rfl, behind⟩ := Prod.mk.inj (Option.some.inj taken)
              exact (List.prefix_cons_inj _).mpr (ih others ⟨more, behind.symm⟩)
        · exact List.nil_prefix

/-- What is read of the beginning of a text are the first of its values. -/
theorem front_cut (valid : ∀ a ∈ as, c.valid a) (start : text <+: c.encodeAll as) :
    c.front wanted text <+: as :=
  frontUpTo_cut valid start _

end Front

/-! ### Interrupted writing -/

/-- A value and as much of its word as was written. -/
structure Attempt (c : Code α β) where
  value : α
  written : List β
  start : written <+: c.encode value

namespace Attempt

/-- The whole word was written. -/
def complete (t : c.Attempt) : Bool := t.written.length == (c.encode t.value).length

/-- What some attempts leave behind, one after the other. -/
def output (ts : List c.Attempt) : List β := ts.flatMap written

/-- The values whose words were written. -/
def completed (ts : List c.Attempt) : List α := (ts.filter complete).map value

variable {t : c.Attempt} {ts : List c.Attempt}

theorem complete_iff : t.complete = true ↔ t.written = c.encode t.value := by
  rw [complete, beq_iff_eq]
  exact ⟨t.start.eq_of_length, congrArg List.length⟩

theorem completed_cons_of_complete (whole : t.complete = true) :
    completed (t :: ts) = t.value :: completed ts := by
  simp [completed, whole]

theorem completed_cons_of_cut (part : t.complete = false) :
    completed (t :: ts) = completed ts := by
  simp [completed, part]

/-- The text is as long as the words completed and what the other attempts left. -/
theorem length_output (ts : List c.Attempt) :
    (output ts).length =
      (c.encodeAll (completed ts)).length +
        ((ts.filter fun t => !t.complete).flatMap written).length := by
  induction ts with
  | nil => rfl
  | cons t ts ih =>
      have split : output (t :: ts) = t.written ++ output ts := rfl
      rw [split, List.length_append, ih]
      cases whole : t.complete with
      | true =>
          rw [completed_cons_of_complete whole, encodeAll_cons, List.length_append,
            complete_iff.mp whole, List.filter_cons_of_neg (by simp [whole])]
          omega
      | false =>
          rw [completed_cons_of_cut whole, List.filter_cons_of_pos (by simp [whole]),
            List.flatMap_cons, List.length_append]
          omega

/-- The text decodes to the values whose words were written exactly when every attempt
left the whole word of a valid value, or nothing. -/
theorem decodeAll_output_iff :
    c.decodeAll (output ts) = some (completed ts) ↔
      ∀ t ∈ ts, t.written = [] ∨ t.written = c.encode t.value ∧ c.valid t.value := by
  constructor
  · intro decoded t ht
    obtain ⟨same, valid⟩ := decodeAll_eq_some_iff.mp decoded
    cases whole : t.complete with
    | true =>
        refine .inr ⟨complete_iff.mp whole, valid t.value ?_⟩
        exact List.mem_map_of_mem (List.mem_filter.mpr ⟨ht, whole⟩)
    | false =>
        -- the words of the completed values leave no room for anything else
        have room := length_output ts
        rw [same, Nat.left_eq_add, List.length_eq_zero_iff, List.flatMap_eq_nil_iff] at room
        exact .inl (room t (List.mem_filter.mpr ⟨ht, by simp [whole]⟩))
  · intro good
    apply decodeAll_eq_some_iff.mpr
    induction ts with
    | nil => exact ⟨rfl, by simp [completed]⟩
    | cons t ts ih =>
        obtain ⟨first, others⟩ := List.forall_mem_cons.mp good
        obtain ⟨same, valid⟩ := ih others
        have split : output (t :: ts) = t.written ++ output ts := rfl
        rcases first with nothing | ⟨written, fits⟩
        · have part : t.complete = false := by
            rw [Bool.eq_false_iff, ne_eq, complete_iff, nothing]
            exact (c.nonempty t.value).symm
          rw [completed_cons_of_cut part, split, nothing]
          exact ⟨same, valid⟩
        · rw [completed_cons_of_complete (complete_iff.mpr written), split, written, same]
          exact ⟨rfl, List.forall_mem_cons.mpr ⟨fits, valid⟩⟩

end Attempt

end Code

end SelfDelimiting
