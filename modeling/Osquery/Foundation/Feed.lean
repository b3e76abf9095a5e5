import Mathlib.Data.List.Induction

/-!
# A feed with readers

Events are published to a feed, and named readers read it. What is due to a
reader are the events that it has not read: those of the publications that no
read of this reader follows. Handing out what is due at every read delivers
every event to every reader once, at its first read after the publication.
-/

namespace Osquery.Foundation.Feed

variable {κ ε : Type}

/-- Something that happens to a feed. -/
inductive Op (κ ε : Type)
  | publish (events : List ε)
  | read (reader : κ)

/-- The events that an operation publishes. -/
def Op.events : Op κ ε → List ε
  | .publish events => events
  | .read _ => []

/-- All events that were published, in order. -/
def published (ops : List (Op κ ε)) : List ε := ops.flatMap Op.events

theorem published_concat (ops : List (Op κ ε)) (op : Op κ ε) :
    published (ops ++ [op]) = published ops ++ op.events := by
  simp [published]

variable [DecidableEq κ]

/-- Whether an operation is a read of the reader. -/
def Op.isReadOf (k : κ) : Op κ ε → Bool
  | .publish _ => false
  | .read reader => reader = k

/-- The events of the publications that no read of the reader follows. -/
def due (k : κ) : List (Op κ ε) → List ε
  | [] => []
  | op :: rest => (if rest.any (Op.isReadOf k) then [] else op.events) ++ due k rest

theorem due_concat_publish (k : κ) (ops : List (Op κ ε)) (events : List ε) :
    due k (ops ++ [.publish events]) = due k ops ++ events := by
  induction ops with
  | nil => simp [due, Op.events]
  | cons op rest ih =>
      have hany : (rest ++ [Op.publish events]).any (Op.isReadOf k) = rest.any (Op.isReadOf k) := by
        simp [Op.isReadOf]
      rw [List.cons_append, due, hany, ih, due, List.append_assoc]

theorem due_concat_read (k k' : κ) (ops : List (Op κ ε)) :
    due k (ops ++ [.read k']) = if k' = k then [] else due k ops := by
  induction ops with
  | nil => simp [due, Op.events]
  | cons op rest ih =>
      rw [List.cons_append, due, ih]
      by_cases hk : k' = k
      · simp [hk, Op.isReadOf]
      · have hany : (rest ++ [Op.read k']).any (Op.isReadOf k) = rest.any (Op.isReadOf k) := by
          simp [Op.isReadOf, hk]
        rw [if_neg hk, if_neg hk, hany, due]

/-- What is due is the end of what was published. -/
theorem due_isSuffix (k : κ) (ops : List (Op κ ε)) : due k ops <:+ published ops := by
  induction ops using List.reverseRecOn with
  | nil => exact List.suffix_refl _
  | append_singleton ops op ih =>
      rw [published_concat]
      cases op with
      | publish events =>
          rw [due_concat_publish]
          obtain ⟨pre, hpre⟩ := ih
          exact ⟨pre, by rw [← List.append_assoc, hpre]; rfl⟩
      | read k' =>
          rw [due_concat_read, Op.events, List.append_nil]
          split
          · exact List.nil_suffix
          · exact ih

/-- How many events were published before the last read of the reader. -/
def seen (k : κ) (ops : List (Op κ ε)) : ℕ := (published ops).length - (due k ops).length

theorem due_eq_drop (k : κ) (ops : List (Op κ ε)) :
    due k ops = (published ops).drop (seen k ops) :=
  List.suffix_iff_eq_drop.mp (due_isSuffix k ops)

theorem seen_concat_publish (k : κ) (ops : List (Op κ ε)) (events : List ε) :
    seen k (ops ++ [.publish events]) = seen k ops := by
  rw [seen, seen, published_concat, due_concat_publish, Op.events, List.length_append,
    List.length_append, Nat.add_sub_add_right]

theorem seen_concat_read (k k' : κ) (ops : List (Op κ ε)) :
    seen k (ops ++ [.read k']) = if k' = k then (published ops).length else seen k ops := by
  rw [seen, seen, published_concat, due_concat_read, Op.events, List.append_nil]
  split
  · simp
  · rfl

end Osquery.Foundation.Feed
