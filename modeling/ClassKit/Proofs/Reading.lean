import ClassKit.Code.Decode
import Mathlib

/-!
# How far a reader moves

A reader *advances* when every successful run leaves the cursor at or after where it started,
and *consumes* when it leaves it strictly after. Both are closed under the reader combinators,
so a structure read by a combination of them inherits the property from its parts.

The point is `Decoded.read_consumes`: every instruction takes at least one byte. The offsets
`Decoded.readAll` records therefore increase strictly, and two instructions of a body never
share an offset.
-/

namespace ClassKit

namespace ByteReader

variable {α β : Type}

/-- Every successful run ends at or after the position it started from. -/
def Advances (reader : ByteReader α) : Prop :=
  ∀ cursor value after, reader cursor = .ok (value, after) → cursor.position ≤ after.position

/-- Every successful run ends strictly after the position it started from. -/
def Consumes (reader : ByteReader α) : Prop :=
  ∀ cursor value after, reader cursor = .ok (value, after) → cursor.position < after.position

theorem Consumes.advances {reader : ByteReader α} (consumes : Consumes reader) :
    Advances reader :=
  fun cursor value after read => Nat.le_of_lt (consumes cursor value after read)

/-- A successful `first >>= rest` is a successful `first` followed by a successful `rest`. -/
theorem run_bind_ok {first : ByteReader α} {rest : α → ByteReader β} {cursor after : Cursor}
    {value : β} (read : (first >>= rest) cursor = .ok (value, after)) :
    ∃ middle between, first cursor = .ok (middle, between) ∧
      rest middle between = .ok (value, after) := by
  simp only [bind, StateT.bind, Except.bind] at read
  split at read
  · cases read
  · rename_i middle found
    exact ⟨middle.1, middle.2, found, read⟩

theorem run_ok {reader : ByteReader α} {bytes rest : List UInt8} {value : α}
    (ran : reader.run bytes = .ok (value, rest)) :
    ∃ after : Cursor, reader ⟨bytes, 0⟩ = .ok (value, after) ∧ after.rest = rest := by
  unfold ByteReader.run at ran
  cases found : StateT.run reader ⟨bytes, 0⟩ with
  | error err => rw [found] at ran; cases ran
  | ok pair =>
    rw [found] at ran
    simp only [Except.map, Except.ok.injEq, Prod.mk.injEq] at ran
    exact ⟨pair.2, by rw [← ran.1]; exact found, ran.2⟩

theorem advances_pure (value : α) : Advances (pure value : ByteReader α) := by
  intro cursor value after read
  simp only [pure, StateT.pure, Except.pure, Except.ok.injEq, Prod.mk.injEq] at read
  obtain ⟨-, rfl⟩ := read
  exact Nat.le_refl _

theorem advances_bind {first : ByteReader α} {rest : α → ByteReader β}
    (firstAdvances : Advances first) (restAdvances : ∀ value, Advances (rest value)) :
    Advances (first >>= rest) := by
  intro cursor value after read
  obtain ⟨middle, between, found, rest⟩ := run_bind_ok read
  exact Nat.le_trans (firstAdvances _ _ _ found) (restAdvances _ _ _ _ rest)

theorem consumes_bind {first : ByteReader α} {rest : α → ByteReader β}
    (firstConsumes : Consumes first) (restAdvances : ∀ value, Advances (rest value)) :
    Consumes (first >>= rest) := by
  intro cursor value after read
  obtain ⟨middle, between, found, rest⟩ := run_bind_ok read
  exact Nat.lt_of_lt_of_le (firstConsumes _ _ _ found) (restAdvances _ _ _ _ rest)

theorem advances_map (f : α → β) {reader : ByteReader α} (advances : Advances reader) :
    Advances (f <$> reader) := by
  rw [← bind_pure_comp]
  exact advances_bind advances fun _ => advances_pure _

theorem consumes_map (f : α → β) {reader : ByteReader α} (consumes : Consumes reader) :
    Consumes (f <$> reader) := by
  rw [← bind_pure_comp]
  exact consumes_bind consumes fun _ => advances_pure _

theorem advances_throw (err : ClassError) : Advances (throw err : ByteReader α) := by
  intro cursor value after read
  cases read

theorem advances_ofExcept (result : Except ClassError α) :
    Advances (MonadExcept.ofExcept result : ByteReader α) := by
  cases result with
  | error err => exact advances_throw err
  | ok value => exact advances_pure value

theorem advances_ite (condition : Prop) [Decidable condition] {yes no : ByteReader α}
    (yesAdvances : Advances yes) (noAdvances : Advances no) :
    Advances (if condition then yes else no) := by
  split
  · exact yesAdvances
  · exact noAdvances

theorem advances_discard {reader : ByteReader α} (advances : Advances reader) :
    Advances (discard reader) :=
  advances_map _ advances

theorem consumes_take {n : Nat} (positive : 0 < n) : Consumes (take n) := by
  intro cursor value after read
  simp only [take] at read
  split at read
  · simp only [Except.ok.injEq, Prod.mk.injEq] at read
    rw [← read.2]
    exact Nat.lt_add_of_pos_right positive
  · cases read

theorem advances_take (n : Nat) : Advances (take n) := by
  cases n with
  | zero =>
    intro cursor value after read
    simp only [take, List.take_zero, List.length_nil, if_true, Except.ok.injEq,
      Prod.mk.injEq] at read
    rw [← read.2]
    exact Nat.le_refl _
  | succ n => exact (consumes_take (Nat.succ_pos n)).advances

theorem advances_position : Advances position := by
  intro cursor value after read
  simp only [position, Except.ok.injEq, Prod.mk.injEq] at read
  obtain ⟨-, rfl⟩ := read
  exact Nat.le_refl _

theorem advances_natOf (n : Nat) : Advances (natOf n) := advances_map _ (advances_take n)

theorem advances_intOf (n : Nat) : Advances (intOf n) :=
  advances_bind (advances_natOf n) fun _ => advances_pure _

theorem consumes_u8 : Consumes u8 := consumes_map _ (consumes_take Nat.one_pos)

theorem advances_many {item : ByteReader α} (itemAdvances : Advances item) :
    ∀ count, Advances (many item count)
  | 0 => advances_pure []
  | count + 1 => advances_bind itemAdvances fun _ =>
      advances_bind (advances_many itemAdvances count) fun _ => advances_pure _

end ByteReader

namespace Decoded

open ByteReader

theorem advances_skipPadding : Advances skipPadding :=
  advances_bind advances_position fun _ => advances_discard (advances_take _)

theorem read_consumes (pool : ConstantPool) (offset : Nat) : Consumes (read pool offset) := by
  unfold read
  apply consumes_bind consumes_u8
  intro opcode
  -- after the opcode, each form reads its operands with the combinators above
  cases Instruction.ofSimpleOpcode? opcode with
  | some simple => exact advances_pure _
  | none =>
    dsimp only
    refine advances_ite _ (advances_pure _) (advances_ite _ (advances_pure _)
      (advances_ite _ ?_ (advances_ite _ ?_ (advances_ite _ ?_ (advances_ite _ ?_
        (advances_ite _ (advances_pure _) ?_))))))
    rotate_left 4
    split
    all_goals repeat' (intros; apply_rules [advances_bind, advances_pure, advances_map,
      advances_intOf, advances_natOf, advances_skipPadding, advances_take, advances_position,
      advances_throw, advances_ofExcept, advances_many, advances_ite, advances_discard])
    -- `newarray`: its element code selects the instruction or the error
    intro code
    split
    · exact advances_pure _
    · exact advances_throw _

/-- The offsets of the instructions `readAll` records increase strictly and stay below the
length of the code. -/
theorem readAll_offsets (pool : ConstantPool) (length : Nat) :
    ∀ (rounds : Nat) (decoded result : Array (Nat × Decoded)) (cursor after : Cursor),
      (decoded.toList.map Prod.fst).Pairwise (· < ·) →
      (∀ offset ∈ decoded.toList.map Prod.fst, offset < cursor.position ∧ offset < length) →
      readAll pool length rounds decoded cursor = .ok (result, after) →
      (result.toList.map Prod.fst).Pairwise (· < ·) ∧
        ∀ offset ∈ result.toList.map Prod.fst, offset < length
  | 0, decoded, result, cursor, after, increasing, below, run => by
    simp only [readAll, pure, StateT.pure, Except.pure, Except.ok.injEq, Prod.mk.injEq] at run
    obtain ⟨rfl, -⟩ := run
    exact ⟨increasing, fun offset member => (below offset member).2⟩
  | rounds + 1, decoded, result, cursor, after, increasing, below, run => by
    rw [readAll] at run
    obtain ⟨offset, between, atPosition, run⟩ := run_bind_ok run
    simp only [ByteReader.position, Except.ok.injEq, Prod.mk.injEq] at atPosition
    obtain ⟨rfl, rfl⟩ := atPosition
    split at run
    · rename_i inside
      obtain ⟨entry, next, found, run⟩ := run_bind_ok run
      have moved := read_consumes pool _ _ _ _ found
      refine readAll_offsets pool length rounds _ result next after ?_ ?_ run
      · -- the new offset is the current position, above every earlier one
        simp only [Array.toList_push, List.map_append, List.map_cons, List.map_nil,
          List.pairwise_append, List.pairwise_singleton, List.mem_singleton, true_and]
        exact ⟨increasing, fun earlier member _ equal => equal ▸ (below earlier member).1⟩
      · simp only [Array.toList_push, List.map_append, List.map_cons, List.map_nil,
          List.mem_append, List.mem_singleton]
        rintro earlier (member | rfl)
        · exact ⟨Nat.lt_trans (below earlier member).1 moved, (below earlier member).2⟩
        · exact ⟨moved, inside⟩
    · simp only [pure, StateT.pure, Except.pure, Except.ok.injEq, Prod.mk.injEq] at run
      obtain ⟨rfl, -⟩ := run
      exact ⟨increasing, fun offset member => (below offset member).2⟩

end Decoded

end ClassKit
