import Mathlib.Data.Multiset.OrderedMonoid
import Mathlib.Tactic.Abel

/-! A buffer of events emptied into each message sent: where an event recorded can be. -/

namespace FleetOrchestrator.Tables

structure Outbox (α : Type) where
  pending : Multiset α := 0
  inFlight : Multiset α := 0
  delivered : Multiset α := 0
  lost : Multiset α := 0

inductive Outbox.Move (α : Type) where
  | record (events : Multiset α)
  | send
  | deliver
  | lose

namespace Outbox

variable {α : Type}

def Move.recorded : Move α → Multiset α
  | record events => events
  | _ => 0

def move (o : Outbox α) : Move α → Outbox α
  | .record events => { o with pending := o.pending + events }
  | .send => { o with pending := 0, inFlight := o.inFlight + o.pending }
  | .deliver => { o with inFlight := 0, delivered := o.delivered + o.inFlight }
  | .lose => { o with inFlight := 0, lost := o.lost + o.inFlight }

def after (o : Outbox α) (moves : List (Move α)) : Outbox α := moves.foldl move o

def recorded (moves : List (Move α)) : Multiset α := (moves.map Move.recorded).sum

def total (o : Outbox α) : Multiset α := o.pending + o.inFlight + o.delivered + o.lost

/-- Whether a move throws nothing away. -/
def Harmless (o : Outbox α) : Move α → Prop
  | .lose => o.inFlight = 0
  | _ => True

@[simp] theorem after_nil (o : Outbox α) : o.after [] = o := rfl

@[simp] theorem after_cons (o : Outbox α) (m : Move α) (ms : List (Move α)) :
    o.after (m :: ms) = (o.move m).after ms := rfl

theorem after_append (o : Outbox α) (ms ns : List (Move α)) :
    o.after (ms ++ ns) = (o.after ms).after ns := List.foldl_append

@[simp] theorem recorded_nil : recorded ([] : List (Move α)) = 0 := rfl

@[simp] theorem recorded_cons (m : Move α) (ms : List (Move α)) :
    recorded (m :: ms) = m.recorded + recorded ms := by
  simp [recorded]

theorem move_total (o : Outbox α) (m : Move α) : (o.move m).total = o.total + m.recorded := by
  cases m with
  | record events => simp only [move, total, Move.recorded]; abel
  | send => simp only [move, total, Move.recorded]; abel
  | deliver => simp only [move, total, Move.recorded]; abel
  | lose => simp only [move, total, Move.recorded]; abel

theorem after_total (o : Outbox α) (ms : List (Move α)) :
    (o.after ms).total = o.total + recorded ms := by
  induction ms generalizing o with
  | nil => simp
  | cons m ms ih =>
    rw [after_cons, ih, move_total, recorded_cons, add_assoc]

theorem move_lost {o : Outbox α} {m : Move α} :
    (o.move m).lost = 0 ↔ o.lost = 0 ∧ o.Harmless m := by
  cases m with
  | lose => simp [move, Harmless]
  | record events => simp [move, Harmless]
  | send => simp [move, Harmless]
  | deliver => simp [move, Harmless]

/-- Of an outbox that starts empty, everything recorded is accounted for exactly while nothing
is lost. -/
theorem kept_iff {ms : List (Move α)} :
    recorded ms ≤ (after {} ms).pending + (after {} ms).inFlight + (after {} ms).delivered ↔
      (after {} ms).lost = 0 := by
  have h : (after {} ms).total = recorded ms := by
    rw [after_total]
    simp [total]
  rw [← h, total]
  constructor
  · intro hle
    have hcard := Multiset.card_le_card hle
    rw [Multiset.card_add] at hcard
    exact Multiset.card_eq_zero.mp (by omega)
  · intro hl
    rw [hl, add_zero]

end Outbox

end FleetOrchestrator.Tables
