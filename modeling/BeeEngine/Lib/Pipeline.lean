import Mathlib

/-!
# Items that are worked on in order

At most one item is in the first stage of the work and at most one in the last;
an item may return from the first stage to the front of the queue.  No step
but an arrival changes the line of all items in the order of their arrival.
-/

structure Pipeline (α : Type*) where
  finished : List α
  last : Option α
  first : Option α
  waiting : List α

namespace Pipeline

variable {α : Type*}

/-- All items, the oldest first. -/
def line (p : Pipeline α) : List α :=
  p.finished ++ p.last.toList ++ p.first.toList ++ p.waiting

inductive Step : Pipeline α → Pipeline α → Prop
  | idle (p : Pipeline α) : Step p p
  | take (finished : List α) (last : Option α) (a : α) (waiting : List α) :
      Step ⟨finished, last, none, a :: waiting⟩ ⟨finished, last, some a, waiting⟩
  | giveBack (finished : List α) (last : Option α) (a : α) (waiting : List α) :
      Step ⟨finished, last, some a, waiting⟩ ⟨finished, last, none, a :: waiting⟩
  | promote (finished : List α) (a : α) (waiting : List α) :
      Step ⟨finished, none, some a, waiting⟩ ⟨finished, some a, none, waiting⟩
  | finish (finished : List α) (a : α) (first : Option α) (waiting : List α) :
      Step ⟨finished, some a, first, waiting⟩ ⟨finished ++ [a], none, first, waiting⟩

def arrive (p : Pipeline α) (a : α) : Pipeline α := { p with waiting := p.waiting ++ [a] }

theorem Step.line_eq {p q : Pipeline α} (h : Step p q) : q.line = p.line := by
  cases h with
  | idle => rfl
  | take finished last a waiting => simp [line]
  | giveBack finished last a waiting => simp [line]
  | promote finished a waiting => simp [line]
  | finish finished a first waiting => simp [line]

theorem line_arrive (p : Pipeline α) (a : α) : (p.arrive a).line = p.line ++ [a] := by
  simp [line, arrive]

/-- The items before the one in its first stage are finished, once the last
stage is free. -/
theorem line_of_promotable {p : Pipeline α} {a : α} (hlast : p.last = none)
    (hfirst : p.first = some a) : p.line = p.finished ++ a :: p.waiting := by
  simp [line, hlast, hfirst]

end Pipeline
