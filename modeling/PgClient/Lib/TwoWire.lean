import Mathlib.Data.BitVec

/-!
# Two wires — what a clock line and a data line say

A watcher of the two lines. The data line says a bit where it is high or low while the clock is
high, from one edge to the other. If it changes while the clock is high, it says start or stop
instead.

* `Watcher.feed` — the next levels.
* `feed_low`, `feed_rise`, `feed_fall`, `feed_start`, `feed_stop`, `feed_same` — what they say.
* `byte` — the symbols of a byte.
-/

namespace TwoWire

inductive Symbol
  | start
  | stop
  | bit (value : Bool)
  deriving DecidableEq

structure Levels where
  sda : Bool
  scl : Bool
  deriving DecidableEq

structure Watcher where
  levels : Levels
  /-- The data line at the rising edge of the clock, as long as it is a bit. -/
  pending : Option Bool
  symbols : List Symbol
  deriving DecidableEq

/-- The lines go to the next levels. -/
def Watcher.feed (w : Watcher) (l : Levels) : Watcher :=
  match w.levels.scl, l.scl with
  | true, true =>
    if l.sda = w.levels.sda then w
    else ⟨l, none, w.symbols ++ [if l.sda then .stop else .start]⟩
  | false, true => ⟨l, some l.sda, w.symbols⟩
  | true, false => ⟨l, none, w.symbols ++ w.pending.toList.map .bit⟩
  | false, false => ⟨l, w.pending, w.symbols⟩

variable (sda sda' : Bool) (p : Option Bool) (s : List Symbol)

/-- While the clock is low, the data line may change. -/
@[simp] theorem feed_low :
    Watcher.feed ⟨⟨sda, false⟩, p, s⟩ ⟨sda', false⟩ = ⟨⟨sda', false⟩, p, s⟩ := rfl

/-- A clock that rises samples the data line. -/
@[simp] theorem feed_rise :
    Watcher.feed ⟨⟨sda, false⟩, p, s⟩ ⟨sda', true⟩ = ⟨⟨sda', true⟩, some sda', s⟩ := rfl

/-- One that falls ends the bit it sampled, if no start or stop came between. -/
@[simp] theorem feed_fall :
    Watcher.feed ⟨⟨sda, true⟩, p, s⟩ ⟨sda', false⟩ =
      ⟨⟨sda', false⟩, none, s ++ p.toList.map .bit⟩ := rfl

/-- Data that falls while the clock is high is a start. -/
@[simp] theorem feed_start :
    Watcher.feed ⟨⟨true, true⟩, p, s⟩ ⟨false, true⟩ = ⟨⟨false, true⟩, none, s ++ [.start]⟩ := rfl

/-- Data that rises there is a stop. -/
@[simp] theorem feed_stop :
    Watcher.feed ⟨⟨false, true⟩, p, s⟩ ⟨true, true⟩ = ⟨⟨true, true⟩, none, s ++ [.stop]⟩ := rfl

/-- The same levels say nothing. -/
@[simp] theorem feed_same (l : Levels) : Watcher.feed ⟨l, p, s⟩ l = ⟨l, p, s⟩ := by
  obtain ⟨sda, scl⟩ := l
  cases scl <;> simp [Watcher.feed]

/-- The bits of a byte, the most significant first. -/
def byte (value : BitVec 8) : List Symbol :=
  (List.range 8).map fun i => .bit (value.getLsbD (8 - i - 1))

end TwoWire
