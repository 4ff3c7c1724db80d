import AvocadOS.Lib.Run

/-!
# Runs of writes

Each step of the run writes a value to a key. What a key has after the run is what was last written
to it, or what it had before.

* `lastWrite`: the value that a list of writes leaves for a key;
* `Runs.reads_last`: from what one write does, what a run of writes does.
-/

variable {α β σ : Type} [DecidableEq α]

variable {step : σ → α × β → σ → Prop} {reads : σ → α → β → Prop} {s t : σ} {ws : List (α × β)}
