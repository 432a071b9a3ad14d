/-
A unique_timer as its owner sees it (include/ocudu/support/timers.h): it is running or not, it expires `max d 1` ticks
after it was started with duration d, and its callback runs some time after the tick it expired in (`due`). Starting or
stopping the timer before the callback ran cancels the callback.
-/
import Mathlib.Tactic

namespace OcuduRan

structure TickTimer where
  running : Bool := false
  expiry : ℕ := 0
  /-- the expiry tick has passed, the callback has not run yet -/
  due : Bool := false
deriving DecidableEq, Repr

namespace TickTimer

/-- set and run with duration `d` at tick `now` -/
def run (now d : ℕ) : TickTimer := ⟨true, now + max d 1, false⟩

variable (t : TickTimer)

def stop : TickTimer := { t with running := false, due := false }

/-- the clock reaches `now` -/
def tick (now : ℕ) : TickTimer :=
  if t.running && t.expiry = now then { t with due := true } else t

@[simp] theorem run_running (now d : ℕ) : (run now d).running = true := rfl

@[simp] theorem run_expiry (now d : ℕ) : (run now d).expiry = now + max d 1 := rfl

@[simp] theorem run_due (now d : ℕ) : (run now d).due = false := rfl

@[simp] theorem stop_running : t.stop.running = false := rfl

@[simp] theorem stop_due : t.stop.due = false := rfl

@[simp] theorem tick_running (now : ℕ) : (t.tick now).running = t.running := by
  unfold tick
  split_ifs <;> rfl

@[simp] theorem tick_expiry (now : ℕ) : (t.tick now).expiry = t.expiry := by
  unfold tick
  split_ifs <;> rfl

theorem running_of_tick_due {t : TickTimer} {now : ℕ} (h : t.due = true → t.running = true)
    (hd : (t.tick now).due = true) : t.running = true := by
  unfold tick at hd
  split_ifs at hd with hc
  · rw [Bool.and_eq_true] at hc
    exact hc.1
  · exact h hd

end TickTimer

end OcuduRan
